import Ostracon.Statesync.Chunks
import Mathlib.Data.List.Perm.Subperm
/-!
# What every interleaving keeps on the chunk queue

`ChunksInv` holds of the queue and its pending calls of `Next` after every
run from `newChunkQueue` (`ChunksInv.run`).  Its map part `MapsInv` says that
every key of `chunkFiles`, `chunkSenders`, `chunkAllocated` and
`chunkReturned` is an index of the snapshot, and that the two maps of flags
hold no `false`.  Its channel part `ChansInv` says that each channel in
`waiters` is open and empty and waits under one index only, that every other
channel made is closed, and that no channel was sent more than one value.
From it no call panics or blocks with the lock held (`Sys.step_isSome`), so
no channel is closed twice, and once the queue is closed every channel is
(`ChansInv.closed_of_closed`).  `allocate_spec` is what `Allocate` returns.

The second critical section of `Next` loads the chunk again, and has neither
a chunk nor an error when its file is gone: a `Discard` between the chunk's
arrival and the reload makes `Next` return `(nil, nil)`.  Its first critical
section marks the index returned before it
waits, so after a timeout the next call skips that index
(`next_returns_nil_or_skips_index`).  What holds of the chunks `Next` does
return is `ChunksInv.step_results`.
-/

namespace Ostracon.Statesync

/-! ## Maps keyed by chunk index -/

/-- Every key of the map is below `n`. -/
def KeysBelow {V : Type} (m : GoMap Nat V) (n : Nat) : Prop := ∀ i v, m.get i = some v → i < n

/-- The map holds `true` at each of its keys: Go writes no `false` into it. -/
def AllSet (m : GoMap Nat Bool) : Prop := ∀ i v, m.get i = some v → v = true

section Keys

variable {V : Type} {m : GoMap Nat V} {n : Nat}

theorem KeysBelow.empty : KeysBelow (GoMap.empty : GoMap Nat V) n := by
  intro i v h
  simp at h

theorem KeysBelow.set (h : KeysBelow m n) {i : Nat} (hi : i < n) (v : V) :
    KeysBelow (m.set i v) n := by
  intro j w hj
  rw [GoMap.get_set] at hj
  split_ifs at hj with hji
  · exact hji ▸ hi
  · exact h j w hj

theorem KeysBelow.erase (h : KeysBelow m n) (i : Nat) : KeysBelow (m.erase i) n := by
  intro j w hj
  rw [GoMap.get_erase] at hj
  split_ifs at hj
  exact h j w hj

theorem KeysBelow.get_ne_none (h : KeysBelow m n) (hlen : n ≤ m.length) {i : Nat} (hi : i < n) :
    m.get i ≠ none := by
  have hsub : (m.entries.map Prod.fst).Subperm (List.range n) := by
    apply m.nodup.subperm
    intro k hk
    obtain ⟨⟨k, v⟩, he, rfl⟩ := List.mem_map.mp hk
    exact List.mem_range.mpr (h k v (GoMap.get_eq_some_iff.mpr he))
  have hperm := hsub.perm_of_length_le (by simpa [GoMap.length] using hlen)
  obtain ⟨⟨k, v⟩, he, hk⟩ := List.mem_map.mp (hperm.mem_iff.mpr (List.mem_range.mpr hi))
  dsimp only at hk
  subst hk
  simp [GoMap.get_eq_some_iff.mpr he]

end Keys

section Flags

variable {m : GoMap Nat Bool}

theorem AllSet.empty : AllSet GoMap.empty := by
  intro i v h
  simp at h

theorem AllSet.set_true (h : AllSet m) (i : Nat) : AllSet (m.set i true) := by
  intro j v hj
  rw [GoMap.get_set] at hj
  split_ifs at hj
  · exact (Option.some.inj hj).symm
  · exact h j v hj

theorem AllSet.erase (h : AllSet m) (i : Nat) : AllSet (m.erase i) := by
  intro j v hj
  rw [GoMap.get_erase] at hj
  split_ifs at hj
  exact h j v hj

theorem AllSet.isSet_iff (h : AllSet m) {i : Nat} : isSet m i = true ↔ m.get i ≠ none := by
  unfold isSet
  cases hi : m.get i with
  | none => simp
  | some v => simp [h i v hi]

theorem firstUnset_eq_some {n i : Nat} :
    firstUnset m n = some i ↔ i < n ∧ isSet m i = false ∧ ∀ j < i, isSet m j = true := by
  simp only [firstUnset, List.find?_range_eq_some, Bool.not_eq_eq_eq_not, Bool.not_true,
    List.mem_range, Bool.not_not]
  exact and_left_comm

theorem firstUnset_eq_none {n : Nat} : firstUnset m n = none ↔ ∀ i < n, isSet m i = true := by
  simp [firstUnset]

end Flags

/-! ## Channels -/

namespace Chan

theorem close_empty : Chan.empty.close = some ⟨[], 0, true⟩ := rfl

theorem sendClose_empty (v : Nat) : Chan.empty.sendClose v = some ⟨[v], 0, true⟩ := rfl

theorem receive_eq_some {c c' : Chan} {b : Bool} (h : c.receive = some (b, c')) :
    c'.sent = c.sent ∧ c'.closed = c.closed ∧ c ≠ Chan.empty := by
  unfold receive at h
  split_ifs at h with hlt hclosed
  · cases h
    exact ⟨rfl, rfl, by rintro rfl; simp [empty] at hlt⟩
  · cases h
    exact ⟨rfl, rfl, by rintro rfl; simp [empty] at hclosed⟩

end Chan

theorem updateChans_eq (f : Chan → Option Chan) (g : Chan → Chan) :
    ∀ (L : List Nat) (chans : Nat → Chan), L.Nodup → (∀ ch ∈ L, f (chans ch) = some (g (chans ch))) →
      updateChans f L chans = some fun ch => if ch ∈ L then g (chans ch) else chans ch
  | [], chans, _, _ => by simp [updateChans]
  | ch :: rest, chans, hnd, hf => by
    rw [List.nodup_cons] at hnd
    -- the channels after the first are not the first, so its update leaves them
    have hrest : ∀ c ∈ rest, f (Function.update chans ch (g (chans ch)) c) =
        some (g (Function.update chans ch (g (chans ch)) c)) := by
      intro c hc
      rw [Function.update_of_ne (show c ≠ ch from fun h => hnd.1 (h ▸ hc))]
      exact hf c (List.mem_cons_of_mem _ hc)
    rw [updateChans, hf ch List.mem_cons_self, Option.bind_some,
      updateChans_eq f g rest _ hnd.2 hrest]
    congr 1
    funext c
    by_cases hc : c = ch
    · subst hc
      simp [hnd.1]
    · simp [hc]

/-- The channel waits in the list of some index. -/
def Listed (w : GoMap Nat (List Nat)) (ch : Nat) : Prop := ∃ i ws, w.get i = some ws ∧ ch ∈ ws

theorem mem_flatten_values {w : GoMap Nat (List Nat)} {ch : Nat} :
    ch ∈ w.values.flatten ↔ Listed w ch := by
  simp only [List.mem_flatten, GoMap.mem_values, Listed]
  constructor
  · rintro ⟨ws, ⟨i, hi⟩, hch⟩
    exact ⟨i, ws, hi, hch⟩
  · rintro ⟨i, ws, hi, hch⟩
    exact ⟨ws, ⟨i, hi⟩, hch⟩

/-! ## The invariant of the queue -/

section Queue

variable {ID : Type} {snap : Snapshot} {q : ChunkQueue ID}

/-- The map part: the snapshot is `snap` until the queue is closed, and every
key of the four maps is an index of `snap`. -/
structure MapsInv (snap : Snapshot) (q : ChunkQueue ID) : Prop where
  snapshot : q.snapshot = some snap ∨ q.snapshot = none
  files : KeysBelow q.chunkFiles snap.chunks
  senders : KeysBelow q.chunkSenders snap.chunks
  allocated : KeysBelow q.chunkAllocated snap.chunks
  returned : KeysBelow q.chunkReturned snap.chunks
  allocatedSet : AllSet q.chunkAllocated
  returnedSet : AllSet q.chunkReturned

/-- The channel part: the waiters map is nil exactly when the queue is
closed; a channel in it is open and empty and waits under one index once;
every other channel made is closed; none was sent two values. -/
structure ChansInv (q : ChunkQueue ID) : Prop where
  waitersNil : q.waiters = none ↔ q.snapshot = none
  waiting : ∀ w, q.waiters = some w → ∀ i ws, w.get i = some ws →
    ws.Nodup ∧ ∀ ch ∈ ws, ch < q.nextChan ∧ q.chans ch = Chan.empty
  waitingOnce : ∀ w, q.waiters = some w → ∀ i j ws ws' ch,
    w.get i = some ws → w.get j = some ws' → ch ∈ ws → ch ∈ ws' → i = j
  closedOrWaiting : ∀ ch < q.nextChan,
    (q.chans ch).closed = true ∨ ∃ w, q.waiters = some w ∧ Listed w ch
  atMostOne : ∀ ch, (q.chans ch).sent.length ≤ 1

theorem newChunkQueue_inv (h : newChunkQueue snap = .ok q) : MapsInv snap q ∧ ChansInv q := by
  unfold newChunkQueue at h
  split_ifs at h
  cases h
  refine ⟨⟨.inl rfl, .empty, .empty, .empty, .empty, .empty, .empty⟩, ⟨by simp, ?_, ?_, ?_, ?_⟩⟩
  · intro w hw i ws hi
    cases hw
    simp at hi
  · intro w hw i j ws ws' ch hi
    cases hw
    simp at hi
  · intro ch hch
    simp at hch
  · intro ch
    simp [Chan.empty]

/-- The fields the channel part reads are unchanged. -/
structure ChanFrame (q q' : ChunkQueue ID) : Prop where
  snapshot : q'.snapshot = q.snapshot
  waiters : q'.waiters = q.waiters
  chans : q'.chans = q.chans
  nextChan : q'.nextChan = q.nextChan

theorem ChanFrame.refl (q : ChunkQueue ID) : ChanFrame q q := ⟨rfl, rfl, rfl, rfl⟩

theorem ChanFrame.trans {q₁ q₂ q₃ : ChunkQueue ID} (h₁ : ChanFrame q₁ q₂) (h₂ : ChanFrame q₂ q₃) :
    ChanFrame q₁ q₃ :=
  ⟨h₂.snapshot.trans h₁.snapshot, h₂.waiters.trans h₁.waiters, h₂.chans.trans h₁.chans,
    h₂.nextChan.trans h₁.nextChan⟩

theorem ChansInv.of_frame {q' : ChunkQueue ID} (h : ChansInv q) (hf : ChanFrame q q') :
    ChansInv q' := by
  obtain ⟨hs, hw, hc, hn⟩ := hf
  obtain ⟨h₁, h₂, h₃, h₄, h₅⟩ := h
  refine ⟨?_, ?_, ?_, ?_, ?_⟩ <;> rw [hs, hw, hc, hn] at * <;> assumption

theorem ChansInv.waiting_getD (h : ChansInv q) {w : GoMap Nat (List Nat)} (hw : q.waiters = some w)
    (i : Nat) : ((w.get i).getD []).Nodup ∧
      ∀ ch ∈ (w.get i).getD [], ch < q.nextChan ∧ q.chans ch = Chan.empty := by
  cases hi : w.get i with
  | none => simp
  | some ws => exact h.waiting w hw i ws hi

theorem ChansInv.nodup_flatten (h : ChansInv q) {w : GoMap Nat (List Nat)} (hw : q.waiters = some w) :
    w.values.flatten.Nodup := by
  rw [List.nodup_flatten]
  constructor
  · intro ws hws
    obtain ⟨i, hi⟩ := GoMap.mem_values.mp hws
    exact (h.waiting w hw i ws hi).1
  · -- two entries have two keys, and no channel waits under two keys
    have hkeys : w.entries.Pairwise fun a b => a.1 ≠ b.1 := List.pairwise_map.mp w.nodup
    refine List.pairwise_map.mpr (hkeys.imp_of_mem fun ha hb hne => ?_)
    intro ch hcha hchb
    exact hne (h.waitingOnce w hw _ _ _ _ ch (GoMap.get_eq_some_iff.mpr ha)
      (GoMap.get_eq_some_iff.mpr hb) hcha hchb)

theorem ChansInv.closed_of_closed (h : ChansInv q) (hq : q.snapshot = none) :
    ∀ ch < q.nextChan, (q.chans ch).closed = true := by
  intro ch hch
  rcases h.closedOrWaiting ch hch with hc | ⟨w, hw, -⟩
  · exact hc
  · simp [h.waitersNil.mpr hq] at hw

end Queue

/-! ## One lemma for each method -/

section Methods

variable {ID : Type} {snap : Snapshot} {q : ChunkQueue ID}

theorem MapsInv.snapshot_eq (h : MapsInv snap q) {snapshot : Snapshot} (hs : q.snapshot = some snapshot) :
    snapshot = snap := by
  rcases h.snapshot with h' | h' <;> rw [hs] at h'
  · exact Option.some.inj h'
  · cases h'

theorem MapsInv.of_maps {q' : ChunkQueue ID} (h : MapsInv snap q) (hs : q'.snapshot = q.snapshot)
    (hf : q'.chunkFiles = q.chunkFiles) (hse : q'.chunkSenders = q.chunkSenders)
    (ha : q'.chunkAllocated = q.chunkAllocated) (hr : q'.chunkReturned = q.chunkReturned) :
    MapsInv snap q' := by
  obtain ⟨h₁, h₂, h₃, h₄, h₅, h₆, h₇⟩ := h
  refine ⟨?_, ?_, ?_, ?_, ?_, ?_, ?_⟩ <;> rw [hs, hf, hse, ha, hr] at * <;> assumption

theorem MapsInv.markReturned (h : MapsInv snap q) {index : Nat} (hi : index < snap.chunks) :
    MapsInv snap (q.markReturned index) :=
  { h with
    returned := h.returned.set hi true
    returnedSet := h.returnedSet.set_true index }

theorem markReturned_frame (q : ChunkQueue ID) (index : Nat) : ChanFrame q (q.markReturned index) :=
  ⟨rfl, rfl, rfl, rfl⟩

namespace ChunkQueue

/-! ### Allocate -/

theorem allocate_eq (q : ChunkQueue ID) :
    (q.allocate = ((0, some .done), q) ∧ (q.snapshot = none ∨ ∃ snapshot, q.snapshot = some snapshot ∧
      (snapshot.chunks ≤ q.chunkAllocated.length ∨ firstUnset q.chunkAllocated snapshot.chunks = none))) ∨
    ∃ snapshot i, q.snapshot = some snapshot ∧ firstUnset q.chunkAllocated snapshot.chunks = some i ∧
      q.allocate = ((i, none), { q with chunkAllocated := q.chunkAllocated.set i true }) := by
  rcases hs : q.snapshot with _ | snapshot
  · exact .inl ⟨by simp [allocate, hs], .inl rfl⟩
  by_cases hlen : snapshot.chunks ≤ q.chunkAllocated.length
  · exact .inl ⟨by simp [allocate, hs, hlen], .inr ⟨snapshot, rfl, .inl hlen⟩⟩
  rcases hi : firstUnset q.chunkAllocated snapshot.chunks with _ | i
  · exact .inl ⟨by simp [allocate, hs, hlen, hi], .inr ⟨snapshot, rfl, .inr hi⟩⟩
  · exact .inr ⟨snapshot, i, rfl, hi, by simp [allocate, hs, hlen, hi]⟩

theorem allocate_frame (q : ChunkQueue ID) : ChanFrame q q.allocate.2 := by
  rcases allocate_eq q with ⟨heq, -⟩ | ⟨snapshot, i, -, -, heq⟩ <;> rw [heq]
  · exact .refl q
  · exact ⟨rfl, rfl, rfl, rfl⟩

end ChunkQueue

open ChunkQueue

theorem MapsInv.allocate (h : MapsInv snap q) : MapsInv snap q.allocate.2 := by
  rcases allocate_eq q with ⟨heq, -⟩ | ⟨snapshot, i, hs, hi, heq⟩ <;> rw [heq]
  · exact h
  · have hlt : i < snap.chunks := h.snapshot_eq hs ▸ (firstUnset_eq_some.mp hi).1
    exact { h with
      allocated := h.allocated.set hlt true
      allocatedSet := h.allocatedSet.set_true i }

/-- `Allocate` returns an index of the snapshot that is not allocated, and
allocates it; it returns `errDone` only once the queue is closed or every
index is allocated. -/
theorem allocate_spec (h : MapsInv snap q) :
    (q.allocate.1.2 = none ∧ q.allocate.1.1 < snap.chunks ∧
      isSet q.chunkAllocated q.allocate.1.1 = false ∧
      isSet q.allocate.2.chunkAllocated q.allocate.1.1 = true) ∨
    (q.allocate.1.2 = some .done ∧
      (q.snapshot = none ∨ ∀ i < snap.chunks, isSet q.chunkAllocated i = true)) := by
  rcases allocate_eq q with ⟨heq, hdone⟩ | ⟨snapshot, i, hs, hi, heq⟩ <;> rw [heq]
  · refine .inr ⟨rfl, ?_⟩
    rcases hdone with hs | ⟨snapshot, hs, hlen | hnone⟩
    · exact .inl hs
    · -- as many allocations as chunks, all below the count: every index is taken
      have hsnap := h.snapshot_eq hs
      subst hsnap
      exact .inr fun i hi => h.allocatedSet.isSet_iff.mpr (h.allocated.get_ne_none hlen hi)
    · exact .inr (h.snapshot_eq hs ▸ firstUnset_eq_none.mp hnone)
  · obtain ⟨hlt, hfree, -⟩ := firstUnset_eq_some.mp hi
    refine .inl ⟨rfl, h.snapshot_eq hs ▸ hlt, hfree, ?_⟩
    simp [isSet]

theorem MapsInv.retry (h : MapsInv snap q) (index : Nat) : MapsInv snap (q.retry index) :=
  { h with
    returned := h.returned.erase index
    returnedSet := h.returnedSet.erase index }

theorem MapsInv.retryAll (h : MapsInv snap q) : MapsInv snap q.retryAll :=
  { h with
    returned := .empty
    returnedSet := .empty }

/-! ### The loads of `Next` -/

theorem nextUp_eq_ok {i : Nat} (h : q.nextUp = (i, none)) :
    ∃ snapshot, q.snapshot = some snapshot ∧ firstUnset q.chunkReturned snapshot.chunks = some i := by
  unfold nextUp at h
  split at h
  · cases h
  · next snapshot hs =>
    split at h
    · next i' hi =>
      cases h
      exact ⟨snapshot, hs, hi⟩
    · cases h

section Load

variable [Inhabited ID]

theorem load_eq_some {index : Nat} {c : Chunk ID} {err : Option ChunkError}
    (h : q.load index = (some c, err)) :
    err = none ∧ ∃ snapshot body, q.snapshot = some snapshot ∧ q.chunkFiles.get index = some body ∧
      c = ⟨snapshot.height, snapshot.format, index, some body, (q.chunkSenders.get index).getD default⟩ := by
  unfold load at h
  split at h
  · cases h
  · next body hf =>
    split at h
    · cases h
    · next snapshot hs =>
      cases h
      exact ⟨rfl, snapshot, body, hs, hf, rfl⟩

theorem MapsInv.nextStart (h : MapsInv snap q) :
    MapsInv snap q.nextStart.2 ∧ ChanFrame q q.nextStart.2 ∧
      (q.nextStart.1.2.1 = none → q.nextStart.1.2.2 < snap.chunks) := by
  rcases hup : q.nextUp with ⟨index, _ | err⟩
  · obtain ⟨snapshot, hs, hi⟩ := nextUp_eq_ok hup
    have hlt : index < snap.chunks := h.snapshot_eq hs ▸ (firstUnset_eq_some.mp hi).1
    rcases hl : q.load index with ⟨chunk, _ | err⟩
    · simp only [ChunkQueue.nextStart, hup, hl]
      exact ⟨h.markReturned hlt, markReturned_frame q index, fun _ => hlt⟩
    · simp only [ChunkQueue.nextStart, hup, hl]
      exact ⟨h, .refl q, fun _ => hlt⟩
  · simp only [ChunkQueue.nextStart, hup]
    exact ⟨h, .refl q, fun h' => by cases h'⟩

theorem nextReload_eq (q : ChunkQueue ID) (index : Nat) :
    (q.nextReload index).2 = q ∨ (q.nextReload index).2 = q.markReturned index := by
  unfold ChunkQueue.nextReload
  split
  · exact .inl rfl
  · exact .inr rfl

theorem nextStart_chunk {chunk : Chunk ID} (h : q.nextStart.1.1 = some chunk) :
    q.nextStart.1.2.1 = none ∧ q.nextUp = (q.nextStart.1.2.2, none) ∧
      q.load q.nextStart.1.2.2 = (some chunk, none) := by
  rcases hup : q.nextUp with ⟨index, _ | err⟩
  · rcases hl : q.load index with ⟨c, _ | err⟩
    · simp only [ChunkQueue.nextStart, hup, hl] at h ⊢
      exact ⟨trivial, trivial, by rw [h]⟩
    · -- a load with an error has no chunk
      simp only [ChunkQueue.nextStart, hup, hl] at h
      rw [h] at hl
      cases (load_eq_some hl).1
  · simp [ChunkQueue.nextStart, hup] at h

theorem nextReload_chunk {index : Nat} {chunk : Chunk ID} (h : (q.nextReload index).1.1 = some chunk) :
    (q.nextReload index).1.2 = none ∧ q.load index = (some chunk, none) := by
  unfold ChunkQueue.nextReload at h ⊢
  split at h
  · cases h
  · next c hl =>
    cases h
    simp [hl]

end Load

/-! ### Discard and DiscardSender -/

section Discard

theorem discard_eq (q : ChunkQueue ID) (index : Nat) :
    q.discard index = q ∨ q.discard index = { q with
      chunkFiles := q.chunkFiles.erase index
      chunkReturned := q.chunkReturned.erase index
      chunkAllocated := q.chunkAllocated.erase index } := by
  unfold ChunkQueue.discard
  split
  · exact .inl rfl
  · split
    · exact .inl rfl
    · exact .inr rfl

theorem MapsInv.discard (h : MapsInv snap q) (index : Nat) : MapsInv snap (q.discard index) := by
  rcases discard_eq q index with heq | heq <;> rw [heq]
  · exact h
  · exact { h with
      files := h.files.erase index
      returned := h.returned.erase index
      allocated := h.allocated.erase index
      returnedSet := h.returnedSet.erase index
      allocatedSet := h.allocatedSet.erase index }

theorem discard_frame (q : ChunkQueue ID) (index : Nat) : ChanFrame q (q.discard index) := by
  rcases discard_eq q index with heq | heq <;> rw [heq]
  · exact .refl q
  · exact ⟨rfl, rfl, rfl, rfl⟩

variable [DecidableEq ID]

theorem MapsInv.discardSender (h : MapsInv snap q) (peerID : ID) :
    MapsInv snap (q.discardSender peerID) ∧ ChanFrame q (q.discardSender peerID) := by
  unfold ChunkQueue.discardSender
  -- the loop over the entries, from any queue that keeps both
  suffices hloop : ∀ (es : List (Nat × ID)) (q' : ChunkQueue ID), MapsInv snap q' → ChanFrame q q' →
      MapsInv snap (es.foldl (discardSenderAt peerID) q') ∧
        ChanFrame q (es.foldl (discardSenderAt peerID) q') from
    hloop _ q h (.refl q)
  intro es
  induction es with
  | nil => exact fun q' hm hf => ⟨hm, hf⟩
  | cons e es ih =>
    intro q' hm hf
    apply ih
    · unfold discardSenderAt
      split_ifs
      · have hd := hm.discard e.1
        exact { hd with senders := hd.senders.erase e.1 }
      · exact hm
    · unfold discardSenderAt
      split_ifs
      · exact hf.trans ((discard_frame q' e.1).trans ⟨rfl, rfl, rfl, rfl⟩)
      · exact hf

end Discard

/-! ### Add, WaitFor and Close -/

section Channels

theorem ChansInv.not_mem_other (h : ChansInv q) {w : GoMap Nat (List Nat)} (hw : q.waiters = some w)
    {i j : Nat} {ws : List Nat} {ch : Nat} (hj : w.get j = some ws) (hch : ch ∈ ws) (hne : j ≠ i) :
    ch ∉ (w.get i).getD [] := by
  intro hmem
  cases hi : w.get i with
  | none => simp [hi] at hmem
  | some wi =>
    rw [hi] at hmem
    exact hne (h.waitingOnce w hw j i ws wi ch hj hi hch hmem)

theorem ChunkQueue.add_eq (h : ChansInv q) (chunk : Chunk ID) :
    (∃ r, q.add chunk = some (r, q)) ∨
    ∃ body snapshot w, q.snapshot = some snapshot ∧ q.waiters = some w ∧
      chunk.index < snapshot.chunks ∧
      q.add chunk = some ((true, none), { q with
        chunkFiles := q.chunkFiles.set chunk.index body
        chunkSenders := q.chunkSenders.set chunk.index chunk.sender
        waiters := some (w.erase chunk.index)
        chans := fun ch => if ch ∈ (w.get chunk.index).getD [] then ⟨[chunk.index], 0, true⟩
          else q.chans ch }) := by
  rcases hb : chunk.chunk with _ | body
  · exact .inl ⟨(false, some .nilChunk), by simp [ChunkQueue.add, hb]⟩
  rcases hs : q.snapshot with _ | snapshot
  · exact .inl ⟨(false, none), by simp [ChunkQueue.add, hb, hs]⟩
  obtain ⟨w, hw⟩ : ∃ w, q.waiters = some w :=
    Option.ne_none_iff_exists'.mp fun hn => by simp [h.waitersNil.mp hn] at hs
  by_cases hstore : chunk.height = snapshot.height ∧ chunk.format = snapshot.format ∧
      chunk.index < snapshot.chunks ∧ q.chunkFiles.get chunk.index = none
  · obtain ⟨hh, hf, hi, hfile⟩ := hstore
    obtain ⟨hnd, hempty⟩ := h.waiting_getD hw chunk.index
    have hsignal : ∀ ch ∈ (w.get chunk.index).getD [],
        (q.chans ch).sendClose chunk.index = some ⟨[chunk.index], 0, true⟩ := by
      intro ch hch
      rw [(hempty ch hch).2]
      rfl
    refine .inr ⟨body, snapshot, w, rfl, hw, hi, ?_⟩
    unfold ChunkQueue.add
    simp only [hb, hs]
    rw [if_neg (not_not.mpr hh), if_neg (not_not.mpr hf), if_neg (by omega),
      if_neg (by simp [hfile])]
    simp only [hw, Option.bind_some]
    rw [updateChans_eq _ (fun _ => ⟨[chunk.index], 0, true⟩) _ _ hnd hsignal]
    rfl
  · -- a check fails, or the chunk is there: every branch returns the queue
    left
    unfold ChunkQueue.add
    simp only [hb, hs]
    split_ifs with h₁ h₂ h₃ h₄
    any_goals exact ⟨_, rfl⟩
    exact absurd ⟨not_not.mp h₁, not_not.mp h₂, by omega, by simpa using h₄⟩ hstore

theorem ChansInv.signal (h : ChansInv q) {w : GoMap Nat (List Nat)} (hw : q.waiters = some w)
    (hs : q.snapshot ≠ none) (index : Nat) (files : GoMap Nat (List UInt8)) (senders : GoMap Nat ID) :
    ChansInv { q with
      chunkFiles := files
      chunkSenders := senders
      waiters := some (w.erase index)
      chans := fun ch => if ch ∈ (w.get index).getD [] then ⟨[index], 0, true⟩ else q.chans ch } := by
  refine ⟨by simpa using hs, ?_, ?_, ?_, ?_⟩
  · intro w' hw' j ws hj
    cases hw'
    rw [GoMap.get_erase] at hj
    split_ifs at hj with hji
    obtain ⟨hnd, hlt⟩ := h.waiting w hw j ws hj
    refine ⟨hnd, fun ch hch => ⟨(hlt ch hch).1, ?_⟩⟩
    dsimp only
    rw [if_neg (h.not_mem_other hw hj hch hji)]
    exact (hlt ch hch).2
  · intro w' hw' i j ws ws' ch hi hj hchi hchj
    cases hw'
    rw [GoMap.get_erase] at hi hj
    split_ifs at hi hj
    exact h.waitingOnce w hw i j ws ws' ch hi hj hchi hchj
  · intro ch hch
    dsimp only at hch ⊢
    by_cases hmem : ch ∈ (w.get index).getD []
    · exact .inl (by simp [hmem])
    rw [if_neg hmem]
    rcases h.closedOrWaiting ch hch with hcl | ⟨w', hw', j, ws, hj, hchj⟩
    · exact .inl hcl
    · rw [hw] at hw'
      cases hw'
      have hji : j ≠ index := by
        rintro rfl
        exact hmem (by simpa [hj] using hchj)
      exact .inr ⟨_, rfl, j, ws, by rw [GoMap.get_erase, if_neg hji]; exact hj, hchj⟩
  · intro ch
    dsimp only
    split_ifs
    · simp
    · exact h.atMostOne ch

theorem add_inv (hm : MapsInv snap q) (hc : ChansInv q) {chunk : Chunk ID}
    {r : Bool × Option ChunkError} {q' : ChunkQueue ID} (h : q.add chunk = some (r, q')) :
    MapsInv snap q' ∧ ChansInv q' ∧ q'.nextChan = q.nextChan := by
  rcases ChunkQueue.add_eq hc chunk with ⟨r', h'⟩ | ⟨body, snapshot, w, hs, hw, hi, h'⟩ <;>
    rw [h'] at h <;> obtain ⟨-, rfl⟩ := Prod.mk.inj (Option.some.inj h)
  · exact ⟨hm, hc, rfl⟩
  · have hlt : chunk.index < snap.chunks := hm.snapshot_eq hs ▸ hi
    refine ⟨{ hm with
      files := hm.files.set hlt body
      senders := hm.senders.set hlt chunk.sender }, hc.signal hw (by simp [hs]) _ _ _, rfl⟩

theorem add_isSome (hc : ChansInv q) (chunk : Chunk ID) : (q.add chunk).isSome := by
  rcases ChunkQueue.add_eq hc chunk with ⟨r, h⟩ | ⟨_, _, _, _, _, _, h⟩ <;> simp [h]

theorem ChunkQueue.waitFor_eq (h : ChansInv q) (index : Nat) :
    (∃ c : Chan, c.closed = true ∧ c.sent.length ≤ 1 ∧
      q.waitFor index = some (q.nextChan,
        { q with chans := Function.update q.chans q.nextChan c, nextChan := q.nextChan + 1 })) ∨
    ∃ w, q.snapshot ≠ none ∧ q.waiters = some w ∧
      q.waitFor index = some (q.nextChan, { q with
        chans := Function.update q.chans q.nextChan Chan.empty
        nextChan := q.nextChan + 1
        waiters := some (w.set index ((w.get index).getD [] ++ [q.nextChan])) }) := by
  rcases hs : q.snapshot with _ | snapshot
  · refine .inl ⟨⟨[], 0, true⟩, rfl, by simp, ?_⟩
    simp [ChunkQueue.waitFor, hs, ChunkQueue.updateChan, Chan.close_empty]
  by_cases hi : index ≥ snapshot.chunks
  · refine .inl ⟨⟨[], 0, true⟩, rfl, by simp, ?_⟩
    simp [ChunkQueue.waitFor, hs, hi, ChunkQueue.updateChan, Chan.close_empty]
  by_cases hf : (q.chunkFiles.get index).isSome
  · refine .inl ⟨⟨[index], 0, true⟩, rfl, by simp, ?_⟩
    simp [ChunkQueue.waitFor, hs, hi, hf, ChunkQueue.updateChan, Chan.sendClose_empty]
  obtain ⟨w, hw⟩ : ∃ w, q.waiters = some w :=
    Option.ne_none_iff_exists'.mp fun hn => by simp [h.waitersNil.mp hn] at hs
  refine .inr ⟨w, by simp, hw, ?_⟩
  simp [ChunkQueue.waitFor, hs, hi, hf, hw]

theorem ChansInv.newClosed (h : ChansInv q) {c : Chan} (hc : c.closed = true)
    (hlen : c.sent.length ≤ 1) :
    ChansInv { q with chans := Function.update q.chans q.nextChan c, nextChan := q.nextChan + 1 } := by
  refine ⟨h.waitersNil, ?_, h.waitingOnce, ?_, ?_⟩
  · intro w hw i ws hi
    obtain ⟨hnd, hlt⟩ := h.waiting w hw i ws hi
    refine ⟨hnd, fun ch hch => ⟨Nat.lt_succ_of_lt (hlt ch hch).1, ?_⟩⟩
    dsimp only
    rw [Function.update_of_ne (Nat.ne_of_lt (hlt ch hch).1)]
    exact (hlt ch hch).2
  · intro ch hch
    dsimp only at hch ⊢
    by_cases hnew : ch = q.nextChan
    · subst hnew
      exact .inl (by simpa using hc)
    · rw [Function.update_of_ne hnew]
      exact h.closedOrWaiting ch (by omega)
  · intro ch
    dsimp only
    by_cases hnew : ch = q.nextChan
    · subst hnew
      simpa using hlen
    · rw [Function.update_of_ne hnew]
      exact h.atMostOne ch

theorem ChansInv.newWaiter (h : ChansInv q) {w : GoMap Nat (List Nat)} (hs : q.snapshot ≠ none)
    (hw : q.waiters = some w) (index : Nat) :
    ChansInv { q with
      chans := Function.update q.chans q.nextChan Chan.empty
      nextChan := q.nextChan + 1
      waiters := some (w.set index ((w.get index).getD [] ++ [q.nextChan])) } := by
  obtain ⟨hnd, hold⟩ := h.waiting_getD hw index
  have hfresh : ∀ i ws₀, w.get i = some ws₀ → q.nextChan ∉ ws₀ :=
    fun i ws₀ hi hmem => Nat.lt_irrefl _ ((h.waiting w hw i ws₀ hi).2 _ hmem).1
  -- a channel in the new map is the new one, under the index, or was there
  have hnew : ∀ i ws ch, (w.set index ((w.get index).getD [] ++ [q.nextChan])).get i = some ws →
      ch ∈ ws → (ch = q.nextChan ∧ i = index) ∨ ∃ ws₀, w.get i = some ws₀ ∧ ch ∈ ws₀ := by
    intro i ws ch hi hch
    rw [GoMap.get_set] at hi
    split_ifs at hi with hii
    · cases hi
      rcases List.mem_append.mp hch with hold' | hlast
      · cases hget : w.get index with
        | none => simp [hget] at hold'
        | some wi => exact .inr ⟨wi, hii ▸ hget, by simpa [hget] using hold'⟩
      · exact .inl ⟨List.mem_singleton.mp hlast, hii⟩
    · exact .inr ⟨ws, hi, hch⟩
  refine ⟨by simpa using hs, ?_, ?_, ?_, ?_⟩
  · intro w' hw' j ws hj
    cases hw'
    rw [GoMap.get_set] at hj
    split_ifs at hj with hji
    · cases hj
      refine ⟨List.nodup_append.mpr ⟨hnd, List.nodup_singleton _, ?_⟩, ?_⟩
      · intro a ha b hb
        rw [List.mem_singleton.mp hb]
        exact Nat.ne_of_lt (hold a ha).1
      · intro ch hch
        dsimp only
        rcases List.mem_append.mp hch with hch | hch
        · rw [Function.update_of_ne (Nat.ne_of_lt (hold ch hch).1)]
          exact ⟨Nat.lt_succ_of_lt (hold ch hch).1, (hold ch hch).2⟩
        · rw [List.mem_singleton.mp hch, Function.update_self]
          exact ⟨Nat.lt_succ_self _, rfl⟩
    · obtain ⟨hnd', hlt⟩ := h.waiting w hw j ws hj
      refine ⟨hnd', fun ch hch => ⟨Nat.lt_succ_of_lt (hlt ch hch).1, ?_⟩⟩
      dsimp only
      rw [Function.update_of_ne (Nat.ne_of_lt (hlt ch hch).1)]
      exact (hlt ch hch).2
  · intro w' hw' i j ws ws' ch hi hj hchi hchj
    cases hw'
    -- the new channel was in no list before, so it is found under the index twice
    rcases hnew i ws ch hi hchi with ⟨hch, hi'⟩ | ⟨wi, hwi, hchi'⟩ <;>
      rcases hnew j ws' ch hj hchj with ⟨hch', hj'⟩ | ⟨wj, hwj, hchj'⟩
    · exact hi'.trans hj'.symm
    · exact absurd (hch ▸ hchj') (hfresh j wj hwj)
    · exact absurd (hch' ▸ hchi') (hfresh i wi hwi)
    · exact h.waitingOnce w hw i j wi wj ch hwi hwj hchi' hchj'
  · intro ch hch
    dsimp only at hch ⊢
    by_cases hc : ch = q.nextChan
    · subst hc
      exact .inr ⟨_, rfl, index, _, GoMap.get_set_self _ _ _, by simp⟩
    rw [Function.update_of_ne hc]
    rcases h.closedOrWaiting ch (by omega) with hcl | ⟨w', hw', j, ws, hj, hchj⟩
    · exact .inl hcl
    · rw [hw] at hw'
      cases hw'
      by_cases hji : j = index
      · subst hji
        exact .inr ⟨_, rfl, j, _, GoMap.get_set_self _ _ _, by simp [hj, hchj]⟩
      · exact .inr ⟨_, rfl, j, ws, by rw [GoMap.get_set, if_neg hji]; exact hj, hchj⟩
  · intro ch
    dsimp only
    by_cases hc : ch = q.nextChan
    · subst hc
      simp [Chan.empty]
    · rw [Function.update_of_ne hc]
      exact h.atMostOne ch

theorem waitFor_inv (hm : MapsInv snap q) (hc : ChansInv q) {index ch : Nat} {q' : ChunkQueue ID}
    (h : q.waitFor index = some (ch, q')) :
    MapsInv snap q' ∧ ChansInv q' ∧ ch = q.nextChan ∧ q'.nextChan = q.nextChan + 1 := by
  rcases ChunkQueue.waitFor_eq hc index with ⟨c, hcl, hlen, h'⟩ | ⟨w, hs, hw, h'⟩ <;>
    rw [h'] at h <;> obtain ⟨rfl, rfl⟩ := Prod.mk.inj (Option.some.inj h)
  · exact ⟨hm.of_maps rfl rfl rfl rfl rfl, hc.newClosed hcl hlen, rfl, rfl⟩
  · exact ⟨hm.of_maps rfl rfl rfl rfl rfl, hc.newWaiter hs hw index, rfl, rfl⟩

theorem waitFor_isSome (hc : ChansInv q) (index : Nat) : (q.waitFor index).isSome := by
  rcases ChunkQueue.waitFor_eq hc index with ⟨_, _, _, h⟩ | ⟨_, _, _, h⟩ <;> simp [h]

theorem ChunkQueue.close_eq (h : ChansInv q) :
    (q.snapshot = none ∧ q.close = some q) ∨
    ∃ w, q.waiters = some w ∧ q.close = some { q with
      waiters := none
      snapshot := none
      chans := fun ch => if ch ∈ w.values.flatten then ⟨[], 0, true⟩ else q.chans ch } := by
  rcases hs : q.snapshot with _ | snapshot
  · exact .inl ⟨rfl, by simp [ChunkQueue.close, hs]⟩
  obtain ⟨w, hw⟩ : ∃ w, q.waiters = some w :=
    Option.ne_none_iff_exists'.mp fun hn => by simp [h.waitersNil.mp hn] at hs
  have hclose : ∀ ch ∈ w.values.flatten, (q.chans ch).close = some ⟨[], 0, true⟩ := by
    intro ch hch
    obtain ⟨i, ws, hi, hchi⟩ := mem_flatten_values.mp hch
    rw [((h.waiting w hw i ws hi).2 ch hchi).2]
    rfl
  refine .inr ⟨w, hw, ?_⟩
  simp only [ChunkQueue.close, hs, hw, Option.map_some, Option.getD_some]
  rw [updateChans_eq _ (fun _ => ⟨[], 0, true⟩) _ _ (h.nodup_flatten hw) hclose]
  rfl

theorem ChansInv.closeAll (h : ChansInv q) {w : GoMap Nat (List Nat)} (hw : q.waiters = some w) :
    ChansInv { q with
      waiters := none
      snapshot := none
      chans := fun ch => if ch ∈ w.values.flatten then ⟨[], 0, true⟩ else q.chans ch } := by
  refine ⟨by simp, fun _ hw' => (by cases hw'), fun _ hw' => (by cases hw'), ?_, ?_⟩
  · intro ch hch
    dsimp only at hch ⊢
    by_cases hmem : ch ∈ w.values.flatten
    · exact .inl (by simp [hmem])
    rw [if_neg hmem]
    rcases h.closedOrWaiting ch hch with hcl | ⟨w', hw', hl⟩
    · exact .inl hcl
    · rw [hw] at hw'
      cases hw'
      exact absurd (mem_flatten_values.mpr hl) hmem
  · intro ch
    dsimp only
    split_ifs
    · simp
    · exact h.atMostOne ch

theorem close_inv (hm : MapsInv snap q) (hc : ChansInv q) {q' : ChunkQueue ID}
    (h : q.close = some q') : MapsInv snap q' ∧ ChansInv q' ∧ q'.nextChan = q.nextChan := by
  rcases ChunkQueue.close_eq hc with ⟨-, h'⟩ | ⟨w, hw, h'⟩ <;> rw [h'] at h <;> cases h
  · exact ⟨hm, hc, rfl⟩
  · exact ⟨{ hm with snapshot := .inr rfl }, hc.closeAll hw, rfl⟩

theorem close_isSome (hc : ChansInv q) : q.close.isSome := by
  rcases ChunkQueue.close_eq hc with ⟨-, h⟩ | ⟨_, _, h⟩ <;> simp [h]

/-- A receive that does not block keeps the channel part: it takes no value
from a waiter, which is empty, and changes neither what was sent nor whether
the channel is closed. -/
theorem ChansInv.receive (h : ChansInv q) {ch : Nat} {ok : Bool} {c : Chan}
    (hr : (q.chans ch).receive = some (ok, c)) :
    ChansInv { q with chans := Function.update q.chans ch c } := by
  obtain ⟨hsent, hclosed, hne⟩ := Chan.receive_eq_some hr
  refine ⟨h.waitersNil, ?_, h.waitingOnce, ?_, ?_⟩
  · intro w hw i ws hi
    obtain ⟨hnd, hlt⟩ := h.waiting w hw i ws hi
    refine ⟨hnd, fun x hx => ⟨(hlt x hx).1, ?_⟩⟩
    have hxc : x ≠ ch := fun hxc => hne (by rw [← hxc]; exact (hlt x hx).2)
    dsimp only
    rw [Function.update_of_ne hxc]
    exact (hlt x hx).2
  · intro x hx
    dsimp only
    by_cases hxc : x = ch
    · subst hxc
      rw [Function.update_self, hclosed]
      exact h.closedOrWaiting x hx
    · rw [Function.update_of_ne hxc]
      exact h.closedOrWaiting x hx
  · intro x
    dsimp only
    by_cases hxc : x = ch
    · subst hxc
      rw [Function.update_self, hsent]
      exact h.atMostOne x
    · rw [Function.update_of_ne hxc]
      exact h.atMostOne x

end Channels

end Methods

/-! ## Interleavings -/

section Interleavings

variable {ID : Type} {snap : Snapshot} {s : Sys ID}

/-- The invariant of a queue and its pending calls of `Next`: the index each
chose is one of the snapshot's, and the channel each waits on was made. -/
structure ChunksInv (snap : Snapshot) (s : Sys ID) : Prop where
  maps : MapsInv snap s.q
  chans : ChansInv s.q
  pendingIndex : ∀ call p, s.nexts call = some p → p.index < snap.chunks
  pendingChan : ∀ call index ch, s.nexts call = some (.select index ch) → ch < s.q.nextChan

theorem ChunksInv.init {q : ChunkQueue ID} (h : newChunkQueue snap = .ok q) :
    ChunksInv snap (Sys.init q) :=
  ⟨(newChunkQueue_inv h).1, (newChunkQueue_inv h).2, by simp [Sys.init], by simp [Sys.init]⟩

theorem ChunksInv.of_queue {s' : Sys ID} (h : ChunksInv snap s) (hm : MapsInv snap s'.q)
    (hc : ChansInv s'.q) (hn : s.q.nextChan ≤ s'.q.nextChan) (hnexts : s'.nexts = s.nexts) :
    ChunksInv snap s' :=
  ⟨hm, hc, hnexts ▸ h.pendingIndex,
    fun call index ch hp => Nat.lt_of_lt_of_le (h.pendingChan call index ch (hnexts ▸ hp)) hn⟩

theorem ChunksInv.of_pending {s' : Sys ID} (h : ChunksInv snap s) (hm : MapsInv snap s'.q)
    (hc : ChansInv s'.q) (hn : s.q.nextChan ≤ s'.q.nextChan) {call : Nat} {p : Option NextPhase}
    (hnexts : s'.nexts = Function.update s.nexts call p)
    (hp : ∀ p', p = some p' → p'.index < snap.chunks ∧
      ∀ index ch, p' = .select index ch → ch < s'.q.nextChan) :
    ChunksInv snap s' := by
  refine ⟨hm, hc, ?_, ?_⟩
  · intro c p' hc'
    rw [hnexts, Function.update_apply] at hc'
    split_ifs at hc'
    · exact (hp p' hc').1
    · exact h.pendingIndex c p' hc'
  · intro c index ch hc'
    rw [hnexts, Function.update_apply] at hc'
    split_ifs at hc'
    · exact (hp _ hc').2 index ch rfl
    · exact Nat.lt_of_lt_of_le (h.pendingChan c index ch hc') hn

variable [DecidableEq ID] [Inhabited ID]

theorem ChunksInv.step (h : ChunksInv snap s) {c : Call ID} {s' : Sys ID}
    (hs : s.step c = some s') : ChunksInv snap s' := by
  cases c with
  | add chunk =>
    obtain ⟨r, hr, rfl⟩ := Option.map_eq_some_iff.mp hs
    obtain ⟨hm, hc, hn⟩ := add_inv h.maps h.chans hr
    exact h.of_queue hm hc (Nat.le_of_eq hn.symm) rfl
  | allocate =>
    cases hs
    have hf := ChunkQueue.allocate_frame s.q
    exact h.of_queue h.maps.allocate (h.chans.of_frame hf) (Nat.le_of_eq hf.nextChan.symm) rfl
  | discard index =>
    cases hs
    have hf := discard_frame s.q index
    exact h.of_queue (h.maps.discard index) (h.chans.of_frame hf) (Nat.le_of_eq hf.nextChan.symm) rfl
  | discardSender peerID =>
    cases hs
    obtain ⟨hm, hf⟩ := h.maps.discardSender peerID
    exact h.of_queue hm (h.chans.of_frame hf) (Nat.le_of_eq hf.nextChan.symm) rfl
  | retry index =>
    cases hs
    exact h.of_queue (h.maps.retry index) (h.chans.of_frame ⟨rfl, rfl, rfl, rfl⟩) (Nat.le_refl _) rfl
  | retryAll =>
    cases hs
    exact h.of_queue h.maps.retryAll (h.chans.of_frame ⟨rfl, rfl, rfl, rfl⟩) (Nat.le_refl _) rfl
  | waitFor index =>
    obtain ⟨⟨ch, q'⟩, hr, rfl⟩ := Option.map_eq_some_iff.mp hs
    obtain ⟨hm, hc, -, hn⟩ := waitFor_inv h.maps h.chans hr
    exact h.of_queue hm hc (by rw [hn]; exact Nat.le_succ _) rfl
  | close =>
    obtain ⟨q', hr, rfl⟩ := Option.map_eq_some_iff.mp hs
    obtain ⟨hm, hc, hn⟩ := close_inv h.maps h.chans hr
    exact h.of_queue hm hc (Nat.le_of_eq hn.symm) rfl
  | next =>
    obtain ⟨hm, hf, hlt⟩ := h.maps.nextStart
    simp only [Sys.step] at hs
    split_ifs at hs with hret
    · cases hs
      exact h.of_queue hm (h.chans.of_frame hf) (Nat.le_of_eq hf.nextChan.symm) rfl
    · -- neither a chunk nor an error: the call waits for the index it chose
      cases hs
      have herr : s.q.nextStart.1.2.1 = none := by simpa using (not_or.mp hret).2
      refine h.of_pending hm (h.chans.of_frame hf) (Nat.le_of_eq hf.nextChan.symm) rfl ?_
      intro p' hp'
      cases hp'
      exact ⟨hlt herr, fun _ _ hsel => by cases hsel⟩
  | nextWaitFor call =>
    simp only [Sys.step] at hs
    split at hs
    · next index hcall =>
      obtain ⟨⟨ch, q'⟩, hr, rfl⟩ := Option.map_eq_some_iff.mp hs
      obtain ⟨hm, hc, hch, hn⟩ := waitFor_inv h.maps h.chans hr
      refine h.of_pending hm hc (by rw [hn]; exact Nat.le_succ _) rfl ?_
      intro p' hp'
      cases hp'
      have hlt : index < snap.chunks := h.pendingIndex call _ hcall
      refine ⟨hlt, fun _ _ hsel => ?_⟩
      cases hsel
      rw [hch, hn]
      exact Nat.lt_succ_self _
    · cases hs
  | nextReceive call =>
    simp only [Sys.step] at hs
    split at hs
    · next index ch hcall =>
      obtain ⟨⟨ok, c'⟩, hr, rfl⟩ := Option.map_eq_some_iff.mp hs
      have hc := h.chans.receive hr
      have hm : MapsInv snap { s.q with chans := Function.update s.q.chans ch c' } :=
        h.maps.of_maps rfl rfl rfl rfl rfl
      have hlt : index < snap.chunks := h.pendingIndex call _ hcall
      dsimp only
      split
      · -- a value: the call goes on to lock again
        refine h.of_pending hm hc (Nat.le_refl _) rfl ?_
        intro p' hp'
        cases hp'
        exact ⟨hlt, fun _ _ hsel => by cases hsel⟩
      · -- the channel was closed: the call returns errDone
        refine h.of_pending hm hc (Nat.le_refl _) rfl ?_
        intro p' hp'
        cases hp'
    · cases hs
  | nextTimeout call =>
    simp only [Sys.step] at hs
    split at hs
    · next index ch hcall =>
      cases hs
      refine h.of_pending h.maps h.chans (Nat.le_refl _) rfl ?_
      intro p' hp'
      cases hp'
    · cases hs
  | nextReload call =>
    simp only [Sys.step] at hs
    split at hs
    · next index hcall =>
      have hlt := h.pendingIndex call _ hcall
      cases hs
      have hm : MapsInv snap (s.q.nextReload index).2 := by
        rcases nextReload_eq s.q index with heq | heq <;> rw [heq]
        · exact h.maps
        · exact h.maps.markReturned hlt
      have hf : ChanFrame s.q (s.q.nextReload index).2 := by
        rcases nextReload_eq s.q index with heq | heq <;> rw [heq]
        · exact .refl _
        · exact markReturned_frame _ _
      refine h.of_pending hm (h.chans.of_frame hf) (Nat.le_of_eq hf.nextChan.symm) rfl ?_
      intro p' hp'
      cases hp'
    · cases hs

theorem ChunksInv.run (h : ChunksInv snap s) {cs : List (Call ID)} {s' : Sys ID}
    (hr : s.run cs = some s') : ChunksInv snap s' := by
  induction cs generalizing s with
  | nil =>
    cases hr
    exact h
  | cons c cs ih =>
    obtain ⟨s₁, h₁, h₂⟩ := Option.bind_eq_some_iff.mp hr
    exact ih (h.step h₁) h₂

theorem Sys.step_isSome (h : ChunksInv snap s) {c : Call ID} (he : s.Enabled c) :
    (s.step c).isSome := by
  cases c with
  | add chunk => simpa [Sys.step] using add_isSome h.chans chunk
  | waitFor index => simpa [Sys.step] using waitFor_isSome h.chans index
  | close => simpa [Sys.step] using close_isSome h.chans
  | next =>
    simp only [Sys.step]
    split <;> rfl
  | nextWaitFor call =>
    obtain ⟨index, hcall⟩ := he
    simpa [Sys.step, hcall] using waitFor_isSome h.chans index
  | nextReceive call =>
    obtain ⟨index, ch, hcall, hr⟩ := he
    simpa [Sys.step, hcall] using hr
  | nextTimeout call =>
    obtain ⟨index, ch, hcall⟩ := he
    simp [Sys.step, hcall]
  | nextReload call =>
    obtain ⟨index, hcall⟩ := he
    simp [Sys.step, hcall]
  | allocate | discard _ | discardSender _ | retry _ | retryAll => rfl

/-- What a step returns: the finished calls of `Next` grow by at most one, and
a chunk `Next` returns comes with no error.  It is the snapshot's chunk at its
index, with the bytes stored for it at that step, and its index is the first
not returned, or the one the pending call chose. -/
theorem ChunksInv.step_results (h : ChunksInv snap s) {c : Call ID} {s' : Sys ID}
    (hs : s.step c = some s') :
    s'.results = s.results ∨ ∃ r, s'.results = s.results ++ [r] ∧ ∀ chunk, r.1 = some chunk →
      r.2 = none ∧ chunk.height = snap.height ∧ chunk.format = snap.format ∧
      s.q.chunkFiles.get chunk.index = chunk.chunk ∧
      (c = .next ∧ firstUnset s.q.chunkReturned snap.chunks = some chunk.index ∨
        ∃ call, c = .nextReload call ∧ s.nexts call = some (.reload chunk.index)) := by
  -- a loaded chunk is the snapshot's at its index, with its bytes
  have hload : ∀ {index} {chunk : Chunk ID}, s.q.load index = (some chunk, none) →
      chunk.index = index ∧ chunk.height = snap.height ∧ chunk.format = snap.format ∧
        s.q.chunkFiles.get chunk.index = chunk.chunk := by
    intro index chunk hl
    obtain ⟨-, snapshot, body, hs, hf, rfl⟩ := load_eq_some hl
    obtain rfl := h.maps.snapshot_eq hs
    exact ⟨rfl, rfl, rfl, hf⟩
  cases c with
  | next =>
    simp only [Sys.step] at hs
    split_ifs at hs
    · cases hs
      refine .inr ⟨_, rfl, fun chunk hchunk => ?_⟩
      obtain ⟨herr, hup, hl⟩ := nextStart_chunk hchunk
      obtain ⟨hi, hh, hf, hb⟩ := hload hl
      obtain ⟨snapshot, hs, hfirst⟩ := nextUp_eq_ok hup
      obtain rfl := h.maps.snapshot_eq hs
      exact ⟨herr, hh, hf, hb, .inl ⟨rfl, hi ▸ hfirst⟩⟩
    · cases hs
      exact .inl rfl
  | nextReceive call =>
    simp only [Sys.step] at hs
    split at hs
    · obtain ⟨r, -, rfl⟩ := Option.map_eq_some_iff.mp hs
      split
      · exact .inl rfl
      · exact .inr ⟨_, rfl, fun _ hchunk => by cases hchunk⟩
    · cases hs
  | nextTimeout call =>
    simp only [Sys.step] at hs
    split at hs
    · cases hs
      exact .inr ⟨_, rfl, fun _ hchunk => by cases hchunk⟩
    · cases hs
  | nextReload call =>
    simp only [Sys.step] at hs
    split at hs
    · next index hcall =>
      cases hs
      refine .inr ⟨_, rfl, fun chunk hchunk => ?_⟩
      obtain ⟨herr, hl⟩ := nextReload_chunk hchunk
      obtain ⟨hi, hh, hf, hb⟩ := hload hl
      exact ⟨herr, hh, hf, hb, .inr ⟨call, rfl, hi ▸ hcall⟩⟩
    · cases hs
  | add chunk =>
    obtain ⟨r, -, rfl⟩ := Option.map_eq_some_iff.mp hs
    exact .inl rfl
  | waitFor index =>
    obtain ⟨r, -, rfl⟩ := Option.map_eq_some_iff.mp hs
    exact .inl rfl
  | close =>
    obtain ⟨r, -, rfl⟩ := Option.map_eq_some_iff.mp hs
    exact .inl rfl
  | nextWaitFor call =>
    simp only [Sys.step] at hs
    split at hs
    · obtain ⟨r, -, rfl⟩ := Option.map_eq_some_iff.mp hs
      exact .inl rfl
    · cases hs
  | allocate | discard _ | discardSender _ | retry _ | retryAll =>
    cases hs
    exact .inl rfl

/-- After every interleaving from a new queue, every key of its four maps is
an index of the snapshot. -/
theorem run_keysBelow {q : ChunkQueue ID} (hq : newChunkQueue snap = .ok q) {cs : List (Call ID)}
    {s : Sys ID} (hr : (Sys.init q).run cs = some s) :
    KeysBelow s.q.chunkFiles snap.chunks ∧ KeysBelow s.q.chunkSenders snap.chunks ∧
      KeysBelow s.q.chunkAllocated snap.chunks ∧ KeysBelow s.q.chunkReturned snap.chunks := by
  have h := (ChunksInv.init hq).run hr
  exact ⟨h.maps.files, h.maps.senders, h.maps.allocated, h.maps.returned⟩

/-- After every interleaving from a new queue, no channel of `WaitFor` was sent
two values, every call that can be taken goes through, so that no channel is
closed twice, and once the queue is closed every channel is. -/
theorem run_chans {q : ChunkQueue ID} (hq : newChunkQueue snap = .ok q) {cs : List (Call ID)}
    {s : Sys ID} (hr : (Sys.init q).run cs = some s) :
    (∀ ch, (s.q.chans ch).sent.length ≤ 1) ∧ (∀ c, s.Enabled c → (s.step c).isSome) ∧
      (s.q.snapshot = none → ∀ ch < s.q.nextChan, (s.q.chans ch).closed = true) := by
  have h := (ChunksInv.init hq).run hr
  exact ⟨h.chans.atMostOne, fun c he => Sys.step_isSome h he, h.chans.closed_of_closed⟩

/-- After every interleaving from a new queue, `Allocate` returns an index of
the snapshot that is not allocated and allocates it, or `errDone` once the
queue is closed or every index is allocated. -/
theorem run_allocate {q : ChunkQueue ID} (hq : newChunkQueue snap = .ok q) {cs : List (Call ID)}
    {s : Sys ID} (hr : (Sys.init q).run cs = some s) :
    (s.q.allocate.1.2 = none ∧ s.q.allocate.1.1 < snap.chunks ∧
      isSet s.q.chunkAllocated s.q.allocate.1.1 = false ∧
      isSet s.q.allocate.2.chunkAllocated s.q.allocate.1.1 = true) ∨
    (s.q.allocate.1.2 = some .done ∧
      (s.q.snapshot = none ∨ ∀ i < snap.chunks, isSet s.q.chunkAllocated i = true)) :=
  allocate_spec ((ChunksInv.init hq).run hr).maps

/-- After every interleaving from a new queue, a further call finishes at
most one `Next`, and a chunk `Next` returns comes with no error, with the
snapshot's height and format and the bytes stored for its index, which is
the first one not returned, or the one the pending call chose. -/
theorem run_step_results {q : ChunkQueue ID} (hq : newChunkQueue snap = .ok q) {cs : List (Call ID)}
    {s : Sys ID} (hr : (Sys.init q).run cs = some s) {c : Call ID} {s' : Sys ID}
    (hs : s.step c = some s') :
    s'.results = s.results ∨ ∃ r, s'.results = s.results ++ [r] ∧ ∀ chunk, r.1 = some chunk →
      r.2 = none ∧ chunk.height = snap.height ∧ chunk.format = snap.format ∧
      s.q.chunkFiles.get chunk.index = chunk.chunk ∧
      (c = .next ∧ firstUnset s.q.chunkReturned snap.chunks = some chunk.index ∨
        ∃ call, c = .nextReload call ∧ s.nexts call = some (.reload chunk.index)) :=
  ((ChunksInv.init hq).run hr).step_results hs

/-- `Next` can return `(nil, nil)`, and can skip an index.  In the first run
it finds chunk 0 missing and waits for it; `Add` signals its channel, and a
`Discard` of chunk 0 runs before `Next` locks again, so the reload finds no
file.  In the second its first critical section marks chunk 0 returned before
waiting, the wait times out, and the next call returns chunk 1 although chunk
0 was never returned. -/
theorem next_returns_nil_or_skips_index :
    (∃ q : ChunkQueue Nat, newChunkQueue ⟨1, 1, 1⟩ = .ok q ∧
      ((Sys.init q).run [.next, .nextWaitFor 0, .add ⟨1, 1, 0, some [7], 0⟩, .discard 0,
        .nextReceive 0, .nextReload 0]).map Sys.results = some [(none, none)]) ∧
    (∃ q : ChunkQueue Nat, newChunkQueue ⟨1, 1, 2⟩ = .ok q ∧
      ((Sys.init q).run [.next, .nextWaitFor 0, .nextTimeout 0, .add ⟨1, 1, 1, some [8], 0⟩,
        .next]).map Sys.results =
        some [(none, some .timeout), (some ⟨1, 1, 1, some [8], 0⟩, none)]) :=
  ⟨⟨_, rfl, by decide⟩, ⟨_, rfl, by decide⟩⟩

/-- The second interleaving above: `Next` on a snapshot of two chunks waits
for chunk 0 and times out, chunk 1 is added, and `Next` runs again. -/
def skipRun : List (Call Nat) :=
  [.next, .nextWaitFor 0, .nextTimeout 0, .add ⟨1, 1, 1, some [8], 0⟩, .next]

theorem run_keysBelow_skipRun :
    ∃ q : ChunkQueue Nat, newChunkQueue ⟨1, 1, 2⟩ = .ok q ∧ ∃ s, (Sys.init q).run skipRun = some s ∧
      KeysBelow s.q.chunkFiles 2 ∧ KeysBelow s.q.chunkSenders 2 ∧
      KeysBelow s.q.chunkAllocated 2 ∧ KeysBelow s.q.chunkReturned 2 := by
  obtain ⟨q, hq, s, hr⟩ : ∃ q : ChunkQueue Nat, newChunkQueue ⟨1, 1, 2⟩ = .ok q ∧
      ∃ s, (Sys.init q).run skipRun = some s := ⟨_, rfl, _, rfl⟩
  exact ⟨q, hq, s, hr, run_keysBelow hq hr⟩

theorem run_chans_skipRun :
    ∃ q : ChunkQueue Nat, newChunkQueue ⟨1, 1, 2⟩ = .ok q ∧ ∃ s, (Sys.init q).run skipRun = some s ∧
      (∀ ch, (s.q.chans ch).sent.length ≤ 1) ∧ (∀ c, s.Enabled c → (s.step c).isSome) ∧
      (s.q.snapshot = none → ∀ ch < s.q.nextChan, (s.q.chans ch).closed = true) := by
  obtain ⟨q, hq, s, hr⟩ : ∃ q : ChunkQueue Nat, newChunkQueue ⟨1, 1, 2⟩ = .ok q ∧
      ∃ s, (Sys.init q).run skipRun = some s := ⟨_, rfl, _, rfl⟩
  exact ⟨q, hq, s, hr, run_chans hq hr⟩

theorem run_allocate_skipRun :
    ∃ q : ChunkQueue Nat, newChunkQueue ⟨1, 1, 2⟩ = .ok q ∧ ∃ s, (Sys.init q).run skipRun = some s ∧
      ((s.q.allocate.1.2 = none ∧ s.q.allocate.1.1 < 2 ∧
        isSet s.q.chunkAllocated s.q.allocate.1.1 = false ∧
        isSet s.q.allocate.2.chunkAllocated s.q.allocate.1.1 = true) ∨
      (s.q.allocate.1.2 = some .done ∧
        (s.q.snapshot = none ∨ ∀ i < 2, isSet s.q.chunkAllocated i = true))) := by
  obtain ⟨q, hq, s, hr⟩ : ∃ q : ChunkQueue Nat, newChunkQueue ⟨1, 1, 2⟩ = .ok q ∧
      ∃ s, (Sys.init q).run skipRun = some s := ⟨_, rfl, _, rfl⟩
  exact ⟨q, hq, s, hr, run_allocate hq hr⟩

/-- `run_step_results` at the last call of `skipRun`, the `Next` that returns
chunk 1. -/
theorem run_step_results_skipRun :
    ∃ q : ChunkQueue Nat, newChunkQueue ⟨1, 1, 2⟩ = .ok q ∧ ∃ s s',
      (Sys.init q).run (skipRun.take 4) = some s ∧ s.step .next = some s' ∧
      (s'.results = s.results ∨ ∃ r, s'.results = s.results ++ [r] ∧ ∀ chunk, r.1 = some chunk →
        r.2 = none ∧ chunk.height = 1 ∧ chunk.format = 1 ∧
        s.q.chunkFiles.get chunk.index = chunk.chunk ∧
        ((Call.next : Call Nat) = .next ∧ firstUnset s.q.chunkReturned 2 = some chunk.index ∨
          ∃ call, (Call.next : Call Nat) = .nextReload call ∧ s.nexts call = some (.reload chunk.index))) := by
  obtain ⟨q, hq, s, s', hr, hs⟩ : ∃ q : ChunkQueue Nat, newChunkQueue ⟨1, 1, 2⟩ = .ok q ∧
      ∃ s s', (Sys.init q).run (skipRun.take 4) = some s ∧ s.step .next = some s' :=
    ⟨_, rfl, _, _, rfl, rfl⟩
  exact ⟨q, hq, s, s', hr, hs, run_step_results hq hr hs⟩

end Interleavings

end Ostracon.Statesync
