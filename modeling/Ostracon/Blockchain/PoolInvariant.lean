import Ostracon.Blockchain.Pool
/-!
# The bookkeeping of the v0 block pool

Over every run from `NewBlockPool`, interleaved as it may be, the pool keeps
`PoolInv` (`poolRun_inv`):

* the keys of `requesters` are the heights from `height` to
  `height + len(requesters) - 1`, and each points at a requester of that
  height;
* a requester's block is of the requester's height, and the requester has a
  peer, the one `setBlock` took the block from;
* `numPending` counts the requesters made so far that hold no block, those
  `PopRequest` took out of the map included;
* `maxPeerHeight` is at least zero and at least every height a peer reports.

Two facts of the pool's bookkeeping beyond these fail.  `numPending` does not
count the requesters of the map alone: a requester that resets after its block
was peeked, and is then popped, stays counted.  And `maxPeerHeight` is not the
largest height the peers report: `SetPeerRange` only ever raises it, so a peer
that lowers its height leaves it above every peer's.

Every event that only touches the peers, or only the channels and the
goroutines of the requesters, keeps what the bookkeeping reads of each
requester, its `view`; `RequestersInv.congr` carries the requesters' part of
the invariant over such an event.
-/

namespace Ostracon.Blockchain

open BlockPool

variable {ID B : Type} (blockHeight : B → Int)

/-- What the bookkeeping reads of a requester. -/
def BPRequester.view (r : BPRequester ID B) : Int × Option B × Option ID := (r.height, r.block, r.peerID)

/-- The bookkeeping of the requesters. -/
structure RequestersInv (pool : BlockPool ID B) : Prop where
  /-- the keys are the heights from `height` on, one per requester -/
  keys : ∀ h, (pool.requesters.get h).isSome ↔ pool.height ≤ h ∧ h < pool.height + pool.requesters.length
  /-- each key points at a requester of its height -/
  objects : ∀ h idx, pool.requesters.get h = some idx → ∃ r, pool.objects[idx]? = some r ∧ r.height = h
  /-- a block is of its requester's height, and the requester has a peer -/
  block : ∀ r ∈ pool.objects, ∀ b, r.block = some b → blockHeight b = r.height ∧ r.peerID.isSome
  /-- `numPending` counts the requesters made so far with no block -/
  numPending : pool.numPending = pool.objects.countP fun r => r.block.isNone

/-- `maxPeerHeight` bounds every reported height, from zero. -/
structure PeersBound (pool : BlockPool ID B) : Prop where
  nonneg : 0 ≤ pool.maxPeerHeight
  height_le : ∀ peer ∈ pool.peers.values, peer.height ≤ pool.maxPeerHeight

/-- The bookkeeping of the pool that every run keeps. -/
structure PoolInv (pool : BlockPool ID B) : Prop where
  requesters : RequestersInv blockHeight pool
  peers : PeersBound pool

/-! ## Views of the requesters -/

section Views

variable {objects objects' : List (BPRequester ID B)} {idx : Nat} {r r' : BPRequester ID B}

theorem map_view_set (hr : objects[idx]? = some r) (hview : r'.view = r.view) :
    (objects.set idx r').map BPRequester.view = objects.map BPRequester.view := by
  apply List.ext_getElem?
  intro j
  rw [List.getElem?_map, List.getElem?_map, List.getElem?_set]
  by_cases hj : idx = j
  · subst hj
    rw [if_pos rfl, if_pos (List.getElem?_eq_some_iff.mp hr).1, hr]
    simp [hview]
  · rw [if_neg hj]

theorem map_view_modify {f : BPRequester ID B → BPRequester ID B} (hf : ∀ r, (f r).view = r.view) :
    (objects.modify idx f).map BPRequester.view = objects.map BPRequester.view := by
  apply List.ext_getElem?
  intro j
  rw [List.getElem?_map, List.getElem?_map, List.getElem?_modify]
  cases objects[j]? with
  | none => rfl
  | some r =>
    by_cases hj : idx = j
    · simp [hj, hf]
    · simp [hj]

theorem exists_of_map_view_eq (hview : objects'.map BPRequester.view = objects.map BPRequester.view)
    (hr : objects[idx]? = some r) : ∃ r', objects'[idx]? = some r' ∧ r'.view = r.view := by
  have h : (objects'.map BPRequester.view)[idx]? = some r.view := by
    rw [hview, List.getElem?_map, hr]
    rfl
  rw [List.getElem?_map] at h
  obtain ⟨r', hr', heq⟩ := Option.map_eq_some_iff.mp h
  exact ⟨r', hr', heq⟩

theorem countP_block_isNone_eq (hview : objects'.map BPRequester.view = objects.map BPRequester.view) :
    objects'.countP (fun r => r.block.isNone) = objects.countP fun r => r.block.isNone := by
  have hc : ∀ l : List (BPRequester ID B),
      l.countP (fun r => r.block.isNone) = (l.map BPRequester.view).countP fun v => v.2.1.isNone :=
    fun l => by rw [List.countP_map]; rfl
  rw [hc, hc, hview]

end Views

/-! ## The requesters' part -/

section Requesters

variable {blockHeight} {pool pool' : BlockPool ID B}

theorem RequestersInv.congr (h : RequestersInv blockHeight pool) (hreq : pool'.requesters = pool.requesters)
    (hheight : pool'.height = pool.height) (hpending : pool'.numPending = pool.numPending)
    (hview : pool'.objects.map BPRequester.view = pool.objects.map BPRequester.view) :
    RequestersInv blockHeight pool' where
  keys := by
    rw [hreq, hheight]
    exact h.keys
  objects := fun k idx hget => by
    rw [hreq] at hget
    obtain ⟨r, hr, hk⟩ := h.objects k idx hget
    obtain ⟨r', hr', heq⟩ := exists_of_map_view_eq hview hr
    exact ⟨r', hr', (congrArg Prod.fst heq).trans hk⟩
  block := fun r' hr' b hb => by
    obtain ⟨r, hr, heq⟩ := List.mem_map.mp (hview ▸ List.mem_map_of_mem hr' : r'.view ∈ _)
    simp only [BPRequester.view, Prod.mk.injEq] at heq
    obtain ⟨hh, hblock, hpeer⟩ := heq
    rw [← hh, ← hpeer]
    exact h.block r hr b (hblock ▸ hb)
  numPending := by
    rw [hpending, h.numPending, countP_block_isNone_eq hview]

/-- Writing back a requester read from the pool, of the same height, with a
block only of that height and only with a peer, and with the count moved by
what the write did to the block. -/
theorem RequestersInv.set (h : RequestersInv blockHeight pool) {idx : Nat} {r : BPRequester ID B}
    (hr : pool.objects[idx]? = some r) (r' : BPRequester ID B) (hheight : r'.height = r.height)
    (hblock : ∀ b, r'.block = some b → blockHeight b = r.height ∧ r'.peerID.isSome) (numPending : Int)
    (hpending : numPending + (if r.block.isNone then 1 else 0) = pool.numPending + (if r'.block.isNone then 1 else 0)) :
    RequestersInv blockHeight { pool with objects := pool.objects.set idx r', numPending } where
  keys := h.keys
  objects := fun k idx' hget => by
    obtain ⟨r₀, hr₀, hk⟩ := h.objects k idx' hget
    by_cases hidx : idx = idx'
    · subst hidx
      rw [hr] at hr₀
      cases hr₀
      refine ⟨r', ?_, hheight.trans hk⟩
      rw [List.getElem?_set_self (List.getElem?_eq_some_iff.mp hr).1]
    · exact ⟨r₀, by rw [List.getElem?_set_ne hidx]; exact hr₀, hk⟩
  block := fun r₀ hr₀ b hb => by
    rcases List.mem_or_eq_of_mem_set hr₀ with hmem | rfl
    · exact h.block r₀ hmem b hb
    · exact hheight ▸ hblock b hb
  numPending := by
    obtain ⟨hlt, hget⟩ := List.getElem?_eq_some_iff.mp hr
    have hcount : (pool.objects.set idx r').countP (fun r => r.block.isNone) =
        (pool.objects.countP fun r => r.block.isNone) - (if r.block.isNone then 1 else 0) +
          (if r'.block.isNone then 1 else 0) := by
      rw [List.countP_set hlt, hget]
    -- the requester written over was counted if it held no block
    have hle : (if r.block.isNone then 1 else 0) ≤ pool.objects.countP fun r => r.block.isNone := by
      split_ifs with hnone
      · exact List.countP_pos_iff.mpr ⟨r, List.mem_of_getElem? hr, hnone⟩
      · exact Nat.zero_le _
    have hnum := h.numPending
    dsimp only
    rw [hcount]
    split_ifs at hpending hle ⊢ <;> omega

theorem RequestersInv.makeNextRequester (h : RequestersInv blockHeight pool) :
    RequestersInv blockHeight pool.makeNextRequester := by
  unfold BlockPool.makeNextRequester
  dsimp only
  split_ifs with hmax
  · exact h
  -- the next height is no key yet, and the new requester is the last object
  have hnone : pool.requesters.get (pool.height + pool.requesters.length) = none := by
    rw [← Option.not_isSome_iff_eq_none, h.keys]
    omega
  refine ⟨fun k => ?_, fun k idx hget => ?_, fun r hr b hb => ?_, ?_⟩
  · dsimp only
    rw [GoMap.get_set, GoMap.length_set_of_get_eq_none _ hnone]
    by_cases hk : k = pool.height + pool.requesters.length
    · rw [if_pos hk]
      simp only [Option.isSome_some, true_iff]
      omega
    · rw [if_neg hk, h.keys]
      omega
  · dsimp only at hget ⊢
    rw [GoMap.get_set] at hget
    by_cases hk : k = pool.height + pool.requesters.length
    · rw [if_pos hk] at hget
      cases hget
      exact ⟨_, List.getElem?_concat_length .., hk.symm⟩
    · rw [if_neg hk] at hget
      obtain ⟨r, hr, hh⟩ := h.objects k idx hget
      exact ⟨r, List.getElem?_append_left (List.getElem?_eq_some_iff.mp hr).1 ▸ hr, hh⟩
  · rcases List.mem_append.mp hr with hmem | hnew
    · exact h.block r hmem b hb
    · rw [List.mem_singleton.mp hnew] at hb
      cases hb
  · dsimp only
    rw [List.countP_append, h.numPending]
    simp [newBPRequester]

theorem RequestersInv.erase_height (h : RequestersInv blockHeight pool) {idx : Nat}
    (hget : pool.requesters.get pool.height = some idx) :
    RequestersInv blockHeight
      { pool with requesters := pool.requesters.erase pool.height, height := pool.height + 1 } := by
  have hlen := GoMap.length_erase_of_get_eq_some hget
  refine ⟨fun k => ?_, fun k idx' hget' => ?_, h.block, h.numPending⟩
  · dsimp only
    rw [GoMap.get_erase]
    by_cases hk : k = pool.height
    · rw [if_pos hk]
      simp only [Option.isSome_none, Bool.false_eq_true, false_iff]
      omega
    · rw [if_neg hk, h.keys]
      omega
  · dsimp only at hget'
    rw [GoMap.get_erase] at hget'
    split_ifs at hget'
    exact h.objects k idx' hget'

end Requesters

/-! ## The peers' part -/

section Peers

variable {pool pool' : BlockPool ID B}

theorem PeersBound.congr (h : PeersBound pool) (hpeers : pool'.peers = pool.peers)
    (hmax : pool'.maxPeerHeight = pool.maxPeerHeight) : PeersBound pool' where
  nonneg := hmax ▸ h.nonneg
  height_le := fun peer hpeer => hmax ▸ h.height_le peer (hpeers ▸ hpeer)

theorem PeersBound.set [DecidableEq ID] (h : PeersBound pool) {peerID : ID} {peer : BPPeer ID}
    (hpeers : pool'.peers = pool.peers.set peerID peer) (hmax : pool'.maxPeerHeight = pool.maxPeerHeight)
    (hle : peer.height ≤ pool.maxPeerHeight) : PeersBound pool' where
  nonneg := hmax ▸ h.nonneg
  height_le := fun peer' hpeer' => by
    rw [hpeers] at hpeer'
    rcases GoMap.mem_values_set hpeer' with rfl | hmem
    · exact hmax ▸ hle
    · exact hmax ▸ h.height_le peer' hmem

theorem le_foldl_max : ∀ (peers : List (BPPeer ID)) (max : Int),
    let f := fun max (peer : BPPeer ID) => if peer.height > max then peer.height else max
    max ≤ peers.foldl f max ∧ ∀ peer ∈ peers, peer.height ≤ peers.foldl f max
  | [], max => by simp
  | peer :: peers, max => by
    intro f
    obtain ⟨hstart, hall⟩ := le_foldl_max peers (f max peer)
    have hpeer : max ≤ f max peer ∧ peer.height ≤ f max peer := by
      simp only [f]
      split_ifs <;> omega
    refine ⟨Int.le_trans hpeer.1 hstart, fun peer' hpeer' => ?_⟩
    rcases List.mem_cons.mp hpeer' with rfl | hmem
    · exact Int.le_trans hpeer.2 hstart
    · exact hall peer' hmem

theorem PeersBound.updateMaxPeerHeight [DecidableEq ID] (peers : GoMap ID (BPPeer ID))
    (hpeers : pool'.peers = peers) (hmax : pool'.maxPeerHeight = updateMaxPeerHeight peers) :
    PeersBound pool' where
  nonneg := hmax ▸ (le_foldl_max peers.values 0).1
  height_le := fun peer hpeer => hmax ▸ (le_foldl_max peers.values 0).2 peer (hpeers ▸ hpeer)

end Peers

/-! ## `removePeer` and the loops over the peers -/

section RemovePeer

variable [DecidableEq ID] {blockHeight} {pool : BlockPool ID B}

omit [DecidableEq ID] in
theorem view_redo (r : BPRequester ID B) (peerID : ID) : (r.redo peerID).view = r.view := by
  unfold BPRequester.redo
  split_ifs <;> rfl

theorem map_view_redoAll (peerID : ID) :
    ∀ (objects : List (BPRequester ID B)) (idxs : List Nat),
      (redoAll peerID objects idxs).map BPRequester.view = objects.map BPRequester.view
  | objects, [] => rfl
  | objects, idx :: idxs => by
    unfold redoAll
    rw [map_view_redoAll]
    split
    · rename_i r hr
      split_ifs
      · exact map_view_set hr (view_redo r peerID)
      · rfl
    · rfl

@[simp] theorem removePeer_requesters (peerID : ID) :
    (pool.removePeer peerID).requesters = pool.requesters := by
  unfold BlockPool.removePeer
  dsimp only
  split <;> (try split_ifs) <;> rfl

@[simp] theorem removePeer_height (peerID : ID) : (pool.removePeer peerID).height = pool.height := by
  unfold BlockPool.removePeer
  dsimp only
  split <;> (try split_ifs) <;> rfl

@[simp] theorem removePeer_numPending (peerID : ID) :
    (pool.removePeer peerID).numPending = pool.numPending := by
  unfold BlockPool.removePeer
  dsimp only
  split <;> (try split_ifs) <;> rfl

theorem removePeer_objects (peerID : ID) :
    (pool.removePeer peerID).objects = redoAll peerID pool.objects pool.requesters.values := by
  unfold BlockPool.removePeer
  dsimp only
  split <;> (try split_ifs) <;> rfl

theorem PoolInv.removePeer (h : PoolInv blockHeight pool) (peerID : ID) :
    PoolInv blockHeight (pool.removePeer peerID) := by
  refine ⟨h.requesters.congr (removePeer_requesters peerID) (removePeer_height peerID)
    (removePeer_numPending peerID) (by rw [removePeer_objects, map_view_redoAll]), ?_⟩
  -- the peers' part: the peer is deleted, and the maximum recomputed if it was the peer's
  have hp := h.peers
  unfold BlockPool.removePeer
  dsimp only
  split
  · exact hp.congr rfl rfl
  · rename_i peer _
    split_ifs
    · exact PeersBound.updateMaxPeerHeight _ rfl rfl
    · exact ⟨hp.nonneg, fun peer' hpeer' => hp.height_le peer' (GoMap.mem_values_erase hpeer')⟩

theorem PoolInv.setPeer (h : PoolInv blockHeight pool) {peerID : ID} {peer : BPPeer ID}
    (hle : peer.height ≤ pool.maxPeerHeight) :
    PoolInv blockHeight { pool with peers := pool.peers.set peerID peer } :=
  ⟨h.requesters.congr rfl rfl rfl rfl, h.peers.set rfl rfl hle⟩

theorem height_le_of_get {peerID : ID} {peer : BPPeer ID} (h : PeersBound pool)
    (hget : pool.peers.get peerID = some peer) : peer.height ≤ pool.maxPeerHeight :=
  h.height_le peer (GoMap.mem_values.mpr ⟨peerID, hget⟩)

omit [DecidableEq ID] in
theorem incrPending_height (peer : BPPeer ID) : peer.incrPending.height = peer.height := by
  unfold BPPeer.incrPending
  split_ifs <;> rfl

omit [DecidableEq ID] in
theorem checkRate_height {peer peer' : BPPeer ID} {slow : Bool} (h : peer.checkRate slow = some peer') :
    peer'.height = peer.height := by
  unfold BPPeer.checkRate at h
  split_ifs at h <;> cases h <;> rfl

theorem PoolInv.pickIncrAvailablePeer (height : Int) :
    ∀ (order : List ID) {pool : BlockPool ID B}, PoolInv blockHeight pool →
      PoolInv blockHeight (pool.pickIncrAvailablePeer height order).1
  | [], _, h => h
  | peerID :: order, pool, h => by
    unfold BlockPool.pickIncrAvailablePeer
    split
    · exact PoolInv.pickIncrAvailablePeer height order h
    · rename_i peer hget
      split_ifs
      · exact PoolInv.pickIncrAvailablePeer height order (h.removePeer peerID)
      · exact PoolInv.pickIncrAvailablePeer height order h
      · exact PoolInv.pickIncrAvailablePeer height order h
      · -- the peer taking the request keeps its height
        have hle := height_le_of_get h.peers hget
        rw [← incrPending_height peer] at hle
        exact h.setPeer hle

theorem PoolInv.removeTimedoutPeers (slow : List ID) :
    ∀ (order : List ID) {pool pool' : BlockPool ID B}, PoolInv blockHeight pool →
      pool.removeTimedoutPeers slow order = some pool' → PoolInv blockHeight pool'
  | [], _, _, h, hrun => by
    cases hrun
    exact h
  | peerID :: order, pool, pool', h, hrun => by
    unfold BlockPool.removeTimedoutPeers at hrun
    split at hrun
    · exact PoolInv.removeTimedoutPeers slow order h hrun
    · rename_i peer hget
      -- the peer is written back with its height, marked or not, then maybe removed
      have hle := height_le_of_get h.peers hget
      split at hrun
      · cases hrun
      · rename_i peer' hpeer'
        rw [← checkRate_height hpeer'] at hle
        have hset : PoolInv blockHeight { pool with peers := pool.peers.set peerID peer' } :=
          h.setPeer hle
        dsimp only at hrun
        split_ifs at hrun
        · exact PoolInv.removeTimedoutPeers slow order (hset.removePeer peerID) hrun
        · exact PoolInv.removeTimedoutPeers slow order hset hrun

end RemovePeer

/-! ## Every event keeps the invariant -/

section Events

variable [DecidableEq ID] {blockHeight} {pool pool' : BlockPool ID B}

omit [DecidableEq ID] in
theorem requesterAt_eq_some {height : Int} {idx : Nat} {r : BPRequester ID B}
    (h : pool.requesterAt height = some (idx, r)) :
    pool.requesters.get height = some idx ∧ pool.objects[idx]? = some r := by
  unfold BlockPool.requesterAt at h
  cases hget : pool.requesters.get height with
  | none => simp [hget] at h
  | some idx' =>
    cases hr : pool.objects[idx']? with
    | none => simp [hget, hr] at h
    | some r' =>
      simp only [hget, hr, Option.bind_eq_bind, Option.bind_some, Option.pure_def, Option.some.injEq,
        Prod.mk.injEq] at h
      obtain ⟨rfl, rfl⟩ := h
      exact ⟨rfl, hr⟩

omit [DecidableEq ID] in
@[simp] theorem makeNextRequester_peers : pool.makeNextRequester.peers = pool.peers := by
  unfold BlockPool.makeNextRequester
  dsimp only
  split_ifs <;> rfl

omit [DecidableEq ID] in
@[simp] theorem makeNextRequester_maxPeerHeight :
    pool.makeNextRequester.maxPeerHeight = pool.maxPeerHeight := by
  unfold BlockPool.makeNextRequester
  dsimp only
  split_ifs <;> rfl

omit [DecidableEq ID] in
theorem PoolInv.makeNextRequester (h : PoolInv blockHeight pool) :
    PoolInv blockHeight pool.makeNextRequester :=
  ⟨h.requesters.makeNextRequester, h.peers.congr makeNextRequester_peers makeNextRequester_maxPeerHeight⟩

theorem setPeerRange_eq (peerID : ID) (base height : Int) :
    ∃ peer : BPPeer ID, peer.height = height ∧
      pool.setPeerRange peerID base height =
        if height > pool.maxPeerHeight then
          { pool with peers := pool.peers.set peerID peer, maxPeerHeight := height }
        else { pool with peers := pool.peers.set peerID peer } := by
  unfold BlockPool.setPeerRange
  split <;> exact ⟨_, rfl, rfl⟩

theorem PoolInv.setPeerRange (h : PoolInv blockHeight pool) (peerID : ID) (base height : Int) :
    PoolInv blockHeight (pool.setPeerRange peerID base height) := by
  obtain ⟨peer, hheight, heq⟩ := setPeerRange_eq peerID base height
  rw [heq]
  split_ifs with hgt
  · -- the maximum rises to the new height, above every other
    refine ⟨h.requesters.congr rfl rfl rfl rfl, ⟨?_, fun peer' hpeer' => ?_⟩⟩
    · have := h.peers.nonneg
      dsimp only
      omega
    rcases GoMap.mem_values_set hpeer' with rfl | hmem
    · exact Int.le_of_eq hheight
    · have := h.peers.height_le peer' hmem
      dsimp only
      omega
  · exact h.setPeer (hheight ▸ Int.not_lt.mp hgt)

theorem PoolInv.onTimeout (h : PoolInv blockHeight pool) (peerID : ID) :
    PoolInv blockHeight (pool.onTimeout peerID) := by
  unfold BlockPool.onTimeout
  split
  · rename_i peer hget
    have hle := height_le_of_get h.peers hget
    split_ifs
    · exact h.setPeer hle
    · exact h
  · exact h

omit [DecidableEq ID] in
theorem decrPending_height {peer peer' : BPPeer ID} (h : peer.decrPending = some peer') :
    peer'.height = peer.height := by
  unfold BPPeer.decrPending at h
  dsimp only at h
  split_ifs at h
  · obtain ⟨_, -, rfl⟩ := Option.map_eq_some_iff.mp h
    rfl
  · cases h
    rfl

theorem PoolInv.addBlock (h : PoolInv blockHeight pool) {peerID : ID} {block : B}
    (hstep : pool.addBlock blockHeight peerID block = some pool') : PoolInv blockHeight pool' := by
  unfold BlockPool.addBlock at hstep
  split at hstep
  · cases hstep
    exact h
  · rename_i idx r hat
    obtain ⟨hget, hr⟩ := requesterAt_eq_some hat
    obtain ⟨r₀, hr₀, hheight⟩ := h.requesters.objects _ idx hget
    rw [hr] at hr₀
    cases hr₀
    unfold BPRequester.setBlock at hstep
    split_ifs at hstep with hrefuse
    · cases hstep
      exact h
    · -- the block is set, and the count drops by the requester it fills
      simp only [not_or, not_not] at hrefuse
      have hnone : r.block = none := Option.not_isSome_iff_eq_none.mp hrefuse.1
      have hset : PoolInv blockHeight
          { pool with objects := pool.objects.set idx { r with block := some block },
                      numPending := pool.numPending - 1 } :=
        ⟨h.requesters.set hr { r with block := some block } rfl
          (fun b hb => by cases hb; exact ⟨hheight.symm, by simp [hrefuse.2]⟩) _
          (by simp [hnone]), h.peers.congr rfl rfl⟩
      dsimp only at hstep
      rw [if_pos rfl] at hstep
      split at hstep
      · cases hstep
        exact hset
      · rename_i peer hpeer
        obtain ⟨peer', hdecr, rfl⟩ := Option.map_eq_some_iff.mp hstep
        have hle := height_le_of_get h.peers hpeer
        rw [← decrPending_height hdecr] at hle
        exact hset.setPeer hle

omit [DecidableEq ID] in
theorem PoolInv.popRequest (h : PoolInv blockHeight pool) (hstep : pool.popRequest = some pool') :
    PoolInv blockHeight pool' := by
  unfold BlockPool.popRequest at hstep
  split at hstep
  · cases hstep
  · rename_i idx r hat
    cases hstep
    obtain ⟨hget, hr⟩ := requesterAt_eq_some hat
    -- stopping the requester changes no view; then the lowest key goes
    have hstop : RequestersInv blockHeight
        { pool with objects := pool.objects.set idx { r with running := false } } :=
      h.requesters.congr rfl rfl rfl (map_view_set hr rfl)
    exact ⟨hstop.erase_height hget, h.peers.congr rfl rfl⟩

theorem PoolInv.redoRequest (h : PoolInv blockHeight pool) {height : Int}
    (hstep : pool.redoRequest height = some pool') : PoolInv blockHeight pool' := by
  unfold BlockPool.redoRequest at hstep
  split at hstep
  · cases hstep
  · split at hstep <;> cases hstep
    · exact h
    · exact h.removePeer _

omit [DecidableEq ID] in
theorem PoolInv.setRoutine (h : PoolInv blockHeight pool) (idx : Nat) (point : RoutinePoint ID) :
    PoolInv blockHeight (pool.setRoutine idx point) :=
  ⟨h.requesters.congr rfl rfl rfl (map_view_modify fun _ => rfl), h.peers.congr rfl rfl⟩

theorem PoolInv.pickPeer (h : PoolInv blockHeight pool) (idx : Nat) (order : List ID) :
    PoolInv blockHeight (pool.pickPeer idx order) := by
  unfold BlockPool.pickPeer
  split
  · rename_i r _
    split_ifs
    · exact h.setRoutine idx .done
    · have hpick := h.pickIncrAvailablePeer r.height order
      split
      · rename_i hres
        rw [hres] at hpick
        exact hpick.setRoutine idx _
      · rename_i hres
        rw [hres] at hpick
        exact hpick
    · exact h
  · exact h

omit [DecidableEq ID] in
theorem PoolInv.storePeer (h : PoolInv blockHeight pool) (idx : Nat) :
    PoolInv blockHeight (pool.storePeer idx) := by
  unfold BlockPool.storePeer BlockPool.setObject
  split
  · rename_i r hr
    split
    · -- the requester gets a peer and keeps its block
      rename_i peerID _
      exact ⟨h.requesters.set hr { r with peerID := some peerID, routine := .wait } rfl
        (fun b hb => ⟨(h.requesters.block r (List.mem_of_getElem? hr) b hb).1, rfl⟩) pool.numPending
        (by rfl), h.peers.congr rfl rfl⟩
    · exact h
  · exact h

theorem PoolInv.takeRedo (h : PoolInv blockHeight pool) (idx : Nat) :
    PoolInv blockHeight (pool.takeRedo idx) := by
  unfold BlockPool.takeRedo BlockPool.setObject
  split
  · rename_i r hr
    split
    · dsimp only
      split_ifs with hown hblock
      · exact ⟨h.requesters.set hr { r.reset with redoCh := none, routine := .pickPeer } rfl
          (fun b hb => by cases hb) _ (by simp [BPRequester.reset, Option.isSome_iff_ne_none.mp hblock]),
          h.peers.congr rfl rfl⟩
      · exact ⟨h.requesters.set hr { r.reset with redoCh := none, routine := .pickPeer } rfl
          (fun b hb => by cases hb) _ (by simp [BPRequester.reset, Option.not_isSome_iff_eq_none.mp hblock]),
          h.peers.congr rfl rfl⟩
      · exact ⟨h.requesters.congr rfl rfl rfl (map_view_set hr rfl), h.peers.congr rfl rfl⟩
    · exact h
  · exact h

theorem PoolInv.quit (h : PoolInv blockHeight pool) (idx : Nat) : PoolInv blockHeight (pool.quit idx) := by
  unfold BlockPool.quit
  split
  · split_ifs
    · exact h.setRoutine idx .done
    · exact h
  · exact h

theorem PoolInv.apply (h : PoolInv blockHeight pool) :
    ∀ {e : PoolEvent ID B}, e.apply blockHeight pool = some pool' → PoolInv blockHeight pool'
  | .makeNextRequester, hstep => by cases hstep; exact h.makeNextRequester
  | .setPeerRange peerID base height, hstep => by cases hstep; exact h.setPeerRange peerID base height
  | .removePeer peerID, hstep => by cases hstep; exact h.removePeer peerID
  | .removeTimedoutPeers slow order, hstep => h.removeTimedoutPeers slow order hstep
  | .onTimeout peerID, hstep => by cases hstep; exact h.onTimeout peerID
  | .addBlock _ _, hstep => h.addBlock hstep
  | .popRequest, hstep => h.popRequest hstep
  | .redoRequest _, hstep => h.redoRequest hstep
  | .pickPeer idx order, hstep => by cases hstep; exact h.pickPeer idx order
  | .storePeer idx, hstep => by cases hstep; exact h.storePeer idx
  | .takeRedo idx, hstep => by cases hstep; exact h.takeRedo idx
  | .quit idx, hstep => by cases hstep; exact h.quit idx

end Events

section Runs

variable [DecidableEq ID] {pool' : BlockPool ID B}

omit [DecidableEq ID] in
theorem PoolInv.init (start : Int) : PoolInv blockHeight (newBlockPool start : BlockPool ID B) where
  requesters :=
    { keys := fun k => by
        simp only [Blockchain.newBlockPool, GoMap.length, GoMap.empty, GoMap.get, List.lookup,
          Option.isSome_none, Bool.false_eq_true, false_iff, List.length_nil]
        omega
      objects := fun k idx hget => by simp [Blockchain.newBlockPool] at hget
      block := fun r hr => by simp [Blockchain.newBlockPool] at hr
      numPending := rfl }
  peers := ⟨Int.le_refl 0, fun peer hpeer => by simp [Blockchain.newBlockPool, GoMap.values, GoMap.empty] at hpeer⟩

theorem PoolInv.run :
    ∀ (events : List (PoolEvent ID B)) {pool : BlockPool ID B}, PoolInv blockHeight pool →
      poolRun blockHeight pool events = some pool' → PoolInv blockHeight pool'
  | [], _, h, hrun => by
    cases hrun
    exact h
  | e :: events, pool, h, hrun => by
    unfold poolRun at hrun
    obtain ⟨pool₁, hstep, hrest⟩ := Option.bind_eq_some_iff.mp hrun
    exact PoolInv.run events (h.apply hstep) hrest

/-- Every run from `NewBlockPool` keeps the invariant. -/
theorem poolRun_inv (start : Int) (events : List (PoolEvent ID B))
    (hrun : poolRun blockHeight (newBlockPool start) events = some pool') : PoolInv blockHeight pool' :=
  PoolInv.run blockHeight events (PoolInv.init blockHeight start) hrun

/-- Peer 7 reports heights 1 to 2.  Two requesters are made, each picks the
peer and stores it, and the peer sends both blocks; a block is its height. -/
def syncedRun : List (PoolEvent Nat Int) :=
  [.setPeerRange 7 1 2, .makeNextRequester, .makeNextRequester, .pickPeer 0 [7], .storePeer 0,
    .pickPeer 1 [7], .storePeer 1, .addBlock 7 1, .addBlock 7 2]

theorem poolRun_inv_syncedRun : ∃ pool, poolRun id (newBlockPool 1) syncedRun = some pool ∧ PoolInv id pool := by
  obtain ⟨pool, hrun⟩ := Option.isSome_iff_exists.mp
    (by decide : (poolRun id (newBlockPool 1) syncedRun).isSome = true)
  exact ⟨pool, hrun, poolRun_inv id 1 syncedRun hrun⟩

end Runs

/-! ## Where the bookkeeping diverges -/

/-- The requesters of the map that hold no block. -/
def BlockPool.pendingInMap (pool : BlockPool ID B) : Nat :=
  (pool.requesters.values.filterMap fun idx => pool.objects[idx]?).countP fun r => r.block.isNone

/-- After the blocks are peeked, the peer is removed, the requester of height
1 takes its redo and resets, and then it is popped. -/
def resetThenPopRun : List (PoolEvent Nat Int) :=
  syncedRun ++ [.removePeer 7, .takeRedo 0, .popRequest]

/-- Peer 7 reports height 10, then height 5. -/
def loweredRun : List (PoolEvent Nat Int) :=
  [.setPeerRange 7 0 10, .setPeerRange 7 0 5]

theorem pool_bookkeeping_diverges :
    (poolRun id (newBlockPool 1) syncedRun).map BlockPool.peekTwoBlocks = some (some 1, some 2) ∧
      (poolRun id (newBlockPool 1) resetThenPopRun).map
          (fun pool => (pool.numPending, pool.pendingInMap, pool.requesters.length)) = some (1, 0, 1) ∧
      (poolRun id (newBlockPool 1) loweredRun).map
          (fun pool => (pool.maxPeerHeight, pool.peers.values.map (·.height))) = some (10, [5]) := by
  decide

end Ostracon.Blockchain
