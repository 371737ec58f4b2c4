import Ostracon.Lib.SortedMap
import Mathlib.Data.Int.Order.Basic
import Mathlib.Tactic.SplitIfs
/-!
# The trusted store of the light client

The model of `light/store/db/db.go` and of the calls `light/client.go` makes
on it when it rolls back.  A `dbs` keeps the light blocks under its prefix at
the keys `lb/<prefix>/%020d`, which sort as their heights, so its database is
a `SortedMap.Map` from heights to blocks; beside it sit the `uint16` counter
`size` and the database's `size` key.

The counter is exact only as long as no call saves a height that is already
stored or deletes one that is not (`SizeExact.run`): `SaveLightBlock` and
`DeleteLightBlock` move it by one whatever the database holds, and `Prune`
trusts it.  `lightBlockBefore_eq_ok_iff` and `Prune`'s `lt_of_mem_prune`
state what the reads and the pruning return.

`cleanupAfter` walks down from the latest trusted height with
`LightBlockBefore`, whose bound is exclusive, so it never deletes the block
it starts from: `cleanupAfter_spec` shows that it keeps the blocks up to the
rollback height and the latest one, which `restoreTrustedLightBlock` then
reads back as the latest trusted block.
-/

namespace Ostracon.Light.Store

open SortedMap

/-! ## The store -/

/-- `dbs`, without its mutex and prefix. -/
structure Dbs (LB : Type) where
  blocks : Map Int LB
  size : UInt16
  sizeKey : UInt16

/-- `store.ErrLightBlockNotFound`. -/
inductive StoreError
  | lightBlockNotFound
  deriving DecidableEq, Repr

variable {LB : Type}

/-- `New` over a database holding `blocks`, whose `size` key reads as
`persisted` (0 when it is absent). -/
def new (blocks : Map Int LB) (persisted : UInt16) : Dbs LB := ⟨blocks, persisted, persisted⟩

namespace Dbs

variable (s : Dbs LB)

/-- `SaveLightBlock`; `none` is its panic on a height that is not positive.
The batch writes the block and `size + 1`. -/
def saveLightBlock (height : Int) (lb : LB) : Option (Dbs LB) :=
  if height ≤ 0 then none
  else some ⟨s.blocks.insert height lb, s.size + 1, s.size + 1⟩

/-- `DeleteLightBlock`; `none` is its panic on a height that is not
positive.  The batch deletes the key and writes `size - 1`. -/
def deleteLightBlock (height : Int) : Option (Dbs LB) :=
  if height ≤ 0 then none
  else some ⟨s.blocks.erase height, s.size - 1, s.size - 1⟩

/-- `LightBlock`. -/
def lightBlock (height : Int) : Option (Except StoreError LB) :=
  if height ≤ 0 then none
  else some ((s.blocks.get? height).elim (.error .lightBlockNotFound) .ok)

/-- `LastLightBlockHeight`: the last key of the forward range, `-1` if none. -/
def lastLightBlockHeight : Int := (s.blocks.entries.getLast?.map Prod.fst).getD (-1)

/-- `FirstLightBlockHeight`: the first key of the range, `-1` if none. -/
def firstLightBlockHeight : Int := (s.blocks.entries.head?.map Prod.fst).getD (-1)

/-- `LightBlockBefore`: the first key of the reverse range below `height`,
and its block. -/
def lightBlockBefore (height : Int) : Option (Except StoreError (Int × LB)) :=
  if height ≤ 0 then none
  else some ((s.blocks.lastBelow height).elim (.error .lightBlockNotFound) .ok)

/-- `Prune`: the number to prune is read from the counter, the iterator
deletes that many keys from the lowest, and the counter loses the number of
keys it met. -/
def prune (size : UInt16) : Dbs LB :=
  if s.size ≤ size then s
  else
    let numToPrune := s.size - size
    let pruned := min numToPrune.toNat s.blocks.entries.length
    ⟨s.blocks.dropFirst numToPrune.toNat, s.size - pruned.toUInt16, s.size - pruned.toUInt16⟩

end Dbs

/-! ## Runs of store calls -/

/-- The calls that change a `dbs`. -/
inductive StoreCall (LB : Type)
  | save (height : Int) (lb : LB)
  | delete (height : Int)
  | prune (size : UInt16)

/-- One call; `none` is a panic. -/
def Dbs.call (s : Dbs LB) : StoreCall LB → Option (Dbs LB)
  | .save height lb => s.saveLightBlock height lb
  | .delete height => s.deleteLightBlock height
  | .prune size => some (s.prune size)

/-- A run of calls. -/
def Dbs.run : Dbs LB → List (StoreCall LB) → Option (Dbs LB)
  | s, [] => some s
  | s, c :: cs => (s.call c).bind fun s' => s'.run cs

/-- The counter and the `size` key count the stored blocks. -/
def SizeExact (s : Dbs LB) : Prop :=
  s.size.toNat = s.blocks.entries.length ∧ s.sizeKey = s.size

/-- A call that keeps the counter honest: a save of a height not stored yet,
below `2 ^ 16` blocks, a delete of a stored height, or a prune. -/
def StoreCall.Counted (s : Dbs LB) : StoreCall LB → Prop
  | .save height _ => height ∉ s.blocks.keys ∧ s.blocks.entries.length + 1 < 2 ^ 16
  | .delete height => height ∈ s.blocks.keys
  | .prune _ => True

/-- Every call of the run is counted at the state it meets. -/
def Dbs.CountedRun : Dbs LB → List (StoreCall LB) → Prop
  | _, [] => True
  | s, c :: cs => c.Counted s ∧ ∀ s', s.call c = some s' → s'.CountedRun cs

/-! ## The counter -/

section Size

variable {s s' : Dbs LB}

theorem SizeExact.saveLightBlock {height : Int} {lb : LB} (hs : SizeExact s)
    (hnew : height ∉ s.blocks.keys) (hroom : s.blocks.entries.length + 1 < 2 ^ 16)
    (h : s.saveLightBlock height lb = some s') : SizeExact s' := by
  unfold Dbs.saveLightBlock at h
  split_ifs at h
  cases h
  refine ⟨?_, rfl⟩
  rw [UInt16.toNat_add, hs.1]
  simp only [length_insert, if_neg hnew]
  show (s.blocks.entries.length + 1) % 2 ^ 16 = s.blocks.entries.length + 1
  omega

theorem SizeExact.deleteLightBlock {height : Int} (hs : SizeExact s)
    (hmem : height ∈ s.blocks.keys) (h : s.deleteLightBlock height = some s') : SizeExact s' := by
  unfold Dbs.deleteLightBlock at h
  split_ifs at h
  cases h
  have hlen : 1 ≤ s.blocks.entries.length := by
    have : s.blocks.keys.length = s.blocks.entries.length := List.length_map _
    have := List.length_pos_of_mem hmem
    omega
  refine ⟨?_, rfl⟩
  rw [UInt16.toNat_sub_of_le _ _ (by rw [UInt16.le_iff_toNat_le, hs.1]; exact hlen), hs.1]
  simp only [length_erase, if_pos hmem]
  rfl

/-- With an exact counter `Prune(n)` keeps the last `n` blocks, all of them if
there are fewer. -/
theorem prune_entries (hs : SizeExact s) (n : UInt16) :
    (s.prune n).blocks.entries = s.blocks.entries.drop (s.blocks.entries.length - n.toNat) := by
  have hsz := hs.1
  unfold Dbs.prune
  split_ifs with hle
  · rw [UInt16.le_iff_toNat_le, hs.1] at hle
    rw [Nat.sub_eq_zero_of_le hle, List.drop_zero]
  · rw [UInt16.le_iff_toNat_le, hs.1] at hle
    show s.blocks.entries.drop (s.size - n).toNat = _
    rw [UInt16.toNat_sub_of_le _ _ (by rw [UInt16.le_iff_toNat_le]; omega), hs.1]

theorem SizeExact.prune (hs : SizeExact s) (n : UInt16) : SizeExact (s.prune n) := by
  have hsz := hs.1
  unfold Dbs.prune
  split_ifs with hle
  · exact hs
  · rw [UInt16.le_iff_toNat_le, hs.1] at hle
    refine ⟨?_, rfl⟩
    have hnum : (s.size - n).toNat = s.blocks.entries.length - n.toNat := by
      rw [UInt16.toNat_sub_of_le _ _ (by rw [UInt16.le_iff_toNat_le]; omega), hs.1]
    have hpruned : (min (s.size - n).toNat s.blocks.entries.length).toUInt16.toNat =
        s.blocks.entries.length - n.toNat := by
      rw [hnum, Nat.min_eq_left (by omega)]
      have := s.size.toNat_lt
      simp only [Nat.toUInt16, UInt16.toNat_ofNat']
      omega
    show (s.size - (min (s.size - n).toNat s.blocks.entries.length).toUInt16).toNat =
      (s.blocks.dropFirst (s.size - n).toNat).entries.length
    rw [UInt16.toNat_sub_of_le _ _ (by rw [UInt16.le_iff_toNat_le, hpruned, hs.1]; omega), hpruned,
      hs.1, Map.dropFirst, List.length_drop, hnum]

theorem SizeExact.call {c : StoreCall LB} (hs : SizeExact s) (hc : c.Counted s)
    (h : s.call c = some s') : SizeExact s' := by
  cases c with
  | save height lb => exact hs.saveLightBlock hc.1 hc.2 h
  | delete height => exact hs.deleteLightBlock hc h
  | prune n =>
    cases h
    exact hs.prune n

/-- Over a run of counted calls the counter and the `size` key stay exact. -/
theorem SizeExact.run : ∀ {s s' : Dbs LB} {cs : List (StoreCall LB)},
    SizeExact s → s.CountedRun cs → s.run cs = some s' → SizeExact s'
  | _, _, [], hs, _, h => by
    cases h
    exact hs
  | s, s', c :: cs, hs, hrun, h => by
    obtain ⟨hc, hrest⟩ := hrun
    cases hcall : s.call c with
    | none => simp [Dbs.run, hcall] at h
    | some s₁ =>
      simp only [Dbs.run, hcall, Option.bind_some] at h
      exact SizeExact.run (hs.call hc hcall) (hrest s₁ hcall) h

/-- From `New` over an empty database, a run of counted calls leaves the
counter and the `size` key exact, and `Prune(n)` then keeps the last `n`
blocks, or all of them. -/
theorem countedRun_prune_keeps_last {cs : List (StoreCall LB)} {s : Dbs LB}
    (hcounted : (new SortedMap.empty 0 : Dbs LB).CountedRun cs)
    (hrun : (new SortedMap.empty 0 : Dbs LB).run cs = some s) (n : UInt16) :
    SizeExact s ∧
      (s.prune n).blocks.entries = s.blocks.entries.drop (s.blocks.entries.length - n.toNat) := by
  have hs := SizeExact.run (s := new SortedMap.empty 0) ⟨rfl, rfl⟩ hcounted hrun
  exact ⟨hs, prune_entries hs n⟩

/-- Three blocks saved and the first deleted. -/
def threeSavedOneDeleted : List (StoreCall Nat) := [.save 1 10, .save 2 20, .save 3 30, .delete 1]

theorem countedRun_prune_keeps_last_threeSaved :
    (new SortedMap.empty 0 : Dbs Nat).CountedRun threeSavedOneDeleted ∧
      ∃ s, (new SortedMap.empty 0 : Dbs Nat).run threeSavedOneDeleted = some s ∧ SizeExact s ∧
        (s.prune 1).blocks.entries = s.blocks.entries.drop (s.blocks.entries.length - 1) := by
  have hcounted : (new SortedMap.empty 0 : Dbs Nat).CountedRun threeSavedOneDeleted := by
    simp [threeSavedOneDeleted, Dbs.CountedRun, StoreCall.Counted, Dbs.call, Dbs.saveLightBlock,
      Dbs.deleteLightBlock, new]
    decide
  obtain ⟨s, hrun⟩ := Option.isSome_iff_exists.mp
    (by decide : ((new SortedMap.empty 0 : Dbs Nat).run threeSavedOneDeleted).isSome = true)
  exact ⟨hcounted, s, hrun, countedRun_prune_keeps_last hcounted hrun 1⟩

end Size

/-! ## Reads -/

section Reads

variable (s : Dbs LB)

theorem lightBlockBefore_eq_ok_iff {height : Int} (hpos : 0 < height) (e : Int × LB) :
    s.lightBlockBefore height = some (.ok e) ↔
      e ∈ s.blocks.entries ∧ e.1 < height ∧ ∀ e' ∈ s.blocks.entries, e'.1 < height → e'.1 ≤ e.1 := by
  rw [← lastBelow_eq_some_iff]
  unfold Dbs.lightBlockBefore
  rw [if_neg (by omega)]
  cases s.blocks.lastBelow height <;> simp

theorem lightBlockBefore_eq_notFound_iff {height : Int} (hpos : 0 < height) :
    s.lightBlockBefore height = some (.error .lightBlockNotFound) ↔
      ∀ e ∈ s.blocks.entries, ¬ e.1 < height := by
  rw [← lastBelow_eq_none_iff]
  unfold Dbs.lightBlockBefore
  rw [if_neg (by omega)]
  cases s.blocks.lastBelow height <;> simp

theorem lastLightBlockHeight_spec {l : Int × LB} (hl : s.blocks.entries.getLast? = some l) :
    s.lastLightBlockHeight = l.1 ∧ ∀ e ∈ s.blocks.entries, e.1 ≤ s.lastLightBlockHeight := by
  have heq : s.lastLightBlockHeight = l.1 := by
    rw [Dbs.lastLightBlockHeight, hl]
    rfl
  exact ⟨heq, fun e he => heq ▸ le_of_getLast? s.blocks hl he⟩

end Reads

/-! ## Rolling back the client -/

/-- `Client`, by the two fields a rollback reads and writes. -/
structure Client (LB : Type) where
  trustedStore : Dbs LB
  latestTrustedBlock : Option (Int × LB)

/-- The errors of `restoreTrustedLightBlock`. -/
inductive ClientError
  /-- "can't get last trusted light block: %w" -/
  | lastTrustedLightBlock (err : StoreError)
  deriving DecidableEq, Repr

/-- `restoreTrustedLightBlock`; `none` is a panic of the store. -/
def Client.restoreTrustedLightBlock (c : Client LB) : Option (Except ClientError (Client LB)) :=
  let lastHeight := c.trustedStore.lastLightBlockHeight
  if lastHeight > 0 then
    match c.trustedStore.lightBlock lastHeight with
    | none => none
    | some (.error err) => some (.error (.lastTrustedLightBlock err))
    | some (.ok lb) => some (.ok { c with latestTrustedBlock := some (lastHeight, lb) })
  else some (.ok c)

theorem lt_of_lightBlockBefore {s : Dbs LB} {height : Int} {e : Int × LB}
    (h : s.lightBlockBefore height = some (.ok e)) : e.1 < height := by
  unfold Dbs.lightBlockBefore at h
  split_ifs at h with hle
  cases hb : s.blocks.lastBelow height with
  | none => rw [hb] at h; cases h
  | some e' =>
    rw [hb] at h
    cases h
    exact ((lastBelow_eq_some_iff _ _ _).mp hb).2.1

theorem pos_of_deleteLightBlock {s s' : Dbs LB} {height : Int}
    (h : s.deleteLightBlock height = some s') : 0 < height := by
  unfold Dbs.deleteLightBlock at h
  split_ifs at h with hle
  omega

/-- The loop of `cleanupAfter`: from `prevHeight` down, delete the block
below it while its height is above `height`.  `none` is a panic. -/
def cleanupLoop (height : Int) (s : Dbs LB) (prevHeight : Int) : Option (Dbs LB) :=
  match _ : s.lightBlockBefore prevHeight with
  | none => none
  | some (.error _) => some s
  | some (.ok e) =>
    if e.1 ≤ height then some s
    else
      match _ : s.deleteLightBlock e.1 with
      | none => none
      | some s' => cleanupLoop height s' e.1
termination_by prevHeight.toNat
decreasing_by
  have hlt := lt_of_lightBlockBefore ‹s.lightBlockBefore prevHeight = some (.ok e)›
  have hpos := pos_of_deleteLightBlock ‹s.deleteLightBlock e.1 = some s'›
  omega

theorem deleteLightBlock_entries {s s' : Dbs LB} {height : Int} (h : s.deleteLightBlock height = some s') :
    s'.blocks.entries = s.blocks.entries.filter (fun e => e.1 ≠ height) := by
  unfold Dbs.deleteLightBlock at h
  split_ifs at h
  cases h
  rfl

/-- The loop deletes exactly the blocks strictly between `height` and
`prevHeight`: the block at `prevHeight` itself is never read, since the bound
of `LightBlockBefore` is exclusive. -/
theorem cleanupLoop_spec (height : Int) :
    ∀ (n : Nat) (s : Dbs LB) (prevHeight : Int), prevHeight.toNat = n → 0 < prevHeight →
      (∀ e ∈ s.blocks.entries, 0 < e.1) →
      ∃ s', cleanupLoop height s prevHeight = some s' ∧
        s'.blocks.entries = s.blocks.entries.filter (fun e => e.1 ≤ height ∨ prevHeight ≤ e.1) ∧
        (SizeExact s → SizeExact s') := by
  intro n
  induction n using Nat.strongRecOn with
  | ind n ih =>
  intro s prevHeight hn hprev hpos
  unfold cleanupLoop
  split
  · -- `LightBlockBefore` does not panic on a positive height
    rename_i hb
    simp [Dbs.lightBlockBefore, show ¬ prevHeight ≤ 0 by omega] at hb
  · -- nothing below `prevHeight`: the loop stops at once
    rename_i err hb
    cases err
    have hnone := (lightBlockBefore_eq_notFound_iff s hprev).mp hb
    refine ⟨s, rfl, ?_, id⟩
    symm
    rw [List.filter_eq_self]
    intro e he
    simpa using Or.inr (not_lt.mp (hnone e he))
  · rename_i e hb
    obtain ⟨he, hlt, hmax⟩ := (lightBlockBefore_eq_ok_iff s hprev e).mp hb
    split_ifs with hle
    · -- the next block down is already at or below `height`
      refine ⟨s, rfl, ?_, id⟩
      symm
      rw [List.filter_eq_self]
      intro x hx
      by_cases hxp : x.1 < prevHeight
      · simpa using Or.inl (le_trans (hmax x hx hxp) hle)
      · simpa using Or.inr (not_lt.mp hxp)
    · split
      · rename_i hd
        simp [Dbs.deleteLightBlock, show ¬ e.1 ≤ 0 by have := hpos e he; omega] at hd
      · rename_i s₁ hd
        have hs₁ := deleteLightBlock_entries hd
        have hpos₁ : ∀ x ∈ s₁.blocks.entries, 0 < x.1 := by
          intro x hx
          rw [hs₁] at hx
          exact hpos x (List.mem_of_mem_filter hx)
        obtain ⟨s₂, hloop, hentries, hsize⟩ :=
          ih e.1.toNat (by have := hpos e he; omega) s₁ e.1 rfl (hpos e he) hpos₁
        refine ⟨s₂, hloop, ?_, fun hs => hsize (hs.deleteLightBlock ?_ hd)⟩
        · -- deleting `e` and then the blocks between `height` and `e` is deleting
          -- the blocks between `height` and `prevHeight`, as `e` is the greatest below it
          rw [hentries, hs₁, List.filter_filter]
          apply List.filter_congr
          intro x hx
          have hiff : (x.1 ≤ height ∨ e.1 ≤ x.1) ∧ x.1 ≠ e.1 ↔ x.1 ≤ height ∨ prevHeight ≤ x.1 := by
            constructor
            · rintro ⟨hx₁ | hx₁, hne⟩
              · exact .inl hx₁
              · by_cases hxp : x.1 < prevHeight
                · exact absurd (le_antisymm (hmax x hx hxp) hx₁) hne
                · exact .inr (not_lt.mp hxp)
            · rintro (hx₁ | hx₁)
              · exact ⟨.inl hx₁, fun h => hle (h ▸ hx₁)⟩
              · exact ⟨.inr (by omega), by omega⟩
          rw [Bool.eq_iff_iff]
          simpa using hiff
        · exact List.mem_map_of_mem he

/-- `cleanupAfter`; `none` is a panic, on a client with no latest trusted
block among others. -/
def Client.cleanupAfter (c : Client LB) (height : Int) : Option (Except ClientError (Client LB)) :=
  match c.latestTrustedBlock with
  | none => none
  | some latest =>
    match cleanupLoop height c.trustedStore latest.1 with
    | none => none
    | some s => Client.restoreTrustedLightBlock ⟨s, none⟩

/-- `cleanupAfter` keeps the blocks at or below `height` and the latest
trusted block, the last one of the store, and restores that block as the
latest: the rollback removes `(height, latest)`, not `(height, latest]`. -/
theorem cleanupAfter_spec (c : Client LB) (height : Int) {latest : Int × LB}
    (hlatest : c.latestTrustedBlock = some latest)
    (hlast : c.trustedStore.blocks.entries.getLast? = some latest)
    (hpos : ∀ e ∈ c.trustedStore.blocks.entries, 0 < e.1) :
    ∃ c', c.cleanupAfter height = some (.ok c') ∧
      c'.trustedStore.blocks.entries =
        c.trustedStore.blocks.entries.filter (fun e => e.1 ≤ height ∨ latest.1 ≤ e.1) ∧
      c'.latestTrustedBlock = some latest ∧
      (SizeExact c.trustedStore → SizeExact c'.trustedStore) := by
  have hmem : latest ∈ c.trustedStore.blocks.entries := List.mem_of_getLast? hlast
  obtain ⟨s, hloop, hentries, hsize⟩ :=
    cleanupLoop_spec height _ c.trustedStore latest.1 rfl (hpos latest hmem) hpos
  -- the latest block is still the last one of the store
  have hlast' : s.blocks.entries.getLast? = some latest := by
    obtain ⟨pre, hpre⟩ := List.getLast?_eq_some_iff.mp hlast
    rw [hentries, hpre, List.filter_append]
    simp
  have hheight : s.lastLightBlockHeight = latest.1 := (lastLightBlockHeight_spec s hlast').1
  have hget : s.blocks.get? latest.1 = some latest.2 :=
    get?_of_mem s.blocks (List.mem_of_getLast? hlast')
  have hpos' : ¬ latest.1 ≤ 0 := by have := hpos latest hmem; omega
  refine ⟨⟨s, some latest⟩, ?_, hentries, rfl, hsize⟩
  simp only [Client.cleanupAfter, hlatest, hloop, Client.restoreTrustedLightBlock, hheight,
    Dbs.lightBlock, if_neg hpos', hget, gt_iff_lt, if_pos (show 0 < latest.1 by omega)]
  rfl

/-- A trusted store of two blocks, at heights 1 and 2, the latest at 2. -/
def twoBlockClient : Client Nat := ⟨new ⟨[(1, 10), (2, 20)], by decide⟩ 2, some (2, 20)⟩

/-- Rolling back to height 1 deletes nothing: block 2 stays, and stays the
latest trusted block. -/
theorem cleanupAfter_keeps_latest_block :
    ∃ c', twoBlockClient.cleanupAfter 1 = some (.ok c') ∧
      c'.trustedStore.blocks.entries = [(1, 10), (2, 20)] ∧ c'.latestTrustedBlock = some (2, 20) := by
  obtain ⟨c', h, hentries, hlatest, -⟩ := cleanupAfter_spec twoBlockClient 1 rfl rfl (by decide)
  refine ⟨c', h, ?_, hlatest⟩
  rw [hentries]
  decide

/-- Saving one height twice counts it twice, deleting an absent height wraps
the counter, and `Prune(1)` then trusts the counter and deletes the only
block: (size, blocks) after each run. -/
theorem saveLightBlock_resave_miscounts :
    ((new SortedMap.empty 0 : Dbs Nat).run [.save 1 10, .save 1 10]).map
        (fun s => (s.size, s.blocks.entries.length)) = some (2, 1) ∧
      ((new SortedMap.empty 0 : Dbs Nat).run [.delete 5]).map
        (fun s => (s.size, s.blocks.entries.length)) = some (65535, 0) ∧
      ((new SortedMap.empty 0 : Dbs Nat).run [.save 1 10, .save 1 10, .prune 1]).map
        (fun s => (s.size, s.blocks.entries.length)) = some (1, 0) := by
  decide

end Ostracon.Light.Store
