import Ostracon.Store.BlockStore
/-!
# Crash consistency of the block store

What the block store's database holds at every state a crash can leave
behind and a concurrent reader can see.

* `Stored iface db height k`: `LoadBlock(k)` returns a block of height `k`,
  and the seen commit of `k` and, below `height`, its block commit are
  there.
* `Consistent db v`: the view `v = (Base, Height)` is the empty store or a
  range whose every block is stored.  `ConsistentAbove` asks it of the
  blocks strictly above the base only.
* `saveBlock_spec`: from a consistent store, every state of `SaveBlock`,
  the one it leaves included, is consistent in memory and on disk.
-/

namespace Ostracon.Store

open Ostracon.Types Ostracon.Crypto.Merkle Traced

variable {Blk C : Type}

/-! ## The database, height by height -/

attribute [simp] DB.setBlockMeta DB.setBlockPart DB.setBlockCommit DB.setSeenCommit
  DB.setBlockHash DB.setBlockStoreState

/-- The height a key belongs to; an entry of the hash index belongs to none. -/
def Key.height : Key → Option Int
  | .blockMeta h | .blockPart h _ | .blockCommit h | .seenCommit h => some h
  | .blockHash _ => none

/-- Two databases hold the same data at height `k`. -/
structure DB.AgreeAt (k : Int) (db db' : DB C) : Prop where
  blockMeta : db'.blockMeta k = db.blockMeta k
  blockPart : ∀ i, db'.blockPart (k, i) = db.blockPart (k, i)
  blockCommit : db'.blockCommit k = db.blockCommit k
  seenCommit : db'.seenCommit k = db.seenCommit k

namespace DB

variable {k : Int} {db db' db'' : DB C}

theorem AgreeAt.refl (k : Int) (db : DB C) : AgreeAt k db db := ⟨rfl, fun _ => rfl, rfl, rfl⟩

theorem AgreeAt.trans (h₁ : AgreeAt k db db') (h₂ : AgreeAt k db' db'') : AgreeAt k db db'' :=
  ⟨h₂.blockMeta.trans h₁.blockMeta, fun i => (h₂.blockPart i).trans (h₁.blockPart i),
    h₂.blockCommit.trans h₁.blockCommit, h₂.seenCommit.trans h₁.seenCommit⟩

theorem agreeAt_delete {key : Key} (h : key.height ≠ some k) : AgreeAt k db (db.delete key) := by
  cases key with
  | blockMeta j | blockCommit j | seenCommit j =>
    have hj : k ≠ j := fun e => h (by rw [e]; rfl)
    constructor <;> simp [delete, hj]
  | blockPart j i =>
    have hj : k ≠ j := fun e => h (by rw [e]; rfl)
    constructor <;> simp [delete, hj]
  | blockHash hash => constructor <;> simp [delete]

theorem writeBatch_cons (db : DB C) (key : Key) (batch : List Key) :
    db.writeBatch (key :: batch) = (db.delete key).writeBatch batch := rfl

theorem writeBatch_append (db : DB C) (batch batch' : List Key) :
    db.writeBatch (batch ++ batch') = (db.writeBatch batch).writeBatch batch' :=
  List.foldl_append

theorem agreeAt_writeBatch {batch : List Key} (h : ∀ key ∈ batch, key.height ≠ some k) :
    AgreeAt k db (db.writeBatch batch) := by
  induction batch generalizing db with
  | nil => exact .refl k db
  | cons key batch ih =>
    rw [writeBatch_cons]
    exact (agreeAt_delete (h key (List.mem_cons_self ..))).trans
      (ih fun key' hk => h key' (List.mem_cons_of_mem _ hk))

@[simp] theorem writeBatch_blockStore (db : DB C) (batch : List Key) :
    (db.writeBatch batch).blockStore = db.blockStore := by
  induction batch generalizing db with
  | nil => rfl
  | cons key batch ih =>
    rw [writeBatch_cons, ih]
    cases key <;> rfl

/-- The database holds nothing under `key`. -/
def Absent (db : DB C) : Key → Prop
  | .blockMeta h => db.blockMeta h = none
  | .blockPart h i => db.blockPart (h, i) = none
  | .blockCommit h => db.blockCommit h = none
  | .seenCommit h => db.seenCommit h = none
  | .blockHash hash => db.blockHash hash = none

theorem absent_delete_self (db : DB C) (key : Key) : (db.delete key).Absent key := by
  cases key <;> simp [delete, Absent]

theorem Absent.delete {key : Key} (h : db.Absent key) (key' : Key) : (db.delete key').Absent key := by
  -- a delete of another map, or of another key of the same map, leaves it as it was
  cases key <;> cases key' <;> simp only [DB.delete, Absent, Function.update_apply] at h ⊢ <;>
    (try split_ifs) <;> first | rfl | exact h

theorem Absent.writeBatch {key : Key} (h : db.Absent key) (batch : List Key) :
    (db.writeBatch batch).Absent key := by
  induction batch generalizing db with
  | nil => exact h
  | cons key' batch ih =>
    rw [writeBatch_cons]
    exact ih (h.delete key')

theorem absent_writeBatch_of_mem {batch : List Key} {key : Key} (hmem : key ∈ batch) :
    (db.writeBatch batch).Absent key := by
  induction batch generalizing db with
  | nil => cases hmem
  | cons key' batch ih =>
    rw [writeBatch_cons]
    rcases List.mem_cons.mp hmem with rfl | hmem
    · exact (absent_delete_self db key).writeBatch batch
    · exact ih hmem

theorem Absent.setBlockStoreState {key : Key} (h : db.Absent key) (bss : BlockStoreState) :
    (db.setBlockStoreState bss).Absent key := by
  cases key <;> exact h

theorem writeBatch_with_blockStore (db : DB C) (x : Option BlockStoreState) (batch : List Key) :
    ({ db with blockStore := x } : DB C).writeBatch batch = { db.writeBatch batch with blockStore := x } := by
  induction batch generalizing db with
  | nil => rfl
  | cons key batch ih =>
    rw [writeBatch_cons, writeBatch_cons, ← ih]
    cases key <;> rfl

theorem agreeAt_setBlockMeta {h : Int} (hk : k ≠ h) (blockMeta : BlockMeta) :
    AgreeAt k db (db.setBlockMeta h blockMeta) := by
  constructor <;> simp [hk]

theorem agreeAt_setBlockPart {h : Int} (hk : k ≠ h) (i : Nat) (part : Part) :
    AgreeAt k db (db.setBlockPart h i part) := by
  constructor <;> simp [hk]

theorem agreeAt_setBlockHash (hash : Bytes) (h : Int) : AgreeAt k db (db.setBlockHash hash h) := by
  constructor <;> simp

theorem agreeAt_setBlockStoreState (bss : BlockStoreState) :
    AgreeAt k db (db.setBlockStoreState bss) := by
  constructor <;> simp

end DB

theorem loadBlockStoreState_congr {db db' : DB C} (h : db'.blockStore = db.blockStore) :
    loadBlockStoreState db' = loadBlockStoreState db := by
  unfold loadBlockStoreState
  rw [h]

theorem loadBlockStoreState_setBlockStoreState {db : DB C} {v : BlockStoreState}
    (hv : v.base = 0 ↔ v.height = 0) : loadBlockStoreState (db.setBlockStoreState v) = v := by
  simp only [loadBlockStoreState, DB.setBlockStoreState]
  split_ifs with h
  · omega
  · rfl

/-! ## Stored blocks -/

private theorem mapM_congr_mem {α β : Type} {f g : α → Option β} :
    ∀ {l : List α}, (∀ a ∈ l, f a = g a) → l.mapM f = l.mapM g
  | [], _ => rfl
  | a :: l, h => by
    rw [List.mapM_cons, List.mapM_cons, h a (List.mem_cons_self ..),
      mapM_congr_mem fun b hb => h b (List.mem_cons_of_mem _ hb)]

private theorem isSome_of_mapM_eq_some {α β : Type} {f : α → Option β} :
    ∀ {l : List α} {l' : List β}, l.mapM f = some l' → ∀ a ∈ l, (f a).isSome
  | [], _, _, a, ha => by cases ha
  | b :: l, l', h, a, ha => by
    rw [List.mapM_cons] at h
    obtain ⟨x, hx, h⟩ := Option.bind_eq_some_iff.mp h
    obtain ⟨xs, hxs, -⟩ := Option.bind_eq_some_iff.mp h
    rcases List.mem_cons.mp ha with rfl | ha
    · simp [hx]
    · exact isSome_of_mapM_eq_some hxs a ha

section Stored

variable (iface : BlockIface Blk C)

/-- The block at height `k` is in the database: `LoadBlock(k)` returns a block
of height `k`, its seen commit is there and, below `height`, so is its block
commit. -/
structure Stored (db : DB C) (height k : Int) : Prop where
  load : ∃ block, loadBlock iface db k = some (some block) ∧ iface.height block = k
  seenCommit : (db.seenCommit k).isSome
  blockCommit : k < height → (db.blockCommit k).isSome

variable {iface} {db db' : DB C} {height k : Int}

theorem blockMeta_of_loadBlock {block : Blk} (h : loadBlock iface db k = some (some block)) :
    ∃ blockMeta, db.blockMeta k = some blockMeta ∧
      ∀ i < blockMeta.blockID.partSetHeader.total.toNat, (db.blockPart (k, i)).isSome := by
  unfold loadBlock at h
  split at h
  · cases h
  · rename_i blockMeta hmeta
    refine ⟨blockMeta, hmeta, fun i hi => ?_⟩
    split at h
    · cases h
    · rename_i parts hparts
      exact isSome_of_mapM_eq_some hparts i (List.mem_range.mpr hi)

theorem loadBlock_congr (hm : db'.blockMeta k = db.blockMeta k)
    (hp : ∀ i, db'.blockPart (k, i) = db.blockPart (k, i)) :
    loadBlock iface db' k = loadBlock iface db k := by
  simp only [loadBlock, hm, hp]

theorem Stored.congr (h : Stored iface db height k) (hm : db'.blockMeta k = db.blockMeta k)
    (hp : ∀ i, db'.blockPart (k, i) = db.blockPart (k, i))
    (hs : (db.seenCommit k).isSome → (db'.seenCommit k).isSome)
    (hc : (db.blockCommit k).isSome → (db'.blockCommit k).isSome) : Stored iface db' height k := by
  obtain ⟨⟨block, hload, hheight⟩, hseen, hcommit⟩ := h
  refine ⟨⟨block, ?_, hheight⟩, hs hseen, fun hk => hc (hcommit hk)⟩
  rw [loadBlock_congr hm hp, hload]

theorem Stored.of_agreeAt (h : Stored iface db height k) (ha : DB.AgreeAt k db db') :
    Stored iface db' height k :=
  h.congr ha.blockMeta ha.blockPart (by rw [ha.seenCommit]; exact id)
    (by rw [ha.blockCommit]; exact id)

theorem Stored.setBlockCommit (h : Stored iface db height k) (j : Int) (commit : C) :
    Stored iface (db.setBlockCommit j commit) height k :=
  h.congr rfl (fun _ => rfl) id fun hc => by
    by_cases hk : k = j <;> simp [hk, hc]

theorem Stored.setSeenCommit (h : Stored iface db height k) (j : Int) (commit : C) :
    Stored iface (db.setSeenCommit j commit) height k :=
  h.congr rfl (fun _ => rfl) (fun hs => by
    by_cases hk : k = j <;> simp [hk, hs]) id

theorem Stored.of_height {height' : Int} (h : Stored iface db height k)
    (hc : k < height' → (db.blockCommit k).isSome) : Stored iface db height' k :=
  ⟨h.load, h.seenCommit, hc⟩

end Stored

/-! ## Consistent views -/

section Consistent

variable (iface : BlockIface Blk C) (low : Int → Int → Prop)

/-- The view `v = (Base, Height)` of `db`: `Base = 0` iff `Height = 0`,
`Base ≤ Height`, and every block from the least height `low v.base` allows up
to `Height` is stored. -/
structure RangeStored (db : DB C) (v : BlockStoreState) : Prop where
  base_eq_zero : v.base = 0 ↔ v.height = 0
  base_le : v.base ≤ v.height
  stored : ∀ k, low v.base k → k ≤ v.height → Stored iface db v.height k

/-- The heights from a base on, above zero. -/
abbrev fromBase (base k : Int) : Prop := 0 < k ∧ base ≤ k

/-- The heights strictly above a base. -/
abbrev aboveBase (base k : Int) : Prop := base < k

/-- The consistency of a view the block store's comment promises: every
block from `Base` to `Height`. -/
abbrev Consistent : DB C → BlockStoreState → Prop := RangeStored iface fromBase

/-- Consistency of the blocks strictly above `Base`. -/
abbrev ConsistentAbove : DB C → BlockStoreState → Prop := RangeStored iface aboveBase

/-- Both views of a store are consistent: its fields, which readers see, and
what its database saved, which a restart loads. -/
structure Views (bs : BlockStore C) : Prop where
  memory : RangeStored iface low bs.db bs.state
  disk : RangeStored iface low bs.db (loadBlockStoreState bs.db)
  disk_base_nonneg : 0 ≤ (loadBlockStoreState bs.db).base

/-- A store between two calls: its fields are what its database saved, its
base is not negative and its view is consistent. -/
structure Quiet (bs : BlockStore C) : Prop where
  saved : loadBlockStoreState bs.db = bs.state
  base_nonneg : 0 ≤ bs.base
  range : RangeStored iface low bs.db bs.state

variable {iface low}

theorem Quiet.views {bs : BlockStore C} (h : Quiet iface low bs) : Views iface low bs :=
  ⟨h.range, h.saved ▸ h.range, h.saved ▸ h.base_nonneg⟩

theorem Quiet.newBlockStore {bs : BlockStore C} (h : Views iface low bs) :
    Quiet iface low (newBlockStore bs.db) :=
  ⟨rfl, h.disk_base_nonneg, h.disk⟩

theorem RangeStored.of_stored {db db' : DB C} {v : BlockStoreState}
    (h : RangeStored iface low db v)
    (hk : ∀ k, low v.base k → k ≤ v.height → Stored iface db v.height k →
      Stored iface db' v.height k) : RangeStored iface low db' v :=
  ⟨h.base_eq_zero, h.base_le, fun k hl hle => hk k hl hle (h.stored k hl hle)⟩

end Consistent

/-! ## `SaveBlock` -/

/-- `SaveBlock`'s precondition "blockParts: Must be parts of the block": the
bytes of the parts decode to the block. -/
def BlockIface.PartsOf (iface : BlockIface Blk C) (block : Blk) (blockParts : PartSet) : Prop :=
  iface.decode ((blockParts.parts.filterMap id).flatMap Part.bytes) = some block

theorem spec_dbStep {P I : BlockStore C → Prop} {Q : Unit → BlockStore C → Prop}
    {f : DB C → DB C} (h : ∀ bs, P bs → I { bs with db := f bs.db } ∧ Q () { bs with db := f bs.db }) :
    Spec P (dbStep f) I Q :=
  spec_step h

section SaveBlock

variable {iface : BlockIface Blk C} {low : Int → Int → Prop}

variable (iface) in
/-- A state of `SaveBlock` before its fields change: the fields and what the
database saved are those of `bs0`, and every block `bs0` stores at a height
other than `h` is still stored. -/
structure Writing (bs0 : BlockStore C) (h : Int) (bs : BlockStore C) : Prop where
  state : bs.state = bs0.state
  blockStore : bs.db.blockStore = bs0.db.blockStore
  stored : ∀ height k, k ≠ h → Stored iface bs0.db height k → Stored iface bs.db height k

theorem Writing.refl (bs0 : BlockStore C) (h : Int) : Writing iface bs0 h bs0 :=
  ⟨rfl, rfl, fun _ _ _ hs => hs⟩

theorem Writing.write {bs0 bs : BlockStore C} {h : Int} {f : DB C → DB C}
    (hw : Writing iface bs0 h bs) (hs : (f bs.db).blockStore = bs.db.blockStore)
    (hk : ∀ height k, k ≠ h → Stored iface bs.db height k → Stored iface (f bs.db) height k) :
    Writing iface bs0 h { bs with db := f bs.db } :=
  ⟨hw.state, hs.trans hw.blockStore, fun height k hne hst => hk height k hne (hw.stored height k hne hst)⟩

theorem Writing.views {bs0 bs : BlockStore C} {h : Int} (hq : Quiet iface low bs0)
    (hh : bs0.height < h) (hw : Writing iface bs0 h bs) : Views iface low bs := by
  have hrange : RangeStored iface low bs.db bs0.state :=
    hq.range.of_stored fun k _ hle hst => by
      have hk : k ≤ bs0.height := hle
      exact hw.stored _ k (by omega) hst
  refine ⟨hw.state ▸ hrange, ?_, ?_⟩ <;> rw [loadBlockStoreState_congr hw.blockStore, hq.saved]
  · exact hrange
  · exact hq.base_nonneg

theorem saveBlockParts_spec (bs0 : BlockStore C) (h : Int) (ps : List (Option Part)) :
    ∀ (i : Nat) (pre : List Part),
    Spec (fun bs => Writing iface bs0 h bs ∧
        (List.range i).mapM (fun j => bs.db.blockPart (h, j)) = some pre)
      (saveBlockParts h i ps) (Writing iface bs0 h)
      (fun _ bs => Writing iface bs0 h bs ∧
        (List.range (i + ps.length)).mapM (fun j => bs.db.blockPart (h, j)) =
          some (pre ++ ps.filterMap id)) := by
  induction ps with
  | nil => exact fun i pre => spec_pure fun bs hbs => by simpa using hbs
  | cons o ps ih =>
    intro i pre
    cases o with
    | none => exact spec_halt
    | some part =>
      refine spec_bind (spec_dbStep fun bs ⟨hw, hpre⟩ => ?_) fun _ => (ih (i + 1) (pre ++ [part])).mono
        (fun _ h => h) (fun _ h => h) fun _ bs ⟨hw, hm⟩ => ⟨hw, ?_⟩
      · have hw' := hw.write (f := fun db => db.setBlockPart h i part) rfl
          fun height k hne hst => hst.of_agreeAt (DB.agreeAt_setBlockPart hne i part)
        refine ⟨hw', hw', ?_⟩
        -- the earlier parts are untouched, and part `i` is the new one
        have hold : (List.range i).mapM (fun j => (bs.db.setBlockPart h i part).blockPart (h, j)) =
            some pre := by
          rw [← hpre]
          refine mapM_congr_mem fun j hj => ?_
          have hji : j ≠ i := by
            have := List.mem_range.mp hj
            omega
          simp [hji]
        rw [List.range_succ, List.mapM_append, hold]
        simp
      · rw [List.length_cons, show i + (ps.length + 1) = i + 1 + ps.length by omega]
        simpa using hm

theorem loadBlock_setBlockMeta_new {db : DB C} {h : Int} {block : Blk} {blockParts : PartSet}
    (hparts : iface.PartsOf block blockParts)
    (hm : (List.range blockParts.parts.length).mapM (fun j => db.blockPart (h, j)) =
      some (blockParts.parts.filterMap id)) :
    loadBlock iface (db.setBlockMeta h (newBlockMeta iface block blockParts)) h =
      some (some block) := by
  simp only [loadBlock, DB.setBlockMeta, Function.update_self, newBlockMeta, PartSet.header]
  rw [← blockParts.parts_length, hm]
  exact congrArg (Option.map some) hparts

theorem saveBlock_range (hlow : ∀ b k, low b k → k ≤ b → k = b) {bs0 bs : BlockStore C}
    {h : Int} {block : Blk} (hq : Quiet iface low bs0) (hpos : 0 < h)
    (hnext : bs0.base ≠ 0 → h = bs0.height + 1) (hw : Writing iface bs0 h bs)
    (hload : loadBlock iface bs.db h = some (some block)) (hheight : iface.height block = h)
    (hcommit : (bs.db.blockCommit (h - 1)).isSome) (hseen : (bs.db.seenCommit h).isSome) :
    RangeStored iface low bs.db ⟨if bs0.base = 0 then h else bs0.base, h⟩ := by
  have hbase : bs0.base = 0 ↔ bs0.height = 0 := hq.range.base_eq_zero
  have hle : bs0.base ≤ bs0.height := hq.range.base_le
  have hnn := hq.base_nonneg
  refine ⟨?_, ?_, fun k hk hkh => ?_⟩
  · dsimp only
    split_ifs <;> omega
  · dsimp only
    split_ifs with h0
    · exact Int.le_refl h
    · have := hnext h0
      omega
  · dsimp only at hk hkh ⊢
    by_cases hkh' : k = h
    · subst hkh'
      exact ⟨⟨block, hload, hheight⟩, hseen, fun hlt => absurd hlt (Int.lt_irrefl k)⟩
    -- below the new height the store was not empty, and the block was stored
    · have h0 : bs0.base ≠ 0 := fun h0 => by
        rw [if_pos h0] at hk
        exact hkh' (hlow h k hk hkh)
      rw [if_neg h0] at hk
      have hH := hnext h0
      have hst : Stored iface bs0.db bs0.height k :=
        hq.range.stored k hk (show k ≤ bs0.height by omega)
      refine (hw.stored _ k hkh' hst).of_height fun hlt => ?_
      by_cases hkH : k = bs0.height
      · rw [hkH, show bs0.height = h - 1 by omega]
        exact hcommit
      · exact (hw.stored _ k hkh' hst).blockCommit (by omega)

theorem Quiet.of_saveState {bs : BlockStore C} (hr : RangeStored iface low bs.db bs.state)
    (hnn : 0 ≤ bs.base) : Quiet iface low { bs with db := bs.db.setBlockStoreState bs.state } :=
  ⟨loadBlockStoreState_setBlockStoreState hr.base_eq_zero, hnn,
    hr.of_stored fun _ _ _ hst => hst.of_agreeAt (DB.agreeAt_setBlockStoreState _)⟩

/-- Every state of `SaveBlock` from a store between calls is consistent in
memory and on disk, and a `SaveBlock` that returns leaves a store between
calls at the block's height. -/
theorem saveBlock_spec (hlow : ∀ b k, low b k → k ≤ b → k = b) {block : Blk}
    {blockParts : PartSet} (seenCommit : C) (hparts : iface.PartsOf block blockParts)
    (hpos : 0 < iface.height block) :
    Spec (Quiet iface low) (saveBlock iface block blockParts seenCommit) (Views iface low)
      (fun _ bs => Quiet iface low bs ∧ bs.height = iface.height block) := by
  refine spec_bind (spec_get (Q := fun bs0 bs => bs0 = bs ∧ Quiet iface low bs)
    fun _ hs => ⟨rfl, hs⟩) fun bs0 => ?_
  refine spec_of_imp (F := Quiet iface low bs0) (fun _ ⟨e, hs⟩ => e ▸ hs) fun hq => ?_
  refine spec_ite (fun _ => spec_halt) fun hcont => spec_ite (fun _ => spec_halt) fun _ => ?_
  have hnn := hq.base_nonneg
  have hnext : bs0.base ≠ 0 → iface.height block = bs0.height + 1 := fun h0 => by
    by_contra hne
    exact hcont ⟨by omega, hne⟩
  have hh : bs0.height < iface.height block := by
    by_cases h0 : bs0.base = 0
    · have : bs0.height = 0 := (show bs0.base = 0 ↔ bs0.height = 0 from hq.range.base_eq_zero).mp h0
      omega
    · have := hnext h0
      omega
  -- the parts, then the meta: the new block loads
  refine spec_bind ((saveBlockParts_spec bs0 (iface.height block) blockParts.parts 0 []).mono
    (fun bs ⟨e, _⟩ => ⟨e ▸ Writing.refl bs0 _, by simp⟩) (fun _ hw => hw.views hq hh)
    (fun _ _ h => h)) fun _ => ?_
  refine spec_bind (spec_dbStep (Q := fun _ bs => Writing iface bs0 (iface.height block) bs ∧
      loadBlock iface bs.db (iface.height block) = some (some block)) fun bs ⟨hw, hm⟩ => ?_)
    fun _ => ?_
  · have hw' := hw.write (f := fun db => db.setBlockMeta (iface.height block)
      (newBlockMeta iface block blockParts)) rfl
      fun _ _ hne hst => hst.of_agreeAt (DB.agreeAt_setBlockMeta hne _)
    exact ⟨hw'.views hq hh, hw', loadBlock_setBlockMeta_new hparts (by simpa using hm)⟩
  -- the hash index, the block's last commit and the seen commit
  refine spec_bind (spec_dbStep (Q := fun _ bs => Writing iface bs0 (iface.height block) bs ∧
      loadBlock iface bs.db (iface.height block) = some (some block)) fun bs ⟨hw, hl⟩ => ?_)
    fun _ => ?_
  · have hw' := hw.write (f := fun db => db.setBlockHash (iface.hash block) (iface.height block))
      rfl fun _ _ _ hst => hst.of_agreeAt (DB.agreeAt_setBlockHash _ _)
    exact ⟨hw'.views hq hh, hw', (loadBlock_congr rfl fun _ => rfl).trans hl⟩
  refine spec_bind (spec_dbStep (Q := fun _ bs => Writing iface bs0 (iface.height block) bs ∧
      loadBlock iface bs.db (iface.height block) = some (some block) ∧
      (bs.db.blockCommit (iface.height block - 1)).isSome) fun bs ⟨hw, hl⟩ => ?_) fun _ => ?_
  · have hw' := hw.write (f := fun db => db.setBlockCommit (iface.height block - 1)
      (iface.lastCommit block)) rfl fun _ _ _ hst => hst.setBlockCommit _ _
    exact ⟨hw'.views hq hh, hw', (loadBlock_congr rfl fun _ => rfl).trans hl, by simp⟩
  refine spec_bind (spec_dbStep (Q := fun _ bs => Writing iface bs0 (iface.height block) bs ∧
      loadBlock iface bs.db (iface.height block) = some (some block) ∧
      (bs.db.blockCommit (iface.height block - 1)).isSome ∧
      (bs.db.seenCommit (iface.height block)).isSome) fun bs ⟨hw, hl, hc⟩ => ?_) fun _ => ?_
  · have hw' := hw.write (f := fun db => db.setSeenCommit (iface.height block) seenCommit)
      rfl fun _ _ _ hst => hst.setSeenCommit _ _
    exact ⟨hw'.views hq hh, hw', (loadBlock_congr rfl fun _ => rfl).trans hl, hc, by simp⟩
  -- the fields: readers see the new height before it is saved
  refine spec_bind (spec_step (Q := fun _ bs => RangeStored iface low bs.db bs.state ∧
      0 ≤ bs.base ∧ bs.height = iface.height block) fun bs ⟨hw, hl, hc, hs⟩ => ?_) fun _ => ?_
  · have hb : bs.base = bs0.base := congrArg BlockStoreState.base hw.state
    have hr := saveBlock_range hlow hq hpos hnext hw hl rfl hc hs
    rw [← hb] at hr
    have hv := hw.views hq hh
    refine ⟨⟨hr, hv.disk, hv.disk_base_nonneg⟩, hr, ?_, rfl⟩
    dsimp only
    split_ifs <;> omega
  · exact spec_step fun bs ⟨hr, hnn, hheight⟩ =>
      ⟨(Quiet.of_saveState hr hnn).views, Quiet.of_saveState hr hnn, hheight⟩

theorem saveBlockParts_returns (h : Int) (ps : List (Option Part)) (hsome : ∀ o ∈ ps, o.isSome) :
    ∀ (i : Nat) (bs : BlockStore C),
    ∃ db, (saveBlockParts h i ps bs).2 = some ((), { bs with db := db }) := by
  induction ps with
  | nil => exact fun _ bs => ⟨bs.db, rfl⟩
  | cons o ps ih =>
    intro i bs
    obtain ⟨part, rfl⟩ := Option.isSome_iff_exists.mp (hsome o (List.mem_cons_self ..))
    obtain ⟨db, hdb⟩ := ih (fun o ho => hsome o (List.mem_cons_of_mem _ ho)) (i + 1)
      { bs with db := bs.db.setBlockPart h i part }
    exact ⟨db, by rw [saveBlockParts, dbStep, step_bind]; exact hdb⟩

theorem saveBlock_returns {bs : BlockStore C} (block : Blk) (blockParts : PartSet)
    (seenCommit : C) (hnext : ¬(bs.base > 0 ∧ iface.height block ≠ bs.height + 1))
    (hcomplete : blockParts.isComplete = true) (hsome : ∀ o ∈ blockParts.parts, o.isSome) :
    ∃ bs', (saveBlock iface block blockParts seenCommit bs).2 = some ((), bs') ∧
      bs'.state = ⟨if bs.base = 0 then iface.height block else bs.base, iface.height block⟩ := by
  obtain ⟨db, hdb⟩ := saveBlockParts_returns (iface.height block) blockParts.parts hsome 0 bs
  rw [saveBlock, get_bind, if_neg hnext, if_neg (by simp [hcomplete]), bind_apply_of_snd hdb]
  exact ⟨_, rfl, rfl⟩

end SaveBlock

/-! ## `PruneBlocks` -/

theorem height_of_mem_blockKeys {h j : Int} {blockMeta : BlockMeta} {key : Key}
    (hk : key ∈ blockKeys h blockMeta) (hj : key.height = some j) : j = h := by
  simp only [blockKeys, List.cons_append, List.nil_append, List.mem_cons, List.mem_map,
    List.mem_range] at hk
  rcases hk with rfl | rfl | rfl | rfl | ⟨i, _, rfl⟩ <;> simp_all [Key.height]

section PruneBlocks

variable {iface : BlockIface Blk C}

variable (iface) in
/-- A state of `PruneBlocks` with `base` published: the fields are
`(base, H)`, the database saved them, and every block above `base` is
stored. -/
structure Published (H base : Int) (bs : BlockStore C) : Prop where
  state : bs.state = ⟨base, H⟩
  saved : loadBlockStoreState bs.db = bs.state
  base_pos : 0 < base
  base_le : base ≤ H
  stored : ∀ k, base < k → k ≤ H → Stored iface bs.db H k

theorem consistentAbove_of_stored {db : DB C} {H base : Int} (hpos : 0 < base) (hle : base ≤ H)
    (hst : ∀ k, base < k → k ≤ H → Stored iface db H k) : ConsistentAbove iface db ⟨base, H⟩ :=
  ⟨by dsimp only; omega, hle, hst⟩

theorem Published.views {H base : Int} {bs : BlockStore C} (hp : Published iface H base bs) :
    Views iface aboveBase bs := by
  have hr := consistentAbove_of_stored hp.base_pos hp.base_le hp.stored
  refine ⟨hp.state ▸ hr, ?_, ?_⟩ <;> rw [hp.saved, hp.state]
  · exact hr
  · exact Int.le_of_lt hp.base_pos

theorem Published.writeBatch {H base : Int} {bs : BlockStore C} {batch : List Key}
    (hp : Published iface H base bs) (hbatch : ∀ key ∈ batch, ∀ j, key.height = some j → j ≤ base) :
    Published iface H base { bs with db := bs.db.writeBatch batch } where
  state := hp.state
  saved := (loadBlockStoreState_congr (DB.writeBatch_blockStore _ _)).trans hp.saved
  base_pos := hp.base_pos
  base_le := hp.base_le
  stored k hk hkH := (hp.stored k hk hkH).of_agreeAt <| DB.agreeAt_writeBatch fun key hkey e =>
    absurd (hbatch key hkey k e) (by omega)

/-- `flush` to a base no lower than the one published, with a batch that
deletes nothing above it: every state is consistent above its base, in
memory and on disk, and the new base ends up published. -/
theorem flush_spec {H newBase : Int} {batch : List Key} (hnew : newBase ≤ H)
    (hbatch : ∀ key ∈ batch, ∀ j, key.height = some j → j ≤ newBase) :
    Spec (fun bs => ∃ base, base ≤ newBase ∧ Published iface H base bs) (flush batch newBase)
      (Views iface aboveBase) (fun _ => Published iface H newBase) := by
  -- the new base in memory, the old one still on disk
  refine spec_bind (spec_step (Q := fun _ bs => bs.state = ⟨newBase, H⟩ ∧ ∃ base, base ≤ newBase ∧
      0 < base ∧ loadBlockStoreState bs.db = ⟨base, H⟩ ∧
      ∀ k, base < k → k ≤ H → Stored iface bs.db H k) fun bs ⟨base, hle, hp⟩ => ?_) fun _ => ?_
  · have hsaved : loadBlockStoreState bs.db = ⟨base, H⟩ := hp.saved.trans hp.state
    have hmem : ConsistentAbove iface bs.db ⟨newBase, H⟩ :=
      consistentAbove_of_stored (Int.lt_of_lt_of_le hp.base_pos hle) hnew
        fun k hk hkH => hp.stored k (by omega) hkH
    have hheight : bs.height = H := congrArg BlockStoreState.height hp.state
    refine ⟨⟨?_, ?_, ?_⟩, ?_, base, hle, hp.base_pos, hsaved, hp.stored⟩
    · exact hheight ▸ hmem
    · rw [hsaved]
      exact consistentAbove_of_stored hp.base_pos hp.base_le hp.stored
    · rw [hsaved]
      exact Int.le_of_lt hp.base_pos
    · show (⟨newBase, bs.height⟩ : BlockStoreState) = _
      rw [hheight]
  -- saved: the new base is published
  refine spec_bind (spec_step (Q := fun _ => Published iface H newBase)
    fun bs ⟨hstate, base, hle, hpos, _, hst⟩ => ?_) fun _ => ?_
  · have hp : Published iface H newBase { bs with db := bs.db.setBlockStoreState bs.state } :=
      { state := hstate
        saved := loadBlockStoreState_setBlockStoreState (by
          rw [hstate]
          dsimp only
          omega)
        base_pos := by omega
        base_le := hnew
        stored := fun k hk hkH => (hst k (by omega) hkH).of_agreeAt
          (DB.agreeAt_setBlockStoreState _) }
    exact ⟨hp.views, hp⟩
  -- the batch
  · exact spec_dbStep fun bs hp => ⟨(hp.writeBatch hbatch).views, hp.writeBatch hbatch⟩

variable (iface) in
/-- A state of the loop of `PruneBlocks` at height `h`: a base no higher than
`h` is published, and the batch not yet written deletes only below `h`. -/
structure Pruning (H h : Int) (batch : List Key) (bs : BlockStore C) : Prop where
  published : ∃ base, base ≤ h ∧ Published iface H base bs
  batch : ∀ key ∈ batch, ∀ j, key.height = some j → j < h

theorem pruneLoop_spec {H t : Int} (ht : t ≤ H) (n : Nat) :
    ∀ (h : Int) (pruned : Nat) (batch : List Key), h + n = t →
    Spec (Pruning iface H h batch) (pruneLoop h n pruned batch) (Views iface aboveBase)
      (fun r => Pruning iface H t r.2) := by
  induction n with
  | zero =>
    intro h pruned batch hn
    have hh : h = t := by simpa using hn
    exact spec_pure fun _ hp => hh ▸ hp
  | succ n ih =>
    intro h pruned batch hn
    have hn' : h + 1 + n = t := by
      push_cast at hn
      omega
    refine spec_bind (spec_get (Q := fun a s => a = s ∧ Pruning iface H h batch s)
      fun _ hs => ⟨rfl, hs⟩) fun bs0 => ?_
    refine spec_of_imp (F := ∀ key ∈ batch, ∀ j, key.height = some j → j < h)
      (fun _ ⟨_, hp⟩ => hp.batch) fun hbatch => ?_
    -- the keys of the block at `h` belong to `h`
    have hkeys : ∀ blockMeta, ∀ key ∈ batch ++ blockKeys h blockMeta, ∀ j,
        key.height = some j → j ≤ h := by
      intro blockMeta key hkey j hj
      rcases List.mem_append.mp hkey with hkey | hkey
      · exact Int.le_of_lt (hbatch key hkey j hj)
      · exact Int.le_of_eq (height_of_mem_blockKeys hkey hj)
    split
    -- "assume already deleted"
    · exact (ih (h + 1) pruned batch hn').mono
        (fun _ ⟨_, hp⟩ => ⟨let ⟨b, hb, hpub⟩ := hp.published; ⟨b, by omega, hpub⟩,
          fun key hk j hj => by have := hbatch key hk j hj; omega⟩)
        (fun _ h => h) fun _ _ h => h
    · rename_i blockMeta _
      refine spec_ite (fun _ => ?_) fun _ => ?_
      -- a flush at every thousandth block publishes `h` itself
      · exact spec_bind ((flush_spec (by omega) (hkeys blockMeta)).mono
          (fun _ ⟨_, hp⟩ => let ⟨b, hb, hpub⟩ := hp.published; ⟨b, hb, hpub⟩)
          (fun _ h => h) fun _ _ h => h) fun _ =>
          (ih (h + 1) (pruned + 1) [] hn').mono
            (fun _ hp => ⟨⟨h, by omega, hp⟩, fun _ hk => by cases hk⟩) (fun _ h => h)
            fun _ _ h => h
      · exact (ih (h + 1) (pruned + 1) _ hn').mono
          (fun _ ⟨_, hp⟩ => ⟨let ⟨b, hb, hpub⟩ := hp.published; ⟨b, by omega, hpub⟩,
            fun key hk j hj => by have := hkeys blockMeta key hk j hj; omega⟩)
          (fun _ h => h) fun _ _ h => h

theorem pruneBlocks_spec (height : Int) :
    Spec (Quiet iface aboveBase) (pruneBlocks height) (Views iface aboveBase)
      (fun _ => Quiet iface aboveBase) := by
  refine spec_bind (spec_get (Q := fun a s => a = s ∧ Quiet iface aboveBase s)
    fun _ hs => ⟨rfl, hs⟩) fun bs0 => ?_
  refine spec_of_imp (F := Quiet iface aboveBase bs0) (fun _ ⟨e, hs⟩ => e ▸ hs) fun hq => ?_
  -- the three errors return before any effect
  refine spec_ite (fun _ => spec_pure fun _ ⟨_, hs⟩ => hs) fun hpos =>
    spec_ite (fun _ => spec_pure fun _ ⟨_, hs⟩ => hs) fun hle =>
    spec_ite (fun _ => spec_pure fun _ ⟨_, hs⟩ => hs) fun hbase => ?_
  have hbz : bs0.base = 0 ↔ bs0.height = 0 := hq.range.base_eq_zero
  have hnn := hq.base_nonneg
  have hpub : Published iface bs0.height bs0.base bs0 :=
    { state := rfl
      saved := hq.saved
      base_pos := by omega
      base_le := hq.range.base_le
      stored := hq.range.stored }
  refine spec_bind ((pruneLoop_spec (H := bs0.height) (t := height) (by omega)
    (height - bs0.base).toNat bs0.base 0 [] (by omega)).mono
    (fun _ ⟨e, _⟩ => ⟨⟨bs0.base, by omega, e ▸ hpub⟩, fun _ hk => by cases hk⟩)
    (fun _ h => h) fun _ _ h => h) fun r => ?_
  obtain ⟨pruned, batch⟩ := r
  -- the batch left at the end deletes only below `height`
  refine spec_of_imp (F := ∀ key ∈ batch, ∀ j, key.height = some j → j < height)
    (fun _ hp => hp.batch) fun hbatch => ?_
  refine spec_bind ((flush_spec (by omega)
    fun key hk j hj => Int.le_of_lt (hbatch key hk j hj)).mono (fun _ hp => hp.published)
    (fun _ h => h) fun _ _ h => h) fun _ => spec_pure fun bs hp => ?_
  have hb : bs.base = height := congrArg BlockStoreState.base hp.state
  exact ⟨hp.saved, hb ▸ Int.le_of_lt hp.base_pos,
    hp.state ▸ consistentAbove_of_stored hp.base_pos hp.base_le hp.stored⟩

end PruneBlocks

/-! ## What a `PruneBlocks` that returns has done -/

section Swept

/-- The keys of the block at height `h`, if its meta is there. -/
def keysAt (db : DB C) (h : Int) : List Key :=
  match db.blockMeta h with
  | none => []
  | some blockMeta => blockKeys h blockMeta

/-- The keys of the blocks with a meta among the `n` heights from `h`. -/
def pruneKeys (db : DB C) (h : Int) (n : Nat) : List Key :=
  (List.range n).flatMap fun i : Nat => keysAt db (h + i)

/-- The number of heights among the `n` from `h` whose meta is there. -/
def metaCount (db : DB C) (h : Int) (n : Nat) : Nat :=
  ((List.range n).filter fun i : Nat => (db.blockMeta (h + i)).isSome).length

theorem pruneKeys_succ (db : DB C) (h : Int) (n : Nat) :
    pruneKeys db h (n + 1) = pruneKeys db h n ++ keysAt db (h + n) := by
  simp [pruneKeys, List.range_succ]

theorem metaCount_succ (db : DB C) (h : Int) (n : Nat) :
    metaCount db h (n + 1) = metaCount db h n + if (db.blockMeta (h + n)).isSome then 1 else 0 := by
  simp only [metaCount, List.range_succ, List.filter_append, List.length_append]
  split <;> simp_all

theorem height_of_mem_pruneKeys {db : DB C} {h j : Int} {n : Nat} {key : Key}
    (hk : key ∈ pruneKeys db h n) (hj : key.height = some j) : h ≤ j ∧ j < h + n := by
  obtain ⟨i, hi, hkey⟩ := List.mem_flatMap.mp hk
  have hi := List.mem_range.mp hi
  unfold keysAt at hkey
  split at hkey
  · cases hkey
  · have := height_of_mem_blockKeys hkey hj
    omega

variable (db0 : DB C) (b0 H : Int)

/-- A state of the loop at height `b0 + i`: the count and the keys so far
are those of the heights from `b0` below it, and the keys written are
deleted from `db0`, the saved state apart. -/
structure Swept (i pruned : Nat) (batch : List Key) (bs : BlockStore C) : Prop where
  height : bs.height = H
  pruned : pruned = metaCount db0 b0 i
  written : ∃ written, written ++ batch = pruneKeys db0 b0 i ∧
    bs.db = { db0.writeBatch written with blockStore := bs.db.blockStore }

variable {db0 b0 H}

theorem Swept.blockMeta {i pruned : Nat} {batch : List Key} {bs : BlockStore C}
    (hs : Swept db0 b0 H i pruned batch bs) : bs.db.blockMeta (b0 + i) = db0.blockMeta (b0 + i) := by
  obtain ⟨written, hkeys, hdb⟩ := hs.written
  rw [hdb]
  refine (DB.agreeAt_writeBatch fun key hk e => ?_).blockMeta
  have := height_of_mem_pruneKeys (hkeys ▸ List.mem_append_left batch hk) e
  omega

variable {i pruned : Nat} {batch : List Key} {bs : BlockStore C}

theorem Swept.skip (hs : Swept db0 b0 H i pruned batch bs)
    (hnone : db0.blockMeta (b0 + i) = none) : Swept db0 b0 H (i + 1) pruned batch bs := by
  obtain ⟨written, hkeys, hdb⟩ := hs.written
  refine ⟨hs.height, by simp [hs.pruned, metaCount_succ, hnone], written, ?_, hdb⟩
  rw [pruneKeys_succ, ← hkeys, keysAt, hnone, List.append_nil]

theorem Swept.add {blockMeta : BlockMeta} (hs : Swept db0 b0 H i pruned batch bs)
    (hm : db0.blockMeta (b0 + i) = some blockMeta) :
    Swept db0 b0 H (i + 1) (pruned + 1) (batch ++ blockKeys (b0 + i) blockMeta) bs := by
  obtain ⟨written, hkeys, hdb⟩ := hs.written
  refine ⟨hs.height, by simp [hs.pruned, metaCount_succ, hm], written, ?_, hdb⟩
  rw [pruneKeys_succ, ← hkeys, keysAt, hm, List.append_assoc]

theorem Swept.flush (hs : Swept db0 b0 H i pruned batch bs) (base : Int) :
    Swept db0 b0 H i pruned []
      { bs with base := base, db := (bs.db.setBlockStoreState ⟨base, bs.height⟩).writeBatch batch } := by
  obtain ⟨written, hkeys, hdb⟩ := hs.written
  refine ⟨hs.height, hs.pruned, written ++ batch, by rw [List.append_nil, hkeys], ?_⟩
  simp only [DB.writeBatch_blockStore]
  rw [hdb, DB.writeBatch_append]
  exact DB.writeBatch_with_blockStore (db0.writeBatch written) (some ⟨base, bs.height⟩) batch

theorem flush_apply (batch : List Key) (base : Int) (bs : BlockStore C) :
    flush batch base bs =
      let s₁ := { bs with base := base }
      let s₂ := { s₁ with db := s₁.db.setBlockStoreState s₁.state }
      let s₃ := { s₂ with db := s₂.db.writeBatch batch }
      ([s₁, s₂, s₃], some ((), s₃)) := rfl

theorem spec_flush {P : BlockStore C → Prop} {Q : Unit → BlockStore C → Prop} {base : Int}
    (h : ∀ bs, P bs →
      Q () { bs with base := base, db := (bs.db.setBlockStoreState ⟨base, bs.height⟩).writeBatch batch }) :
    Spec P (flush batch base) (fun _ => True) Q := fun bs hbs => by
  rw [flush_apply]
  exact ⟨fun _ _ => trivial, fun _ _ hr => by cases hr; exact h bs hbs⟩

variable (db0 b0 H) in
theorem pruneLoop_swept (n : Nat) : ∀ (i pruned : Nat) (batch : List Key),
    Spec (Swept db0 b0 H i pruned batch) (pruneLoop (b0 + i) n pruned batch) (fun _ => True)
      (fun r => Swept db0 b0 H (i + n) r.1 r.2) := by
  induction n with
  | zero => exact fun i pruned batch => spec_pure fun _ hs => hs
  | succ n ih =>
    intro i pruned batch
    have hnext : b0 + i + 1 = b0 + ((i + 1 : Nat) : Int) := by
      push_cast
      omega
    have hih : ∀ pruned batch, Spec (Swept db0 b0 H (i + 1) pruned batch)
        (pruneLoop (b0 + ((i + 1 : Nat) : Int)) n pruned batch) (fun _ => True)
        (fun r => Swept db0 b0 H (i + (n + 1)) r.1 r.2) := fun pruned batch =>
      (ih (i + 1) pruned batch).mono (fun _ h => h) (fun _ h => h) fun _ _ h =>
        (show i + 1 + n = i + (n + 1) by omega) ▸ h
    refine spec_bind (spec_get (Q := fun a s => a = s ∧ Swept db0 b0 H i pruned batch s)
      fun _ hs => ⟨rfl, hs⟩) fun bs0 => ?_
    refine spec_of_imp (F := Swept db0 b0 H i pruned batch bs0) (fun _ ⟨e, hs⟩ => e ▸ hs)
      fun hs0 => ?_
    rw [hs0.blockMeta, hnext]
    split
    · rename_i hnone
      refine (hih pruned batch).mono ?_ (fun _ h => h) fun _ _ h => h
      rintro _ ⟨-, hs⟩
      exact hs.skip hnone
    · rename_i blockMeta hm
      refine spec_ite (fun _ => spec_bind (spec_flush ?_) fun _ => hih _ _) fun _ =>
        (hih _ _).mono ?_ (fun _ h => h) fun _ _ h => h
      · rintro _ ⟨-, hs⟩
        exact (hs.add hm).flush _
      · rintro _ ⟨-, hs⟩
        exact hs.add hm

/-- A `PruneBlocks` that returns a count has counted the heights from the old
base below `height` whose meta was there, moved the base to `height` in
memory and on disk, and deleted the keys of those blocks and nothing else. -/
theorem pruneBlocks_ok {bs bs' : BlockStore C} {height : Int} {pruned : Nat}
    (hr : (pruneBlocks height bs).2 = some (.ok pruned, bs')) :
    pruned = metaCount bs.db bs.base (height - bs.base).toNat ∧
      bs'.state = ⟨height, bs.height⟩ ∧
      bs'.db = (bs.db.writeBatch (pruneKeys bs.db bs.base (height - bs.base).toNat)).setBlockStoreState
        ⟨height, bs.height⟩ := by
  have hloop := pruneLoop_swept bs.db bs.base bs.height (height - bs.base).toNat 0 0 []
  rw [show bs.base + ((0 : Nat) : Int) = bs.base by omega, Nat.zero_add] at hloop
  have hspec : Spec (fun s => s = bs) (pruneBlocks height) (fun _ => True)
      (fun r s' => ∀ pruned, r = .ok pruned →
        pruned = metaCount bs.db bs.base (height - bs.base).toNat ∧ s'.state = ⟨height, bs.height⟩ ∧
        s'.db = (bs.db.writeBatch (pruneKeys bs.db bs.base (height - bs.base).toNat)).setBlockStoreState
          ⟨height, bs.height⟩) := by
    refine spec_bind (spec_get (Q := fun a s => a = s ∧ s = bs) fun _ hs => ⟨rfl, hs⟩) fun bs0 => ?_
    refine spec_of_imp (F := bs0 = bs) (fun _ ⟨e, hs⟩ => e.trans hs) fun e => ?_
    subst e
    -- the errors return no count
    refine spec_ite (fun _ => spec_pure fun _ _ _ h => by cases h) fun _ =>
      spec_ite (fun _ => spec_pure fun _ _ _ h => by cases h) fun _ =>
      spec_ite (fun _ => spec_pure fun _ _ _ h => by cases h) fun _ => ?_
    refine spec_bind (hloop.mono ?_ (fun _ h => h) fun _ _ h => h) fun r => ?_
    · rintro _ ⟨e, -⟩
      exact ⟨e ▸ rfl, by simp [metaCount], [], rfl, e ▸ rfl⟩
    obtain ⟨pruned', batch⟩ := r
    refine spec_bind (spec_flush (Q := fun _ s => s.base = height ∧
      s.db.blockStore = some ⟨height, s.height⟩ ∧
      Swept bs0.db bs0.base bs0.height (height - bs0.base).toNat pruned' [] s)
      fun s hs => ⟨rfl, DB.writeBatch_blockStore _ _, hs.flush height⟩) fun _ => spec_pure ?_
    rintro s ⟨hb, hstore, hs⟩ _ ⟨⟩
    obtain ⟨written, hkeys, hdb⟩ := hs.written
    rw [List.append_nil] at hkeys
    refine ⟨hs.pruned, ?_, ?_⟩
    · show (⟨s.base, s.height⟩ : BlockStoreState) = _
      rw [hb, hs.height]
    · rw [hdb, hkeys, hstore, hs.height]
      rfl
  exact (hspec bs rfl).2 _ _ hr pruned rfl

/-- After a `PruneBlocks` that returns, every key of every block it pruned is
gone, and the data at every height outside `[old base, height)` is as it
was: a block commit `SaveBlock` wrote below the first block stays. -/
theorem pruneBlocks_ok_deletes {bs bs' : BlockStore C} {height : Int} {pruned : Nat}
    (hr : (pruneBlocks height bs).2 = some (.ok pruned, bs')) :
    (∀ k blockMeta, bs.base ≤ k → k < height → bs.db.blockMeta k = some blockMeta →
      ∀ key ∈ blockKeys k blockMeta, bs'.db.Absent key) ∧
    (∀ k, k < bs.base ∨ height ≤ k → DB.AgreeAt k bs.db bs'.db) := by
  obtain ⟨-, -, hdb⟩ := pruneBlocks_ok hr
  rw [hdb]
  refine ⟨fun k blockMeta hbk hkh hm key hkey => ?_, fun k hk => ?_⟩
  · have hmem : key ∈ pruneKeys bs.db bs.base (height - bs.base).toNat := by
      refine List.mem_flatMap.mpr ⟨(k - bs.base).toNat, List.mem_range.mpr (by omega), ?_⟩
      rw [show bs.base + ((k - bs.base).toNat : Int) = k by omega, keysAt, hm]
      exact hkey
    exact (DB.absent_writeBatch_of_mem hmem).setBlockStoreState _
  · refine (DB.agreeAt_writeBatch fun key hkey e => ?_).trans (DB.agreeAt_setBlockStoreState _)
    have := height_of_mem_pruneKeys hkey e
    omega

end Swept

/-! ## Runs with crashes -/

/-- The calls whose preconditions hold: a block saved with its own parts, at a
positive height. -/
def ValidCall (iface : BlockIface Blk C) : StoreCall Blk C → Prop
  | .saveBlock block blockParts _ => iface.PartsOf block blockParts ∧ 0 < iface.height block
  | .pruneBlocks _ => True

section Runs

variable {iface : BlockIface Blk C}

theorem quiet_newBlockStore_empty {low : Int → Int → Prop} (hlow : ∀ k, low 0 k → 0 < k) :
    Quiet iface low (newBlockStore (.empty : DB C)) :=
  ⟨rfl, Int.le_refl 0, ⟨Iff.rfl, Int.le_refl 0, fun k hk hk0 => absurd (hlow k hk) (by
    have : k ≤ 0 := hk0
    omega)⟩⟩

theorem StoreCall.run_spec {c : StoreCall Blk C} (hc : ValidCall iface c) :
    Spec (Quiet iface aboveBase) (c.run iface) (Views iface aboveBase)
      (fun _ => Quiet iface aboveBase) := by
  cases c with
  | saveBlock block blockParts seenCommit =>
    exact (saveBlock_spec (fun _ _ hlt hle => absurd hlt (by omega)) seenCommit hc.1 hc.2).mono
      (fun _ h => h) (fun _ h => h) fun _ _ h => h.1
  | pruneBlocks height => exact spec_bind (pruneBlocks_spec height) fun _ => spec_pure fun _ h => h

theorem Reachable.quiet {bs : BlockStore C} (h : Reachable iface (ValidCall iface) bs) :
    Quiet iface aboveBase bs := by
  induction h with
  | init => exact quiet_newBlockStore_empty fun _ hk => hk
  | call c _ hc hr ih => exact (StoreCall.run_spec hc).result ih hr
  | crash c _ hc hs ih => exact Quiet.newBlockStore ((StoreCall.run_spec hc).trace ih _ hs)
  | restart _ ih => exact Quiet.newBlockStore ih.views

/-- What does hold at every crash point: every state of every call of a run,
in memory and on disk, has `Base = 0` iff `Height = 0`, `Base ≤ Height`, and
every block strictly above `Base` stored. -/
theorem blockStore_consistent_above {bs s : BlockStore C} {c : StoreCall Blk C}
    (h : Reachable iface (ValidCall iface) bs) (hc : ValidCall iface c) (hs : s ∈ (c.run iface bs).1) :
    Views iface aboveBase s :=
  (StoreCall.run_spec hc).trace h.quiet s hs

end Runs

/-! ## The base published before its block is deleted -/

section Window

variable {iface : BlockIface Blk C}

theorem pruneLoop_no_flush (bs : BlockStore C) (n : Nat) :
    ∀ (m : Nat) (h : Int) (pruned : Nat) (batch : List Key), pruned + m < 1000 →
    (∀ j : Nat, j < m → (bs.db.blockMeta (h + j)).isSome) →
    ∃ batch', pruneLoop h (m + n) pruned batch bs = pruneLoop (h + m) n (pruned + m) batch' bs := by
  intro m
  induction m with
  | zero => exact fun h pruned batch _ _ => ⟨batch, by simp⟩
  | succ m ih =>
    intro h pruned batch hlt hmeta
    obtain ⟨blockMeta, hbm⟩ := Option.isSome_iff_exists.mp (hmeta 0 (by omega))
    rw [show h + ((0 : Nat) : Int) = h by omega] at hbm
    have hnoflush : ¬((pruned + 1) % 1000 = 0 ∧ pruned + 1 > 0) := fun ⟨h0, _⟩ => by omega
    obtain ⟨batch', hb⟩ := ih (h + 1) (pruned + 1) (batch ++ blockKeys h blockMeta) (by omega)
      fun j hj => by
        have := hmeta (j + 1) (by omega)
        rwa [show h + ((j + 1 : Nat) : Int) = h + 1 + j by push_cast; omega] at this
    refine ⟨batch', ?_⟩
    rw [show m + 1 + n = (m + n) + 1 by omega, pruneLoop, get_bind]
    simp only [hbm, if_neg hnoflush]
    rw [hb, show h + 1 + (m : Int) = h + ((m + 1 : Nat) : Int) by push_cast; omega,
      show pruned + 1 + m = pruned + (m + 1) by omega]

theorem mem_pruneLoop_flush {bs : BlockStore C} {h : Int} (n pruned : Nat)
    (batch : List Key) {blockMeta : BlockMeta} (hbm : bs.db.blockMeta h = some blockMeta)
    (hflush : (pruned + 1) % 1000 = 0) :
    ∃ s ∈ (pruneLoop h (n + 1) pruned batch bs).1, s.state = ⟨h, bs.height⟩ ∧
      s.db.blockStore = some ⟨h, bs.height⟩ ∧ s.db.blockMeta h = none := by
  rw [pruneLoop, get_bind]
  simp only [hbm, if_pos (show (pruned + 1) % 1000 = 0 ∧ pruned + 1 > 0 from ⟨hflush, by omega⟩)]
  -- the third state of the flush
  let db := (bs.db.setBlockStoreState ⟨h, bs.height⟩).writeBatch (batch ++ blockKeys h blockMeta)
  refine ⟨{ bs with base := h, db := db }, mem_bind_left ?_, rfl, ?_, ?_⟩
  · rw [flush_apply]
    exact List.mem_cons_of_mem _ (List.mem_cons_of_mem _ (List.mem_singleton_self _))
  · exact DB.writeBatch_blockStore _ _
  · have hmem : Key.blockMeta h ∈ batch ++ blockKeys h blockMeta := by simp [blockKeys]
    exact DB.absent_writeBatch_of_mem hmem

/-- Pruning at least a thousand blocks of a store whose first thousand
blocks have their metas passes through a state whose base, in memory and on
disk, is the thousandth block pruned, which that state no longer holds. -/
theorem pruneBlocks_publishes_pruned_base {bs : BlockStore C} (height : Int)
    (hpos : 0 < bs.base) (hle : bs.base + 1000 ≤ height) (hH : height ≤ bs.height)
    (hmeta : ∀ j : Nat, j < 1000 → (bs.db.blockMeta (bs.base + j)).isSome) :
    ∃ s ∈ (pruneBlocks height bs).1, s.state = ⟨bs.base + 999, bs.height⟩ ∧
      s.db.blockStore = some ⟨bs.base + 999, bs.height⟩ ∧ s.db.blockMeta (bs.base + 999) = none := by
  have hcast : bs.base + ((999 : Nat) : Int) = bs.base + 999 := by omega
  -- the first 999 blocks go into the batch, the thousandth flushes it
  obtain ⟨batch, hloop⟩ := pruneLoop_no_flush bs ((height - bs.base).toNat - 1000 + 1) 999
    bs.base 0 [] (by omega) fun j hj => hmeta j (by omega)
  obtain ⟨blockMeta, hbm⟩ := Option.isSome_iff_exists.mp (hmeta 999 (by omega))
  obtain ⟨s, hs, hstate, hstore, hnone⟩ :=
    mem_pruneLoop_flush ((height - bs.base).toNat - 1000) (0 + 999) batch hbm (by omega)
  rw [hcast] at hstate hstore hnone
  refine ⟨s, ?_, hstate, hstore, hnone⟩
  rw [pruneBlocks, get_bind, if_neg (show ¬height ≤ 0 by omega),
    if_neg (show ¬height > bs.height by omega), if_neg (show ¬height < bs.base by omega)]
  refine mem_bind_left ?_
  rw [show (height - bs.base).toNat = 999 + ((height - bs.base).toNat - 1000 + 1) by omega, hloop]
  exact hs

theorem not_consistent_of_missing {db : DB C} {v : BlockStoreState} {k : Int}
    (hmissing : loadBlock iface db k = some none) (hpos : 0 < k) (hbase : v.base ≤ k)
    (hheight : k ≤ v.height) : ¬Consistent iface db v := fun hc => by
  obtain ⟨block, hload, -⟩ := (hc.stored k ⟨hpos, hbase⟩ hheight).load
  rw [hmissing] at hload
  cases hload

end Window

/-! ## A run that loses its base block -/

/-- Blocks that are their own heights, each in one part with as many bytes as
its height. -/
def heightBlocks : BlockIface Int Unit where
  height := id
  hash _ := []
  lastCommit _ := ()
  decode bytes := some bytes.length

/-- The part set of the block at height `k`: one part. -/
def heightParts (k : Int) : PartSet where
  total := 1
  hash := []
  parts := [some ⟨0, List.replicate k.toNat 0, ⟨1, 0, [], []⟩⟩]
  partsBitArray := [true]
  count := 1
  byteSize := k
  parts_length := rfl
  bitArray_length := rfl

theorem heightParts_partsOf {k : Int} (hk : 0 ≤ k) : heightBlocks.PartsOf k (heightParts k) := by
  simp [BlockIface.PartsOf, heightBlocks, heightParts]
  omega

theorem heightBlocks_reachable (n : Nat) :
    ∃ bs, Reachable heightBlocks (ValidCall heightBlocks) bs ∧ Quiet heightBlocks fromBase bs ∧
      bs.state = ⟨if n = 0 then 0 else 1, n⟩ := by
  induction n with
  | zero => exact ⟨_, .init, quiet_newBlockStore_empty fun _ hk => hk.1, rfl⟩
  | succ n ih =>
    obtain ⟨bs, hr, hq, hstate⟩ := ih
    have hb : bs.base = if n = 0 then 0 else 1 := congrArg BlockStoreState.base hstate
    have hh : bs.height = n := congrArg BlockStoreState.height hstate
    have hparts := heightParts_partsOf (k := (n : Int) + 1) (by omega)
    have hpos : 0 < heightBlocks.height ((n : Int) + 1) := by
      show 0 < (n : Int) + 1
      omega
    obtain ⟨bs', hres, hstate'⟩ := @saveBlock_returns Int Unit heightBlocks bs ((n : Int) + 1)
      (heightParts ((n : Int) + 1)) () (by simp [heightBlocks, hh]) rfl (by simp [heightParts])
    refine ⟨bs', .call (.saveBlock _ _ ()) hr ⟨hparts, hpos⟩ hres,
      ((saveBlock_spec (fun _ _ hk hle => by omega) () hparts hpos).result hq hres).1, ?_⟩
    rw [hstate', hb]
    by_cases hn : n = 0 <;> simp [hn, heightBlocks]

/-- The state of the run that saves the blocks 1 to 1001 and prunes to 1001
where the base, in memory and on disk, is block 1000, which the batch just
written has deleted. -/
theorem heightBlocks_prunedBase :
    ∃ bs, Reachable heightBlocks (ValidCall heightBlocks) bs ∧
      Consistent heightBlocks bs.db bs.state ∧ bs.state = ⟨1, 1001⟩ ∧
      ∃ s ∈ ((StoreCall.pruneBlocks 1001).run heightBlocks bs).1,
        s.state = ⟨1000, 1001⟩ ∧ loadBlockStoreState s.db = ⟨1000, 1001⟩ ∧
        loadBlock heightBlocks s.db 1000 = some none := by
  obtain ⟨bs, hr, hq, hstate⟩ := heightBlocks_reachable 1001
  have hb : bs.base = 1 := congrArg BlockStoreState.base hstate
  have hh : bs.height = 1001 := congrArg BlockStoreState.height hstate
  -- the first thousand blocks are stored, so their metas are there
  have hmeta : ∀ j : Nat, j < 1000 → (bs.db.blockMeta (bs.base + j)).isSome := fun j hj => by
    have hst := hq.range.stored (bs.base + j) ⟨by omega, by show bs.base ≤ bs.base + j; omega⟩
      (by show bs.base + j ≤ bs.height; omega)
    obtain ⟨block, hload, -⟩ := hst.load
    obtain ⟨blockMeta, hbm, -⟩ := blockMeta_of_loadBlock hload
    simp [hbm]
  obtain ⟨s, hs, hsstate, hstore, hnone⟩ :=
    pruneBlocks_publishes_pruned_base 1001 (by omega) (by omega) (by omega) hmeta
  simp only [hb, hh, Int.reduceAdd] at hsstate hstore hnone
  have hsaved : loadBlockStoreState s.db = ⟨1000, 1001⟩ := by
    simp [loadBlockStoreState, hstore]
  have hmissing : loadBlock heightBlocks s.db 1000 = some none := by
    simp [loadBlock, hnone]
  exact ⟨bs, hr, hq.range, hstate, s, mem_bind_left hs, hsstate, hsaved, hmissing⟩

/-- A run that saves the blocks 1 to 1001 and then prunes to 1001 passes
through a state whose base, in memory and on disk, is block 1000, which the
state no longer holds: a reader sees the store inconsistent, and a crash
there leaves, after the restart, a store between calls that is
inconsistent. -/
theorem pruneBlocks_crash_loses_base_block :
    ∃ bs, Reachable heightBlocks (ValidCall heightBlocks) bs ∧
      Consistent heightBlocks bs.db bs.state ∧ bs.state = ⟨1, 1001⟩ ∧
      ∃ s ∈ ((StoreCall.pruneBlocks 1001).run heightBlocks bs).1,
        s.state = ⟨1000, 1001⟩ ∧ loadBlockStoreState s.db = ⟨1000, 1001⟩ ∧
        loadBlock heightBlocks s.db 1000 = some none ∧
        ¬Consistent heightBlocks s.db s.state ∧
        Reachable heightBlocks (ValidCall heightBlocks) (newBlockStore s.db) ∧
        ¬Consistent heightBlocks (newBlockStore s.db).db (newBlockStore s.db).state := by
  obtain ⟨bs, hr, hcons, hstate, s, hs, hsstate, hsaved, hmissing⟩ := heightBlocks_prunedBase
  refine ⟨bs, hr, hcons, hstate, s, hs, hsstate, hsaved, hmissing,
    not_consistent_of_missing hmissing (by omega) (by simp [hsstate]) (by simp [hsstate]),
    .crash (.pruneBlocks 1001) hr trivial hs, not_consistent_of_missing hmissing (by omega) ?_ ?_⟩
  · show (loadBlockStoreState s.db).base ≤ 1000
    simp [hsaved]
  · show 1000 ≤ (loadBlockStoreState s.db).height
    simp [hsaved]

/-- `blockStore_consistent_above` at the state where the pruned base block is
gone: every block strictly above the base is still stored. -/
theorem blockStore_consistent_above_prunedBase :
    ∃ bs s, Reachable heightBlocks (ValidCall heightBlocks) bs ∧
      s ∈ ((StoreCall.pruneBlocks 1001).run heightBlocks bs).1 ∧
      loadBlock heightBlocks s.db 1000 = some none ∧ Views heightBlocks aboveBase s := by
  obtain ⟨bs, hr, -, -, s, hs, -, -, hmissing⟩ := heightBlocks_prunedBase
  exact ⟨bs, s, hr, hs, hmissing, blockStore_consistent_above (c := .pruneBlocks 1001) hr trivial hs⟩

/-- The store after `SaveBlock` of the blocks 1 and 2 on an empty database. -/
def savedTwo : BlockStore Unit :=
  [(1 : Int), 2].foldl (fun bs k => ((saveBlock heightBlocks k (heightParts k) () bs).2.map Prod.snd).getD bs)
    (newBlockStore .empty)

/-- `pruneBlocks_ok_deletes` at `PruneBlocks(2)` of `savedTwo`, which prunes
one block. -/
theorem pruneBlocks_ok_deletes_savedTwo :
    ∃ bs', (pruneBlocks 2 savedTwo).2 = some (.ok 1, bs') ∧
      (∀ k blockMeta, savedTwo.base ≤ k → k < 2 → savedTwo.db.blockMeta k = some blockMeta →
        ∀ key ∈ blockKeys k blockMeta, bs'.db.Absent key) ∧
      (∀ k, k < savedTwo.base ∨ 2 ≤ k → DB.AgreeAt k savedTwo.db bs'.db) := by
  have h : (pruneBlocks 2 savedTwo).2.map Prod.fst = some (.ok 1) := by decide
  obtain ⟨⟨r, bs'⟩, hr, hfst⟩ := Option.map_eq_some_iff.mp h
  cases hfst
  exact ⟨bs', hr, pruneBlocks_ok_deletes hr⟩

end Ostracon.Store
