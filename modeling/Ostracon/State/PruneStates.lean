import Ostracon.State.ValidatorHistory
/-!
# `state/store.go`: `PruneStates` on the validator entries

`PruneStates(from, to)` first loads the validator entry and the consensus
parameters entry at `to`, and fails without either.  It then deletes the
validator entries of the heights `[from, to)`, from `to - 1` down, except those
a later `LoadValidators` may read: where the entry at `to` stores no set, the
height of its last change and the height `lastStoredHeightFor` names for `to`.
A kept entry without a set is rewritten with the set `LoadValidators` rebuilds
there.

`Save` writes the validators up to the height after the next, and the
consensus parameters up to the next height only.  On the store of a run,
`PruneStates` never panics, succeeds for every `0 < from < to` with `to` at
most the next height, and deletes exactly the heights it does not keep
(`Run.pruneStates_eq`); afterwards `LoadValidators` returns at every height
from `to` on what it returned before (`Run.loadValidators_pruneStates`).

Only the validator entries are modelled, and of the consensus parameters
whether a height has an entry: the parameters with their own kept heights,
the voter parameters, the proof hashes and the ABCI responses that the loop
also deletes are left out, and so are the errors of the database, of
unmarshalling and of `ToProto`.  The loop reads the database while the batch is
written at the end and every 1000 heights; the model reads the store as it
was before the loop.  The two agree on what the loop reads: at height `h` it
reads `h` and heights below, and the batch holds writes above `h` only.
-/

namespace Ostracon.State

open Ostracon.Types

variable {K : Type}

/-! ## The model -/

/-- `batch.Delete(calcValidatorsKey(height))`. -/
def ValidatorsDB.delete (db : ValidatorsDB K) (height : Int) : ValidatorsDB K :=
  fun h => if h = height then none else db h

/-- The heights with a `calcConsensusParamsKey` entry; the parameters they
hold are left out. -/
abbrev ConsensusParamsKeys := Int → Bool

/-- The errors of `PruneStates` the model keeps. -/
inductive PruneError
  /-- "from height %v and to height %v must be greater than 0" -/
  | heightsNotPositive (fromHeight toHeight : Int)
  /-- "from height %v must be lower than to height %v" -/
  | fromNotLower (fromHeight toHeight : Int)
  /-- "validators at height %v not found: %w" -/
  | validatorsNotFound (toHeight : Int)
  /-- "consensus params at height %v not found: %w" -/
  | consensusParamsNotFound (toHeight : Int)
  /-- an error of `LoadValidators` at a kept height -/
  | loadValidators (err : LoadValidatorsError)
  deriving DecidableEq, Repr

/-- `keepVals`: where the entry at `to` stores no set, the height of its last
change and the last stored height for `to`. -/
def keepVals (valInfo : ValidatorsInfo K) (toHeight h : Int) : Bool :=
  valInfo.validatorSet.isNone &&
    (h == valInfo.lastHeightChanged || h == lastStoredHeightFor toHeight valInfo.lastHeightChanged)

/-- The loop of `PruneStates` over the validator entries of the heights
`from + n - 1` down to `from`: it reads the store `db` and writes `batch`. -/
def pruneValidators (db : ValidatorsDB K) (keep : Int → Bool) (fromHeight : Int) :
    Nat → ValidatorsDB K → Option (Except PruneError (ValidatorsDB K))
  | 0, batch => some (.ok batch)
  | n + 1, batch =>
    let h := fromHeight + n
    if keep h then
      match (db h).bind (·.validatorSet) with
      | some _ => pruneValidators db keep fromHeight n batch
      | none =>
        (loadValidators db h).bind fun
          | .error err => some (.error (.loadValidators err))
          -- Go fills in the entry it loaded, and dereferences nil where there is none
          | .ok vip => (db h).bind fun _ => pruneValidators db keep fromHeight n (batch.set h ⟨some vip, h⟩)
    else pruneValidators db keep fromHeight n (batch.delete h)

/-- The validator part of `PruneStates`, on a store whose consensus
parameters have entries at the heights `params` names. -/
def pruneStates (db : ValidatorsDB K) (params : ConsensusParamsKeys) (fromHeight toHeight : Int) :
    Option (Except PruneError (ValidatorsDB K)) :=
  if fromHeight ≤ 0 ∨ toHeight ≤ 0 then some (.error (.heightsNotPositive fromHeight toHeight))
  else if fromHeight ≥ toHeight then some (.error (.fromNotLower fromHeight toHeight))
  else
    match db toHeight with
    | none => some (.error (.validatorsNotFound toHeight))
    | some valInfo =>
      if !params toHeight then some (.error (.consensusParamsNotFound toHeight))
      else pruneValidators db (keepVals valInfo toHeight) fromHeight (toHeight - fromHeight).toNat db

/-- What pruning `[from, to)` leaves of a store: no entry at the heights it
does not keep, and the store elsewhere. -/
def ValidatorsDB.pruned (db : ValidatorsDB K) (keep : Int → Bool) (fromHeight toHeight : Int) : ValidatorsDB K :=
  fun h => if fromHeight ≤ h ∧ h < toHeight ∧ keep h = false then none else db h

/-! ## The loop -/

section Loop

variable {db : ValidatorsDB K} {keep : Int → Bool} {fromHeight : Int}

theorem ValidatorsDB.pruned_self (batch : ValidatorsDB K) : batch.pruned keep fromHeight fromHeight = batch := by
  funext h
  unfold ValidatorsDB.pruned
  rw [if_neg (by omega)]

theorem ValidatorsDB.pruned_succ_of_keep {batch : ValidatorsDB K} {h : Int} (hk : keep h = true) :
    batch.pruned keep fromHeight h = batch.pruned keep fromHeight (h + 1) := by
  funext h'
  unfold ValidatorsDB.pruned
  by_cases hh : h' = h
  · subst hh
    simp [hk]
  · by_cases hlt : h' < h
    · simp [hlt, show h' < h + 1 by omega]
    · simp [hlt, show ¬h' < h + 1 by omega]

theorem ValidatorsDB.pruned_delete {batch : ValidatorsDB K} {h : Int} (hf : fromHeight ≤ h) (hk : keep h = false) :
    (batch.delete h).pruned keep fromHeight h = batch.pruned keep fromHeight (h + 1) := by
  funext h'
  unfold ValidatorsDB.pruned ValidatorsDB.delete
  by_cases hh : h' = h
  · subst hh
    simp [hk, hf]
  · by_cases hlt : h' < h
    · simp [hh, hlt, show h' < h + 1 by omega]
    · simp [hh, hlt, show ¬h' < h + 1 by omega]

theorem pruneValidators_of_stored (n : Nat)
    (hkept : ∀ h, fromHeight ≤ h → h < fromHeight + n → keep h = true → ((db h).bind (·.validatorSet)).isSome)
    (batch : ValidatorsDB K) :
    pruneValidators db keep fromHeight n batch = some (.ok (batch.pruned keep fromHeight (fromHeight + n))) := by
  induction n generalizing batch with
  | zero =>
    rw [Nat.cast_zero, add_zero, ValidatorsDB.pruned_self]
    rfl
  | succ n ih =>
    have ih' := ih (fun h hlo hhi => hkept h hlo (by omega))
    rw [Nat.cast_succ, ← add_assoc]
    unfold pruneValidators
    dsimp only
    by_cases hk : keep (fromHeight + n) = true
    · -- a kept height storing its set: the loop passes over it
      obtain ⟨vs, hvs⟩ := Option.isSome_iff_exists.mp (hkept _ (by omega) (by omega) hk)
      rw [if_pos hk, hvs, ih' batch, ValidatorsDB.pruned_succ_of_keep hk]
    · rw [if_neg hk, ih' _, ValidatorsDB.pruned_delete (by omega) (by simpa using hk)]

end Loop

theorem pruneStates_ok_inv {db db' : ValidatorsDB K} {params : ConsensusParamsKeys} {fromHeight toHeight : Int}
    (h : pruneStates db params fromHeight toHeight = some (.ok db')) :
    0 < fromHeight ∧ fromHeight < toHeight ∧ (∃ valInfo, db toHeight = some valInfo) ∧ params toHeight = true := by
  unfold pruneStates at h
  by_cases hpos : fromHeight ≤ 0 ∨ toHeight ≤ 0
  · rw [if_pos hpos] at h
    cases h
  by_cases hlt : fromHeight ≥ toHeight
  · rw [if_neg hpos, if_pos hlt] at h
    cases h
  rw [if_neg hpos, if_neg hlt] at h
  cases hdb : db toHeight with
  | none =>
    rw [hdb] at h
    cases h
  | some valInfo =>
    rw [hdb] at h
    dsimp only at h
    by_cases hp : params toHeight = true
    · exact ⟨by omega, by omega, ⟨valInfo, rfl⟩, hp⟩
    · rw [if_pos (by simpa using hp)] at h
      cases h

/-! ## `LoadValidators` reads two entries -/

/-- `LoadValidators` at a height reads the entry there and, where that stores
no set, the entry of the height `lastStoredHeightFor` names: a store that
agrees on these answers alike. -/
theorem loadValidators_congr {db db' : ValidatorsDB K} {h : Int} (hh : db' h = db h)
    (hlast : ∀ c, db h = some ⟨none, c⟩ → db' (lastStoredHeightFor h c) = db (lastStoredHeightFor h c)) :
    loadValidators db' h = loadValidators db h := by
  unfold loadValidators
  rw [hh]
  cases hdb : db h with
  | none => rfl
  | some valInfo =>
    obtain ⟨opt, c⟩ := valInfo
    cases opt with
    | some vs => rfl
    | none => simp only [hlast c hdb]

theorem lastStoredHeightFor_eq_of_lt {h toHeight c : Int} (h0 : 0 ≤ toHeight) (hto : toHeight ≤ h)
    (hlt : lastStoredHeightFor h c < toHeight) :
    lastStoredHeightFor h c = lastStoredHeightFor toHeight c := by
  unfold lastStoredHeightFor valSetCheckpointInterval at *
  rw [Int.tmod_eq_emod_of_nonneg (by omega), Int.tmod_eq_emod_of_nonneg h0] at *
  simp only [max_def] at *
  split_ifs at * <;> omega

/-! ## Pruning the store of a run -/

section Store

variable {db : ValidatorsDB K} {initialHeight top : Int} {sets : Int → ValidatorSet K} {changed : Int → Int}
  {params : ConsensusParamsKeys} {fromHeight toHeight : Int}

/-- The heights `PruneStates` keeps store their sets: the last change of `to`
stores it, and so does the last stored height for `to`, which shares that
last change. -/
theorem StoreAgrees.stored_of_keepVals (hagree : StoreAgrees db initialHeight top sets changed)
    (hinit : 0 < initialHeight) (hlo : initialHeight ≤ toHeight) (hhi : toHeight ≤ top)
    {valInfo : ValidatorsInfo K} (hdb : db toHeight = some valInfo) {h : Int} (hk : keepVals valInfo toHeight h = true) :
    ((db h).bind (·.validatorSet)).isSome := by
  obtain ⟨opt, hdbto, -, -⟩ := hagree.entry toHeight hlo hhi
  rw [hdb] at hdbto
  cases hdbto
  have hmem := hagree.changed_mem toHeight hlo hhi
  obtain ⟨hLm, hmh, -, hm⟩ := lastStoredHeightFor_spec (by omega) hmem.2
  unfold keepVals at hk
  simp only [Bool.and_eq_true, Bool.or_eq_true, beq_iff_eq] at hk
  -- both kept heights lie between the last change of `to` and `to`, and store there
  have hkeep : changed toHeight ≤ h ∧ h ≤ toHeight ∧
      (h = changed toHeight ∨ h.tmod valSetCheckpointInterval = 0) := by
    rcases hk.2 with rfl | rfl
    · exact ⟨le_rfl, hmem.2, .inl rfl⟩
    · exact ⟨hLm, hmh, hm⟩
  obtain ⟨hch, -⟩ := hagree.constant toHeight h hlo hhi hkeep.1 hkeep.2.1
  obtain ⟨opt', hdbh, -, hstored⟩ := hagree.entry h (by omega) (by omega)
  rw [hdbh]
  exact hstored.mpr (by rw [hch]; exact hkeep.2.2)

theorem StoreAgrees.pruneStates_eq_pruned (hagree : StoreAgrees db initialHeight top sets changed)
    (hinit : 0 < initialHeight) (hfrom : 0 < fromHeight) (hlt : fromHeight < toHeight)
    (hlo : initialHeight ≤ toHeight) (hhi : toHeight ≤ top) (hparams : params toHeight = true) :
    ∃ valInfo, db toHeight = some valInfo ∧
      pruneStates db params fromHeight toHeight =
        some (.ok (db.pruned (keepVals valInfo toHeight) fromHeight toHeight)) := by
  obtain ⟨opt, hdb, -, -⟩ := hagree.entry toHeight hlo hhi
  refine ⟨_, hdb, ?_⟩
  unfold pruneStates
  rw [if_neg (by omega), if_neg (by omega), hdb]
  dsimp only
  rw [if_neg (by simp [hparams]), pruneValidators_of_stored _ (fun h _ _ hk => hagree.stored_of_keepVals hinit hlo hhi hdb hk) db]
  rw [show fromHeight + ((toHeight - fromHeight).toNat : Int) = toHeight by omega]

/-- After pruning `[from, to)`, `LoadValidators` returns at every height from
`to` on what it returned before: the entries from `to` on are untouched, and
a load there reads below `to` only the last stored height for `to`, which is
kept. -/
theorem StoreAgrees.loadValidators_pruned (hagree : StoreAgrees db initialHeight top sets changed)
    (hinit : 0 < initialHeight) (hlo : initialHeight ≤ toHeight) (hhi : toHeight ≤ top) {valInfo : ValidatorsInfo K}
    (hdb : db toHeight = some valInfo) {h : Int} (hh : toHeight ≤ h) :
    loadValidators (db.pruned (keepVals valInfo toHeight) fromHeight toHeight) h = loadValidators db h := by
  have hfar : ∀ h', toHeight ≤ h' → db.pruned (keepVals valInfo toHeight) fromHeight toHeight h' = db h' := by
    intro h' hh'
    unfold ValidatorsDB.pruned
    rw [if_neg (by omega)]
  refine loadValidators_congr (hfar h hh) fun c hc => ?_
  by_cases hm : toHeight ≤ lastStoredHeightFor h c
  · exact hfar _ hm
  -- the entry at `h` reads back below `to`: `h` is a height the run saved, without a set
  have hhtop : h ≤ top := by
    by_contra hgt
    rw [hagree.unsaved h (.inr (by omega))] at hc
    cases hc
  obtain ⟨opt, hdbh, -, hstored⟩ := hagree.entry h (by omega) hhtop
  rw [hdbh] at hc
  cases hc
  have hmem := hagree.changed_mem h (by omega) hhtop
  obtain ⟨hLm, -, -, -⟩ := lastStoredHeightFor_spec (by omega) hmem.2
  obtain ⟨hch, -⟩ := hagree.constant h toHeight (by omega) hhtop (by omega) hh
  have hmto := lastStoredHeightFor_eq_of_lt (by omega) hh (not_le.mp hm)
  -- `to` stores no set, else it would be read back from itself
  obtain ⟨optto, hdbto, -, hstoredto⟩ := hagree.entry toHeight hlo hhi
  rw [hdb] at hdbto
  cases hdbto
  have hnone : optto = none := by
    cases optto with
    | none => rfl
    | some vs =>
      have hstore := hstoredto.mp rfl
      have hself : lastStoredHeightFor toHeight (changed toHeight) = toHeight := by
        unfold lastStoredHeightFor
        rcases hstore with heq | hcp
        · rw [← heq]
          exact max_eq_right (by omega)
        · rw [hcp, sub_zero]
          exact max_eq_left (by omega)
      rw [hch, ← hmto] at hself
      omega
  unfold ValidatorsDB.pruned
  rw [if_neg]
  simp [keepVals, hnone, hmto, hch]

end Store

/-! ## Runs -/

/-- The consensus parameters entries of a run's store: `save` writes one at
the next height of every state it saves. -/
def savedConsensusParams (states : List (ValidatorState K)) : ConsensusParamsKeys :=
  fun h => states.any fun s => s.nextHeight == h

section Runs

variable {db db' : ValidatorsDB K} {state : ValidatorState K} {states : List (ValidatorState K)}
  {fromHeight toHeight : Int}

theorem Run.savedConsensusParams_eq_true (hrun : Run (state :: states) db) {h : Int}
    (hlo : state.initialHeight ≤ h) (hhi : h ≤ state.nextHeight) :
    savedConsensusParams (state :: states) h = true := by
  -- induction on the run, carrying the heights below the next one
  generalize hl : state :: states = l at hrun
  induction hrun generalizing state states with
  | genesis hinit hne hsized hgen hsave =>
    cases hl
    -- genesis saves the parameters at the initial height, its next one
    obtain ⟨⟨vp, voters, rfl, -⟩, -⟩ := makeGenesisState_eq hne hgen
    simp [savedConsensusParams, ValidatorState.nextHeight] at hlo hhi ⊢
    omega
  | @block states₀ s s' d d' ph upd hprev hupdates hupd hsave ih =>
    cases hl
    obtain ⟨sets, changed, hagree⟩ := hprev.agrees
    obtain ⟨hI, -, hlast, -⟩ := updateState_cases hupd
    have hpos : 0 < s.nextHeight := lt_of_lt_of_le hagree.initial_pos hagree.initial_le
    have hnext : s'.nextHeight = s.nextHeight + 1 := by
      rw [ValidatorState.nextHeight_of_pos (by rw [hlast]; exact hpos), hlast]
    by_cases htop : h = s'.nextHeight
    · simp [savedConsensusParams, htop]
    · have hold := ih (by rw [← hI]; exact hlo) (by omega) rfl
      simp only [savedConsensusParams, List.any_cons, Bool.or_eq_true] at hold ⊢
      exact .inr hold

/-- On the store of a run, `PruneStates(from, to)` never panics and succeeds
for every `0 < from < to` with `to` at most the next height: it deletes the
entries of the heights of `[from, to)` other than the last change of `to` and
the last stored height for `to` (both only where `to` stores no set), and
leaves every other entry as it was. -/
theorem Run.pruneStates_eq (hrun : Run (state :: states) db) (hfrom : 0 < fromHeight)
    (hlt : fromHeight < toHeight) (hlo : state.initialHeight ≤ toHeight) (hhi : toHeight ≤ state.nextHeight) :
    ∃ valInfo, db toHeight = some valInfo ∧
      pruneStates db (savedConsensusParams (state :: states)) fromHeight toHeight =
        some (.ok (db.pruned (keepVals valInfo toHeight) fromHeight toHeight)) := by
  obtain ⟨sets, changed, hagree⟩ := hrun.agrees
  exact hagree.store.pruneStates_eq_pruned hagree.initial_pos hfrom hlt hlo (by omega)
    (hrun.savedConsensusParams_eq_true hlo hhi)

/-- The validator entries of `genesisOfTen`'s chain after two blocks: the set
at height 1, and its last change at heights 2 to 4. -/
def twoBlocksDB : ValidatorsDB Nat :=
  (((ValidatorsDB.empty.set 1 ⟨some ⟨[validatorOfTen], 10⟩, 1⟩).set 2 ⟨none, 1⟩).set 3 ⟨none, 1⟩).set 4 ⟨none, 1⟩

/-- The state of `genesisOfTen`'s chain after the block of height `n`, for a
chain whose blocks have no updates and empty proof hashes. -/
def genesisOfTenAfter (n : Int) : ValidatorState Nat :=
  { genesisOfTen with lastBlockHeight := n, lastVoters := genesisOfTen.voters }

theorem Run.genesisOfTen_twoBlocks :
    Run [genesisOfTenAfter 2, genesisOfTenAfter 1, genesisOfTen] twoBlocksDB :=
  have hgen : Run [genesisOfTen] ((ValidatorsDB.empty.set 1 ⟨some ⟨[validatorOfTen], 10⟩, 1⟩).set 2 ⟨none, 1⟩) :=
    @Run.genesis Nat 1 [validatorOfTen] none [] _ _ (by decide) (by simp) (by decide) rfl rfl
  have hone := @Run.block Nat [] _ (genesisOfTenAfter 1) _
    (((ValidatorsDB.empty.set 1 ⟨some ⟨[validatorOfTen], 10⟩, 1⟩).set 2 ⟨none, 1⟩).set 3 ⟨none, 1⟩) [] []
    hgen (by simp) rfl rfl
  @Run.block Nat _ _ _ _ twoBlocksDB [] [] hone (by simp) rfl rfl

theorem Run.pruneStates_eq_two_blocks :
    ∃ valInfo, twoBlocksDB 3 = some valInfo ∧
      pruneStates twoBlocksDB (savedConsensusParams [genesisOfTenAfter 2, genesisOfTenAfter 1, genesisOfTen]) 1 3 =
        some (.ok (twoBlocksDB.pruned (keepVals valInfo 3) 1 3)) :=
  Run.pruneStates_eq Run.genesisOfTen_twoBlocks (by decide) (by decide) (by decide) (by decide)

/-- After any successful `PruneStates(from, to)` of the store of a run,
`LoadValidators` returns at every height from `to` on what it returned
before. -/
theorem Run.loadValidators_pruneStates (hrun : Run (state :: states) db)
    (hprune : pruneStates db (savedConsensusParams (state :: states)) fromHeight toHeight = some (.ok db'))
    {h : Int} (hh : toHeight ≤ h) :
    loadValidators db' h = loadValidators db h := by
  obtain ⟨sets, changed, hagree⟩ := hrun.agrees
  obtain ⟨hfrom, hlt, ⟨valInfo, hdb⟩, hparams⟩ := pruneStates_ok_inv hprune
  -- the height `to` has an entry, so the run has saved it
  have hrange : state.initialHeight ≤ toHeight ∧ toHeight ≤ state.nextHeight + 1 := by
    by_contra hout
    rw [hagree.store.unsaved toHeight (by omega)] at hdb
    cases hdb
  obtain ⟨valInfo', hdb', hprune'⟩ :=
    hagree.store.pruneStates_eq_pruned hagree.initial_pos hfrom hlt hrange.1 hrange.2 hparams
  rw [hdb] at hdb'
  cases hdb'
  rw [hprune'] at hprune
  cases hprune
  exact hagree.store.loadValidators_pruned hagree.initial_pos hrange.1 hrange.2 hdb hh

theorem Run.loadValidators_pruneStates_two_blocks :
    pruneStates twoBlocksDB (savedConsensusParams [genesisOfTenAfter 2, genesisOfTenAfter 1, genesisOfTen]) 1 3 =
      some (.ok (twoBlocksDB.delete 2)) ∧
    loadValidators (twoBlocksDB.delete 2) 3 = loadValidators twoBlocksDB 3 := by
  have hprune : pruneStates twoBlocksDB (savedConsensusParams [genesisOfTenAfter 2, genesisOfTenAfter 1,
      genesisOfTen]) 1 3 = some (.ok (twoBlocksDB.delete 2)) := rfl
  exact ⟨hprune, Run.loadValidators_pruneStates Run.genesisOfTen_twoBlocks hprune (by decide)⟩

end Runs

end Ostracon.State
