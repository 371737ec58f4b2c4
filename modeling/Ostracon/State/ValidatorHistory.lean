import Ostracon.Types.ProposerPriority
import Ostracon.Types.LightBlock
import Ostracon.Types.ElectionTolerance
/-!
# `state/execution.go` and `state/store.go`: the validator sets of a run

A node starts from `MakeGenesisState`, which checks the genesis voter
parameters, sets both `Validators` and `NextValidators` to `NewValidatorSet` of
the genesis validators, elects the voters among them, and saves it.
For each block, `updateState` applies the validator updates to a copy of
`NextValidators`, runs `IncrementProposerPriority(1)` on it, moves the old
`NextValidators` to `Validators`, and elects the voters among them with
`SelectVoter`; `Save` then writes the new `NextValidators`
at the height after the next.  `saveValidatorsInfo` stores a set only at the
height of its last change and at every `valSetCheckpointInterval`-th height,
and otherwise only the height of the last change; `LoadValidators` rebuilds a
set it did not store from the last stored one, by `IncrementProposerPriority`
over the heights between.

Along every run the sets the state holds stay `Bounded` and the voter
parameters keep the range genesis checked, so `updateState` never panics,
whatever proof hash and validator updates it is given
(`Run.updateState_isSome`).  The store agrees with the state on every height
of the run up to the proposer priorities: `LoadValidators` returns the state's
validators, their keys, powers and order, at every height the run has saved
(`Run.loadValidators_toValidatorSet`), so the hashes of the sets agree.  The priorities
do not: the genesis state stores at `InitialHeight` the set that
`Validators` holds one block later, and `LoadValidators` adds an increment for
the height between (`loadValidators_priorities_after_genesis`).

Only the validator and voter part of the state and of the store is modelled:
the consensus parameters, the app hash and the results hash are left out, and
so are the database's I/O errors.  `vrf.ProofToHash` is left out: `updateState`
is given the proof hash, and its error is not modelled.  A set's `ToProto` and
`ValidatorSetFromProto` are the identity on the model's sets followed by
`ValidateBasic`.
-/

namespace Ostracon.State

open Ostracon.Types Ostracon.Crypto.Merkle GoInt PriorityValidatorSet

variable {K : Type}

/-! ## The model -/

/-- `valSetCheckpointInterval`. -/
def valSetCheckpointInterval : Int := 100000

/-- The fields of `State` that `updateState` and the store's validator
functions read and write. -/
structure ValidatorState (K : Type) where
  initialHeight : Int
  voterParams : VoterParams
  lastBlockHeight : Int
  lastProofHash : Bytes
  nextValidators : PriorityValidatorSet K
  validators : PriorityValidatorSet K
  voters : VoterSet K
  lastVoters : VoterSet K
  lastHeightValidatorsChanged : Int
  deriving DecidableEq, Repr

/-- `DefaultVoterParams`. -/
def defaultVoterParams : VoterParams := ⟨33, 33⟩

/-- The voter part of `GenesisDoc.ValidateAndComplete`: the default voter
parameters where the document has none, else the document's, checked. -/
def genesisVoterParams : Option VoterParams → Except VoterParamsError VoterParams
  | none => .ok defaultVoterParams
  | some vp => vp.validate.map fun () => vp

/-- The validator and voter part of `MakeGenesisState`, given the genesis
document's hash: both sets are `NewValidatorSet` of the genesis validators,
and the voters are elected among them with that hash.  `none` where Go
panics. -/
def makeGenesisState (initialHeight : Int) (genValidators : List (PriorityValidator K))
    (voterParams : Option VoterParams) (genesisHash : Bytes) :
    Option (Except VoterParamsError (ValidatorState K)) :=
  match genesisVoterParams voterParams with
  | .error err => some (.error err)
  | .ok voterParams =>
    (newValidatorSet genValidators).bind fun validatorSet =>
      (newValidatorSet genValidators).bind fun nextValidatorSet =>
        (selectVoter (validatorSet.validators.map (·.toValidator)) genesisHash voterParams).map fun voters =>
          .ok { initialHeight
                voterParams
                lastBlockHeight := 0
                lastProofHash := genesisHash
                nextValidators := nextValidatorSet
                validators := validatorSet
                voters
                lastVoters := ⟨[], 0⟩
                lastHeightValidatorsChanged := initialHeight }

/-- The error of `updateState` the model keeps: "error changing validator set: %v". -/
inductive UpdateStateError (K : Type)
  | changingValidatorSet (err : ChangeSetError K)
  deriving DecidableEq, Repr

/-- The validator and voter part of `updateState` for a block of height
`height` whose proof hashes to `proofHash`: the updates applied to
`NextValidators`, whose priorities are then incremented once, and the voters
elected among the old `NextValidators`.  `none` where Go panics. -/
def updateState (state : ValidatorState K) (height : Int) (proofHash : Bytes)
    (validatorUpdates : List (PriorityValidator K)) : Option (Except (UpdateStateError K) (ValidatorState K)) :=
  let nValSet := state.nextValidators
  let changed : Option (Except (UpdateStateError K) (PriorityValidatorSet K × Int)) :=
    if validatorUpdates.length > 0 then
      (nValSet.UpdateWithChangeSet validatorUpdates).map fun r =>
        match r.1 with
        | .error err => .error (.changingValidatorSet err)
        -- a change at this height applies from the height after the next
        | .ok () => .ok (r.2, height + 1 + 1)
    else some (.ok (nValSet, state.lastHeightValidatorsChanged))
  changed.bind fun
    | .error err => some (.error err)
    | .ok (nValSet, lastHeightValsChanged) =>
      (nValSet.IncrementProposerPriority 1).bind fun nValSet =>
        let validators := state.nextValidators
        (selectVoter (validators.validators.map (·.toValidator)) proofHash state.voterParams).map fun voters =>
          .ok { state with
            lastBlockHeight := height
            lastProofHash := proofHash
            nextValidators := nValSet
            validators
            voters
            lastVoters := state.voters
            lastHeightValidatorsChanged := lastHeightValsChanged }

/-- `tmstate.ValidatorsInfo`: the set, persisted only where it changed or at a
checkpoint, and the height of its last change. -/
structure ValidatorsInfo (K : Type) where
  validatorSet : Option (PriorityValidatorSet K)
  lastHeightChanged : Int
  deriving DecidableEq, Repr

/-- The entries `calcValidatorsKey(height)` of the state store's database. -/
abbrev ValidatorsDB (K : Type) := Int → Option (ValidatorsInfo K)

/-- The database with no validator entries. -/
def ValidatorsDB.empty : ValidatorsDB K := fun _ => none

/-- `db.Set(calcValidatorsKey(height), ...)`. -/
def ValidatorsDB.set (db : ValidatorsDB K) (height : Int) (info : ValidatorsInfo K) : ValidatorsDB K :=
  fun h => if h = height then some info else db h

/-- The error of `saveValidatorsInfo`: "lastHeightChanged cannot be greater
than ValidatorsInfo height". -/
inductive SaveError
  | lastHeightChangedTooHigh
  deriving DecidableEq, Repr

/-- `saveValidatorsInfo`: the set is persisted only at the height of its last
change or at a checkpoint height. -/
def saveValidatorsInfo (db : ValidatorsDB K) (height lastHeightChanged : Int) (valSet : PriorityValidatorSet K) :
    Except SaveError (ValidatorsDB K) :=
  if lastHeightChanged > height then .error .lastHeightChangedTooHigh
  else
    .ok (db.set height
      ⟨if height = lastHeightChanged ∨ height.tmod valSetCheckpointInterval = 0 then some valSet else none,
        lastHeightChanged⟩)

/-- The validator part of `dbStore.save`: before the first block, the
validators for `InitialHeight` too, then the next validators for the height
after the next. -/
def save (db : ValidatorsDB K) (state : ValidatorState K) : Except SaveError (ValidatorsDB K) :=
  let nextHeight := state.lastBlockHeight + 1
  if nextHeight = 1 then
    -- the first block's validators, at `InitialHeight`
    (saveValidatorsInfo db state.initialHeight state.initialHeight state.validators).bind fun db =>
      saveValidatorsInfo db (state.initialHeight + 1) state.lastHeightValidatorsChanged state.nextValidators
  else saveValidatorsInfo db (nextHeight + 1) state.lastHeightValidatorsChanged state.nextValidators

/-- `lastStoredHeightFor`: the later of the last checkpoint and the last
change. -/
def lastStoredHeightFor (height lastHeightChanged : Int) : Int :=
  let checkpointHeight := height - height.tmod valSetCheckpointInterval
  max checkpointHeight lastHeightChanged

/-- `ValidatorSetFromProto` of a set's `ToProto`: the set, checked by
`ValidateBasic`. -/
def validatorSetFromProto (vals : PriorityValidatorSet K) : Except SetError (PriorityValidatorSet K) :=
  (ValidatorSet.validateBasic (vals.validators.map (·.toValidator))).map fun _ => vals

/-- `tmmath.SafeConvertInt32`; `none` where it panics, outside `int32`. -/
def safeConvertInt32 (a : Int) : Option Int :=
  if a > 2147483647 then none
  else if a < -2147483648 then none
  else some a

/-- The errors of `LoadValidators`. -/
inductive LoadValidatorsError
  /-- `ErrNoValSetForHeight`: "could not find validator set for height #%d" -/
  | noValSetForHeight (height : Int)
  /-- "couldn't find validators at height %d (height %d was originally requested): %w" -/
  | couldNotFindValidators (lastStoredHeight height : Int)
  /-- an error of `ValidatorSetFromProto` -/
  | invalidValidatorSet (err : SetError)
  deriving DecidableEq, Repr

/-- `LoadValidators`: the set stored at the height, or else the set stored at
`lastStoredHeightFor` with its priorities incremented once for each height
between.  `none` where Go panics. -/
def loadValidators (db : ValidatorsDB K) (height : Int) :
    Option (Except LoadValidatorsError (PriorityValidatorSet K)) :=
  if height = 0 then some (.error (.noValSetForHeight height))
  else
    match db height with
    | none => some (.error (.noValSetForHeight height))
    | some valInfo =>
      match valInfo.validatorSet with
      | some vs => some ((validatorSetFromProto vs).mapError .invalidValidatorSet)
      | none =>
        let lastStoredHeight := lastStoredHeightFor height valInfo.lastHeightChanged
        match (db lastStoredHeight).bind (·.validatorSet) with
        | none => some (.error (.couldNotFindValidators lastStoredHeight height))
        | some vs2 =>
          match validatorSetFromProto vs2 with
          | .error err => some (.error (.invalidValidatorSet err))
          | .ok vs =>
            (safeConvertInt32 (height - lastStoredHeight)).bind fun times =>
              (vs.IncrementProposerPriority times).map fun vs =>
                (validatorSetFromProto vs).mapError .invalidValidatorSet

/-! ## `updateState` -/

section UpdateState

variable {state state' : ValidatorState K} {height : Int} {proofHash : Bytes}
  {updates : List (PriorityValidator K)}

/-- What `updateState` does when it succeeds: `Validators` takes the old
`NextValidators`, and `NextValidators` is the old one, or the result of the
updates where there are some, incremented once; a change moves the height of
the last change to the height after the next. -/
theorem updateState_cases (h : updateState state height proofHash updates = some (.ok state')) :
    state'.initialHeight = state.initialHeight ∧ state'.voterParams = state.voterParams ∧
      state'.lastBlockHeight = height ∧ state'.validators = state.nextValidators ∧
      ∃ vals, ((updates = [] ∧ vals = state.nextValidators ∧
          state'.lastHeightValidatorsChanged = state.lastHeightValidatorsChanged) ∨
        (updates ≠ [] ∧ state.nextValidators.UpdateWithChangeSet updates = some (.ok (), vals) ∧
          state'.lastHeightValidatorsChanged = height + 1 + 1)) ∧
        vals.IncrementProposerPriority 1 = some state'.nextValidators := by
  unfold updateState at h
  dsimp only at h
  by_cases hnil : updates = []
  · subst hnil
    simp only [List.length_nil, gt_iff_lt, Nat.lt_irrefl, if_false, Option.bind_some] at h
    obtain ⟨vals', hinc, h⟩ := Option.bind_eq_some_iff.mp h
    obtain ⟨voters, -, heq⟩ := Option.map_eq_some_iff.mp h
    cases heq
    exact ⟨rfl, rfl, rfl, rfl, _, .inl ⟨rfl, rfl, rfl⟩, hinc⟩
  · rw [if_pos (List.length_pos_iff.mpr hnil)] at h
    obtain ⟨c, hc, h⟩ := Option.bind_eq_some_iff.mp h
    obtain ⟨⟨r, vals⟩, hupd, rfl⟩ := Option.map_eq_some_iff.mp hc
    cases r with
    | error err => cases h
    | ok u =>
      obtain ⟨vals', hinc, h⟩ := Option.bind_eq_some_iff.mp h
      obtain ⟨voters, -, heq⟩ := Option.map_eq_some_iff.mp h
      cases heq
      exact ⟨rfl, rfl, rfl, rfl, vals, .inr ⟨hnil, hupd, rfl⟩, hinc⟩

end UpdateState

/-! ## Addresses -/

/-- Every validator of the set has an address of `crypto.AddressSize` bytes,
as `NewValidator` makes it from a public key. -/
def AddressSized (vals : PriorityValidatorSet K) : Prop :=
  ∀ v ∈ vals.validators, v.address.length = addressSize

theorem addressSized_expectedSet {vals : PriorityValidatorSet K} {changes : List (PriorityValidator K)}
    (hvals : AddressSized vals) (hchanges : ∀ c ∈ changes, c.address.length = addressSize) :
    AddressSized (expectedSet vals changes) := by
  intro v hv
  rcases address_mem_of_mem_expectedSet hv with h | h
  · obtain ⟨w, hw, hwv⟩ := List.mem_map.mp h
    rw [← hwv]
    exact hvals w hw
  · obtain ⟨w, hw, hwv⟩ := List.mem_map.mp h
    rw [← hwv]
    exact hchanges w hw

theorem AddressSized.of_frame {vals vals' : PriorityValidatorSet K} (h : AddressSized vals)
    (hframe : vals'.validators.map (·.toValidator) = vals.validators.map (·.toValidator)) : AddressSized vals' := by
  intro v hv
  have hmem : v.toValidator ∈ vals.validators.map (·.toValidator) := by
    rw [← hframe]
    exact List.mem_map_of_mem hv
  obtain ⟨w, hw, hwv⟩ := List.mem_map.mp hmem
  rw [show v.address = w.address from (congrArg Validator.address hwv).symm]
  exact h w hw

theorem validateValidators_eq_ok {l : List (Validator K)}
    (h : ∀ v ∈ l, 0 ≤ v.votingPower ∧ v.address.length = addressSize) (idx : Nat) :
    validateValidators idx l = .ok () := by
  induction l generalizing idx with
  | nil => rfl
  | cons v l ih =>
    have hv := h v List.mem_cons_self
    have hbasic : v.validateBasic = .ok () := by
      unfold Validator.validateBasic
      rw [if_neg (by omega), if_neg (by simp [hv.2])]
    rw [validateValidators, hbasic]
    exact ih (fun w hw => h w (List.mem_cons_of_mem v hw)) (idx + 1)

theorem validatorSetFromProto_eq_ok {vals : PriorityValidatorSet K} (hne : vals.validators ≠ [])
    (hvalid : ∀ v ∈ vals.validators, 0 ≤ v.votingPower ∧ v.address.length = addressSize) :
    validatorSetFromProto vals = .ok vals := by
  have hmap : vals.validators.map (·.toValidator) ≠ [] := by simpa using hne
  unfold validatorSetFromProto ValidatorSet.validateBasic validateSet
  rw [if_neg hmap, validateValidators_eq_ok (fun v hv => by
    obtain ⟨w, hw, rfl⟩ := List.mem_map.mp hv
    exact hvalid w hw)]
  rfl

theorem validatorSetFromProto_of_bounded {vals : PriorityValidatorSet K} (h : vals.Bounded)
    (hsized : AddressSized vals) : validatorSetFromProto vals = .ok vals :=
  validatorSetFromProto_eq_ok h.nonempty fun v hv => ⟨(h.power_pos v hv).le, hsized v hv⟩

/-! ## The store -/

section Store

variable {db : ValidatorsDB K}

@[simp] theorem ValidatorsDB.set_apply (db : ValidatorsDB K) (height h : Int) (info : ValidatorsInfo K) :
    db.set height info h = if h = height then some info else db h := rfl

theorem saveValidatorsInfo_eq {height lastHeightChanged : Int} (hle : lastHeightChanged ≤ height)
    (valSet : PriorityValidatorSet K) :
    saveValidatorsInfo db height lastHeightChanged valSet =
      .ok (db.set height ⟨if height = lastHeightChanged ∨ height.tmod valSetCheckpointInterval = 0 then
        some valSet else none, lastHeightChanged⟩) := by
  unfold saveValidatorsInfo
  rw [if_neg (by omega)]

/-- The height `LoadValidators` reads a set it did not store from: at or
after the last change, at most a checkpoint interval back, and a height that
stores its set, being the last change or a checkpoint. -/
theorem lastStoredHeightFor_spec {height lastHeightChanged : Int} (h0 : 0 ≤ height)
    (hle : lastHeightChanged ≤ height) :
    lastHeightChanged ≤ lastStoredHeightFor height lastHeightChanged ∧
      lastStoredHeightFor height lastHeightChanged ≤ height ∧
      height - lastStoredHeightFor height lastHeightChanged < valSetCheckpointInterval ∧
      (lastStoredHeightFor height lastHeightChanged = lastHeightChanged ∨
        (lastStoredHeightFor height lastHeightChanged).tmod valSetCheckpointInterval = 0) := by
  unfold lastStoredHeightFor valSetCheckpointInterval
  rw [Int.tmod_eq_emod_of_nonneg h0]
  simp only
  by_cases hc : lastHeightChanged ≤ height - height % 100000
  · rw [max_eq_left hc, Int.tmod_eq_emod_of_nonneg (by omega)]
    omega
  · rw [max_eq_right (by omega)]
    omega

theorem save_of_lastBlockHeight_eq_zero {state : ValidatorState K} (h0 : state.lastBlockHeight = 0)
    (hL : state.lastHeightValidatorsChanged ≤ state.initialHeight + 1) :
    save db state = .ok ((db.set state.initialHeight ⟨some state.validators, state.initialHeight⟩).set
      (state.initialHeight + 1) ⟨if state.initialHeight + 1 = state.lastHeightValidatorsChanged ∨
        (state.initialHeight + 1).tmod valSetCheckpointInterval = 0 then some state.nextValidators else none,
        state.lastHeightValidatorsChanged⟩) := by
  unfold save
  simp only [h0, zero_add, if_true, saveValidatorsInfo_eq (le_refl state.initialHeight), true_or, Except.bind,
    saveValidatorsInfo_eq hL]

theorem save_of_lastBlockHeight_ne_zero {state : ValidatorState K} (h0 : state.lastBlockHeight ≠ 0)
    (hL : state.lastHeightValidatorsChanged ≤ state.lastBlockHeight + 1 + 1) :
    save db state = .ok (db.set (state.lastBlockHeight + 1 + 1) ⟨if state.lastBlockHeight + 1 + 1 =
      state.lastHeightValidatorsChanged ∨ (state.lastBlockHeight + 1 + 1).tmod valSetCheckpointInterval = 0 then
        some state.nextValidators else none, state.lastHeightValidatorsChanged⟩) := by
  unfold save
  dsimp only
  rw [if_neg (by omega), saveValidatorsInfo_eq hL]

end Store

theorem toValidatorSet_eq_of_frame {vals vals' : PriorityValidatorSet K}
    (hframe : vals'.validators.map (·.toValidator) = vals.validators.map (·.toValidator))
    (hcache : vals'.totalVotingPowerCache = vals.totalVotingPowerCache) :
    vals'.toValidatorSet = vals.toValidatorSet := by
  unfold toValidatorSet
  rw [hframe, hcache]

theorem validatorSetFromProto_of_frame {vals vals' : PriorityValidatorSet K}
    (hframe : vals'.validators.map (·.toValidator) = vals.validators.map (·.toValidator))
    (h : validatorSetFromProto vals = .ok vals) : validatorSetFromProto vals' = .ok vals' := by
  unfold validatorSetFromProto at h ⊢
  rw [hframe]
  cases hv : ValidatorSet.validateBasic (vals.validators.map (·.toValidator)) with
  | error err =>
    rw [hv] at h
    cases h
  | ok u => rfl

/-! ## `updateState` from a bounded set -/

section BoundedUpdate

variable {state state' : ValidatorState K} {height : Int} {proofHash : Bytes}
  {updates : List (PriorityValidator K)}

theorem genesisVoterParams_validate {voterParams : Option VoterParams} {vp : VoterParams}
    (h : genesisVoterParams voterParams = .ok vp) : vp.validate = .ok () := by
  cases voterParams with
  | none =>
    cases h
    rfl
  | some vp' =>
    cases hv : vp'.validate with
    | error err =>
      simp only [genesisVoterParams, hv] at h
      cases h
    | ok u =>
      simp only [genesisVoterParams, hv] at h
      cases h
      exact hv

theorem selectVoter_isSome_of_bounded {vals : PriorityValidatorSet K} (hb : vals.Bounded) (proofHash : Bytes)
    {vp : VoterParams} (hvp : vp.validate = .ok ()) :
    (selectVoter (vals.validators.map (·.toValidator)) proofHash vp).isSome := by
  have hsum : ((vals.validators.map (·.toValidator)).map (·.votingPower)).sum = sumVotingPower vals.validators := by
    simp [sumVotingPower, Function.comp_def]
  obtain ⟨v, hv⟩ := List.exists_mem_of_ne_nil _ hb.nonempty
  refine selectVoter_isSome proofHash vp (fun w hw => ?_) (by rw [hsum]; exact hb.total_le)
    ⟨v.toValidator, List.mem_map_of_mem hv, hb.power_pos v hv⟩ (VoterParams.percentage_pos_of_validate hvp).le
  obtain ⟨u, hu, rfl⟩ := List.mem_map.mp hw
  exact (hb.power_pos u hu).le

/-- From a bounded `NextValidators` and checked voter parameters,
`updateState` never panics, whatever the proof hash and the updates: a change
set the update refuses is an error, the set it increments is bounded, and so
is the set it elects the voters from. -/
theorem updateState_isSome_of_bounded (hb : state.nextValidators.Bounded) (hvp : state.voterParams.validate = .ok ())
    (height : Int) (proofHash : Bytes) (updates : List (PriorityValidator K)) :
    (updateState state height proofHash updates).isSome := by
  obtain ⟨voters, hsel⟩ := Option.isSome_iff_exists.mp (selectVoter_isSome_of_bounded hb proofHash hvp)
  unfold updateState
  dsimp only
  by_cases hnil : updates = []
  · subst hnil
    obtain ⟨vals', hinc, -⟩ := hb.incrementProposerPriority_one
    simp [hinc, hsel]
  · rw [if_pos (List.length_pos_iff.mpr hnil)]
    rcases hb.toUpdatable.updateWithChangeSet_cases hnil true with ⟨err, herr⟩ | ⟨hok, hvalid⟩
    · simp [UpdateWithChangeSet, herr]
    · obtain ⟨vals', hinc, -⟩ := hvalid.bounded.incrementProposerPriority_one
      simp [UpdateWithChangeSet, hok, hinc, hsel]

/-- What a successful `updateState` leaves from a bounded `NextValidators`
of addresses of the right size, with updates of such addresses: a bounded
`NextValidators` of such addresses, the same validators as before where there
were no updates, and a last change at the height after the next where there
were. -/
theorem updateState_spec (hb : state.nextValidators.Bounded) (hsized : AddressSized state.nextValidators)
    (hupdates : ∀ v ∈ updates, v.address.length = addressSize)
    (h : updateState state height proofHash updates = some (.ok state')) :
    state'.initialHeight = state.initialHeight ∧ state'.voterParams = state.voterParams ∧
      state'.lastBlockHeight = height ∧ state'.validators = state.nextValidators ∧ state'.nextValidators.Bounded ∧
      AddressSized state'.nextValidators ∧
      ((updates = [] ∧ state'.lastHeightValidatorsChanged = state.lastHeightValidatorsChanged ∧
          state'.nextValidators.toValidatorSet = state.nextValidators.toValidatorSet) ∨
        (updates ≠ [] ∧ state'.lastHeightValidatorsChanged = height + 1 + 1)) := by
  obtain ⟨hI, hP, hlast, hvals, vals, hcases, hinc⟩ := updateState_cases h
  -- the set incremented is bounded: the old one, or the valid result of the updates
  have hvalsB : vals.Bounded ∧ AddressSized vals ∧
      ((updates = [] ∧ state'.lastHeightValidatorsChanged = state.lastHeightValidatorsChanged ∧
          vals = state.nextValidators) ∨
        (updates ≠ [] ∧ state'.lastHeightValidatorsChanged = height + 1 + 1)) := by
    rcases hcases with ⟨hnil, rfl, hL⟩ | ⟨hne, hok, hL⟩
    · exact ⟨hb, hsized, .inl ⟨hnil, hL, rfl⟩⟩
    · unfold UpdateWithChangeSet at hok
      rcases hb.toUpdatable.updateWithChangeSet_cases hne true with ⟨err, herr⟩ | ⟨hok', hvalid⟩
      · rw [herr] at hok
        cases hok
      · rw [hok'] at hok
        cases hok
        exact ⟨hvalid.bounded, addressSized_expectedSet hsized hupdates, .inr ⟨hne, hL⟩⟩
  obtain ⟨hvb, hvs, hcase⟩ := hvalsB
  obtain ⟨vals', hinc', hb', hframe, hcache⟩ := hvb.incrementProposerPriority_one
  rw [hinc] at hinc'
  cases hinc'
  refine ⟨hI, hP, hlast, hvals, hb', hvs.of_frame hframe, ?_⟩
  rcases hcase with ⟨hnil, hL, rfl⟩ | ⟨hne, hL⟩
  · exact .inl ⟨hnil, hL, toValidatorSet_eq_of_frame hframe hcache⟩
  · exact .inr ⟨hne, hL⟩

end BoundedUpdate

/-! ## Runs from genesis -/

namespace ValidatorState

/-- The height of the next block, as `updateToState` computes it. -/
def nextHeight (state : ValidatorState K) : Int :=
  let height := state.lastBlockHeight + 1
  if height = 1 then state.initialHeight else height

theorem nextHeight_of_pos {state : ValidatorState K} (h : 0 < state.lastBlockHeight) :
    state.nextHeight = state.lastBlockHeight + 1 := by
  unfold nextHeight
  rw [if_neg (by omega)]

end ValidatorState

/-- A node's run from genesis, its states latest first, and the validator
entries of its store.  The genesis validators and the validator updates have
addresses of `crypto.AddressSize` bytes, as `NewValidator` makes them from
public keys; each block is applied at the next height with updates that
`updateState` accepts, and each state is saved. -/
inductive Run : List (ValidatorState K) → ValidatorsDB K → Prop
  | genesis {initialHeight : Int} {genValidators : List (PriorityValidator K)} {voterParams : Option VoterParams}
      {genesisHash : Bytes} {state : ValidatorState K} {db : ValidatorsDB K} :
      0 < initialHeight → genValidators ≠ [] → (∀ v ∈ genValidators, v.address.length = addressSize) →
      makeGenesisState initialHeight genValidators voterParams genesisHash = some (.ok state) →
      save ValidatorsDB.empty state = .ok db → Run [state] db
  | block {states : List (ValidatorState K)} {state state' : ValidatorState K} {db db' : ValidatorsDB K}
      {proofHash : Bytes} {updates : List (PriorityValidator K)} :
      Run (state :: states) db → (∀ v ∈ updates, v.address.length = addressSize) →
      updateState state state.nextHeight proofHash updates = some (.ok state') → save db state' = .ok db' →
      Run (state' :: state :: states) db'

/-- The store's entries for the heights `[initialHeight, top]`, against the
sets without priorities that the run made live at each height and the height
of their last change: each entry records that height, stores a set exactly
where it must, and what it stores is a bounded set of the height; from the last change
up to a height, the sets and the last change are those of the height; and
no other height has an entry. -/
structure StoreAgrees (db : ValidatorsDB K) (initialHeight top : Int) (sets : Int → ValidatorSet K)
    (changed : Int → Int) : Prop where
  entry : ∀ h, initialHeight ≤ h → h ≤ top → ∃ opt, db h = some ⟨opt, changed h⟩ ∧
    (∀ vs, opt = some vs → vs.Bounded ∧ AddressSized vs ∧ vs.toValidatorSet = sets h) ∧
    (opt.isSome ↔ (h = changed h ∨ h.tmod valSetCheckpointInterval = 0))
  changed_mem : ∀ h, initialHeight ≤ h → h ≤ top → initialHeight ≤ changed h ∧ changed h ≤ h
  constant : ∀ h h', initialHeight ≤ h → h ≤ top → changed h ≤ h' → h' ≤ h →
    changed h' = changed h ∧ sets h' = sets h
  unsaved : ∀ h, h < initialHeight ∨ top < h → db h = none

section Load

variable {db : ValidatorsDB K} {initialHeight top : Int} {sets : Int → ValidatorSet K} {changed : Int → Int}

theorem loadValidators_of_unstored {h c c' : Int} {vs : PriorityValidatorSet K} (hh : h ≠ 0)
    (hdb : db h = some ⟨none, c⟩) (hdbm : db (lastStoredHeightFor h c) = some ⟨some vs, c'⟩)
    (hb : vs.Bounded) (hsized : AddressSized vs)
    (hgap : 0 < h - lastStoredHeightFor h c ∧ h - lastStoredHeightFor h c < valSetCheckpointInterval) :
    ∃ vs', vs.IncrementProposerPriority (h - lastStoredHeightFor h c) = some vs' ∧
      loadValidators db h = some (.ok vs') ∧
      vs'.validators.map (·.toValidator) = vs.validators.map (·.toValidator) ∧
      vs'.totalVotingPowerCache = vs.totalVotingPowerCache := by
  have hconv : safeConvertInt32 (h - lastStoredHeightFor h c) = some (h - lastStoredHeightFor h c) := by
    unfold safeConvertInt32
    unfold valSetCheckpointInterval at hgap
    rw [if_neg (by omega), if_neg (by omega)]
  have hproto := validatorSetFromProto_of_bounded hb hsized
  obtain ⟨vs', hinc, hframe, hcache⟩ := hb.incrementProposerPriority hgap.1
  refine ⟨vs', hinc, ?_, hframe, hcache⟩
  unfold loadValidators
  rw [if_neg hh, hdb]
  simp only [hdbm, Option.bind_some, hproto, hconv, hinc, Option.map_some,
    validatorSetFromProto_of_frame hframe hproto]
  rfl

/-- Where the store agrees, `LoadValidators` returns the set of every height
up to its priorities: the one stored there, or one stored at the height
`lastStoredHeightFor` names, which holds the same validators, incremented. -/
theorem StoreAgrees.loadValidators_eq (hagree : StoreAgrees db initialHeight top sets changed)
    (hinit : 0 < initialHeight) {h : Int} (hlo : initialHeight ≤ h) (hhi : h ≤ top) :
    ∃ vs, loadValidators db h = some (.ok vs) ∧ vs.toValidatorSet = sets h := by
  obtain ⟨opt, hdb, hsound, hstored⟩ := hagree.entry h hlo hhi
  have hmem := hagree.changed_mem h hlo hhi
  cases opt with
  | some vs =>
    obtain ⟨hb, hsized, hset⟩ := hsound vs rfl
    refine ⟨vs, ?_, hset⟩
    unfold loadValidators
    rw [if_neg (by omega), hdb]
    simp [validatorSetFromProto_of_bounded hb hsized, Except.mapError]
  | none =>
    obtain ⟨hLm, hmh, hgap, hstore⟩ := lastStoredHeightFor_spec (by omega) hmem.2
    -- the height read from is below the height itself, which stores nothing
    have hmlt : lastStoredHeightFor h (changed h) < h := by
      rcases lt_or_eq_of_le hmh with hlt | heq
      · exact hlt
      · have := hstored.mpr (by rw [heq] at hstore; exact hstore)
        simp at this
    obtain ⟨hchm, hsetm⟩ := hagree.constant h _ hlo hhi hLm hmh
    obtain ⟨optm, hdbm, hsoundm, hstoredm⟩ := hagree.entry (lastStoredHeightFor h (changed h)) (by omega) (by omega)
    obtain ⟨vs, rfl⟩ := Option.isSome_iff_exists.mp (hstoredm.mpr (by rw [hchm]; exact hstore))
    obtain ⟨hb, hsized, hset⟩ := hsoundm vs rfl
    obtain ⟨vs', -, hload, hframe, hcache⟩ :=
      loadValidators_of_unstored (by omega) hdb hdbm hb hsized ⟨by omega, hgap⟩
    exact ⟨vs', hload, by rw [toValidatorSet_eq_of_frame hframe hcache, hset, hsetm]⟩

end Load

/-! ## The invariant of a run -/

/-- The invariant of a run ending in `state` after `states`, against the sets
without priorities and the last changes that the run made at each height:
the state's sets are bounded, with addresses of the right size, and the store
agrees with the run up to the height after the next, where the set the state
will make live next is saved. -/
structure Agrees (db : ValidatorsDB K) (state : ValidatorState K) (states : List (ValidatorState K))
    (sets : Int → ValidatorSet K) (changed : Int → Int) : Prop where
  initial_pos : 0 < state.initialHeight
  initial_le : state.initialHeight ≤ state.nextHeight
  validators : state.validators.Bounded ∧ AddressSized state.validators
  nextValidators : state.nextValidators.Bounded ∧ AddressSized state.nextValidators
  changed_mem : state.initialHeight ≤ state.lastHeightValidatorsChanged ∧
    state.lastHeightValidatorsChanged ≤ state.nextHeight + 1
  store : StoreAgrees db state.initialHeight (state.nextHeight + 1) sets changed
  changed_top : changed (state.nextHeight + 1) = state.lastHeightValidatorsChanged
  history : ∀ s ∈ state :: states, state.initialHeight ≤ s.nextHeight ∧ s.nextHeight ≤ state.nextHeight ∧
    sets s.nextHeight = s.validators.toValidatorSet ∧ sets (s.nextHeight + 1) = s.nextValidators.toValidatorSet
  voterParams_valid : state.voterParams.validate = .ok ()

section Genesis

variable {initialHeight : Int} {genValidators : List (PriorityValidator K)} {voterParams : Option VoterParams}
  {genesisHash : Bytes} {state : ValidatorState K} {db : ValidatorsDB K}

theorem makeGenesisState_eq (hne : genValidators ≠ [])
    (hgen : makeGenesisState initialHeight genValidators voterParams genesisHash = some (.ok state)) :
    (∃ vp voters, state = ⟨initialHeight, vp, 0, genesisHash, expectedSet empty genValidators,
        expectedSet empty genValidators, voters, ⟨[], 0⟩, initialHeight⟩ ∧ vp.validate = .ok ()) ∧
      (expectedSet empty genValidators).Valid ∧
      ∀ v ∈ (expectedSet empty genValidators).validators, v.proposerPriority = 0 := by
  unfold makeGenesisState at hgen
  cases hvp : genesisVoterParams voterParams with
  | error err =>
    rw [hvp] at hgen
    cases hgen
  | ok vp =>
    rw [hvp] at hgen
    obtain ⟨vals, hvals, hgen⟩ := Option.bind_eq_some_iff.mp hgen
    obtain ⟨vals', hvals', hgen⟩ := Option.bind_eq_some_iff.mp hgen
    obtain ⟨voters, -, heq⟩ := Option.map_eq_some_iff.mp hgen
    cases heq
    have hzero := (valid_newValidatorSet hne hvals).2
    obtain ⟨rfl, hvalid⟩ := newValidatorSet_eq hne hvals
    obtain ⟨rfl, -⟩ := newValidatorSet_eq hne hvals'
    exact ⟨⟨vp, voters, rfl, genesisVoterParams_validate hvp⟩, hvalid, hzero⟩

theorem save_genesis_eq (hne : genValidators ≠ [])
    (hgen : makeGenesisState initialHeight genValidators voterParams genesisHash = some (.ok state))
    (hsave : save ValidatorsDB.empty state = .ok db) :
    db = (ValidatorsDB.empty.set initialHeight ⟨some (expectedSet empty genValidators), initialHeight⟩).set
      (initialHeight + 1) ⟨if initialHeight + 1 = initialHeight ∨
        (initialHeight + 1).tmod valSetCheckpointInterval = 0 then some (expectedSet empty genValidators) else none,
        initialHeight⟩ := by
  obtain ⟨⟨vp, voters, rfl, -⟩, -⟩ := makeGenesisState_eq hne hgen
  rw [save_of_lastBlockHeight_eq_zero rfl (by simp)] at hsave
  cases hsave
  rfl

theorem agrees_genesis (hinit : 0 < initialHeight) (hne : genValidators ≠ [])
    (hsized : ∀ v ∈ genValidators, v.address.length = addressSize)
    (hgen : makeGenesisState initialHeight genValidators voterParams genesisHash = some (.ok state))
    (hsave : save ValidatorsDB.empty state = .ok db) :
    Agrees db state [] (fun _ => state.validators.toValidatorSet) (fun _ => initialHeight) := by
  obtain ⟨⟨vp, voters, hstate, hvp⟩, hvalid, -⟩ := makeGenesisState_eq hne hgen
  set vals := expectedSet empty genValidators
  have hb := hvalid.bounded
  have hvsized : AddressSized vals := addressSized_expectedSet (fun v hv => by simp [empty] at hv) hsized
  have hI : state.initialHeight = initialHeight := by rw [hstate]
  have hV : state.validators = vals := by rw [hstate]
  have hN : state.nextValidators = vals := by rw [hstate]
  have hL : state.lastHeightValidatorsChanged = initialHeight := by rw [hstate]
  have hnext : state.nextHeight = initialHeight := by
    rw [hstate]
    simp [ValidatorState.nextHeight]
  -- the store holds the set at `InitialHeight`, and the entry after it
  have hdb : db = (ValidatorsDB.empty.set initialHeight ⟨some vals, initialHeight⟩).set (initialHeight + 1)
      ⟨if initialHeight + 1 = initialHeight ∨ (initialHeight + 1).tmod valSetCheckpointInterval = 0 then
        some vals else none, initialHeight⟩ := save_genesis_eq hne hgen hsave
  refine ⟨by rw [hI]; exact hinit, by rw [hI, hnext], ⟨by rw [hV]; exact hb, by rw [hV]; exact hvsized⟩,
    ⟨by rw [hN]; exact hb, by rw [hN]; exact hvsized⟩, by rw [hI, hL, hnext]; omega, ⟨?_, ?_, ?_, ?_⟩, by rw [hL], ?_,
    by rw [hstate]; exact hvp⟩
  · -- the two entries
    intro h hlo hhi
    rw [hI] at hlo
    rw [hnext] at hhi
    rw [hdb]
    by_cases htop : h = initialHeight + 1
    · subst htop
      refine ⟨if initialHeight + 1 = initialHeight ∨ (initialHeight + 1).tmod valSetCheckpointInterval = 0 then
        some vals else none, by simp, fun vs hvs => ?_, ?_⟩
      · split_ifs at hvs
        cases hvs
        exact ⟨hb, hvsized, by rw [hV]⟩
      · split_ifs with hc
        · exact iff_of_true rfl hc
        · exact iff_of_false (by simp) hc
    · have hh : h = initialHeight := by omega
      subst hh
      refine ⟨some vals, by simp [htop], fun vs hvs => ?_, iff_of_true rfl (.inl rfl)⟩
      cases hvs
      exact ⟨hb, hvsized, by rw [hV]⟩
  · intro h hlo hhi
    rw [hI] at hlo ⊢
    omega
  · intro h h' _ _ _ _
    exact ⟨rfl, rfl⟩
  · intro h hh
    rw [hI, hnext] at hh
    rw [hdb, ValidatorsDB.set_apply, if_neg (by omega), ValidatorsDB.set_apply, if_neg (by omega)]
    rfl
  · intro s hs
    rw [List.mem_singleton.mp hs, hnext, hI, hN, hV]
    exact ⟨le_refl _, le_refl _, rfl, rfl⟩

end Genesis

section Block

variable {db db' : ValidatorsDB K} {state state' : ValidatorState K} {states : List (ValidatorState K)}
  {sets : Int → ValidatorSet K} {changed : Int → Int} {proofHash : Bytes} {updates : List (PriorityValidator K)}

/-- A block applied at the next height and saved keeps the invariant: the
store gains the entry for the height after the new next one, which records
the new `NextValidators` and its last change; without updates, that change is
the old one, and the sets since then are all the same. -/
theorem Agrees.block (hagree : Agrees db state states sets changed)
    (hupdates : ∀ v ∈ updates, v.address.length = addressSize)
    (hupd : updateState state state.nextHeight proofHash updates = some (.ok state')) (hsave : save db state' = .ok db') :
    Agrees db' state' (state :: states)
      (fun h => if h = state.nextHeight + 1 + 1 then state'.nextValidators.toValidatorSet else sets h)
      (fun h => if h = state.nextHeight + 1 + 1 then state'.lastHeightValidatorsChanged else changed h) := by
  obtain ⟨hI, hP, hlast, hvals, hb', hsized', hcase⟩ :=
    updateState_spec hagree.nextValidators.1 hagree.nextValidators.2 hupdates hupd
  have hpos : 0 < state.nextHeight := lt_of_lt_of_le hagree.initial_pos hagree.initial_le
  have hnext : state'.nextHeight = state.nextHeight + 1 := by
    rw [ValidatorState.nextHeight_of_pos (by rw [hlast]; exact hpos), hlast]
  set top := state.nextHeight + 1 with htop
  -- the last change of the new `NextValidators` is at most the height it is saved at
  have hL' : state.initialHeight ≤ state'.lastHeightValidatorsChanged ∧ state'.lastHeightValidatorsChanged ≤ top + 1 := by
    have := hagree.changed_mem
    rcases hcase with ⟨-, hL, -⟩ | ⟨-, hL⟩ <;> rw [hL] <;> omega
  have hdb' : db' = db.set (top + 1) ⟨if top + 1 = state'.lastHeightValidatorsChanged ∨
      (top + 1).tmod valSetCheckpointInterval = 0 then some state'.nextValidators else none,
      state'.lastHeightValidatorsChanged⟩ := by
    rw [save_of_lastBlockHeight_ne_zero (by rw [hlast]; omega) (by rw [hlast]; exact hL'.2), hlast] at hsave
    cases hsave
    rfl
  have hstore := hagree.store
  refine ⟨by rw [hI]; exact hagree.initial_pos, by rw [hI, hnext]; have := hagree.initial_le; omega,
    by rw [hvals]; exact hagree.nextValidators, ⟨hb', hsized'⟩, by rw [hI, hnext]; exact hL', ⟨?_, ?_, ?_, ?_⟩,
    by rw [hnext]; simp, ?_, by rw [hP]; exact hagree.voterParams_valid⟩
  · -- the new entry, and the old ones below it
    intro h hlo hhi
    rw [hI] at hlo
    rw [hnext] at hhi
    rw [hdb']
    by_cases hh : h = top + 1
    · subst hh
      refine ⟨if top + 1 = state'.lastHeightValidatorsChanged ∨
          (top + 1).tmod valSetCheckpointInterval = 0 then some state'.nextValidators else none,
        by simp, fun vs hvs => ?_, ?_⟩
      · split_ifs at hvs
        cases hvs
        exact ⟨hb', hsized', by simp⟩
      · simp only [if_true]
        split_ifs with hc
        · exact iff_of_true rfl hc
        · exact iff_of_false (by simp) hc
    · obtain ⟨opt, hdb, hsound, hstored⟩ := hstore.entry h hlo (by omega)
      refine ⟨opt, by simp [hh, hdb], fun vs hvs => ?_, by simp only [hh, if_false]; exact hstored⟩
      simpa [hh] using hsound vs hvs
  · intro h hlo hhi
    rw [hI] at hlo ⊢
    rw [hnext] at hhi
    by_cases hh : h = top + 1
    · simp only [hh, if_true]
      omega
    · simp only [hh, if_false]
      exact hstore.changed_mem h hlo (by omega)
  · intro h h' hlo hhi hch hh'
    rw [hI] at hlo
    rw [hnext] at hhi
    by_cases hh : h = top + 1
    · by_cases hh'' : h' = top + 1
      · simp [hh, hh'']
      simp only [hh, if_true] at hch ⊢
      simp only [hh'', if_false]
      -- below the new entry, only a set without updates reaches back
      rcases hcase with ⟨-, hL, hset⟩ | ⟨-, hL⟩
      · have htopc := hagree.changed_top
        obtain ⟨hc, hs⟩ := hstore.constant top h' (by omega) le_rfl (by rw [htopc, ← hL]; exact hch) (by omega)
        refine ⟨by rw [hc, htopc, hL], ?_⟩
        rw [hs, hset, (hagree.history state List.mem_cons_self).2.2.2]
      · omega
    · have hh'' : h' ≠ top + 1 := by omega
      simp only [hh, hh'', if_false] at hch ⊢
      exact hstore.constant h h' hlo (by omega) hch hh'
  · intro h hh
    rw [hI, hnext] at hh
    rw [hdb', ValidatorsDB.set_apply, if_neg (by omega)]
    exact hstore.unsaved h (by omega)
  · intro s hs
    rw [hI]
    rcases List.mem_cons.mp hs with rfl | hs
    · rw [hnext, hvals]
      have hold := (hagree.history state List.mem_cons_self).2.2.2
      refine ⟨by have := hagree.initial_le; omega, le_rfl, ?_, by simp⟩
      simp only [show top ≠ top + 1 by omega, if_false]
      exact hold
    · obtain ⟨hlo, hhi, hv, hn⟩ := hagree.history s hs
      refine ⟨hlo, by rw [hnext]; omega, ?_, ?_⟩
      · simp only [show s.nextHeight ≠ top + 1 by omega, if_false]
        exact hv
      · simp only [show s.nextHeight + 1 ≠ top + 1 by omega, if_false]
        exact hn

end Block

/-! ## Whole runs -/

/-- A validator of power 10, with an address of `crypto.AddressSize` bytes. -/
def validatorOfTen : PriorityValidator Nat := ⟨⟨List.replicate 20 1, .leaf .ed25519 1, 10, 0⟩, 0⟩

/-- The genesis state of `validatorOfTen` at height 1, with the default voter
parameters and an empty genesis hash: the voters are every validator. -/
def genesisOfTen : ValidatorState Nat :=
  ⟨1, defaultVoterParams, 0, [], ⟨[validatorOfTen], 10⟩, ⟨[validatorOfTen], 10⟩,
    ⟨[⟨List.replicate 20 1, .leaf .ed25519 1, 10, 10⟩], 10⟩, ⟨[], 0⟩, 1⟩

section Runs

variable {db : ValidatorsDB K} {state : ValidatorState K} {states : List (ValidatorState K)}

theorem Run.agrees (hrun : Run (state :: states) db) :
    ∃ sets changed, Agrees db state states sets changed := by
  generalize hl : state :: states = l at hrun
  induction hrun generalizing state states with
  | genesis hinit hne hsized hgen hsave =>
    cases hl
    exact ⟨_, _, agrees_genesis hinit hne hsized hgen hsave⟩
  | block _ hupdates hupd hsave ih =>
    cases hl
    obtain ⟨sets, changed, hagree⟩ := ih rfl
    exact ⟨_, _, hagree.block hupdates hupd hsave⟩

/-- Along every run the next `updateState` never panics, whatever the height,
the proof hash and the validator updates it is given: the sets the state
holds stay bounded, so an update the set refuses is an error and the
increment clips nothing, and the voter parameters stay those genesis
checked, so the election does not panic either. -/
theorem Run.updateState_isSome (hrun : Run (state :: states) db) (height : Int) (proofHash : Bytes)
    (updates : List (PriorityValidator K)) : (updateState state height proofHash updates).isSome := by
  obtain ⟨sets, changed, hagree⟩ := hrun.agrees
  exact updateState_isSome_of_bounded hagree.nextValidators.1 hagree.voterParams_valid height proofHash updates

theorem Run.updateState_isSome_genesis :
    (updateState genesisOfTen 1 [7] [⟨⟨List.replicate 20 2, .leaf .ed25519 2, 5, 0⟩, 0⟩]).isSome :=
  Run.updateState_isSome (@Run.genesis Nat 1 [validatorOfTen] none [] _ _
    (by decide) (by simp) (by decide) rfl rfl) 1 [7] _

/-- Along every run the store agrees with the state up to the priorities: at
the next height of every state of the run and at the height after,
`LoadValidators` returns that state's `Validators` and `NextValidators` with
their keys, powers, order and total. -/
theorem Run.loadValidators_toValidatorSet (hrun : Run (state :: states) db) {s : ValidatorState K}
    (hs : s ∈ state :: states) :
    (∃ vs, loadValidators db s.nextHeight = some (.ok vs) ∧ vs.toValidatorSet = s.validators.toValidatorSet) ∧
      ∃ vs, loadValidators db (s.nextHeight + 1) = some (.ok vs) ∧
        vs.toValidatorSet = s.nextValidators.toValidatorSet := by
  obtain ⟨sets, changed, hagree⟩ := hrun.agrees
  obtain ⟨hlo, hhi, hv, hn⟩ := hagree.history s hs
  refine ⟨?_, ?_⟩
  · rw [← hv]
    exact hagree.store.loadValidators_eq hagree.initial_pos hlo (by omega)
  · rw [← hn]
    exact hagree.store.loadValidators_eq hagree.initial_pos (by omega) (by omega)

theorem Run.loadValidators_toValidatorSet_genesis :
    (∃ vs, loadValidators ((ValidatorsDB.empty.set 1 ⟨some ⟨[validatorOfTen], 10⟩, 1⟩).set 2 ⟨none, 1⟩)
        (genesisOfTen.nextHeight + 1) = some (.ok vs) ∧
      vs.toValidatorSet = (⟨[validatorOfTen], 10⟩ : PriorityValidatorSet Nat).toValidatorSet) :=
  (Run.loadValidators_toValidatorSet (@Run.genesis Nat 1 [validatorOfTen] none [] genesisOfTen _
    (by decide) (by simp) (by decide) rfl rfl) List.mem_cons_self).2

end Runs

/-! ## The priorities one block after genesis -/

section AfterGenesis

variable {initialHeight : Int} {genValidators : List (PriorityValidator K)} {voterParams : Option VoterParams}
  {genesisHash : Bytes} {genesis : ValidatorState K} {db : ValidatorsDB K}

/-- The store and the state part on the priorities one block after genesis.
The genesis state holds the set `NewValidatorSet` makes, with every priority
zero, as both `Validators` and `NextValidators`, and stores it at
`InitialHeight`.  After the first block, without updates, `Validators` for the
height after is that set unchanged; but the store holds nothing there, and
`LoadValidators` increments the set it stored at `InitialHeight` once for the
height between.  With two validators or more the increment moves a priority,
so the set it returns has the state's validators, powers and order, and other
priorities. -/
theorem loadValidators_priorities_after_genesis (hinit : 0 < initialHeight) (hne : genValidators ≠ [])
    (hsized : ∀ v ∈ genValidators, v.address.length = addressSize)
    (hgen : makeGenesisState initialHeight genValidators voterParams genesisHash = some (.ok genesis))
    (hsave : save ValidatorsDB.empty genesis = .ok db) (htwo : 2 ≤ genesis.validators.validators.length)
    (hcheck : (initialHeight + 1).tmod valSetCheckpointInterval ≠ 0) :
    ∃ state db', Run [state, genesis] db' ∧ state.nextHeight = initialHeight + 1 ∧
      ∃ vs, loadValidators db' (initialHeight + 1) = some (.ok vs) ∧
        vs.toValidatorSet = state.validators.toValidatorSet ∧
        vs.validators.map (·.proposerPriority) ≠ state.validators.validators.map (·.proposerPriority) := by
  obtain ⟨⟨vp, voters, hstate, hvp⟩, hvalid, hzero⟩ := makeGenesisState_eq hne hgen
  set vals := expectedSet empty genValidators
  have hb := hvalid.bounded
  have hsized' : AddressSized vals := addressSized_expectedSet (fun v hv => by simp [empty] at hv) hsized
  have hV : genesis.validators = vals := by rw [hstate]
  have hN : genesis.nextValidators = vals := by rw [hstate]
  have hL : genesis.lastHeightValidatorsChanged = initialHeight := by rw [hstate]
  have hP : genesis.voterParams = vp := by rw [hstate]
  have hnext : genesis.nextHeight = initialHeight := by
    rw [hstate]
    simp [ValidatorState.nextHeight]
  -- the first block's increment, a step from the genesis priorities
  have hcache : vals.totalVotingPowerCache ≠ 0 := by
    rw [hb.cache_eq_sum]
    exact (sumVotingPower_pos hb.power_pos hb.nonempty).ne'
  obtain ⟨⟨m, vals₁⟩, hstep⟩ := Option.isSome_iff_exists.mp
    (incrementProposerPriority_isSome hb.nodup hb.nonempty hcache)
  have hinc : vals.IncrementProposerPriority 1 = some vals₁ := by
    rw [hvalid.incrementProposerPriority_eq one_pos]
    simp [incrementTimes, hstep]
  obtain ⟨hframe, hcache₁⟩ := map_toValidator_incrementProposerPriority hstep
  obtain ⟨voters₁, hsel⟩ := Option.isSome_iff_exists.mp (selectVoter_isSome_of_bounded hb [] hvp)
  -- the state after the first block, without updates
  obtain ⟨state, hstate₁⟩ : ∃ state : ValidatorState K, state = { genesis with
      lastBlockHeight := genesis.nextHeight
      lastProofHash := []
      nextValidators := vals₁
      validators := genesis.nextValidators
      voters := voters₁
      lastVoters := genesis.voters
      lastHeightValidatorsChanged := genesis.lastHeightValidatorsChanged } := ⟨_, rfl⟩
  have hupd : updateState genesis genesis.nextHeight [] [] = some (.ok state) := by
    rw [hstate₁]
    simp [updateState, hN, hP, hinc, hsel]
  have hlast : state.lastBlockHeight = initialHeight := by rw [hstate₁, hnext]
  have hSV : state.validators = vals := by rw [hstate₁, hN]
  have hSL : state.lastHeightValidatorsChanged = initialHeight := by rw [hstate₁, hL]
  have hsave₁ := @save_of_lastBlockHeight_ne_zero K db state (by rw [hlast]; omega) (by rw [hlast, hSL]; omega)
  refine ⟨state, _, .block (.genesis hinit hne hsized hgen hsave) (by simp) hupd hsave₁,
    by rw [ValidatorState.nextHeight_of_pos (by rw [hlast]; exact hinit), hlast], ?_⟩
  -- the height after stores nothing; `lastStoredHeightFor` goes back to `InitialHeight`
  have hlsh : lastStoredHeightFor (initialHeight + 1) initialHeight = initialHeight := by
    unfold lastStoredHeightFor valSetCheckpointInterval at *
    rw [Int.tmod_eq_emod_of_nonneg (by omega)] at hcheck ⊢
    dsimp only
    rw [max_eq_right (by omega)]
  have hdb := save_genesis_eq hne hgen hsave
  have hdb₁ : (db.set (state.lastBlockHeight + 1 + 1) ⟨if state.lastBlockHeight + 1 + 1 =
      state.lastHeightValidatorsChanged ∨ (state.lastBlockHeight + 1 + 1).tmod valSetCheckpointInterval = 0 then
        some state.nextValidators else none, state.lastHeightValidatorsChanged⟩) (initialHeight + 1) =
      some ⟨none, initialHeight⟩ := by
    simp [hdb, hlast, hcheck]
  have hdb₀ : (db.set (state.lastBlockHeight + 1 + 1) ⟨if state.lastBlockHeight + 1 + 1 =
      state.lastHeightValidatorsChanged ∨ (state.lastBlockHeight + 1 + 1).tmod valSetCheckpointInterval = 0 then
        some state.nextValidators else none, state.lastHeightValidatorsChanged⟩)
      (lastStoredHeightFor (initialHeight + 1) initialHeight) =
        some ⟨some (expectedSet empty genValidators), initialHeight⟩ := by
    simp [hlsh, hdb, hlast, show initialHeight ≠ initialHeight + 1 + 1 by omega,
      show initialHeight ≠ initialHeight + 1 by omega]
  obtain ⟨vs, hinc', hload, -, -⟩ := loadValidators_of_unstored (by omega) hdb₁ hdb₀ hb hsized'
    ⟨by rw [hlsh]; omega, by rw [hlsh]; unfold valSetCheckpointInterval; omega⟩
  rw [hlsh, show initialHeight + 1 - initialHeight = 1 by omega, hinc] at hinc'
  cases hinc'
  refine ⟨vals₁, hload, ?_, ?_⟩
  · rw [hSV]
    exact toValidatorSet_eq_of_frame hframe (hcache₁ hcache)
  · rw [hSV]
    exact incrementProposerPriority_ne_of_zero hb.toUpdatable (by rw [← hV]; exact htwo) hzero hstep

/-- A validator of power 20, with an address of `crypto.AddressSize` bytes. -/
def validatorOfTwenty : PriorityValidator Nat := ⟨⟨List.replicate 20 2, .leaf .ed25519 2, 20, 0⟩, 0⟩

theorem loadValidators_priorities_after_genesis_two :
    ∃ state db', Run [state, ⟨1, defaultVoterParams, 0, [], ⟨[validatorOfTwenty, validatorOfTen], 30⟩,
        ⟨[validatorOfTwenty, validatorOfTen], 30⟩,
        ⟨[⟨List.replicate 20 2, .leaf .ed25519 2, 20, 20⟩, ⟨List.replicate 20 1, .leaf .ed25519 1, 10, 10⟩], 30⟩,
        ⟨[], 0⟩, 1⟩] db' ∧
      state.nextHeight = 1 + 1 ∧ ∃ vs, loadValidators db' (1 + 1) = some (.ok vs) ∧
        vs.toValidatorSet = state.validators.toValidatorSet ∧
        vs.validators.map (·.proposerPriority) ≠ state.validators.validators.map (·.proposerPriority) :=
  @loadValidators_priorities_after_genesis Nat 1 [validatorOfTen, validatorOfTwenty] none [] _
    ((ValidatorsDB.empty.set 1 ⟨some ⟨[validatorOfTwenty, validatorOfTen], 30⟩, 1⟩).set 2 ⟨none, 1⟩)
    (by decide) (by simp) (by decide) rfl rfl (by decide) (by decide)

end AfterGenesis

end Ostracon.State
