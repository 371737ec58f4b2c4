import Ostracon.Types.LightBlock
import Ostracon.Lib.GoSort
import Ostracon.Crypto.IdealSignatures
/-!
# `evidence/verify.go` and `types/evidence.go`: light client attack evidence

`VerifyLightClientAttack` checks evidence that a peer sent, or that a
proposed block carries, against the node's own headers: the conflicting
block is signed by its voter set, and by a trust level of the common voters
where its height is not the common one, and it is a different block from
the node's at that height.  `validateABCIEvidence` then recomputes the
misbehaving validators with `GetByzantineValidators` and compares them with
those the evidence lists.

`GetByzantineValidators` tells the attack from the headers.  A header that
is not derived from the trusted one is a lunatic attack, whose validators are
the common voters that signed it.  A derived one with a commit of the same
round is an equivocation: there it looks up the address of every entry of the
conflicting commit that is not absent, where the trusted commit's entry is
not absent either, and appends what it finds, `nil` for an unknown address.
Sorting the list reads the power of each validator, and the comparison loop
its address: either panics on a `nil`.

Nothing before checks those addresses.  `ValidateBasic` reads them for their
length, and `VerifyCommitLight` skips the entries that are not for the block.
An entry for `nil` of any well-formed address passes both, and
`verifyLightClientAttack_panics_on_unknown_nil_vote` shows that evidence that
is accepted, with one nil vote where the trusted commit has a vote, makes
every full node that verifies it panic once that vote's address is replaced
by one the voter set does not know.

Where the source compares with `nil` pointers, the model has `Option`: the
validators `GetByzantineValidators` finds are `Option`s, a panic is `none`,
and the evidence's own list is `none` when it is a `nil` slice.  Evidence
decoded from a peer always has a slice, of validators that are not `nil`.
-/

namespace Ostracon.Evidence

open Ostracon.Types Ostracon.Crypto Ostracon.Crypto.Merkle

variable {K S : Type}

/-- `LightClientAttackEvidence`. -/
structure LightClientAttackEvidence (K S : Type) where
  conflictingBlock : LightBlock K S
  commonHeight : Int
  byzantineValidators : Option (List (Validator K))
  totalVotingPower : Int
  timestamp : Int
  deriving DecidableEq, Repr

namespace LightClientAttackEvidence

/-- The header of the conflicting block. -/
def conflictingHeader (e : LightClientAttackEvidence K S) : Header := e.conflictingBlock.signedHeader.header

/-- The commit of the conflicting block. -/
def conflictingCommit (e : LightClientAttackEvidence K S) : Commit S := e.conflictingBlock.signedHeader.commit

/-! ## `ValidateBasic` -/

/-- The errors of `LightClientAttackEvidence.ValidateBasic`. -/
inductive BasicError
  /-- "negative or zero total voting power" -/
  | nonPositiveTotalVotingPower
  /-- "negative or zero common height" -/
  | nonPositiveCommonHeight
  /-- "common height is ahead of the conflicting block height (%d > %d)" -/
  | commonHeightAhead (common conflicting : Int)
  /-- "invalid conflicting light block: %w" -/
  | invalidConflictingBlock (err : LightBlockError)
  deriving DecidableEq, Repr

/-- `ValidateBasic`: the conflicting block is checked against its own chain
ID. -/
def validateBasic (c : Primitives K CanonicalVote S) (hs : Hashes K) (e : LightClientAttackEvidence K S) :
    Except BasicError Unit :=
  if e.totalVotingPower ≤ 0 then .error .nonPositiveTotalVotingPower
  else if e.commonHeight ≤ 0 then .error .nonPositiveCommonHeight
  else if e.commonHeight > e.conflictingHeader.height then
    .error (.commonHeightAhead e.commonHeight e.conflictingHeader.height)
  else
    match e.conflictingBlock.validateBasic c hs e.conflictingHeader.chainID with
    | .error err => .error (.invalidConflictingBlock err)
    | .ok () => .ok ()

/-! ## `GetByzantineValidators` -/

/-- `ConflictingHeaderIsInvalid`: the conflicting header differs from the
trusted one in a field that a valid state transition fixes. -/
def conflictingHeaderIsInvalid (e : LightClientAttackEvidence K S) (trustedHeader : Header) : Bool :=
  trustedHeader.votersHash != e.conflictingHeader.votersHash ||
    trustedHeader.nextValidatorsHash != e.conflictingHeader.nextValidatorsHash ||
    trustedHeader.consensusHash != e.conflictingHeader.consensusHash ||
    trustedHeader.appHash != e.conflictingHeader.appHash ||
    trustedHeader.lastResultsHash != e.conflictingHeader.lastResultsHash

end LightClientAttackEvidence

/-- `ValidatorsByVotingPower.Less`: the larger power first, then the smaller
address; `none` where it reads a field of a `nil` validator. -/
def lessByVotingPower : Option (Validator K) → Option (Validator K) → Option Bool
  | some a, some b =>
    some (if a.votingPower = b.votingPower then decide (a.address < b.address)
      else decide (a.votingPower > b.votingPower))
  | _, _ => none

/-- `sort.Sort(ValidatorsByVotingPower(validators))`, as an insertion sort.
The order is strict on validators of distinct addresses, where every sort
returns the same list. -/
def sortByVotingPower (validators : List (Option (Validator K))) : Option (List (Option (Validator K))) :=
  GoSort.insertionSortM lessByVotingPower validators

/-- The loop of the lunatic case: the common voters that the entries for the
block name, in the order of the entries; unknown addresses are skipped. -/
def lunaticValidators (commonVoters : VoterSet K) : List (CommitSig S) → List (Validator K)
  | [] => []
  | commitSig :: rest =>
    if !commitSig.forBlock then lunaticValidators commonVoters rest
    else
      match commonVoters.getByAddress commitSig.validatorAddress with
      | none => lunaticValidators commonVoters rest
      | some (_, val) => val :: lunaticValidators commonVoters rest

/-- The loop of the equivocation case over the conflicting commit's entries
from index `i` on: for each entry that is not absent, where the trusted
commit's entry at the same index is not absent either, what the conflicting
voter set holds at the entry's address, `none` for `nil`.  It panics where the
trusted commit has no entry at the index. -/
def equivocationValidators (conflictingVoters : VoterSet K) (trustedSigs : List (CommitSig S)) :
    Nat → List (CommitSig S) → Option (List (Option (Validator K)))
  | _, [] => some []
  | i, sigA :: rest =>
    if sigA.absent then equivocationValidators conflictingVoters trustedSigs (i + 1) rest
    else
      match trustedSigs[i]? with
      | none => none
      | some sigB =>
        if sigB.absent then equivocationValidators conflictingVoters trustedSigs (i + 1) rest
        else
          let val := (conflictingVoters.getByAddress sigA.validatorAddress).map (·.2)
          (val :: ·) <$> equivocationValidators conflictingVoters trustedSigs (i + 1) rest

namespace LightClientAttackEvidence

/-- `GetByzantineValidators`; `none` where it panics. -/
def getByzantineValidators (e : LightClientAttackEvidence K S) (commonVoters : VoterSet K)
    (trusted : SignedHeader S) : Option (List (Option (Validator K))) :=
  if e.conflictingHeaderIsInvalid trusted.header then
    sortByVotingPower ((lunaticValidators commonVoters e.conflictingCommit.signatures).map some)
  else if trusted.commit.round = e.conflictingCommit.round then
    equivocationValidators e.conflictingBlock.voterSet trusted.commit.signatures 0
      e.conflictingCommit.signatures >>= sortByVotingPower
  -- amnesia: no validator can be told to be malicious
  else some []

end LightClientAttackEvidence

/-! ## `validateABCIEvidence` and `VerifyLightClientAttack` -/

/-- The errors of `validateABCIEvidence`. -/
inductive AbciError
  /-- "expected nil validators from an amnesia light client attack but got %d" -/
  | expectedNilValidators (got : Nat)
  /-- "expected %d byzantine validators from evidence but got %d" -/
  | byzantineCount (expected got : Nat)
  /-- "evidence contained an unexpected byzantine validator address; expected: %v, got: %v" -/
  | unexpectedAddress (expected got : Bytes)
  /-- "evidence contained unexpected byzantine validator voting power; expected %d, got %d" -/
  | unexpectedVotingPower (expected got : Int)
  /-- "evidence contained unexpected byzantine validator voting weight; expected %d, got %d" -/
  | unexpectedVotingWeight (expected got : Int)
  deriving DecidableEq, Repr

/-- The loop of `validateABCIEvidence`: each validator found against the one at
its index in the evidence; `none` where it reads a `nil` validator or an index
past the evidence's list. -/
def compareByzantine : List (Option (Validator K)) → List (Validator K) → Option (Except AbciError Unit)
  | [], _ => some (.ok ())
  | none :: _, _ => none
  | some _ :: _, [] => none
  | some val :: rest, byz :: byzRest =>
    if byz.address ≠ val.address then some (.error (.unexpectedAddress val.address byz.address))
    else if byz.votingPower ≠ val.votingPower then
      some (.error (.unexpectedVotingPower val.votingPower byz.votingPower))
    else if byz.votingWeight ≠ val.votingWeight then
      some (.error (.unexpectedVotingWeight val.votingWeight byz.votingWeight))
    else compareByzantine rest byzRest

namespace LightClientAttackEvidence

/-- `validateABCIEvidence`.  The list `GetByzantineValidators` returns is `nil`
exactly when it is empty, as nothing was appended to it. -/
def validateABCIEvidence (e : LightClientAttackEvidence K S) (commonVoters : VoterSet K)
    (trusted : SignedHeader S) : Option (Except AbciError Unit) :=
  match e.getByzantineValidators commonVoters trusted with
  | none => none
  | some validators =>
    let byz := e.byzantineValidators.getD []
    if validators = [] ∧ e.byzantineValidators.isSome then some (.error (.expectedNilValidators byz.length))
    else if validators.length ≠ byz.length then some (.error (.byzantineCount validators.length byz.length))
    else compareByzantine validators byz

end LightClientAttackEvidence

/-- `light.DefaultTrustLevel`. -/
def defaultTrustLevel : Fraction := ⟨1, 3⟩

/-- The panic of `updateTotalVotingWeight` inside a verifier, which the model
of the verifiers returns as `totalVotingWeightPanic`, is a panic again. -/
def panicking : Except CommitError Unit → Option (Except CommitError Unit)
  | .error .totalVotingWeightPanic => none
  | r => some r

/-- The errors of `VerifyLightClientAttack`. -/
inductive AttackError
  /-- "skipping verification of conflicting block failed: %w" -/
  | skippingVerification (err : CommitError)
  /-- "common height is the same as conflicting block height so expected the
  conflicting block to be correctly derived yet it wasn't" -/
  | notCorrectlyDerived
  /-- "invalid commit from conflicting block: %w" -/
  | invalidCommit (err : CommitError)
  /-- "total voting power from the evidence and our voter set does not match (%d != %d)" -/
  | totalVotingPowerMismatch (evidence voters : Int)
  /-- "conflicting block doesn't violate monotonically increasing time (%v is after %v)" -/
  | timeNotViolated (conflicting trusted : Int)
  /-- "trusted header hash matches the evidence's conflicting header hash: %X" -/
  | hashMatches (hash : Bytes)
  /-- an error of `validateABCIEvidence` -/
  | abci (err : AbciError)
  deriving DecidableEq, Repr

section Verify

variable (c : Primitives K CanonicalVote S) (hs : Hashes K)

namespace LightClientAttackEvidence

/-- The first check of `VerifyLightClientAttack`: a single verification jump
from the common voters where the heights differ, and otherwise a conflicting
header derived from the trusted one. -/
def verifyCommonHeight (e : LightClientAttackEvidence K S) (commonHeader trustedHeader : SignedHeader S)
    (commonVoters : VoterSet K) : Option (Except AttackError Unit) :=
  if commonHeader.header.height ≠ e.conflictingHeader.height then
    (panicking (commonVoters.verifyCommitLightTrusting c trustedHeader.header.chainID e.conflictingCommit
      defaultTrustLevel)).map (Except.mapError .skippingVerification)
  else if e.conflictingHeaderIsInvalid trustedHeader.header then some (.error .notCorrectlyDerived)
  else some (.ok ())

/-- The checks of `VerifyLightClientAttack` before `validateABCIEvidence`: the
conflicting block is signed by its voter set, the evidence has the common
voters' total, a forward lunatic attack breaks the monotony of time, and the
conflicting block is not the trusted one. -/
def verifyConflictingBlock (e : LightClientAttackEvidence K S) (commonHeader trustedHeader : SignedHeader S)
    (commonVoters : VoterSet K) : Option (Except AttackError Unit) :=
  match e.verifyCommonHeight c commonHeader trustedHeader commonVoters with
  | none => none
  | some (.error err) => some (.error err)
  | some (.ok ()) =>
    match panicking (e.conflictingBlock.voterSet.verifyCommitLight c trustedHeader.header.chainID
        e.conflictingCommit.blockID e.conflictingHeader.height e.conflictingCommit) with
    | none => none
    | some (.error err) => some (.error (.invalidCommit err))
    | some (.ok ()) =>
      match commonVoters.totalVotingWeight with
      | none => none
      | some votersTotal =>
        if e.totalVotingPower ≠ votersTotal then
          some (.error (.totalVotingPowerMismatch e.totalVotingPower votersTotal))
        else if e.conflictingHeader.height > trustedHeader.header.height ∧
            e.conflictingHeader.time > trustedHeader.header.time then
          some (.error (.timeNotViolated e.conflictingHeader.time trustedHeader.header.time))
        else if trustedHeader.header.hash hs = e.conflictingHeader.hash hs then
          some (.error (.hashMatches (trustedHeader.header.hash hs)))
        else some (.ok ())

/-- `VerifyLightClientAttack`; `none` where it panics.  Of its arguments it
reads the common header, the trusted header and the common voters. -/
def verifyLightClientAttack (e : LightClientAttackEvidence K S) (commonHeader trustedHeader : SignedHeader S)
    (commonVoters : VoterSet K) : Option (Except AttackError Unit) :=
  match e.verifyConflictingBlock c hs commonHeader trustedHeader commonVoters with
  | some (.ok ()) => (e.validateABCIEvidence commonVoters trustedHeader).map (Except.mapError .abci)
  | r => r

end LightClientAttackEvidence

end Verify

/-! ## What the checks read of the conflicting commit -/

namespace LightClientAttackEvidence

/-- The evidence with the entry at `i` of the conflicting commit replaced by
`cs`. -/
def setCommitSig (e : LightClientAttackEvidence K S) (i : Nat) (cs : CommitSig S) :
    LightClientAttackEvidence K S :=
  { e with conflictingBlock := e.conflictingBlock.setCommitSig i cs }

variable {e : LightClientAttackEvidence K S} {i : Nat} {cs : CommitSig S}

@[simp] theorem conflictingHeader_setCommitSig : (e.setCommitSig i cs).conflictingHeader = e.conflictingHeader := rfl

@[simp] theorem conflictingCommit_setCommitSig :
    (e.setCommitSig i cs).conflictingCommit =
      { e.conflictingCommit with signatures := e.conflictingCommit.signatures.set i cs } := rfl

@[simp] theorem voterSet_setCommitSig :
    (e.setCommitSig i cs).conflictingBlock.voterSet = e.conflictingBlock.voterSet := rfl

@[simp] theorem byzantineValidators_setCommitSig :
    (e.setCommitSig i cs).byzantineValidators = e.byzantineValidators := rfl

@[simp] theorem commonHeight_setCommitSig : (e.setCommitSig i cs).commonHeight = e.commonHeight := rfl

@[simp] theorem totalVotingPower_setCommitSig :
    (e.setCommitSig i cs).totalVotingPower = e.totalVotingPower := rfl

@[simp] theorem conflictingHeaderIsInvalid_setCommitSig (trustedHeader : Header) :
    (e.setCommitSig i cs).conflictingHeaderIsInvalid trustedHeader = e.conflictingHeaderIsInvalid trustedHeader :=
  rfl

section Verify

variable (c : Primitives K CanonicalVote S) (hs : Hashes K)

theorem validateBasic_setCommitSig {cs' : CommitSig S} (hi : e.conflictingCommit.signatures[i]? = some cs)
    (hcheck : cs'.validateBasic c = cs.validateBasic c) (homit : cs'.omitted = cs.omitted) :
    (e.setCommitSig i cs').validateBasic c hs = e.validateBasic c hs := by
  have hblock : (e.setCommitSig i cs').conflictingBlock.validateBasic c hs e.conflictingHeader.chainID =
      e.conflictingBlock.validateBasic c hs e.conflictingHeader.chainID :=
    LightBlock.validateBasic_setCommitSig hs e.conflictingBlock _ hi hcheck homit
  unfold validateBasic
  simp only [conflictingHeader_setCommitSig, totalVotingPower_setCommitSig, commonHeight_setCommitSig, hblock]

theorem verifyConflictingBlock_setCommitSig {cs' : CommitSig S} (commonHeader trustedHeader : SignedHeader S)
    (commonVoters : VoterSet K) (hi : e.conflictingCommit.signatures[i]? = some cs) (hcs : cs.forBlock = false)
    (hcs' : cs'.forBlock = false) :
    (e.setCommitSig i cs').verifyConflictingBlock c hs commonHeader trustedHeader commonVoters =
      e.verifyConflictingBlock c hs commonHeader trustedHeader commonVoters := by
  unfold verifyConflictingBlock verifyCommonHeight
  simp only [conflictingHeader_setCommitSig, conflictingCommit_setCommitSig, voterSet_setCommitSig,
    conflictingHeaderIsInvalid_setCommitSig, totalVotingPower_setCommitSig,
    verifyCommitLightTrusting_set c commonVoters _ _ hi hcs hcs',
    verifyCommitLight_set c e.conflictingBlock.voterSet _ _ _ hi hcs hcs']
  rfl

theorem verifyLightClientAttack_eq_ok {commonHeader trustedHeader : SignedHeader S} {commonVoters : VoterSet K}
    (h : e.verifyLightClientAttack c hs commonHeader trustedHeader commonVoters = some (.ok ())) :
    e.verifyConflictingBlock c hs commonHeader trustedHeader commonVoters = some (.ok ()) ∧
      e.validateABCIEvidence commonVoters trustedHeader = some (.ok ()) := by
  unfold verifyLightClientAttack at h
  split at h
  · rename_i hblock
    refine ⟨hblock, ?_⟩
    obtain ⟨r, hr, hmap⟩ := Option.map_eq_some_iff.mp h
    cases r with
    | error err => cases hmap
    | ok u => exact hr
  · rename_i r hne
    exact absurd h hne

theorem validateABCIEvidence_eq_ok {commonVoters : VoterSet K} {trusted : SignedHeader S}
    (h : e.validateABCIEvidence commonVoters trusted = some (.ok ())) :
    ∃ validators, e.getByzantineValidators commonVoters trusted = some validators ∧
      validators.length = (e.byzantineValidators.getD []).length := by
  unfold validateABCIEvidence at h
  cases hg : e.getByzantineValidators commonVoters trusted with
  | none => simp [hg] at h
  | some validators =>
    refine ⟨validators, rfl, ?_⟩
    simp only [hg] at h
    split_ifs at h with hnil hlen
    · simp at h
    · simp at h
    · exact not_not.mp hlen

end Verify

end LightClientAttackEvidence

/-! ## Where `GetByzantineValidators` panics -/

theorem lessByVotingPower_eq_none_iff (a b : Option (Validator K)) :
    lessByVotingPower a b = none ↔ a = none ∨ b = none := by
  cases a <;> cases b <;> simp [lessByVotingPower]

theorem sortByVotingPower_eq_none_iff {validators : List (Option (Validator K))} :
    sortByVotingPower validators = none ↔ 2 ≤ validators.length ∧ none ∈ validators := by
  rw [sortByVotingPower, GoSort.insertionSortM_eq_none_iff lessByVotingPower_eq_none_iff]
  simp

/-- In the equivocation loop, an entry that is not absent, where the trusted
commit has one that is not absent, is looked up whatever its flag: with an
address the voter set does not know it puts a `nil` in the list, which keeps
its length. -/
theorem equivocationValidators_setAddress {voters : VoterSet K} {trustedSigs : List (CommitSig S)}
    {cs : CommitSig S} {address : Bytes} (hcs : cs.absent = false) (hunknown : voters.getByAddress address = none) :
    ∀ (sigs : List (CommitSig S)) (idx j : Nat) (raw : List (Option (Validator K))),
      sigs[j]? = some cs → (∃ sigB, trustedSigs[idx + j]? = some sigB ∧ sigB.absent = false) →
      equivocationValidators voters trustedSigs idx sigs = some raw →
      ∃ raw', equivocationValidators voters trustedSigs idx (sigs.set j { cs with validatorAddress := address }) =
        some raw' ∧ raw'.length = raw.length ∧ none ∈ raw'
  | [], _, _, _, h, _, _ => by simp at h
  | s :: rest, idx, 0, raw, h, ⟨sigB, hB, hBabs⟩, hraw => by
    obtain rfl : s = cs := by simpa using h
    have hB' : trustedSigs[idx]? = some sigB := by simpa using hB
    have habs : ({ s with validatorAddress := address } : CommitSig S).absent = false := hcs
    simp only [equivocationValidators, hcs, hB', hBabs, Bool.false_eq_true, if_false, Option.map_eq_map] at hraw
    obtain ⟨r, hr, rfl⟩ := Option.map_eq_some_iff.mp hraw
    -- the entry itself now finds no voter
    refine ⟨none :: r, ?_, by simp, List.mem_cons_self⟩
    simp only [List.set_cons_zero, equivocationValidators, habs, hB', hBabs, Bool.false_eq_true, if_false,
      Option.map_eq_map, hunknown, hr, Option.map_none, Option.map_some]
  | s :: rest, idx, j + 1, raw, h, ⟨sigB, hB, hBabs⟩, hraw => by
    have hrest : rest[j]? = some cs := by simpa using h
    have htrusted : ∃ sigB, trustedSigs[idx + 1 + j]? = some sigB ∧ sigB.absent = false :=
      ⟨sigB, by rwa [show idx + 1 + j = idx + (j + 1) by omega], hBabs⟩
    have ih := @equivocationValidators_setAddress voters trustedSigs cs address hcs hunknown rest (idx + 1) j
    simp only [List.set_cons_succ]
    unfold equivocationValidators at hraw ⊢
    -- the loop's step at the head, which is left as it is
    by_cases hs : s.absent
    · simp only [hs, if_true] at hraw ⊢
      exact ih raw hrest htrusted hraw
    · simp only [hs, Bool.false_eq_true, if_false] at hraw ⊢
      cases hT : trustedSigs[idx]? with
      | none => simp [hT] at hraw
      | some t =>
        simp only [hT] at hraw ⊢
        by_cases ht : t.absent
        · simp only [ht, if_true] at hraw ⊢
          exact ih raw hrest htrusted hraw
        · simp only [ht, Bool.false_eq_true, if_false, Option.map_eq_map] at hraw ⊢
          obtain ⟨r, hr, rfl⟩ := Option.map_eq_some_iff.mp hraw
          obtain ⟨r', hr', hlen, hmem⟩ := ih r hrest htrusted hr
          exact ⟨_ :: r', by rw [hr', Option.map_some], by simp [hlen], List.mem_cons_of_mem _ hmem⟩

section Panic

variable (c : Primitives K CanonicalVote S) (hs : Hashes K)

/-- Accepted evidence of an equivocation with a nil vote where the trusted
commit has a vote makes `VerifyLightClientAttack` panic once that vote's
address is replaced by one of the same length the conflicting voter set does
not know, and the evidence still passes `ValidateBasic`.  `ValidateBasic`
reads the address for its length, `VerifyCommitLight` skips a nil vote, and
`GetByzantineValidators` looks it up and appends the `nil` it finds, which
the sort or the comparison loop dereferences. -/
theorem verifyLightClientAttack_panics_on_unknown_nil_vote (e : LightClientAttackEvidence K S)
    (commonHeader trusted : SignedHeader S) (commonVoters : VoterSet K) {i : Nat} {cs : CommitSig S}
    {address : Bytes} (hvalid : e.validateBasic c hs = .ok ())
    (hok : e.verifyLightClientAttack c hs commonHeader trusted commonVoters = some (.ok ()))
    (hderived : e.conflictingHeaderIsInvalid trusted.header = false)
    (hround : trusted.commit.round = e.conflictingCommit.round)
    (hi : e.conflictingCommit.signatures[i]? = some cs) (hnil : cs.blockIDFlag = .nil)
    (htrusted : ∃ sigB, trusted.commit.signatures[i]? = some sigB ∧ sigB.absent = false)
    (hlen : address.length = cs.validatorAddress.length)
    (hunknown : e.conflictingBlock.voterSet.getByAddress address = none) :
    (e.setCommitSig i { cs with validatorAddress := address }).validateBasic c hs = .ok () ∧
      (e.setCommitSig i { cs with validatorAddress := address }).verifyLightClientAttack c hs commonHeader trusted
        commonVoters = none := by
  have hfor : cs.forBlock = false := by simp [CommitSig.forBlock, hnil]
  have hfor' : ({ cs with validatorAddress := address } : CommitSig S).forBlock = false := hfor
  have habs : cs.absent = false := by simp [CommitSig.absent, hnil]
  have hcheck := CommitSig.validateBasic_setAddress (c := c) cs hlen
  obtain ⟨hblock, habci⟩ := LightClientAttackEvidence.verifyLightClientAttack_eq_ok c hs hok
  refine ⟨(LightClientAttackEvidence.validateBasic_setCommitSig c hs hi hcheck rfl).trans hvalid, ?_⟩
  -- the checks before `validateABCIEvidence` pass as they did
  rw [LightClientAttackEvidence.verifyLightClientAttack,
    LightClientAttackEvidence.verifyConflictingBlock_setCommitSig c hs commonHeader trusted commonVoters hi hfor hfor',
    hblock]
  simp only [Option.map_eq_none_iff]
  -- the equivocation loop of the evidence, and of the evidence with the unknown address
  obtain ⟨validators, hg, hcount⟩ := LightClientAttackEvidence.validateABCIEvidence_eq_ok habci
  have hbranch : ∀ e' : LightClientAttackEvidence K S, e'.conflictingHeaderIsInvalid trusted.header = false →
      trusted.commit.round = e'.conflictingCommit.round →
      e'.getByzantineValidators commonVoters trusted =
        equivocationValidators e'.conflictingBlock.voterSet trusted.commit.signatures 0
          e'.conflictingCommit.signatures >>= sortByVotingPower := fun e' h1 h2 => by
    rw [LightClientAttackEvidence.getByzantineValidators, if_neg (by simp [h1]), if_pos h2]
  rw [hbranch e hderived hround] at hg
  obtain ⟨raw, hraw, hsort⟩ := Option.bind_eq_some_iff.mp hg
  obtain ⟨raw', hraw', hlenraw, hmem⟩ :=
    equivocationValidators_setAddress habs hunknown _ 0 i raw hi (by simpa using htrusted) hraw
  have hg' : (e.setCommitSig i { cs with validatorAddress := address }).getByzantineValidators commonVoters trusted =
      sortByVotingPower raw' := by
    rw [hbranch (e.setCommitSig i { cs with validatorAddress := address }) hderived hround,
      LightClientAttackEvidence.conflictingCommit_setCommitSig,
      LightClientAttackEvidence.voterSet_setCommitSig, hraw', Option.bind_eq_bind, Option.bind_some]
  have hsortlen : validators.length = raw.length := (GoSort.perm_of_insertionSortM hsort).length_eq
  unfold LightClientAttackEvidence.validateABCIEvidence
  rw [hg']
  by_cases htwo : 2 ≤ raw'.length
  · -- the sort compares the `nil`
    rw [sortByVotingPower_eq_none_iff.mpr ⟨htwo, hmem⟩]
  · -- the `nil` alone: the comparison loop reads its address
    have hone : raw' = [none] := by
      obtain ⟨a, ha⟩ : ∃ a, raw' = [a] := List.length_eq_one_iff.mp (by
        have := List.length_pos_of_mem hmem
        omega)
      subst ha
      rw [List.mem_singleton.mp hmem]
    have hbyz : (e.byzantineValidators.getD []).length = 1 := by
      rw [← hcount, hsortlen, ← hlenraw, hone]
      rfl
    rw [hone]
    simp [sortByVotingPower, GoSort.insertionSortM, GoSort.orderedInsertM, hbyz, compareByzantine]

end Panic

/-! ## A failing input

Four voters of weight one.  The trusted block at height `1` has all four
votes; three of them also sign a second block at that height, whose commit
has the fourth voter's nil vote.  That evidence of equivocation is accepted;
with the nil vote's address replaced by an unknown one it passes
`ValidateBasic` still, and `VerifyLightClientAttack` panics. -/

/-- The address of voter `i`: `crypto.AddressSize` bytes. -/
def attackAddress (i : Nat) : Bytes := List.replicate 19 0 ++ [i.toUInt8]

/-- Voter `i`, of weight one, with the ed25519 key `i`. -/
def attackVoter (i : Nat) : Validator Nat :=
  { address := attackAddress i, pubKey := .leaf .ed25519 i, votingPower := 1, votingWeight := 1 }

def attackVoters : VoterSet Nat := ⟨[attackVoter 0, attackVoter 1, attackVoter 2, attackVoter 3], 0⟩

/-- The ideal signatures, with the addresses of the voters. -/
def attackPrimitives : Primitives Nat CanonicalVote (IdealSig Nat CanonicalVote) :=
  idealPrimitives fun pubKey => attackAddress pubKey.signingLeaf.2

/-- Hashes of `tmhash.Size` bytes: a header's reads its time, a set's its
size. -/
def attackHashes : Hashes Nat where
  headerFields h := List.replicate 31 0 ++ [h.time.toNat.toUInt8]
  validatorSet vals := List.replicate 31 1 ++ [vals.length.toUInt8]
  voterSet vals := List.replicate 31 2 ++ [vals.length.toUInt8]

/-- The header at height `1` of the voters, at `time`. -/
def attackHeader (time : Int) : Header where
  chainID := ""
  height := 1
  time := time
  votersHash := attackHashes.voterSet attackVoters.voters
  validatorsHash := attackHashes.validatorSet attackVoters.voters
  nextValidatorsHash := attackHashes.validatorSet attackVoters.voters
  consensusHash := List.replicate 32 3
  appHash := []
  lastResultsHash := []
  proposerAddress := attackAddress 0
  round := 0

/-- A commit in round `0` for the header at `time`. -/
def attackCommit (time : Int) (sigs : List (CommitSig (IdealSig Nat CanonicalVote))) :
    Commit (IdealSig Nat CanonicalVote) :=
  ⟨1, 0, ⟨(attackHeader time).hash attackHashes, ⟨1, List.replicate 32 4⟩⟩, sigs, none⟩

/-- Voter `i`'s entry of `flag` in the commit for the header at `time`, with
its signature of the entry's vote. -/
def attackEntry (flag : BlockIDFlag) (time : Int) (i : Nat) : CommitSig (IdealSig Nat CanonicalVote) :=
  let unsigned : CommitSig (IdealSig Nat CanonicalVote) := ⟨flag, attackAddress i, 0, none⟩
  { unsigned with
    signature := some ((PubKey.leaf .ed25519 i).idealSign ((attackCommit time []).voteSignBytes "" i unsigned)) }

/-- The node's block at height `1`, with the votes of all four voters. -/
def trustedBlock : SignedHeader (IdealSig Nat CanonicalVote) :=
  ⟨attackHeader 0, attackCommit 0 ((List.range 4).map (attackEntry .commit 0))⟩

/-- Evidence of the three voters that signed a second block at height `1`. -/
def attackEvidence : LightClientAttackEvidence Nat (IdealSig Nat CanonicalVote) where
  conflictingBlock :=
    { signedHeader :=
        ⟨attackHeader 1, attackCommit 1 ([0, 1, 2].map (attackEntry .commit 1) ++ [attackEntry .nil 1 3])⟩
      validatorSet := attackVoters.voters
      voterSet := attackVoters }
  commonHeight := 1
  byzantineValidators := some attackVoters.voters
  totalVotingPower := 4
  timestamp := 0

theorem attackEvidence_panics :
    attackEvidence.validateBasic attackPrimitives attackHashes = .ok () ∧
      attackEvidence.verifyLightClientAttack attackPrimitives attackHashes trustedBlock trustedBlock attackVoters =
        some (.ok ()) ∧
      attackEvidence.conflictingHeaderIsInvalid trustedBlock.header = false ∧
      trustedBlock.commit.round = attackEvidence.conflictingCommit.round ∧
      attackEvidence.conflictingCommit.signatures[3]? = some (attackEntry .nil 1 3) ∧
      (attackEntry .nil 1 3).blockIDFlag = .nil ∧
      (∃ sigB, trustedBlock.commit.signatures[3]? = some sigB ∧ sigB.absent = false) ∧
      (attackAddress 9).length = (attackEntry .nil 1 3).validatorAddress.length ∧
      attackEvidence.conflictingBlock.voterSet.getByAddress (attackAddress 9) = none ∧
      (attackEvidence.setCommitSig 3 { attackEntry .nil 1 3 with validatorAddress := attackAddress 9 }).validateBasic
          attackPrimitives attackHashes = .ok () ∧
      (attackEvidence.setCommitSig 3 { attackEntry .nil 1 3 with validatorAddress := attackAddress 9 }).verifyLightClientAttack
          attackPrimitives attackHashes trustedBlock trustedBlock attackVoters = none := by
  have hvalid : attackEvidence.validateBasic attackPrimitives attackHashes = .ok () := by decide
  have hok : attackEvidence.verifyLightClientAttack attackPrimitives attackHashes trustedBlock trustedBlock
      attackVoters = some (.ok ()) := by decide
  have htrusted : ∃ sigB, trustedBlock.commit.signatures[3]? = some sigB ∧ sigB.absent = false :=
    ⟨attackEntry .commit 0 3, rfl, rfl⟩
  have hunknown : attackEvidence.conflictingBlock.voterSet.getByAddress (attackAddress 9) = none := by decide
  exact ⟨hvalid, hok, rfl, rfl, rfl, rfl, htrusted, rfl, hunknown,
    verifyLightClientAttack_panics_on_unknown_nil_vote attackPrimitives attackHashes attackEvidence trustedBlock
      trustedBlock attackVoters hvalid hok rfl rfl rfl rfl htrusted rfl hunknown⟩

end Ostracon.Evidence
