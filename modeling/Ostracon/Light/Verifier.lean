import Ostracon.Lib.GoInt
/-!
# `light/verifier.go`: verifying a light block against a trusted one

`Verify` dispatches on the heights: a block right above the trusted one is
checked by `VerifyAdjacent` against the trusted next validators, any other by
`VerifyNonAdjacent`, which asks a trust level of the trusted voters to have
signed it.  A light block is read here through its height, an `int64`; the
other checks, on times, hashes and commits, are the fields of `VerifyChecks`,
fixed for one run of the client (its trusting period, clock drift, trust
level and `now`).

What the skipping verification needs of `Verify` is where its outcomes can
occur: it accepts only a higher block (`verify_ok_height`), and it can fail
to trust only a block at least two above (`verify_cantTrust_height`).
-/

namespace Ostracon.Light

open GoInt

/-- A light block: its height, and the signed header, validator set and voter
set, which the model reads through `VerifyChecks`. -/
structure LightBlock (B : Type) where
  height : Int
  block : B
  height_inInt64 : InInt64 height
  deriving DecidableEq

/-- The errors of `Verify`. -/
inductive VerifyError
  /-- "headers must be non adjacent in height" -/
  | nonAdjacent
  /-- "headers must be adjacent in height" -/
  | adjacent
  /-- `ErrOldHeaderExpired` -/
  | oldHeaderExpired
  /-- `ErrInvalidHeader` -/
  | invalidHeader (reason : String)
  /-- `ErrNewValSetCantBeTrusted` -/
  | newValSetCantBeTrusted
  /-- an error of `VerifyCommitLightTrusting` other than too little weight -/
  | commitLightTrusting (reason : String)
  /-- "expected old header next validators (%X) to match those from new header (%X)" -/
  | nextValidatorsMismatch
  deriving DecidableEq, Repr

/-- The errors of `VerifyCommitLightTrusting`, as `VerifyNonAdjacent` tells
them apart. -/
inductive TrustingError
  /-- `ErrNotEnoughVotingWeightSigned` -/
  | notEnoughVotingWeightSigned
  | other (reason : String)
  deriving DecidableEq, Repr

/-- The checks of `Verify` on the parts of the blocks other than their
heights, each with the trusted block first. -/
structure VerifyChecks (B : Type) where
  /-- `HeaderExpired(trustedHeader, trustingPeriod, now)` -/
  headerExpired : LightBlock B → Bool
  /-- `untrustedHeader.ValidateBasic(trustedHeader.ChainID)` -/
  validateBasic : LightBlock B → LightBlock B → Option String
  /-- the checks of `verifyNewHeaderAndValsAndVoters` after the height: the
  times against the trusted one and the clock, and the validator and voter
  hashes against the sets supplied -/
  timesAndSets : LightBlock B → LightBlock B → Option String
  /-- `bytes.Equal(untrustedHeader.ValidatorsHash, trustedHeader.NextValidatorsHash)` -/
  nextValidatorsMatch : LightBlock B → LightBlock B → Bool
  /-- `trustedVoters.VerifyCommitLightTrusting(chainID, untrustedHeader.Commit, trustLevel)` -/
  commitLightTrusting : LightBlock B → LightBlock B → Option TrustingError
  /-- `untrustedVoters.VerifyCommitLight(chainID, ..., untrustedHeader.Commit)` -/
  commitLight : LightBlock B → Option String

variable {B : Type} (checks : VerifyChecks B)

/-- `verifyNewHeaderAndValsAndVoters`. -/
def verifyNewHeaderAndValsAndVoters (untrusted trusted : LightBlock B) : Option String :=
  match checks.validateBasic trusted untrusted with
  | some err => some ("untrustedHeader.ValidateBasic failed: " ++ err)
  | none =>
    if untrusted.height ≤ trusted.height then
      some "expected new header height to be greater than one of old header"
    else checks.timesAndSets trusted untrusted

/-- `VerifyNonAdjacent`. -/
def verifyNonAdjacent (trusted untrusted : LightBlock B) : Except VerifyError Unit :=
  if untrusted.height = add trusted.height 1 then .error .nonAdjacent
  else if checks.headerExpired trusted then .error .oldHeaderExpired
  else
    match verifyNewHeaderAndValsAndVoters checks untrusted trusted with
    | some err => .error (.invalidHeader err)
    | none =>
      match checks.commitLightTrusting trusted untrusted with
      | some .notEnoughVotingWeightSigned => .error .newValSetCantBeTrusted
      | some (.other err) => .error (.commitLightTrusting err)
      | none =>
        match checks.commitLight untrusted with
        | some err => .error (.invalidHeader err)
        | none => .ok ()

/-- `VerifyAdjacent`. -/
def verifyAdjacent (trusted untrusted : LightBlock B) : Except VerifyError Unit :=
  if untrusted.height ≠ add trusted.height 1 then .error .adjacent
  else if checks.headerExpired trusted then .error .oldHeaderExpired
  else
    match verifyNewHeaderAndValsAndVoters checks untrusted trusted with
    | some err => .error (.invalidHeader err)
    | none =>
      if !checks.nextValidatorsMatch trusted untrusted then .error .nextValidatorsMismatch
      else
        match checks.commitLight untrusted with
        | some err => .error (.invalidHeader err)
        | none => .ok ()

/-- `Verify`. -/
def verify (trusted untrusted : LightBlock B) : Except VerifyError Unit :=
  if untrusted.height ≠ add trusted.height 1 then verifyNonAdjacent checks trusted untrusted
  else verifyAdjacent checks trusted untrusted

/-! ## Where the outcomes of `Verify` occur -/

theorem height_lt_of_verifyNewHeaderAndValsAndVoters {untrusted trusted : LightBlock B}
    (h : verifyNewHeaderAndValsAndVoters checks untrusted trusted = none) :
    trusted.height < untrusted.height := by
  unfold verifyNewHeaderAndValsAndVoters at h
  split at h
  · cases h
  · split_ifs at h with hle
    omega

theorem add_one_of_lt {a b : LightBlock B} (h : a.height < b.height) : add a.height 1 = a.height + 1 := by
  have ha := a.height_inInt64
  have hb := b.height_inInt64
  unfold InInt64 at ha hb
  apply add_of_inInt64
  unfold InInt64
  omega

theorem verifyNonAdjacent_height {trusted untrusted : LightBlock B}
    (h : verifyNonAdjacent checks trusted untrusted = .ok () ∨
      verifyNonAdjacent checks trusted untrusted = .error .newValSetCantBeTrusted) :
    trusted.height < untrusted.height ∧ untrusted.height ≠ add trusted.height 1 := by
  unfold verifyNonAdjacent at h
  split_ifs at h with hadj hexp
  · simp at h
  · simp at h
  · -- both outcomes come after the check of the new header
    split at h
    · simp at h
    · rename_i hnew
      exact ⟨height_lt_of_verifyNewHeaderAndValsAndVoters checks hnew, hadj⟩

theorem verifyAdjacent_ne_cantTrust (trusted untrusted : LightBlock B) :
    verifyAdjacent checks trusted untrusted ≠ .error .newValSetCantBeTrusted := by
  unfold verifyAdjacent
  cases verifyNewHeaderAndValsAndVoters checks untrusted trusted <;>
    cases checks.commitLight untrusted <;> split_ifs <;> simp

theorem verifyAdjacent_height {trusted untrusted : LightBlock B}
    (h : verifyAdjacent checks trusted untrusted = .ok ()) : trusted.height < untrusted.height := by
  cases hnew : verifyNewHeaderAndValsAndVoters checks untrusted trusted with
  | none => exact height_lt_of_verifyNewHeaderAndValsAndVoters checks hnew
  | some err =>
    -- the new header is rejected, so no branch accepts
    unfold verifyAdjacent at h
    rw [hnew] at h
    split_ifs at h

theorem verify_ok_height {trusted untrusted : LightBlock B}
    (h : verify checks trusted untrusted = .ok ()) : trusted.height < untrusted.height := by
  unfold verify at h
  split_ifs at h
  · exact (verifyNonAdjacent_height checks (.inl h)).1
  · exact verifyAdjacent_height checks h

theorem verify_cantTrust_height {trusted untrusted : LightBlock B}
    (h : verify checks trusted untrusted = .error .newValSetCantBeTrusted) :
    trusted.height + 2 ≤ untrusted.height := by
  unfold verify at h
  split_ifs at h with hadj
  · obtain ⟨hlt, hne⟩ := verifyNonAdjacent_height checks (.inr h)
    rw [add_one_of_lt hlt] at hne
    omega
  · exact absurd h (verifyAdjacent_ne_cantTrust checks trusted untrusted)

end Ostracon.Light
