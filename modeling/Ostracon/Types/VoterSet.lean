import Ostracon.Types.Vote
import Ostracon.Lib.GoInt
/-!
# `types/voter_set.go`: voter sets and commit verification

A voter set is the list of validators elected to vote at a height, each with
the voting weight the election gave it.  A commit is accepted against it by
one of three functions:

* `VerifyCommit` — the commit has one entry per voter, in the voters' order;
  every present signature is checked and the weight of the entries for the
  block must exceed two thirds of the total;
* `VerifyCommitLight` — the same threshold, but each entry for the block is
  matched to a voter by its address, and the loop returns as soon as the
  individually verified weight is enough;
* `VerifyCommitLightTrusting` — a possibly different voter set, a trust level
  instead of two thirds, and a check that no voter is counted twice.

Signatures that an entry omits belong to BLS keys: they are collected with the
message they must cover and checked at the end against the commit's
aggregated signature.

Weights are `int64`: sums and products wrap as Go's do (`GoInt`).  A Go panic
of `TotalVotingWeight` is the error `totalVotingWeightPanic`.
-/

namespace Ostracon.Types

open Ostracon.Crypto Ostracon.Crypto.Merkle GoInt

/-! ## Validators and voter sets -/

/-- `MaxTotalVotingPower`. -/
def maxTotalVotingPower : Int := maxInt64 / 8

/-- `MaxTotalVotingWeight`: the election rounds weights, so their total may
exceed the total power by a little. -/
def maxTotalVotingWeight : Int := maxTotalVotingPower + 1000

/-- `safeAdd`: the sum, and whether it overflows. -/
def safeAdd (a b : Int) : Int × Bool :=
  if b > 0 ∧ a > maxInt64 - b then (-1, true)
  else if b < 0 ∧ a < minInt64 - b then (-1, true)
  else (add a b, false)

/-- `safeAddClip`: the sum, clipped to the `int64` range. -/
def safeAddClip (a b : Int) : Int :=
  match safeAdd a b with
  | (_, true) => if b < 0 then minInt64 else maxInt64
  | (c, false) => c

theorem safeAddClip_of_nonneg {a b : Int} (ha : 0 ≤ a) (hb : 0 ≤ b) (hab : a + b ≤ maxInt64) :
    safeAddClip a b = a + b := by
  have hin : InInt64 (a + b) := by
    unfold InInt64 minInt64
    omega
  unfold safeAddClip safeAdd
  rw [if_neg (by omega), if_neg (by omega), add_of_inInt64 hin]

/-- `safeMul`: the product, and whether it overflows.  The absolute values
are taken in `int64`, where `-MinInt64 = MinInt64`. -/
def safeMul (a b : Int) : Int × Bool :=
  if a = 0 ∨ b = 0 then (0, false)
  else
    let absOfB := if b < 0 then neg b else b
    let absOfA := if a < 0 then neg a else a
    if absOfA > div maxInt64 absOfB then (0, true) else (mul a b, false)

variable {K S : Type}

/-- `Validator`, without the proposer priority that nothing here reads. -/
structure Validator (K : Type) where
  address : Bytes
  pubKey : PubKey K
  votingPower : Int
  votingWeight : Int
  deriving DecidableEq, Repr

/-- `VoterSet`: the voters and the cached total voting weight, `0` when not
yet computed. -/
structure VoterSet (K : Type) where
  voters : List (Validator K)
  totalVotingWeightCache : Int
  deriving DecidableEq, Repr

/-- `VoterSet.Size`. -/
def VoterSet.size (voters : VoterSet K) : Nat := voters.voters.length

/-- The loop of `updateTotalVotingWeight`: the clipped running sum, `none`
where Go panics because it passed `MaxTotalVotingWeight`. -/
def updateTotalVotingWeight : Int → List (Validator K) → Option Int
  | sum, [] => some sum
  | sum, val :: rest =>
      let sum := safeAddClip sum val.votingWeight
      if sum > maxTotalVotingWeight then none else updateTotalVotingWeight sum rest

/-- `VoterSet.TotalVotingWeight`: the cached total, recomputed while it is
`0`. -/
def VoterSet.totalVotingWeight (voters : VoterSet K) : Option Int :=
  if voters.totalVotingWeightCache = 0 then updateTotalVotingWeight 0 voters.voters
  else some voters.totalVotingWeightCache

/-- The loop of `GetByAddress` from index `idx` on. -/
def getByAddressFrom (address : Bytes) : Nat → List (Validator K) → Option (Nat × Validator K)
  | _, [] => none
  | idx, voter :: rest =>
      if voter.address = address then some (idx, voter) else getByAddressFrom address (idx + 1) rest

/-- `VoterSet.GetByAddress`: the first voter with the address and its index. -/
def VoterSet.getByAddress (voters : VoterSet K) (address : Bytes) : Option (Nat × Validator K) :=
  getByAddressFrom address 0 voters.voters

/-- `tmmath.Fraction`. -/
structure Fraction where
  numerator : UInt64
  denominator : UInt64
  deriving DecidableEq, Repr

/-! ## Commit verification -/

/-- The errors of the three verifiers. -/
inductive CommitError
  /-- `ErrInvalidCommitSignatures`: "Invalid commit -- wrong set size: %v vs %v" -/
  | invalidCommitSignatures (expected actual : Nat)
  /-- `ErrInvalidCommitHeight`: "Invalid commit -- wrong height: %v vs %v" -/
  | invalidCommitHeight (expected actual : Int)
  /-- "invalid commit -- wrong block ID: want %v, got %v" -/
  | wrongBlockID (want got : BlockID)
  /-- "wrong signature (#%d): %X" -/
  | wrongSignature (idx : Nat)
  /-- "signature %d has been omitted, even though it is not a BLS key" -/
  | omittedSignature (idx : Nat)
  /-- "wrong aggregated signature: %X; %s" -/
  | wrongAggregatedSignature (err : BlsError)
  /-- `ErrNotEnoughVotingWeightSigned`:
  "invalid commit -- insufficient voting weight: got %d, needed more than %d" -/
  | notEnoughVotingWeightSigned (got needed : Int)
  /-- "trustLevel has zero Denominator" -/
  | zeroDenominator
  /-- "int64 overflow while calculating voting weight needed. please provide
  smaller trustLevel numerator" -/
  | votingWeightOverflow
  /-- "double vote from %v (%d and %d)", for the voter at `voterIdx` -/
  | doubleVote (voterIdx firstIndex secondIndex : Nat)
  /-- the panic of `updateTotalVotingWeight`:
  "total voting weight should be guarded to not exceed %v; got: %v" -/
  | totalVotingWeightPanic
  deriving DecidableEq, Repr

/-- The BLS public keys and the messages collected for the aggregate check. -/
structure BlsBatch (K : Type) where
  blsPubKeys : List K
  messages : List CanonicalVote
  deriving DecidableEq, Repr

/-- The empty batch the verifiers start from. -/
def BlsBatch.empty : BlsBatch K := ⟨[], []⟩

/-- `append` of a key to `blsPubKeys` and of its message to `messages`. -/
def BlsBatch.push (batch : BlsBatch K) (blsPubKey : K) (msg : CanonicalVote) : BlsBatch K :=
  ⟨batch.blsPubKeys ++ [blsPubKey], batch.messages ++ [msg]⟩

section Verify

variable (c : Primitives K CanonicalVote S)

/-- `verifySignatureOrCollectBlsPubKeysAndGetVotingWeight`: the verified and
the unverified weight of the entry at `idx`, with the batch after the call.
A present signature is verified at once; an omitted one must belong to a BLS
key, which joins the batch with the message. -/
def verifySignatureOrCollectBlsPubKeysAndGetVotingWeight (idx : Nat) (commitSig : CommitSig S)
    (val : Validator K) (voteSignBytes : CanonicalVote) (batch : BlsBatch K) :
    Except CommitError (Int × Int × BlsBatch K) :=
  match commitSig.signature with
  | some sig =>
      if val.pubKey.verifySignature c voteSignBytes sig then .ok (val.votingWeight, 0, batch)
      else .error (.wrongSignature idx)
  | none =>
      match getSignatureKey val.pubKey with
      | none => .error (.omittedSignature idx)
      | some blsPubKey => .ok (0, val.votingWeight, batch.push blsPubKey voteSignBytes)

/-- The loop of `VerifyCommit` over the voters and the entries at the same
index, from `idx` on: every entry that is not absent is checked, and the
entries for the block add their weight. -/
def verifyCommitLoop (chainID : String) (commit : Commit S) :
    Nat → List (Validator K × CommitSig S) → Int → BlsBatch K →
      Except CommitError (Int × BlsBatch K)
  | _, [], tallied, batch => .ok (tallied, batch)
  | idx, (voter, commitSig) :: rest, tallied, batch =>
      if commitSig.absent then verifyCommitLoop chainID commit (idx + 1) rest tallied batch
      else
        match verifySignatureOrCollectBlsPubKeysAndGetVotingWeight c idx commitSig voter
            (commit.voteSignBytes chainID idx commitSig) batch with
        | .error err => .error err
        | .ok (verified, unverified, batch) =>
            let tallied := if commitSig.forBlock then add tallied (add verified unverified) else tallied
            verifyCommitLoop chainID commit (idx + 1) rest tallied batch

/-- `VoterSet.VerifyCommit`.  The Go loop indexes `voters.Voters[idx]`; after
the size check that is the voter zipped with the entry. -/
def VoterSet.verifyCommit (voters : VoterSet K) (chainID : String) (blockID : BlockID)
    (height : Int) (commit : Commit S) : Except CommitError Unit :=
  if voters.size ≠ commit.signatures.length then
    .error (.invalidCommitSignatures voters.size commit.signatures.length)
  else if height ≠ commit.height then .error (.invalidCommitHeight height commit.height)
  else if blockID ≠ commit.blockID then .error (.wrongBlockID blockID commit.blockID)
  else
    match voters.totalVotingWeight with
    | none => .error .totalVotingWeightPanic
    | some total =>
        let required := div (mul total 2) 3
        match verifyCommitLoop c chainID commit 0 (voters.voters.zip commit.signatures) 0
            BlsBatch.empty with
        | .error err => .error err
        | .ok (tallied, batch) =>
            match verifyAggregatedSignature c commit.aggregatedSignature batch.blsPubKeys
                batch.messages with
            | .error err => .error (.wrongAggregatedSignature err)
            | .ok () =>
                if tallied ≤ required then .error (.notEnoughVotingWeightSigned tallied required)
                else .ok ()

/-- How the loops of the two light verifiers end: by returning `nil` inside
the loop once the individually verified weight is enough, or by running out
of entries with both tallies and the batch. -/
inductive LightLoopEnd (K : Type)
  | accepted
  | tallied (verified unverified : Int) (batch : BlsBatch K)
  deriving DecidableEq, Repr

/-- What both light verifiers do after their loop: check the aggregate, add
the weight it covers, and compare with the required weight. -/
def checkAggregatedTally (commit : Commit S) (required : Int) :
    LightLoopEnd K → Except CommitError Unit
  | .accepted => .ok ()
  | .tallied tallied talliedUnverified batch =>
      match verifyAggregatedSignature c commit.aggregatedSignature batch.blsPubKeys
          batch.messages with
      | .error err => .error (.wrongAggregatedSignature err)
      | .ok () =>
          let tallied := add tallied talliedUnverified
          if tallied > required then .ok ()
          else .error (.notEnoughVotingWeightSigned tallied required)

/-- The loop of `VerifyCommitLight` from `idx` on: each entry for the block
is matched to a voter by its address, and entries without a voter are
skipped. -/
def verifyCommitLightLoop (voters : VoterSet K) (chainID : String) (commit : Commit S)
    (required : Int) :
    Nat → List (CommitSig S) → Int → Int → BlsBatch K → Except CommitError (LightLoopEnd K)
  | _, [], tallied, talliedUnverified, batch => .ok (.tallied tallied talliedUnverified batch)
  | idx, commitSig :: rest, tallied, talliedUnverified, batch =>
      if !commitSig.forBlock then
        verifyCommitLightLoop voters chainID commit required (idx + 1) rest tallied
          talliedUnverified batch
      else
        match voters.getByAddress commitSig.validatorAddress with
        | none =>
            verifyCommitLightLoop voters chainID commit required (idx + 1) rest tallied
              talliedUnverified batch
        | some (_, voter) =>
            match verifySignatureOrCollectBlsPubKeysAndGetVotingWeight c idx commitSig voter
                (commit.voteSignBytes chainID idx commitSig) batch with
            | .error err => .error err
            | .ok (verified, unverified, batch) =>
                let tallied := add tallied verified
                let talliedUnverified := add talliedUnverified unverified
                if tallied > required then .ok .accepted
                else
                  verifyCommitLightLoop voters chainID commit required (idx + 1) rest tallied
                    talliedUnverified batch

/-- `VoterSet.VerifyCommitLight`. -/
def VoterSet.verifyCommitLight (voters : VoterSet K) (chainID : String) (blockID : BlockID)
    (height : Int) (commit : Commit S) : Except CommitError Unit :=
  if voters.size ≠ commit.signatures.length then
    .error (.invalidCommitSignatures voters.size commit.signatures.length)
  else if height ≠ commit.height then .error (.invalidCommitHeight height commit.height)
  else if blockID ≠ commit.blockID then .error (.wrongBlockID blockID commit.blockID)
  else
    match voters.totalVotingWeight with
    | none => .error .totalVotingWeightPanic
    | some total =>
        let required := div (mul total 2) 3
        match verifyCommitLightLoop c voters chainID commit required 0 commit.signatures 0 0
            BlsBatch.empty with
        | .error err => .error err
        | .ok loopEnd => checkAggregatedTally c commit required loopEnd

/-- The loop of `VerifyCommitLightTrusting` from `idx` on: as the loop of
`VerifyCommitLight`, and `seenVoters` maps each voter index met so far to the
entry that named it. -/
def verifyCommitLightTrustingLoop (voters : VoterSet K) (chainID : String) (commit : Commit S)
    (required : Int) :
    Nat → List (CommitSig S) → List (Nat × Nat) → Int → Int → BlsBatch K →
      Except CommitError (LightLoopEnd K)
  | _, [], _, tallied, talliedUnverified, batch => .ok (.tallied tallied talliedUnverified batch)
  | idx, commitSig :: rest, seenVoters, tallied, talliedUnverified, batch =>
      if !commitSig.forBlock then
        verifyCommitLightTrustingLoop voters chainID commit required (idx + 1) rest seenVoters
          tallied talliedUnverified batch
      else
        match voters.getByAddress commitSig.validatorAddress with
        | none =>
            verifyCommitLightTrustingLoop voters chainID commit required (idx + 1) rest seenVoters
              tallied talliedUnverified batch
        | some (voterIdx, voter) =>
            match seenVoters.lookup voterIdx with
            | some firstIndex => .error (.doubleVote voterIdx firstIndex idx)
            | none =>
                match verifySignatureOrCollectBlsPubKeysAndGetVotingWeight c idx commitSig voter
                    (commit.voteSignBytes chainID idx commitSig) batch with
                | .error err => .error err
                | .ok (verified, unverified, batch) =>
                    let tallied := add tallied verified
                    let talliedUnverified := add talliedUnverified unverified
                    if tallied > required then .ok .accepted
                    else
                      verifyCommitLightTrustingLoop voters chainID commit required (idx + 1) rest
                        ((voterIdx, idx) :: seenVoters) tallied talliedUnverified batch

/-- `VoterSet.VerifyCommitLightTrusting`.  The fraction's `uint64` parts are
converted to `int64` as Go converts them. -/
def VoterSet.verifyCommitLightTrusting (voters : VoterSet K) (chainID : String)
    (commit : Commit S) (trustLevel : Fraction) : Except CommitError Unit :=
  if trustLevel.denominator = 0 then .error .zeroDenominator
  else
    match voters.totalVotingWeight with
    | none => .error .totalVotingWeightPanic
    | some total =>
        match safeMul total (ofUInt64 trustLevel.numerator) with
        | (_, true) => .error .votingWeightOverflow
        | (totalVotingWeightMulByNumerator, false) =>
            let required := div totalVotingWeightMulByNumerator (ofUInt64 trustLevel.denominator)
            match verifyCommitLightTrustingLoop c voters chainID commit required 0
                commit.signatures [] 0 0 BlsBatch.empty with
            | .error err => .error err
            | .ok loopEnd => checkAggregatedTally c commit required loopEnd

end Verify

end Ostracon.Types
