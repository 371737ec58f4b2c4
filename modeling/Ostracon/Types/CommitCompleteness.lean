import Ostracon.Types.VoteSetRun
/-!
# Commits of BLS voters with nil precommits

`MakeCommit` turns the canonical votes of a precommit set into a commit, and
`Commit.AggregateSignatures` moves every BLS signature of an entry that is not
absent into the aggregate, the signatures of nil precommits among them.
`VerifyCommit` collects the key and the message of every entry that is not
absent for the aggregate check, so it accepts such a commit.  The two light
verifiers collect them only for the entries for the block, so the aggregate
they check covers a message they did not collect and they reject it.
-/

namespace Ostracon.Types

open Ostracon.Crypto Ostracon.Crypto.Merkle

/-- The voter of weight one with the BLS key `i`. -/
def blsVoter (i : Nat) : Validator Nat :=
  { address := keyAddress (.leaf .bls i), pubKey := .leaf .bls i, votingPower := 1,
    votingWeight := 1 }

/-- Four BLS voters of weight one. -/
def fourBlsVoters : VoterSet Nat := ⟨[blsVoter 0, blsVoter 1, blsVoter 2, blsVoter 3], 0⟩

/-- A fresh set of precommits of the four BLS voters. -/
def fourVoteSet : VoteSet (IdealSig Nat CanonicalVote) fourBlsVoters :=
  { chainID := "", height := 1, round := 0, signedMsgType := .precommit,
    votesBitArray := fun _ => false, votes := fun _ => none, sum := 0, maj23 := none,
    votesByBlock := fun _ => none, peerMaj23s := fun _ => none }

theorem newVoteSet_fourBlsVoters :
    newVoteSet "" 1 0 .precommit fourBlsVoters = some fourVoteSet := rfl

/-- A complete block ID: 32-byte hashes and one part. -/
def completeBlockID : BlockID := ⟨List.replicate 32 1, ⟨1, List.replicate 32 2⟩⟩

/-- Three voters precommit the block and the fourth precommits nil. -/
def precommitsWithNil : List (VoteSetCall (IdealSig Nat CanonicalVote)) :=
  [.addVote (signedPrecommit .bls 0 completeBlockID 0),
    .addVote (signedPrecommit .bls 1 completeBlockID 0),
    .addVote (signedPrecommit .bls 2 completeBlockID 0),
    .addVote (signedPrecommit .bls 3 ⟨[], ⟨0, []⟩⟩ 0)]

/-- The four precommits are added, the block has two thirds, and the commit
`MakeCommit` makes of them passes `VerifyCommit` but neither `VerifyCommitLight`
nor `VerifyCommitLightTrusting` at the trust level 1/3: the aggregate holds
the nil precommit's signature, whose key and message only `VerifyCommit`
collects. -/
theorem makeCommit_nil_precommit_fails_light :
    (fourVoteSet.run idealNat precommitsWithNil).map (·.twoThirdsMajority) = some (some completeBlockID) ∧
      ((fourVoteSet.run idealNat precommitsWithNil).bind (·.makeCommit idealNat)).map
          (fun commit =>
            (fourBlsVoters.verifyCommit idealNat "" completeBlockID 1 commit,
              fourBlsVoters.verifyCommitLight idealNat "" completeBlockID 1 commit,
              fourBlsVoters.verifyCommitLightTrusting idealNat "" commit ⟨1, 3⟩)) =
        some (.ok (), .error (.wrongAggregatedSignature (.failed 3)),
          .error (.wrongAggregatedSignature (.failed 3))) := by
  decide +kernel

end Ostracon.Types
