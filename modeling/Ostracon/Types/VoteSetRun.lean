import Ostracon.Types.VoteSetInvariant
import Ostracon.Types.CommitVerification
/-!
# Runs of a vote set

A vote set lives through a sequence of `AddVote`, `AddAggregatedVote` and
`SetPeerMaj23` calls with whatever votes and claims the peers send.  The
invariant of `VoteSetInvariant` holds after every call of every run from a new
set, the two-thirds block is never changed once set, and a call that turns its
input away leaves the set as it was.

The two-thirds block is the block of the vote that crossed the quorum for a
block key, and `BlockID.Key` is not injective (a hash ending in a part-set
header's encoding names another block), so what the votes are for is their
key: the votes counted for the two-thirds block can be votes for another
block with the same key.
-/

namespace Ostracon.Types

open Ostracon.Crypto Ostracon.Crypto.Merkle GoInt WeightedSet

variable {K S : Type} {voterSet : VoterSet K}

/-- A call a vote set serves. -/
inductive VoteSetCall (S : Type)
  | addVote (vote : Vote S)
  | addAggregatedVote (vote : Vote S)
  | setPeerMaj23 (peerID : P2PID) (blockID : BlockID)

namespace VoteSet

variable [DecidableEq S] (c : Primitives K CanonicalVote S)

/-- The set after one call; `none` where Go panics. -/
def call (vs : VoteSet S voterSet) : VoteSetCall S → Option (VoteSet S voterSet)
  | .addVote vote => (vs.addVote c vote).map (·.2)
  | .addAggregatedVote vote => (vs.addAggregatedVote c vote).map (·.2)
  | .setPeerMaj23 peerID blockID => some (vs.setPeerMaj23 peerID blockID).2

/-- The set after a sequence of calls. -/
def run (vs : VoteSet S voterSet) : List (VoteSetCall S) → Option (VoteSet S voterSet)
  | [] => some vs
  | call :: calls => (vs.call c call).bind fun vs => run vs calls

end VoteSet

/-! ## Three voters of weight one -/

/-- A fresh set of precommits of the three voters of weight one. -/
def threeVoteSet : VoteSet (IdealSig Nat CanonicalVote) threeVoters :=
  { chainID := "", height := 1, round := 0, signedMsgType := .precommit,
    votesBitArray := fun _ => false, votes := fun _ => none, sum := 0, maj23 := none,
    votesByBlock := fun _ => none, peerMaj23s := fun _ => none }

theorem newVoteSet_threeVoters :
    newVoteSet "" 1 0 .precommit threeVoters = some threeVoteSet := rfl

/-- A block of one part whose 32-byte hash begins as the encoding of a
part-set hash of 32 bytes. -/
def hashBlockID : BlockID := ⟨[0x12, 0x20] ++ List.replicate 30 0, ⟨1, []⟩⟩

/-- A block with no hash, whose header has no parts and a 32-byte hash that
ends in the encoding of one part: its key is `hashBlockID`'s. -/
def headerBlockID : BlockID := ⟨[], ⟨0, List.replicate 30 0 ++ [0x08, 0x01]⟩⟩

/-- The precommit for `blockID` at height 1, round 0 and `timestamp` of the
voter with the key `i` of type `type`, at index `i`, signed with the key. -/
def signedPrecommit (type : KeyType) (i : Nat) (blockID : BlockID) (timestamp : Int) :
    Vote (IdealSig Nat CanonicalVote) :=
  { type := .precommit, height := 1, round := 0, blockID := blockID, timestamp := timestamp,
    validatorAddress := keyAddress (.leaf type i), validatorIndex := i,
    signature := some ((PubKey.leaf type i).idealSign
      { type := .precommit, height := 1, round := 0, blockID := canonicalBlockID blockID,
        timestamp := timestamp, chainID := "" }) }

/-- A peer's claim of a two-thirds majority for `hashBlockID`, then the
three voters' precommits for it. -/
def claimThenPrecommits : List (VoteSetCall (IdealSig Nat CanonicalVote)) :=
  [.setPeerMaj23 "peer" hashBlockID, .addVote (signedPrecommit .ed25519 0 hashBlockID 0),
    .addVote (signedPrecommit .ed25519 1 hashBlockID 0), .addVote (signedPrecommit .ed25519 2 hashBlockID 0)]

section Run

theorem setPeerMaj23_maj23 (vs : VoteSet S voterSet) (peerID : P2PID) (blockID : BlockID) :
    (vs.setPeerMaj23 peerID blockID).2.maj23 = vs.maj23 := by
  rcases setPeerMaj23_cases vs peerID blockID with h | ⟨bv, h, -⟩ | h <;> rw [h]

theorem setPeerMaj23_error {vs : VoteSet S voterSet} {peerID : P2PID} {blockID : BlockID}
    (h : (vs.setPeerMaj23 peerID blockID).1.isSome) : (vs.setPeerMaj23 peerID blockID).2 = vs := by
  unfold VoteSet.setPeerMaj23 at h ⊢
  cases hpeer : vs.peerMaj23s peerID with
  | some existing =>
      simp only
      split_ifs <;> rfl
  | none =>
      rw [hpeer] at h
      simp only at h
      split at h
      · split_ifs at h <;> simp at h
      · simp at h

variable [DecidableEq S] {c : Primitives K CanonicalVote S}
  (hweight : ∀ v ∈ voterSet.voters, 0 ≤ v.votingWeight)
  (hsum : (voterSet.voters.map (·.votingWeight)).sum ≤ maxInt64)
include hweight hsum

theorem call_inv {vs vs' : VoteSet S voterSet} (hinv : vs.Inv) {call : VoteSetCall S}
    (h : vs.call c call = some vs') :
    vs'.Inv ∧ ∀ B, vs.maj23 = some B → vs'.maj23 = some B := by
  -- both vote calls are `addVoteWith`; they only differ in the signature check
  have hvote : ∀ verify vote r, vs.addVoteWith vote verify = some (r, vs') →
      vs'.Inv ∧ ∀ B, vs.maj23 = some B → vs'.maj23 = some B := by
    intro verify vote r h
    obtain ⟨hinv', hmaj⟩ := addVoteWith_inv hweight hsum hinv h
    refine ⟨hinv', fun B hB => ?_⟩
    rcases hmaj with hmaj | ⟨hnone, -⟩
    · rw [hmaj, hB]
    · rw [hB] at hnone
      cases hnone
  cases call with
  | addVote vote =>
      obtain ⟨⟨r, vs''⟩, hadd, rfl⟩ := Option.map_eq_some_iff.mp h
      exact hvote _ vote r hadd
  | addAggregatedVote vote =>
      obtain ⟨⟨r, vs''⟩, hadd, rfl⟩ := Option.map_eq_some_iff.mp h
      exact hvote _ vote r hadd
  | setPeerMaj23 peerID blockID =>
      obtain rfl := Option.some.inj h
      exact ⟨setPeerMaj23_inv hinv peerID blockID, fun B hB => by rw [setPeerMaj23_maj23, hB]⟩

theorem run_inv {vs vs' : VoteSet S voterSet} (hinv : vs.Inv) {calls : List (VoteSetCall S)}
    (h : vs.run c calls = some vs') :
    vs'.Inv ∧ ∀ B, vs.maj23 = some B → vs'.maj23 = some B := by
  -- induction on the calls, carrying the invariant from each set to the next
  induction calls generalizing vs with
  | nil =>
      obtain rfl := Option.some.inj h
      exact ⟨hinv, fun _ hB => hB⟩
  | cons call calls ih =>
      obtain ⟨vs₁, h₁, h⟩ := Option.bind_eq_some_iff.mp h
      obtain ⟨hinv₁, hmaj₁⟩ := call_inv hweight hsum hinv h₁
      obtain ⟨hinv', hmaj'⟩ := ih hinv₁ h
      exact ⟨hinv', fun B hB => hmaj' B (hmaj₁ B hB)⟩

/-- The vote set's representation invariant over whole runs.  After every
run from a new set: the invariant (the bit array marks the canonical votes, at
their voter's index and address; `sum` is the weight of the voters that
voted; the votes for each block key are votes for it at their voter's index,
each with a canonical vote, and their sum is their weight); the two-thirds
block's votes reach the quorum, and so do the voters with a canonical vote for
its key; the two-thirds block never changes in any later run; and a call that
turns its input away leaves the set as it was. -/
theorem voteSet_run_invariant {chainID : String} {height round : Int} {type : SignedMsgType}
    {vs₀ vs : VoteSet S voterSet} (hnew : newVoteSet chainID height round type voterSet = some vs₀)
    {calls : List (VoteSetCall S)} (hrun : vs₀.run c calls = some vs) :
    vs.Inv ∧
      (∀ B, vs.maj23 = some B → ∃ bv q, vs.votesByBlock B.key = some bv ∧
        voterSet.quorum = some q ∧ q ≤ bv.sum ∧ q ≤ weight voterSet.weightAt (votesFor vs B.key)) ∧
      (∀ calls' vs', vs.run c calls' = some vs' → ∀ B, vs.maj23 = some B → vs'.maj23 = some B) ∧
      (∀ vote r vs', (vs.addVote c vote = some (r, vs') ∨ vs.addAggregatedVote c vote = some (r, vs')) →
        Rejected r → vs' = vs) ∧
      (∀ peerID blockID, (vs.setPeerMaj23 peerID blockID).1.isSome →
        (vs.setPeerMaj23 peerID blockID).2 = vs) := by
  have hinv := (run_inv hweight hsum (newVoteSet_inv hnew) hrun).1
  refine ⟨hinv, fun B hB => hinv.quorum_le_votesFor hweight hB,
    fun calls' vs' h' => (run_inv hweight hsum hinv h').2, ?_, fun _ _ h => setPeerMaj23_error h⟩
  rintro vote r vs' (h | h) hr
  · exact addVoteWith_rejected h hr
  · exact addVoteWith_rejected h hr

end Run

/-- After a peer's claim and the three voters' precommits for one block, the
set has that block as its two-thirds block, and the run invariant holds. -/
theorem voteSet_run_invariant_threeVoteSet :
    ∃ vs, threeVoteSet.run idealNat claimThenPrecommits = some vs ∧ vs.maj23 = some hashBlockID ∧
      (∀ v ∈ threeVoters.voters, 0 ≤ v.votingWeight) ∧
      (threeVoters.voters.map (·.votingWeight)).sum ≤ maxInt64 ∧
      newVoteSet "" 1 0 .precommit threeVoters = some threeVoteSet ∧
      vs.Inv ∧
      (∀ B, vs.maj23 = some B → ∃ bv q, vs.votesByBlock B.key = some bv ∧
        threeVoters.quorum = some q ∧ q ≤ bv.sum ∧ q ≤ weight threeVoters.weightAt (votesFor vs B.key)) ∧
      (∀ calls' vs', vs.run idealNat calls' = some vs' → ∀ B, vs.maj23 = some B → vs'.maj23 = some B) ∧
      (∀ vote r vs', (vs.addVote idealNat vote = some (r, vs') ∨
          vs.addAggregatedVote idealNat vote = some (r, vs')) → Rejected r → vs' = vs) ∧
      (∀ peerID blockID, (vs.setPeerMaj23 peerID blockID).1.isSome →
        (vs.setPeerMaj23 peerID blockID).2 = vs) := by
  obtain ⟨vs, hrun⟩ := Option.isSome_iff_exists.mp
    (by decide +kernel : (threeVoteSet.run idealNat claimThenPrecommits).isSome = true)
  have hmaj : (threeVoteSet.run idealNat claimThenPrecommits).map (·.maj23) = some (some hashBlockID) := by
    decide +kernel
  rw [hrun] at hmaj
  exact ⟨vs, hrun, by simpa using hmaj, by decide, by decide, newVoteSet_threeVoters,
    voteSet_run_invariant (by decide) (by decide) newVoteSet_threeVoters hrun⟩

/-! ## Votes for another block with the same key -/

/-- Two voters vote for `hashBlockID` and the third for `headerBlockID`, which
has the same key; both pass `ValidateBasic`.  The third vote crosses the quorum of 3, so the two-thirds
block is `headerBlockID`, but only the third voter, of weight 1, voted for
it. -/
theorem addVote_maj23_key_collision :
    hashBlockID ≠ headerBlockID ∧ hashBlockID.validateBasic ∧ headerBlockID.validateBasic ∧
      hashBlockID.key = headerBlockID.key ∧
      threeVoters.quorum = some 3 ∧
      (threeVoteSet.run idealNat
          [.addVote (signedPrecommit .ed25519 0 hashBlockID 0),
            .addVote (signedPrecommit .ed25519 1 hashBlockID 0),
            .addVote (signedPrecommit .ed25519 2 headerBlockID 0)]).map
        (fun vs => (vs.maj23, (List.ofFn vs.votes).map (Option.map (·.blockID)))) =
        some (some headerBlockID, [some hashBlockID, some hashBlockID, some headerBlockID]) := by
  decide +kernel

end Ostracon.Types
