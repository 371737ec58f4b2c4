import Ostracon.Consensus.PeerState
import Ostracon.Bits.Shape
/-!
# The bit arrays of a peer's state

The reactor keeps, for each peer, bit arrays of the block parts and the votes
the peer has.  It allocates most of them with `NewBitArray`, but keeps the
arrays of `NewValidBlock` and `ProposalPOL` messages as they came from the
wire.  `MsgFromProto` copies `Bits` and `Elems` of a wire bit array
independently, and `ValidateBasic` only bounds `Size()`.

* `PeerRoundState.WellFormed`: every array the round state holds is `nil` or
  has the shape `NewBitArray` gives.  Every update keeps it, and no update or
  gossip pick panics from it, provided the arrays the two messages bring are
  well formed and every index is non-negative (`PeerEvent.Safe`);
  `run_wellFormed` carries it along every run.  A `VoteSetBits` message needs
  no such proviso: its array is only merged into one we keep.
* `newValidBlock_malformed_parts_crash_gossip`: an accepted `NewValidBlock`
  message whose array has one bit and no word is kept, and both picks of
  `gossipDataRoutine` then panic, outside the receive routine's recovery.
-/

namespace Ostracon.Consensus

open Ostracon.Types Ostracon.Bits Ostracon.Bits.BitArrayPtr

namespace PeerRoundState

/-- Every bit array the round state holds is `nil` or well formed with a
positive size, as `NewBitArray` makes them. -/
structure WellFormed (prs : PeerRoundState) : Prop where
  proposalBlockParts : prs.proposalBlockParts.WellFormed
  proposalPOL : prs.proposalPOL.WellFormed
  prevotes : prs.prevotes.WellFormed
  precommits : prs.precommits.WellFormed
  lastCommit : prs.lastCommit.WellFormed
  catchupCommit : prs.catchupCommit.WellFormed

variable {prs : PeerRoundState}

theorem newPeerRoundState_wellFormed : newPeerRoundState.WellFormed := by
  constructor <;> exact wellFormed_none

theorem WellFormed.votes (h : prs.WellFormed) (f : VoteField) : (prs.votes f).WellFormed := by
  cases f
  · exact h.prevotes
  · exact h.precommits
  · exact h.catchupCommit
  · exact h.proposalPOL
  · exact h.lastCommit

theorem WellFormed.setVotes (h : prs.WellFormed) (f : VoteField) {a : BitArrayPtr}
    (ha : a.WellFormed) : (prs.setVotes f a).WellFormed := by
  cases f
  · exact { h with prevotes := ha }
  · exact { h with precommits := ha }
  · exact { h with catchupCommit := ha }
  · exact { h with proposalPOL := ha }
  · exact { h with lastCommit := ha }

theorem ensureBitArray_wellFormed {a : BitArrayPtr} (ha : a.WellFormed) (numVoters : Int) :
    (ensureBitArray a numVoters).WellFormed := by
  unfold ensureBitArray
  split
  · exact newBitArray_wellFormed numVoters
  · exact ha

/-! ## Updates that cannot panic -/

theorem WellFormed.applyNewRoundStepMessage (h : prs.WellFormed) (msg : NewRoundStepMessage) :
    (prs.applyNewRoundStepMessage msg).WellFormed := by
  unfold PeerRoundState.applyNewRoundStepMessage
  split
  · exact h
  · -- each field ends up `nil` or with one of the old arrays, whichever
    -- branches are taken
    constructor <;> dsimp only <;> split_ifs <;> dsimp only <;>
      first
      | exact wellFormed_none
      | exact h.proposalBlockParts
      | exact h.proposalPOL
      | exact h.prevotes
      | exact h.precommits
      | exact h.lastCommit
      | exact h.catchupCommit

theorem WellFormed.applyNewValidBlockMessage (h : prs.WellFormed) {msg : NewValidBlockMessage}
    (hmsg : msg.blockParts.WellFormed) : (prs.applyNewValidBlockMessage msg).WellFormed := by
  unfold PeerRoundState.applyNewValidBlockMessage
  split_ifs
  · exact h
  · exact h
  · exact { h with proposalBlockParts := hmsg }

theorem WellFormed.applyProposalPOLMessage (h : prs.WellFormed) {msg : ProposalPOLMessage}
    (hmsg : msg.proposalPOL.WellFormed) : (prs.applyProposalPOLMessage msg).WellFormed := by
  unfold PeerRoundState.applyProposalPOLMessage
  split_ifs
  · exact h
  · exact h
  · exact { h with proposalPOL := hmsg }

theorem WellFormed.setHasProposal (h : prs.WellFormed) (proposal : Proposal) :
    (prs.setHasProposal proposal).WellFormed := by
  unfold PeerRoundState.setHasProposal
  split_ifs
  · exact h
  · exact h
  · exact ⟨h.1, h.2, h.3, h.4, h.5, h.6⟩
  · exact { h with
      proposalBlockParts := newBitArray_wellFormed _, proposalPOL := wellFormed_none }

theorem WellFormed.initProposalBlockParts (h : prs.WellFormed) (partSetHeader : PartSetHeader) :
    (prs.initProposalBlockParts partSetHeader).WellFormed := by
  unfold PeerRoundState.initProposalBlockParts
  split_ifs
  · exact h
  · exact { h with proposalBlockParts := newBitArray_wellFormed _ }

theorem WellFormed.ensureVoteBitArrays (h : prs.WellFormed) (height numVoters : Int) :
    (prs.ensureVoteBitArrays height numVoters).WellFormed := by
  unfold PeerRoundState.ensureVoteBitArrays
  split_ifs
  · exact { h with
      prevotes := ensureBitArray_wellFormed h.prevotes numVoters,
      precommits := ensureBitArray_wellFormed h.precommits numVoters,
      catchupCommit := ensureBitArray_wellFormed h.catchupCommit numVoters,
      proposalPOL := ensureBitArray_wellFormed h.proposalPOL numVoters }
  · exact { h with lastCommit := ensureBitArray_wellFormed h.lastCommit numVoters }
  · exact h

theorem WellFormed.ensureCatchupCommitRound (h : prs.WellFormed) (height round numVoters : Int) :
    (prs.ensureCatchupCommitRound height round numVoters).WellFormed := by
  unfold PeerRoundState.ensureCatchupCommitRound
  split_ifs
  · exact h
  · exact h
  · exact { h with catchupCommit := h.precommits }
  · exact { h with catchupCommit := newBitArray_wellFormed numVoters }

/-! ## Updates through `SetIndex`, `Sub`, `Or` and `Update` -/

theorem WellFormed.setHasVote (h : prs.WellFormed) (height round : Int) (type : SignedMsgType)
    {index : Int} (hi : 0 ≤ index) :
    ∃ prs', prs.setHasVote height round type index = some prs' ∧ prs'.WellFormed := by
  unfold PeerRoundState.setHasVote
  cases prs.voteField height round type with
  | none => exact ⟨prs, rfl, h⟩
  | some f =>
    dsimp only
    obtain ⟨a, r, ha, hawf⟩ := (h.votes f).setIndex hi true
    refine ⟨prs.setVotes f a, ?_, h.setVotes f hawf⟩
    rw [Option.bind_eq_bind, ha, Option.bind_some]
    rfl

theorem WellFormed.applyHasVoteMessage (h : prs.WellFormed) {msg : HasVoteMessage}
    (hi : 0 ≤ msg.index) :
    ∃ prs', prs.applyHasVoteMessage msg = some prs' ∧ prs'.WellFormed := by
  unfold PeerRoundState.applyHasVoteMessage
  split
  · exact ⟨prs, rfl, h⟩
  · exact h.setHasVote _ _ _ hi

/-- A `VoteSetBits` message cannot break the state, whatever its bit array:
`Sub` and `Or` do not panic with our array as receiver, and `Update` keeps
our array's shape. -/
theorem WellFormed.applyVoteSetBitsMessage (h : prs.WellFormed) (msg : VoteSetBitsMessage)
    (ourVotes : BitArrayPtr) :
    ∃ prs', prs.applyVoteSetBitsMessage msg ourVotes = some prs' ∧ prs'.WellFormed := by
  unfold PeerRoundState.applyVoteSetBitsMessage
  cases prs.voteField msg.height msg.round msg.type with
  | none => exact ⟨prs, rfl, h⟩
  | some f =>
    dsimp only
    have hv := h.votes f
    revert hv
    cases prs.votes f with
    | none => exact fun _ => ⟨prs, rfl, h⟩
    | some votes =>
      intro hv
      cases ourVotes with
      | none => exact ⟨_, rfl, h.setVotes f (hv.update msg.votes)⟩
      | some ours =>
        obtain ⟨other, hother, -, hotherwf⟩ := sub_of_wf (hv votes rfl).1 ours
        obtain ⟨has, hhas⟩ := or_isSome_of_wf hotherwf msg.votes
        refine ⟨_, ?_, h.setVotes f (hv.update has)⟩
        simp only [Option.bind_eq_bind, hother, Option.bind_some, hhas]
        rfl

theorem WellFormed.setHasProposalBlockPart (h : prs.WellFormed) (height round : Int)
    {index : Int} (hi : 0 ≤ index) :
    ∃ prs', prs.setHasProposalBlockPart height round index = some prs' ∧ prs'.WellFormed := by
  unfold PeerRoundState.setHasProposalBlockPart
  split
  · exact ⟨prs, rfl, h⟩
  · obtain ⟨a, r, ha, hawf⟩ := h.proposalBlockParts.setIndex hi true
    refine ⟨{ prs with proposalBlockParts := a }, ?_, { h with proposalBlockParts := hawf }⟩
    rw [Option.bind_eq_bind, ha, Option.bind_some]
    rfl

/-! ## Gossip -/

theorem WellFormed.pickVoteToSend (h : prs.WellFormed) {votes : VoteSetView}
    (hvotes : votes.bitArray.WellFormed) (r : Nat) :
    ∃ prs' index, prs.pickVoteToSend votes r = some (prs', index) ∧ prs'.WellFormed ∧
      ∀ i ∈ index, 0 ≤ i := by
  unfold PeerRoundState.pickVoteToSend
  split
  · exact ⟨prs, none, rfl, h, fun _ h => nomatch h⟩
  · -- the lazy allocations come first, then the pick from the array they leave
    dsimp only
    have h₁ : (if votes.isCommit then
        prs.ensureCatchupCommitRound votes.height votes.round votes.size else prs).WellFormed := by
      split
      · exact h.ensureCatchupCommitRound _ _ _
      · exact h
    have h₂ := h₁.ensureVoteBitArrays votes.height votes.size
    generalize (if votes.isCommit then
        prs.ensureCatchupCommitRound votes.height votes.round votes.size else prs).ensureVoteBitArrays
        votes.height votes.size = prs₂ at h₂ ⊢
    cases prs₂.getVoteBitArray votes.height votes.round votes.type with
    | none => exact ⟨prs₂, none, rfl, h₂, fun _ h => nomatch h⟩
    | some psVotes =>
      obtain ⟨missing, hmissing, hmwf⟩ := hvotes.sub (some psVotes)
      obtain ⟨picked, hpicked⟩ := hmwf.pickRandom r
      refine ⟨prs₂, if picked.2 then some picked.1 else none, ?_, h₂, ?_⟩
      · simp only [Option.bind_eq_bind, hmissing, Option.bind_some, hpicked]
        rfl
      · intro i hi
        split at hi
        · cases hi
          exact pickRandom_nonneg hpicked
        · cases hi

theorem WellFormed.pickSendVote (h : prs.WellFormed) {votes : VoteSetView}
    (hvotes : votes.bitArray.WellFormed) (r : Nat) (sent : Bool) :
    ∃ prs', prs.pickSendVote votes r sent = some prs' ∧ prs'.WellFormed := by
  obtain ⟨prs₁, index, hpick, h₁, hindex⟩ := h.pickVoteToSend hvotes r
  unfold PeerRoundState.pickSendVote
  rw [Option.bind_eq_bind, hpick, Option.bind_some]
  cases index with
  | none => exact ⟨prs₁, rfl, h₁⟩
  | some i =>
    dsimp only
    split
    · exact h₁.setHasVote _ _ _ (hindex i rfl)
    · exact ⟨prs₁, rfl, h₁⟩

theorem WellFormed.sendProposalBlockPart (h : prs.WellFormed)
    {ours : Option (PartSetHeader × BitArrayPtr)} (hours : ∀ o ∈ ours, o.2.WellFormed)
    (r : Nat) (sent : Bool) :
    ∃ prs', prs.sendProposalBlockPart ours r sent = some prs' ∧ prs'.WellFormed := by
  unfold PeerRoundState.sendProposalBlockPart
  cases ours with
  | none => exact ⟨prs, rfl, h⟩
  | some o =>
    obtain ⟨header, parts⟩ := o
    dsimp only
    split
    · exact ⟨prs, rfl, h⟩
    · obtain ⟨missing, hmissing, hmwf⟩ := (hours _ rfl).copy.sub prs.proposalBlockParts.copy
      obtain ⟨picked, hpicked⟩ := hmwf.pickRandom r
      rw [Option.bind_eq_bind, hmissing, Option.bind_some, Option.bind_eq_bind, hpicked,
        Option.bind_some]
      split
      · exact h.setHasProposalBlockPart _ _ (pickRandom_nonneg hpicked)
      · exact ⟨prs, rfl, h⟩

theorem WellFormed.pickPartForCatchup (h : prs.WellFormed) (r : Nat) :
    ∃ picked, prs.pickPartForCatchup r = some picked := by
  obtain ⟨missing, hmissing, hmwf⟩ := h.proposalBlockParts.not
  obtain ⟨picked, hpicked⟩ := hmwf.pickRandom r
  exact ⟨picked, by rw [PeerRoundState.pickPartForCatchup, Option.bind_eq_bind, hmissing,
    Option.bind_some, hpicked]⟩

end PeerRoundState

/-! ## Runs -/

/-- What keeps a peer's state well formed: the bit arrays of `NewValidBlock`
and `ProposalPOL` messages and of our own part sets and vote sets are well
formed, and every index is non-negative.  A `VoteSetBits` message needs
nothing. -/
def PeerEvent.Safe : PeerEvent → Prop
  | .newValidBlock msg => msg.blockParts.WellFormed
  | .proposalPOL msg => msg.proposalPOL.WellFormed
  | .hasVote msg => 0 ≤ msg.index
  | .blockPart _ _ index => 0 ≤ index
  | .vote _ _ _ index => 0 ≤ index
  | .sendProposalBlockPart ours _ _ => ∀ o ∈ ours, o.2.WellFormed
  | .pickSendVote votes _ _ => votes.bitArray.WellFormed
  | _ => True

namespace PeerRoundState

variable {prs : PeerRoundState}

theorem WellFormed.apply (h : prs.WellFormed) {e : PeerEvent} (he : e.Safe) :
    ∃ prs', prs.apply e = some prs' ∧ prs'.WellFormed := by
  cases e with
  | newRoundStep msg => exact ⟨_, rfl, h.applyNewRoundStepMessage msg⟩
  | newValidBlock msg => exact ⟨_, rfl, h.applyNewValidBlockMessage he⟩
  | proposalPOL msg => exact ⟨_, rfl, h.applyProposalPOLMessage he⟩
  | hasVote msg => exact h.applyHasVoteMessage he
  | voteSetBits msg ourVotes => exact h.applyVoteSetBitsMessage msg ourVotes
  | proposal proposal => exact ⟨_, rfl, h.setHasProposal proposal⟩
  | blockPart height round index => exact h.setHasProposalBlockPart height round he
  | vote height round type index => exact h.setHasVote height round type he
  | ensureVoteBitArrays height numVoters => exact ⟨_, rfl, h.ensureVoteBitArrays height numVoters⟩
  | initProposalBlockParts psh => exact ⟨_, rfl, h.initProposalBlockParts psh⟩
  | sendProposalBlockPart ours r sent => exact h.sendProposalBlockPart he r sent
  | pickSendVote votes r sent => exact h.pickSendVote he r sent

theorem WellFormed.run (h : prs.WellFormed) {events : List PeerEvent}
    (hsafe : ∀ e ∈ events, e.Safe) : ∃ prs', prs.run events = some prs' ∧ prs'.WellFormed := by
  induction events generalizing prs with
  | nil => exact ⟨prs, rfl, h⟩
  | cons e events ih =>
    obtain ⟨prs₁, h₁, hwf₁⟩ := h.apply (hsafe e List.mem_cons_self)
    obtain ⟨prs₂, h₂, hwf₂⟩ := ih hwf₁ fun e' he' => hsafe e' (List.mem_cons_of_mem _ he')
    refine ⟨prs₂, ?_, hwf₂⟩
    rw [PeerRoundState.run, List.foldlM_cons, h₁, Option.bind_eq_bind, Option.bind_some]
    exact h₂

end PeerRoundState

/-- From `NewPeerState`, every sequence of safe events runs without a panic,
and from the state it reaches the catch-up pick of `gossipDataRoutine` does
not panic for any draw. -/
theorem run_wellFormed {events : List PeerEvent} (hsafe : ∀ e ∈ events, e.Safe) :
    ∃ prs, newPeerRoundState.run events = some prs ∧ prs.WellFormed ∧
      ∀ r, ∃ picked, prs.pickPartForCatchup r = some picked := by
  obtain ⟨prs, hrun, hwf⟩ := PeerRoundState.newPeerRoundState_wellFormed.run hsafe
  exact ⟨prs, hrun, hwf, hwf.pickPartForCatchup⟩

/-- A peer announces height 1, then a valid block there whose part array
`{Bits: 1, Elems: [0]}` is well formed, then that it has part 0. -/
def announcedBlockEvents : List PeerEvent :=
  [.newRoundStep ⟨1, 0, 1, 0, -1⟩, .newValidBlock ⟨1, 0, ⟨1, List.replicate 32 0⟩, some ⟨1, [0]⟩, true⟩,
    .blockPart 1 0 0]

theorem run_wellFormed_announcedBlock :
    (∀ e ∈ announcedBlockEvents, e.Safe) ∧
      ∃ prs, newPeerRoundState.run announcedBlockEvents = some prs ∧ prs.WellFormed ∧
        ∀ r, ∃ picked, prs.pickPartForCatchup r = some picked := by
  have hsafe : ∀ e ∈ announcedBlockEvents, e.Safe := by
    simp only [announcedBlockEvents, List.mem_cons, List.not_mem_nil, or_false, forall_eq_or_imp,
      forall_eq, PeerEvent.Safe]
    exact ⟨trivial, by decide, le_refl 0⟩
  exact ⟨hsafe, run_wellFormed hsafe⟩

/-! ## A `NewValidBlock` with one bit and no word -/

theorem pickRandom_one_part (r : Nat) : BitArrayPtr.pickRandom (some ⟨1, [1]⟩) r = some (0, true) := by
  rw [pickRandom_some, show BitArray.getTrueIndices ⟨1, [1]⟩ = some [0] from rfl]
  simp [GoSlice.index]

/-- A peer announces height 1, then a valid block there, with the part-set
header of our proposal, whose part bit array has `Bits = 1` and no `Elems`.  `MsgFromProto` accepts both messages, and the
reactor keeps the array.  From then on, the catch-up pick of
`gossipDataRoutine` panics at `Elems[numElems-1]`, and so does its first
branch, at `Elems[0]` in `SetIndex`, once it has sent the one part of a
block we have. -/
theorem newValidBlock_malformed_parts_crash_gossip :
    ∃ stepMsg msg,
      msgFromProto (some (.newRoundStep ⟨1, 0, 1, 0, -1⟩)) = .ok (.newRoundStep stepMsg) ∧
      msgFromProto (some (.newValidBlock ⟨1, 0, ⟨1, List.replicate 32 0⟩, some ⟨1, []⟩, true⟩)) =
        .ok (.newValidBlock msg) ∧
      (∃ b, msg.blockParts = some b ∧ ¬b.WF) ∧
      ∃ prs, newPeerRoundState.run [.newRoundStep stepMsg, .newValidBlock msg] = some prs ∧
        (∀ r, prs.pickPartForCatchup r = none) ∧
        ∃ ours, (newBitArray 1).setIndex 0 true = some (ours, true) ∧
          ∀ r, prs.sendProposalBlockPart (some (msg.blockPartSetHeader, ours)) r true = none := by
  let stepMsg : NewRoundStepMessage := ⟨1, 0, 1, 0, -1⟩
  let msg : NewValidBlockMessage := ⟨1, 0, ⟨1, List.replicate 32 0⟩, some ⟨1, []⟩, true⟩
  -- the state after both messages: height 1, round 0, and the peer's array
  let prs : PeerRoundState :=
    { newPeerRoundState with
      height := 1, round := 0, step := 1, proposalBlockPartSetHeader := ⟨1, List.replicate 32 0⟩,
      proposalBlockParts := some ⟨1, []⟩ }
  refine ⟨stepMsg, msg, rfl, rfl, ⟨⟨1, []⟩, rfl, by decide⟩, prs, rfl, fun r => ?_,
    some ⟨1, [1]⟩, rfl, fun r => ?_⟩
  · -- `Not` keeps the empty `Elems`, and `getTrueIndices` reads its last word
    show (BitArrayPtr.not (some ⟨1, []⟩)).bind (·.pickRandom r) = none
    rw [show BitArrayPtr.not (some ⟨1, []⟩) = some (some ⟨1, []⟩) from rfl, Option.bind_some,
      pickRandom_some, show BitArray.getTrueIndices ⟨1, []⟩ = none from rfl, Option.bind_none]
  · -- our part 0 is missing from the peer's array, and marking it sent writes `Elems[0]`
    show ((BitArrayPtr.copy (some ⟨1, [1]⟩)).sub (BitArrayPtr.copy (some ⟨1, []⟩))).bind
      (fun missing => (missing.pickRandom r).bind fun picked =>
        if picked.2 = true ∧ true = true then prs.setHasProposalBlockPart 1 0 picked.1
        else pure prs) = none
    rw [show (BitArrayPtr.copy (some ⟨1, [1]⟩)).sub (BitArrayPtr.copy (some ⟨1, []⟩)) =
        some (some ⟨1, [1]⟩) from rfl, Option.bind_some, pickRandom_one_part, Option.bind_some]
    rfl

end Ostracon.Consensus
