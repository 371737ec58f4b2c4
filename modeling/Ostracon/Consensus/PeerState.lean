import Ostracon.Consensus.Msgs
import Ostracon.Consensus.State
/-!
# What the reactor keeps of a peer

`PeerState` of `consensus/reactor.go`: the peer's `PeerRoundState`, the
methods that update it on what the peer sends and on what we send it, and the
picks the gossip routines make from it.

* The mutex, the logger, the statistics and `StartTime` are left out.  Each
  method is a function of the round state; one that can panic returns an
  `Option`, `none` being the panic.
* Bit arrays are values.  In Go two fields may point to one array
  (`CatchupCommit = Precommits` in `ensureCatchupCommitRound`), and a
  `SetIndex` through one is then seen through the other.  Every write through
  a pointer (`SetIndex`, `Update`) keeps the size and the number of words of
  the array, so whether an operation panics comes out the same either way.
* Of a vote set the reactor reads its height, round, type, size, whether it
  is a commit, and its bit array (`VoteSetView`).
-/

namespace Ostracon.Consensus

open Ostracon.Types Ostracon.Bits

/-- `cstypes.PeerRoundState`, without `StartTime`; the step is its `uint8`
value. -/
structure PeerRoundState where
  height : Int
  round : Int
  step : Nat
  proposal : Bool
  proposalBlockPartSetHeader : PartSetHeader
  proposalBlockParts : BitArrayPtr
  proposalPOLRound : Int
  proposalPOL : BitArrayPtr
  prevotes : BitArrayPtr
  precommits : BitArrayPtr
  lastCommitRound : Int
  lastCommit : BitArrayPtr
  catchupCommitRound : Int
  catchupCommit : BitArrayPtr
  deriving DecidableEq, Repr

/-- The round state of `NewPeerState`. -/
def newPeerRoundState : PeerRoundState where
  height := 0
  round := -1
  step := 0
  proposal := false
  proposalBlockPartSetHeader := ⟨0, []⟩
  proposalBlockParts := none
  proposalPOLRound := -1
  proposalPOL := none
  prevotes := none
  precommits := none
  lastCommitRound := -1
  lastCommit := none
  catchupCommitRound := -1
  catchupCommit := none

/-- `CompareHRS`. -/
def compareHRS (h1 r1 : Int) (s1 : Nat) (h2 r2 : Int) (s2 : Nat) : Int :=
  if h1 < h2 then -1 else if h1 > h2 then 1
  else if r1 < r2 then -1 else if r1 > r2 then 1
  else if s1 < s2 then -1 else if s1 > s2 then 1
  else 0

/-- The fields of a round state that hold vote bit arrays. -/
inductive VoteField
  | prevotes
  | precommits
  | catchupCommit
  | proposalPOL
  | lastCommit
  deriving DecidableEq, Repr

/-- What `PickVoteToSend` reads of a `VoteSetReader`. -/
structure VoteSetView where
  height : Int
  round : Int
  type : SignedMsgType
  size : Int
  isCommit : Bool
  bitArray : BitArrayPtr
  deriving DecidableEq, Repr

/-- `if a == nil { a = NewBitArray(numVoters) }`. -/
def ensureBitArray (a : BitArrayPtr) (numVoters : Int) : BitArrayPtr :=
  if a.isNone then newBitArray numVoters else a

namespace PeerRoundState

/-- The vote bit array in a field. -/
def votes (prs : PeerRoundState) : VoteField → BitArrayPtr
  | .prevotes => prs.prevotes
  | .precommits => prs.precommits
  | .catchupCommit => prs.catchupCommit
  | .proposalPOL => prs.proposalPOL
  | .lastCommit => prs.lastCommit

/-- A vote bit array written to a field. -/
def setVotes (prs : PeerRoundState) : VoteField → BitArrayPtr → PeerRoundState
  | .prevotes, a => { prs with prevotes := a }
  | .precommits, a => { prs with precommits := a }
  | .catchupCommit, a => { prs with catchupCommit := a }
  | .proposalPOL, a => { prs with proposalPOL := a }
  | .lastCommit, a => { prs with lastCommit := a }

/-- `getVoteBitArray`, as the field whose array it returns, or `none` where
it returns `nil` without reading one.  For a valid type, the `switch` picks the
first case on a prevote and the second on a precommit. -/
def voteField (prs : PeerRoundState) (height round : Int) (type : SignedMsgType) :
    Option VoteField :=
  if !type.isVoteTypeValid then none
  else if prs.height = height then
    if prs.round = round then
      if type = .prevote then some .prevotes else some .precommits
    else if prs.catchupCommitRound = round then
      if type = .prevote then none else some .catchupCommit
    else if prs.proposalPOLRound = round then
      if type = .prevote then some .proposalPOL else none
    else none
  else if prs.height = height + 1 then
    if prs.lastCommitRound = round then
      if type = .prevote then none else some .lastCommit
    else none
  else none

/-- `getVoteBitArray`. -/
def getVoteBitArray (prs : PeerRoundState) (height round : Int) (type : SignedMsgType) :
    BitArrayPtr :=
  match prs.voteField height round type with
  | none => none
  | some f => prs.votes f

/-! ## Updates -/

/-- `ApplyNewRoundStepMessage`.  A new height or round forgets the proposal
and the votes; a new height also moves the last commit, from `Precommits`
after they have been forgotten. -/
def applyNewRoundStepMessage (prs : PeerRoundState) (msg : NewRoundStepMessage) : PeerRoundState :=
  if compareHRS msg.height msg.round msg.step prs.height prs.round prs.step ≤ 0 then prs
  else
    let psHeight := prs.height
    let psRound := prs.round
    let psCatchupCommitRound := prs.catchupCommitRound
    let psCatchupCommit := prs.catchupCommit
    let prs := { prs with height := msg.height, round := msg.round, step := msg.step }
    let prs :=
      if psHeight ≠ msg.height ∨ psRound ≠ msg.round then
        { prs with
          proposal := false, proposalBlockPartSetHeader := ⟨0, []⟩,
          proposalBlockParts := none, proposalPOLRound := -1, proposalPOL := none,
          prevotes := none, precommits := none }
      else prs
    let prs :=
      if psHeight = msg.height ∧ psRound ≠ msg.round ∧ msg.round = psCatchupCommitRound then
        { prs with precommits := psCatchupCommit }
      else prs
    if psHeight ≠ msg.height then
      let prs :=
        if psHeight + 1 = msg.height ∧ psRound = msg.lastCommitRound then
          { prs with lastCommitRound := msg.lastCommitRound, lastCommit := prs.precommits }
        else { prs with lastCommitRound := msg.lastCommitRound, lastCommit := none }
      { prs with catchupCommitRound := -1, catchupCommit := none }
    else prs

/-- `ApplyNewValidBlockMessage`: the peer's bit array is kept as it came. -/
def applyNewValidBlockMessage (prs : PeerRoundState) (msg : NewValidBlockMessage) : PeerRoundState :=
  if prs.height ≠ msg.height then prs
  else if prs.round ≠ msg.round ∧ !msg.isCommit then prs
  else { prs with
    proposalBlockPartSetHeader := msg.blockPartSetHeader, proposalBlockParts := msg.blockParts }

/-- `ApplyProposalPOLMessage`: the peer's bit array is kept as it came. -/
def applyProposalPOLMessage (prs : PeerRoundState) (msg : ProposalPOLMessage) : PeerRoundState :=
  if prs.height ≠ msg.height then prs
  else if prs.proposalPOLRound ≠ msg.proposalPOLRound then prs
  else { prs with proposalPOL := msg.proposalPOL }

/-- `setHasVote`: the bit of `index` set in the array `getVoteBitArray`
returns, if any. -/
def setHasVote (prs : PeerRoundState) (height round : Int) (type : SignedMsgType) (index : Int) :
    Option PeerRoundState :=
  match prs.voteField height round type with
  | none => some prs
  | some f => do
    let r ← (prs.votes f).setIndex index true
    pure (prs.setVotes f r.1)

/-- `ApplyHasVoteMessage`. -/
def applyHasVoteMessage (prs : PeerRoundState) (msg : HasVoteMessage) : Option PeerRoundState :=
  if prs.height ≠ msg.height then some prs
  else prs.setHasVote msg.height msg.round msg.type msg.index

/-- `ApplyVoteSetBitsMessage`: the peer's bits are merged into the array we
keep, which keeps its own size. -/
def applyVoteSetBitsMessage (prs : PeerRoundState) (msg : VoteSetBitsMessage) (ourVotes : BitArrayPtr) :
    Option PeerRoundState :=
  match prs.voteField msg.height msg.round msg.type with
  | none => some prs
  | some f =>
    match prs.votes f, ourVotes with
    | none, _ => some prs
    | some votes, none => some (prs.setVotes f (BitArrayPtr.update (some votes) msg.votes))
    | some votes, some ours => do
      let otherVotes ← BitArrayPtr.sub (some votes) (some ours)
      let hasVotes ← otherVotes.or msg.votes
      pure (prs.setVotes f (BitArrayPtr.update (some votes) hasVotes))

/-- `SetHasProposal`. -/
def setHasProposal (prs : PeerRoundState) (proposal : Proposal) : PeerRoundState :=
  if prs.height ≠ proposal.height ∨ prs.round ≠ proposal.round then prs
  else if prs.proposal then prs
  -- `ProposalBlockParts` may have been set by a `NewValidBlockMessage`
  else if prs.proposalBlockParts.isSome then { prs with proposal := true }
  else { prs with
    proposal := true,
    proposalBlockPartSetHeader := proposal.blockID.partSetHeader,
    proposalBlockParts := newBitArray proposal.blockID.partSetHeader.total.toNat,
    proposalPOLRound := proposal.polRound, proposalPOL := none }

/-- `InitProposalBlockParts`. -/
def initProposalBlockParts (prs : PeerRoundState) (partSetHeader : PartSetHeader) : PeerRoundState :=
  if prs.proposalBlockParts.isSome then prs
  else { prs with
    proposalBlockPartSetHeader := partSetHeader,
    proposalBlockParts := newBitArray partSetHeader.total.toNat }

/-- `SetHasProposalBlockPart`. -/
def setHasProposalBlockPart (prs : PeerRoundState) (height round index : Int) :
    Option PeerRoundState :=
  if prs.height ≠ height ∨ prs.round ≠ round then some prs
  else do
    let r ← prs.proposalBlockParts.setIndex index true
    pure { prs with proposalBlockParts := r.1 }

/-- `ensureVoteBitArrays`. -/
def ensureVoteBitArrays (prs : PeerRoundState) (height numVoters : Int) : PeerRoundState :=
  if prs.height = height then
    { prs with
      prevotes := ensureBitArray prs.prevotes numVoters,
      precommits := ensureBitArray prs.precommits numVoters,
      catchupCommit := ensureBitArray prs.catchupCommit numVoters,
      proposalPOL := ensureBitArray prs.proposalPOL numVoters }
  else if prs.height = height + 1 then
    { prs with lastCommit := ensureBitArray prs.lastCommit numVoters }
  else prs

/-- `ensureCatchupCommitRound`. -/
def ensureCatchupCommitRound (prs : PeerRoundState) (height round numVoters : Int) :
    PeerRoundState :=
  if prs.height ≠ height then prs
  else if prs.catchupCommitRound = round then prs
  else if round = prs.round then
    { prs with catchupCommitRound := round, catchupCommit := prs.precommits }
  else { prs with catchupCommitRound := round, catchupCommit := newBitArray numVoters }

/-! ## Gossip -/

/-- `PickVoteToSend` with the draw `r`: the round state after the lazy
allocations, and the index of the vote picked. -/
def pickVoteToSend (prs : PeerRoundState) (votes : VoteSetView) (r : Nat) :
    Option (PeerRoundState × Option Int) :=
  if votes.size = 0 then some (prs, none)
  else
    let prs := if votes.isCommit then
      prs.ensureCatchupCommitRound votes.height votes.round votes.size else prs
    let prs := prs.ensureVoteBitArrays votes.height votes.size
    match prs.getVoteBitArray votes.height votes.round votes.type with
    | none => some (prs, none)
    | some psVotes => do
      let missing ← votes.bitArray.sub (some psVotes)
      let picked ← missing.pickRandom r
      pure (prs, if picked.2 then some picked.1 else none)

/-- `PickSendVote`: the pick, and `SetHasVote` once the vote is sent. -/
def pickSendVote (prs : PeerRoundState) (votes : VoteSetView) (r : Nat) (sent : Bool) :
    Option PeerRoundState := do
  let (prs, index) ← prs.pickVoteToSend votes r
  match index with
  | some index =>
    if sent then prs.setHasVote votes.height votes.round votes.type index else pure prs
  | none => pure prs

/-- The first branch of `gossipDataRoutine`: where our proposal's part set,
with its header and its bit array, has the header the peer has, pick a part
the peer lacks, by `Sub` and `PickRandom`, and mark it once sent. -/
def sendProposalBlockPart (prs : PeerRoundState) (ours : Option (PartSetHeader × BitArrayPtr))
    (r : Nat) (sent : Bool) : Option PeerRoundState :=
  match ours with
  | none => some prs
  | some (header, parts) =>
    if header ≠ prs.proposalBlockPartSetHeader then some prs
    else do
      let missing ← parts.copy.sub prs.proposalBlockParts.copy
      let picked ← missing.pickRandom r
      if picked.2 ∧ sent then prs.setHasProposalBlockPart prs.height prs.round picked.1
      else pure prs

/-- The pick of `gossipDataForCatchup`: a part the peer lacks, by
`prs.ProposalBlockParts.Not().PickRandom()`. -/
def pickPartForCatchup (prs : PeerRoundState) (r : Nat) : Option (Int × Bool) := do
  let missing ← prs.proposalBlockParts.not
  missing.pickRandom r

end PeerRoundState

/-! ## Runs -/

/-- What happens to a peer's state: a message from the peer (with the vote
bits we have for a `VoteSetBits`), a proposal, block part or vote from it or
sent to it, the lazy allocations, and the sends of the gossip routines. -/
inductive PeerEvent
  | newRoundStep (msg : NewRoundStepMessage)
  | newValidBlock (msg : NewValidBlockMessage)
  | proposalPOL (msg : ProposalPOLMessage)
  | hasVote (msg : HasVoteMessage)
  | voteSetBits (msg : VoteSetBitsMessage) (ourVotes : BitArrayPtr)
  | proposal (proposal : Proposal)
  | blockPart (height round index : Int)
  | vote (height round : Int) (type : SignedMsgType) (index : Int)
  | ensureVoteBitArrays (height numVoters : Int)
  | initProposalBlockParts (partSetHeader : PartSetHeader)
  | sendProposalBlockPart (ours : Option (PartSetHeader × BitArrayPtr)) (r : Nat) (sent : Bool)
  | pickSendVote (votes : VoteSetView) (r : Nat) (sent : Bool)

/-- One event. -/
def PeerRoundState.apply (prs : PeerRoundState) : PeerEvent → Option PeerRoundState
  | .newRoundStep msg => some (prs.applyNewRoundStepMessage msg)
  | .newValidBlock msg => some (prs.applyNewValidBlockMessage msg)
  | .proposalPOL msg => some (prs.applyProposalPOLMessage msg)
  | .hasVote msg => prs.applyHasVoteMessage msg
  | .voteSetBits msg ourVotes => prs.applyVoteSetBitsMessage msg ourVotes
  | .proposal proposal => some (prs.setHasProposal proposal)
  | .blockPart height round index => prs.setHasProposalBlockPart height round index
  | .vote height round type index => prs.setHasVote height round type index
  | .ensureVoteBitArrays height numVoters => some (prs.ensureVoteBitArrays height numVoters)
  | .initProposalBlockParts partSetHeader => some (prs.initProposalBlockParts partSetHeader)
  | .sendProposalBlockPart ours r sent => prs.sendProposalBlockPart ours r sent
  | .pickSendVote votes r sent => prs.pickSendVote votes r sent

/-- A sequence of events; `none` if one of them panics. -/
def PeerRoundState.run (prs : PeerRoundState) (events : List PeerEvent) : Option PeerRoundState :=
  events.foldlM PeerRoundState.apply prs

end Ostracon.Consensus
