import Ostracon.Types.Vote
/-!
# `consensus/state.go`: the consensus state machine of one node

The handlers of `consensus.State` as functions on the node's round state:
`enterNewRound`, `enterPropose`, `enterPrevote` (with `defaultDoPrevote`),
`enterPrevoteWait`, `enterPrecommit`, `enterPrecommitWait`, `enterCommit`,
`tryFinalizeCommit`, `finalizeCommit`, `handleTimeout`, `addVote`,
`defaultSetProposal`, `addProposalBlockPart` and `handleCompleteProposal`,
each calling the others as the Go code does, and `handleMsg` /
`handleTimeout` as the step of the machine on one input.

The parts of the node that are other components are kept abstract, with
the operations the handlers call: the vote sets of the height
(`HeightVoteSet` and `LastCommit`), the proposal's part set and blocks
(`PartSet`, `ValidateBlock`), and what the node's configuration and its
validator set decide.  A Go panic is `none`.

Every vote the node asks its `PrivValidator` to sign is recorded, in order,
in `signLog`, with the vote sets the node holds when it asks: a record for
the statements of the locking discipline at the time of each request, which
no handler reads; `signRequests` is the requests alone.  `signVote` signs for
`cs.Height` and `cs.Round`, the round the state is in when the handler runs,
which is before the deferred `updateRoundStep` of `enterPrevote` and
`enterPrecommit`.
-/

namespace Ostracon.Consensus

open Ostracon.Types Ostracon.Crypto.Merkle

/-- `cstypes.RoundStepType`. -/
inductive RoundStepType
  | newHeight
  | newRound
  | propose
  | prevote
  | prevoteWait
  | precommit
  | precommitWait
  | commit
  deriving DecidableEq, Repr

/-- The `uint8` value of a step; steps are compared by it. -/
def RoundStepType.toNat : RoundStepType → Nat
  | .newHeight => 1
  | .newRound => 2
  | .propose => 3
  | .prevote => 4
  | .prevoteWait => 5
  | .precommit => 6
  | .precommitWait => 7
  | .commit => 8

instance : LE RoundStepType := ⟨fun a b => a.toNat ≤ b.toNat⟩

instance : LT RoundStepType := ⟨fun a b => a.toNat < b.toNat⟩

instance (a b : RoundStepType) : Decidable (a ≤ b) := inferInstanceAs (Decidable (a.toNat ≤ b.toNat))

instance (a b : RoundStepType) : Decidable (a < b) := inferInstanceAs (Decidable (a.toNat < b.toNat))

/-- `types.Proposal`, without the timestamp and the signature: the signature
check is `ConsensusEnv.proposalSignatureOk`. -/
structure Proposal where
  height : Int
  round : Int
  polRound : Int
  blockID : BlockID
  deriving DecidableEq, Repr

/-- `timeoutInfo`, without its duration. -/
structure TimeoutInfo where
  height : Int
  round : Int
  step : RoundStepType
  deriving DecidableEq, Repr

/-- A vote the node asked its `PrivValidator` to sign. -/
structure SignRequest where
  type : SignedMsgType
  height : Int
  round : Int
  blockID : BlockID
  deriving DecidableEq, Repr

/-- The components of a node the handlers call, over the types `V` of the
height's vote sets, `Blk` of blocks, `Parts` of part sets and `Part` of
block parts. -/
structure ConsensusEnv (V S Blk Parts Part : Type) where
  /-- `HeightVoteSet.AddVote`: whether the vote was added. -/
  addVote : V → Vote S → Bool × V
  /-- `LastCommit.AddVote`, the precommits of the previous height. -/
  addLastCommit : V → Vote S → Bool × V
  /-- `LastCommit.HasAll`. -/
  lastCommitHasAll : V → Bool
  /-- `HeightVoteSet.SetRound`. -/
  setRound : V → Int → V
  /-- `Prevotes(r).TwoThirdsMajority()` and `Precommits(r).TwoThirdsMajority()`. -/
  twoThirdsMajority : V → SignedMsgType → Int → Option BlockID
  /-- `HasTwoThirdsAny`. -/
  hasTwoThirdsAny : V → SignedMsgType → Int → Bool
  /-- `HasAll`. -/
  hasAll : V → SignedMsgType → Int → Bool
  /-- The round of `POLInfo`. -/
  polRound : V → Int
  /-- The vote sets `updateToState` starts the next height with, its
  `LastCommit` being the precommits of the commit round. -/
  nextHeight : V → Int → Int → V
  /-- `Block.Hash`. -/
  blockHash : Blk → Bytes
  /-- `blockExec.ValidateBlock` for a round. -/
  validateBlock : Int → Blk → Bool
  /-- `PartSet.Header`. -/
  partsHeader : Parts → PartSetHeader
  /-- `NewPartSetFromHeader`. -/
  partsFromHeader : PartSetHeader → Parts
  /-- `PartSet.AddPart`: whether the part was added, and the set after it. -/
  addPart : Parts → Part → Bool × Parts
  /-- `ByteSize() <= MaxBytes`. -/
  partsSizeOk : Parts → Bool
  /-- `PartSet.IsComplete`. -/
  partsComplete : Parts → Bool
  /-- The block the complete part set decodes to, `none` on an error. -/
  decodeBlock : Parts → Option Blk
  /-- The proposer's signature on a proposal verifies. -/
  proposalSignatureOk : Proposal → Bool
  /-- The node has a `PrivValidator` with a key, and is a voter at the height. -/
  isVoter : Int → Bool
  /-- `config.WaitForTxs() && !needProofBlock(height)`. -/
  waitForTxs : Int → Bool
  /-- `config.SkipTimeoutCommit`. -/
  skipTimeoutCommit : Bool

/-- The node's `RoundState`, with the requests to its `PrivValidator`. -/
structure ConsensusState (V Blk Parts : Type) where
  height : Int
  round : Int
  step : RoundStepType
  proposal : Option Proposal
  proposalBlock : Option Blk
  proposalBlockParts : Option Parts
  lockedRound : Int
  lockedBlock : Option Blk
  lockedBlockParts : Option Parts
  validRound : Int
  validBlock : Option Blk
  validBlockParts : Option Parts
  votes : V
  commitRound : Int
  triggeredTimeoutPrecommit : Bool
  signLog : List (SignRequest × V)

/-- The votes the node asked its `PrivValidator` to sign, in order. -/
def ConsensusState.signRequests {V Blk Parts : Type} (cs : ConsensusState V Blk Parts) : List SignRequest :=
  cs.signLog.map Prod.fst

/-- The inputs of the machine: the messages of `handleMsg` and the timeouts
of `handleTimeout`. -/
inductive ConsensusEvent (S Part : Type)
  | proposal (proposal : Proposal)
  | blockPart (height round : Int) (part : Part)
  | vote (vote : Vote S)
  | timeout (ti : TimeoutInfo)

namespace ConsensusState

variable {V S Blk Parts Part : Type} (e : ConsensusEnv V S Blk Parts Part)

/-- The state `NewState` starts a node in, by `updateToState`: the height
after the stored state's last block, at round 0, with no proposal, lock or
valid block, the height's vote sets, and nothing signed yet. -/
def init (height : Int) (votes : V) : ConsensusState V Blk Parts :=
  { height := height, round := 0, step := .newHeight, proposal := none, proposalBlock := none,
    proposalBlockParts := none, lockedRound := -1, lockedBlock := none, lockedBlockParts := none,
    validRound := -1, validBlock := none, validBlockParts := none, votes := votes,
    commitRound := -1, triggeredTimeoutPrecommit := false, signLog := [] }

/-- `Block.HashesTo`: false for an empty hash and for no block. -/
def hashesTo (block : Option Blk) (hash : Bytes) : Bool :=
  match block with
  | none => false
  | some b => !hash.isEmpty && e.blockHash b == hash

/-- `Block.Hash`, `nil` for no block. -/
def hashOf (block : Option Blk) : Bytes := (block.map e.blockHash).getD []

/-- `PartSet.Header`, the zero header for no part set. -/
def headerOf (parts : Option Parts) : PartSetHeader :=
  (parts.map e.partsHeader).getD ⟨0, []⟩

/-- `PartSet.HasHeader`, false for no part set. -/
def hasHeader (parts : Option Parts) (header : PartSetHeader) : Bool :=
  match parts with
  | none => false
  | some ps => e.partsHeader ps == header

/-- `signAddVote`: a voter asks for a vote of its height and round. -/
def signAddVote (cs : ConsensusState V Blk Parts) (type : SignedMsgType) (hash : Bytes)
    (header : PartSetHeader) : ConsensusState V Blk Parts :=
  if e.isVoter cs.height then
    { cs with signLog := cs.signLog ++ [(⟨type, cs.height, cs.round, ⟨hash, header⟩⟩, cs.votes)] }
  else cs

/-- `isProposalComplete`: the proposal and its block, and the prevotes of its
POL round. -/
def isProposalComplete (cs : ConsensusState V Blk Parts) : Bool :=
  match cs.proposal, cs.proposalBlock with
  | some proposal, some _ =>
      if proposal.polRound < 0 then true
      else (e.twoThirdsMajority cs.votes .prevote proposal.polRound).isSome
  | _, _ => false

/-- `defaultDoPrevote`: the locked block, else a valid proposal block, else nil. -/
def doPrevote (cs : ConsensusState V Blk Parts) (round : Int) : ConsensusState V Blk Parts :=
  if cs.lockedBlock.isSome then
    signAddVote e cs .prevote (hashOf e cs.lockedBlock) (headerOf e cs.lockedBlockParts)
  else
    match cs.proposalBlock with
    | none => signAddVote e cs .prevote [] ⟨0, []⟩
    | some block =>
        if !e.validateBlock round block then signAddVote e cs .prevote [] ⟨0, []⟩
        else signAddVote e cs .prevote (e.blockHash block) (headerOf e cs.proposalBlockParts)

/-- `enterPrevote`. -/
def enterPrevote (cs : ConsensusState V Blk Parts) (height round : Int) :
    ConsensusState V Blk Parts :=
  if cs.height ≠ height ∨ round < cs.round ∨ (cs.round = round ∧ .prevote ≤ cs.step) then cs
  else { doPrevote e cs round with round := round, step := .prevote }

/-- `enterPropose`; the proposal a proposer signs reaches the state as a
message. -/
def enterPropose (cs : ConsensusState V Blk Parts) (height round : Int) :
    ConsensusState V Blk Parts :=
  if cs.height ≠ height ∨ round < cs.round ∨ (cs.round = round ∧ .propose ≤ cs.step) then cs
  else
    let cs := { cs with round := round, step := .propose }
    if isProposalComplete e cs then enterPrevote e cs height cs.round else cs

/-- `enterNewRound`. -/
def enterNewRound (cs : ConsensusState V Blk Parts) (height round : Int) :
    ConsensusState V Blk Parts :=
  if cs.height ≠ height ∨ round < cs.round ∨ (cs.round = round ∧ cs.step ≠ .newHeight) then cs
  else
    let cs := { cs with round := round, step := .newRound }
    let cs := if round = 0 then cs
      else { cs with proposal := none, proposalBlock := none, proposalBlockParts := none }
    let cs := { cs with votes := e.setRound cs.votes (round + 1), triggeredTimeoutPrecommit := false }
    if e.waitForTxs height ∧ round = 0 then cs else enterPropose e cs height round

/-- `enterPrevoteWait`; `none` where Go panics without +2/3 prevotes. -/
def enterPrevoteWait (cs : ConsensusState V Blk Parts) (height round : Int) :
    Option (ConsensusState V Blk Parts) :=
  if cs.height ≠ height ∨ round < cs.round ∨ (cs.round = round ∧ .prevoteWait ≤ cs.step) then
    some cs
  else if !e.hasTwoThirdsAny cs.votes .prevote round then none
  else some { cs with round := round, step := .prevoteWait }

/-- The precommit of `enterPrecommit` and the lock it leaves, from the
polka of the round; `none` where Go panics. -/
def precommitOnPolka (cs : ConsensusState V Blk Parts) (round : Int) :
    Option (ConsensusState V Blk Parts) :=
  match e.twoThirdsMajority cs.votes .prevote round with
  | none => some (signAddVote e cs .precommit [] ⟨0, []⟩)
  | some blockID =>
      if e.polRound cs.votes < round then none
      else if blockID.hash.isEmpty then
        -- +2/3 prevoted nil: unlock and precommit nil
        let cs := if cs.lockedBlock.isNone then cs
          else { cs with lockedRound := -1, lockedBlock := none, lockedBlockParts := none }
        some (signAddVote e cs .precommit [] ⟨0, []⟩)
      else if hashesTo e cs.lockedBlock blockID.hash then
        -- relock
        some (signAddVote e { cs with lockedRound := round } .precommit blockID.hash
          blockID.partSetHeader)
      else if hashesTo e cs.proposalBlock blockID.hash then
        -- lock the proposal block, which must be valid
        if !(cs.proposalBlock.all (e.validateBlock round)) then none
        else
          some (signAddVote e
            { cs with lockedRound := round, lockedBlock := cs.proposalBlock,
                      lockedBlockParts := cs.proposalBlockParts }
            .precommit blockID.hash blockID.partSetHeader)
      else
        -- a polka for a block we do not have: unlock, fetch it, precommit nil
        let cs := { cs with lockedRound := -1, lockedBlock := none, lockedBlockParts := none }
        let cs := if hasHeader e cs.proposalBlockParts blockID.partSetHeader then cs
          else { cs with proposalBlock := none,
                         proposalBlockParts := some (e.partsFromHeader blockID.partSetHeader) }
        some (signAddVote e cs .precommit [] ⟨0, []⟩)

/-- `enterPrecommit`. -/
def enterPrecommit (cs : ConsensusState V Blk Parts) (height round : Int) :
    Option (ConsensusState V Blk Parts) :=
  if cs.height ≠ height ∨ round < cs.round ∨ (cs.round = round ∧ .precommit ≤ cs.step) then
    some cs
  else (precommitOnPolka e cs round).map fun cs => { cs with round := round, step := .precommit }

/-- `enterPrecommitWait`; `none` where Go panics without +2/3 precommits. -/
def enterPrecommitWait (cs : ConsensusState V Blk Parts) (height round : Int) :
    Option (ConsensusState V Blk Parts) :=
  if cs.height ≠ height ∨ round < cs.round ∨ (cs.round = round ∧ cs.triggeredTimeoutPrecommit) then
    some cs
  else if !e.hasTwoThirdsAny cs.votes .precommit round then none
  else some { cs with triggeredTimeoutPrecommit := true }

/-- `updateToState` after the block of the height is applied: the next
height, from round 0. -/
def updateToState (cs : ConsensusState V Blk Parts) : ConsensusState V Blk Parts :=
  { cs with
    height := cs.height + 1, round := 0, step := .newHeight, proposal := none,
    proposalBlock := none, proposalBlockParts := none, lockedRound := -1, lockedBlock := none,
    lockedBlockParts := none, validRound := -1, validBlock := none, validBlockParts := none,
    votes := e.nextHeight cs.votes (cs.height + 1) cs.commitRound, commitRound := -1,
    triggeredTimeoutPrecommit := false }

/-- `finalizeCommit`; `none` where Go panics. -/
def finalizeCommit (cs : ConsensusState V Blk Parts) (height : Int) :
    Option (ConsensusState V Blk Parts) :=
  if cs.height ≠ height ∨ cs.step ≠ .commit then some cs
  else
    match e.twoThirdsMajority cs.votes .precommit cs.commitRound with
    | none => none
    | some blockID =>
        if !hasHeader e cs.proposalBlockParts blockID.partSetHeader then none
        else if !hashesTo e cs.proposalBlock blockID.hash then none
        else if !(cs.proposalBlock.all (e.validateBlock cs.commitRound)) then none
        else some (updateToState e cs)

/-- `tryFinalizeCommit`. -/
def tryFinalizeCommit (cs : ConsensusState V Blk Parts) (height : Int) :
    Option (ConsensusState V Blk Parts) :=
  if cs.height ≠ height then none
  else
    match e.twoThirdsMajority cs.votes .precommit cs.commitRound with
    | none => some cs
    | some blockID =>
        if blockID.hash.isEmpty then some cs
        else if !hashesTo e cs.proposalBlock blockID.hash then some cs
        else finalizeCommit e cs height

/-- `enterCommit`. -/
def enterCommit (cs : ConsensusState V Blk Parts) (height commitRound : Int) :
    Option (ConsensusState V Blk Parts) :=
  if cs.height ≠ height ∨ .commit ≤ cs.step then some cs
  else
    match e.twoThirdsMajority cs.votes .precommit commitRound with
    | none => none
    | some blockID =>
        let cs := if hashesTo e cs.lockedBlock blockID.hash then
            { cs with proposalBlock := cs.lockedBlock, proposalBlockParts := cs.lockedBlockParts }
          else cs
        let cs := if !hashesTo e cs.proposalBlock blockID.hash ∧
              !hasHeader e cs.proposalBlockParts blockID.partSetHeader then
            { cs with proposalBlock := none,
                      proposalBlockParts := some (e.partsFromHeader blockID.partSetHeader) }
          else cs
        tryFinalizeCommit e { cs with step := .commit, commitRound := commitRound } height

/-- `handleTimeout`; `none` where Go panics on an unknown step. -/
def handleTimeout (cs : ConsensusState V Blk Parts) (ti : TimeoutInfo) :
    Option (ConsensusState V Blk Parts) :=
  if ti.height ≠ cs.height ∨ ti.round < cs.round ∨ (ti.round = cs.round ∧ ti.step < cs.step) then
    some cs
  else
    match ti.step with
    | .newHeight => some (enterNewRound e cs ti.height 0)
    | .newRound => some (enterPropose e cs ti.height 0)
    | .propose => some (enterPrevote e cs ti.height ti.round)
    | .prevoteWait => enterPrecommit e cs ti.height ti.round
    | .precommitWait => do
        let cs ← enterPrecommit e cs ti.height ti.round
        pure (enterNewRound e cs ti.height (ti.round + 1))
    | _ => none

/-- What `addVote` does with a polka of the vote's round: unlock on a polka
of a later round than the lock, and update the valid block. -/
def updateOnPolka (cs : ConsensusState V Blk Parts) (voteRound : Int) (blockID : BlockID) :
    ConsensusState V Blk Parts :=
  let cs := if cs.lockedBlock.isSome ∧ cs.lockedRound < voteRound ∧ voteRound ≤ cs.round ∧
      !hashesTo e cs.lockedBlock blockID.hash then
      { cs with lockedRound := -1, lockedBlock := none, lockedBlockParts := none }
    else cs
  if !blockID.hash.isEmpty ∧ cs.validRound < voteRound ∧ voteRound = cs.round then
    let cs := if hashesTo e cs.proposalBlock blockID.hash then
        { cs with validRound := voteRound, validBlock := cs.proposalBlock,
                  validBlockParts := cs.proposalBlockParts }
      else { cs with proposalBlock := none }
    if !hasHeader e cs.proposalBlockParts blockID.partSetHeader then
      { cs with proposalBlockParts := some (e.partsFromHeader blockID.partSetHeader) }
    else cs
  else cs

/-- The prevote case of `addVote`, after the vote is added. -/
def addPrevote (cs : ConsensusState V Blk Parts) (height voteRound : Int) :
    Option (ConsensusState V Blk Parts) :=
  let cs := match e.twoThirdsMajority cs.votes .prevote voteRound with
    | none => cs
    | some blockID => updateOnPolka e cs voteRound blockID
  if cs.round < voteRound ∧ e.hasTwoThirdsAny cs.votes .prevote voteRound then
    some (enterNewRound e cs height voteRound)
  else if cs.round = voteRound ∧ .prevote ≤ cs.step then
    match e.twoThirdsMajority cs.votes .prevote voteRound with
    | some blockID =>
        if isProposalComplete e cs ∨ blockID.hash.isEmpty then enterPrecommit e cs height voteRound
        else if e.hasTwoThirdsAny cs.votes .prevote voteRound then
          enterPrevoteWait e cs height voteRound
        else some cs
    | none =>
        if e.hasTwoThirdsAny cs.votes .prevote voteRound then enterPrevoteWait e cs height voteRound
        else some cs
  else if (cs.proposal.map fun p => decide (0 ≤ p.polRound ∧ p.polRound = voteRound)) = some true then
    if isProposalComplete e cs then some (enterPrevote e cs height cs.round) else some cs
  else some cs

/-- The precommit case of `addVote`, after the vote is added.  `HasAll` reads
the precommits of the vote's round as they were before the transitions. -/
def addPrecommit (cs : ConsensusState V Blk Parts) (height voteRound : Int) :
    Option (ConsensusState V Blk Parts) :=
  let votes := cs.votes
  match e.twoThirdsMajority cs.votes .precommit voteRound with
  | some blockID => do
      let cs ← enterPrecommit e (enterNewRound e cs height voteRound) height voteRound
      if !blockID.hash.isEmpty then
        let cs ← enterCommit e cs height voteRound
        if e.skipTimeoutCommit ∧ e.hasAll votes .precommit voteRound then
          pure (enterNewRound e cs cs.height 0)
        else pure cs
      else enterPrecommitWait e cs height voteRound
  | none =>
      if cs.round ≤ voteRound ∧ e.hasTwoThirdsAny cs.votes .precommit voteRound then
        enterPrecommitWait e (enterNewRound e cs height voteRound) height voteRound
      else some cs

/-- `addVote`; `none` where Go panics on a vote of another type. -/
def addVote (cs : ConsensusState V Blk Parts) (vote : Vote S) :
    Option (ConsensusState V Blk Parts) :=
  if vote.height + 1 = cs.height ∧ vote.type = .precommit then
    -- a precommit of the previous height, while waiting for the commit timeout
    if cs.step ≠ .newHeight then some cs
    else
      match e.addLastCommit cs.votes vote with
      | (false, _) => some cs
      | (true, votes) =>
          let cs := { cs with votes := votes }
          if e.skipTimeoutCommit ∧ e.lastCommitHasAll votes then some (enterNewRound e cs cs.height 0)
          else some cs
  else if vote.height ≠ cs.height then some cs
  else
    match e.addVote cs.votes vote with
    | (false, _) => some cs
    | (true, votes) =>
        let cs := { cs with votes := votes }
        match vote.type with
        | .prevote => addPrevote e cs cs.height vote.round
        | .precommit => addPrecommit e cs cs.height vote.round
        | _ => none

/-- `defaultSetProposal`; a proposal it refuses leaves the state. -/
def setProposal (cs : ConsensusState V Blk Parts) (proposal : Proposal) :
    ConsensusState V Blk Parts :=
  if cs.proposal.isSome then cs
  else if proposal.height ≠ cs.height ∨ proposal.round ≠ cs.round then cs
  else if proposal.polRound < -1 ∨ (0 ≤ proposal.polRound ∧ proposal.round ≤ proposal.polRound) then cs
  else if !e.proposalSignatureOk proposal then cs
  else
    { cs with
      proposal := some proposal
      proposalBlockParts := if cs.proposalBlockParts.isNone then
          some (e.partsFromHeader proposal.blockID.partSetHeader)
        else cs.proposalBlockParts }

/-- `addProposalBlockPart`: whether the part was added, and the state. -/
def addProposalBlockPart (cs : ConsensusState V Blk Parts) (height : Int) (part : Part) :
    Bool × ConsensusState V Blk Parts :=
  if cs.height ≠ height then (false, cs)
  else
    match cs.proposalBlockParts with
    | none => (false, cs)
    | some parts =>
        let (added, parts) := e.addPart parts part
        let cs := { cs with proposalBlockParts := some parts }
        if !added then (added, cs)
        else if !e.partsSizeOk parts then (added, cs)
        else if e.partsComplete parts then
          match e.decodeBlock parts with
          | none => (added, cs)
          | some block => (added, { cs with proposalBlock := some block })
        else (added, cs)

/-- `handleCompleteProposal`. -/
def handleCompleteProposal (cs : ConsensusState V Blk Parts) (blockHeight : Int) :
    Option (ConsensusState V Blk Parts) :=
  let polka := e.twoThirdsMajority cs.votes .prevote cs.round
  let cs := match polka with
    | some blockID =>
        if !blockID.isZero ∧ cs.validRound < cs.round ∧ hashesTo e cs.proposalBlock blockID.hash then
          { cs with validRound := cs.round, validBlock := cs.proposalBlock,
                    validBlockParts := cs.proposalBlockParts }
        else cs
    | none => cs
  if cs.step ≤ .propose ∧ isProposalComplete e cs then
    let cs := enterPrevote e cs blockHeight cs.round
    if polka.isSome then enterPrecommit e cs blockHeight cs.round else some cs
  else if cs.step = .commit then tryFinalizeCommit e cs blockHeight
  else some cs

/-- One input of `receiveRoutine`: `handleMsg` for a message, `handleTimeout`
for a timeout. -/
def receive (cs : ConsensusState V Blk Parts) :
    ConsensusEvent S Part → Option (ConsensusState V Blk Parts)
  | .proposal proposal => some (setProposal e cs proposal)
  | .blockPart height _ part =>
      let (added, cs) := addProposalBlockPart e cs height part
      if added ∧ cs.proposalBlockParts.any e.partsComplete then handleCompleteProposal e cs height
      else some cs
  | .vote vote => addVote e cs vote
  | .timeout ti => handleTimeout e cs ti

/-- The state after a sequence of inputs. -/
def run (cs : ConsensusState V Blk Parts) : List (ConsensusEvent S Part) →
    Option (ConsensusState V Blk Parts)
  | [] => some cs
  | ev :: evs => (receive e cs ev).bind fun cs => run cs evs

end ConsensusState

end Ostracon.Consensus
