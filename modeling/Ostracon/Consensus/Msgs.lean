import Ostracon.Bits.BitArray
import Ostracon.Privval.FilePV
/-!
# Consensus messages from the wire

`consensus/msgs.go` (`MsgFromProto`) and the `ValidateBasic` methods of
`consensus/reactor.go`, for the messages that update a peer's state without
going through the consensus state machine: `NewRoundStep`, `NewValidBlock`,
`ProposalPOL`, `HasVote`, `VoteSetMaj23` and `VoteSetBits`.  The `Proposal`,
`BlockPart` and `Vote` messages, whose payloads have decoders of their own, are
left out.

* The protobuf types of part-set headers and block IDs have the fields of the
  native ones, so the model uses the native types for both.
* An error is its text; a `%v` or `%w` of a nested error is the nested text.
* A decoded bit array is `FromProto` applied to `new(bits.BitArray)`, so it
  is never `nil`, and its `Bits` and `Elems` are copied from the wire as they
  come.
-/

namespace Ostracon.Types

open Ostracon.Crypto.Merkle

/-- `ValidateHash`: empty, or `tmhash.Size` bytes. -/
def validateHashError (h : Bytes) : Except String Unit :=
  if validateHash h then .ok ()
  else .error ("expected size to be " ++ toString tmhashSize ++ " bytes, got " ++
    toString h.length ++ " bytes")

/-- `PartSetHeader.ValidateBasic`. -/
def PartSetHeader.validateBasic (psh : PartSetHeader) : Except String Unit :=
  (validateHashError psh.hash).mapError ("wrong Hash: " ++ ·)

/-- `BlockID.ValidateBasic`, with its error. -/
def BlockID.validateBasicError (blockID : BlockID) : Except String Unit :=
  if validateHash blockID.hash then
    blockID.partSetHeader.validateBasic.mapError ("wrong PartSetHeader: " ++ ·)
  else .error "wrong Hash"

/-- `PartSetHeaderFromProto`: the copy, rejected by its `ValidateBasic`. -/
def partSetHeaderFromProto (ppsh : PartSetHeader) : Except String PartSetHeader := do
  ppsh.validateBasic
  pure ppsh

/-- `BlockIDFromProto`. -/
def blockIDFromProto (bID : BlockID) : Except String BlockID := do
  let ph ← partSetHeaderFromProto bID.partSetHeader
  let blockID : BlockID := ⟨bID.hash, ph⟩
  blockID.validateBasicError
  pure blockID

/-- `IsVoteTypeValid`. -/
def SignedMsgType.isVoteTypeValid : SignedMsgType → Bool
  | .prevote => true
  | .precommit => true
  | _ => false

/-- `MaxVotesCount`. -/
def maxVotesCount : Int := 10000

/-- `MaxBlockPartsCount`: `MaxBlockSizeBytes / BlockPartSizeBytes + 1`. -/
def maxBlockPartsCount : Int := 104857600 / 65536 + 1

end Ostracon.Types

namespace Ostracon.Consensus

open Ostracon.Types Ostracon.Bits

/-- `SafeConvertUint8`. -/
def safeConvertUint8 (a : Int) : Except String Nat :=
  if a > 255 then .error "uint8 overflow"
  else if a < 0 then .error "uint8 overflow"
  else .ok a.toNat

/-- `RoundStepType.IsValid`, on the `uint8` value of a step. -/
def isValidStep (step : Nat) : Bool := 1 ≤ step && step ≤ 8

/-- The check every `ValidateBasic` makes of a height, a round or an index:
`"negative <field>"` below zero. -/
def nonNegative (field : String) (x : Int) : Except String Unit :=
  if x < 0 then .error ("negative " ++ field) else .ok ()

/-! ## Messages -/

/-- `NewRoundStepMessage`; the step is its `uint8` value. -/
structure NewRoundStepMessage where
  height : Int
  round : Int
  step : Nat
  secondsSinceStartTime : Int
  lastCommitRound : Int
  deriving DecidableEq, Repr

/-- `NewValidBlockMessage`. -/
structure NewValidBlockMessage where
  height : Int
  round : Int
  blockPartSetHeader : PartSetHeader
  blockParts : BitArrayPtr
  isCommit : Bool
  deriving DecidableEq, Repr

/-- `ProposalPOLMessage`. -/
structure ProposalPOLMessage where
  height : Int
  proposalPOLRound : Int
  proposalPOL : BitArrayPtr
  deriving DecidableEq, Repr

/-- `HasVoteMessage`. -/
structure HasVoteMessage where
  height : Int
  round : Int
  type : SignedMsgType
  index : Int
  deriving DecidableEq, Repr

/-- `VoteSetMaj23Message`. -/
structure VoteSetMaj23Message where
  height : Int
  round : Int
  type : SignedMsgType
  blockID : BlockID
  deriving DecidableEq, Repr

/-- `VoteSetBitsMessage`. -/
structure VoteSetBitsMessage where
  height : Int
  round : Int
  type : SignedMsgType
  blockID : BlockID
  votes : BitArrayPtr
  deriving DecidableEq, Repr

/-- The `Message` kinds of this module. -/
inductive Message
  | newRoundStep (m : NewRoundStepMessage)
  | newValidBlock (m : NewValidBlockMessage)
  | proposalPOL (m : ProposalPOLMessage)
  | hasVote (m : HasVoteMessage)
  | voteSetMaj23 (m : VoteSetMaj23Message)
  | voteSetBits (m : VoteSetBitsMessage)
  deriving DecidableEq, Repr

/-! ## `ValidateBasic` -/

/-- `NewRoundStepMessage.ValidateBasic`. -/
def NewRoundStepMessage.validateBasic (m : NewRoundStepMessage) : Except String Unit := do
  nonNegative "Height" m.height
  nonNegative "Round" m.round
  if !isValidStep m.step then throw "invalid Step"
  if m.lastCommitRound < -1 then throw "invalid LastCommitRound (cannot be < -1)"

/-- `NewValidBlockMessage.ValidateBasic`: the size of the bit array is bounded
and matched against the header, and nothing else of it is looked at. -/
def NewValidBlockMessage.validateBasic (m : NewValidBlockMessage) : Except String Unit := do
  nonNegative "Height" m.height
  nonNegative "Round" m.round
  m.blockPartSetHeader.validateBasic.mapError ("wrong BlockPartSetHeader: " ++ ·)
  if m.blockParts.size = 0 then throw "empty blockParts"
  if m.blockParts.size ≠ m.blockPartSetHeader.total.toNat then
    throw ("blockParts bit array size " ++ toString m.blockParts.size ++
      " not equal to BlockPartSetHeader.Total " ++ toString m.blockPartSetHeader.total)
  if m.blockParts.size > maxBlockPartsCount then
    throw ("blockParts bit array is too big: " ++ toString m.blockParts.size ++ ", max: " ++
      toString maxBlockPartsCount)

/-- `ProposalPOLMessage.ValidateBasic`. -/
def ProposalPOLMessage.validateBasic (m : ProposalPOLMessage) : Except String Unit := do
  nonNegative "Height" m.height
  nonNegative "ProposalPOLRound" m.proposalPOLRound
  if m.proposalPOL.size = 0 then throw "empty ProposalPOL bit array"
  if m.proposalPOL.size > maxVotesCount then
    throw ("proposalPOL bit array is too big: " ++ toString m.proposalPOL.size ++ ", max: " ++
      toString maxVotesCount)

/-- `HasVoteMessage.ValidateBasic`. -/
def HasVoteMessage.validateBasic (m : HasVoteMessage) : Except String Unit := do
  nonNegative "Height" m.height
  nonNegative "Round" m.round
  if !m.type.isVoteTypeValid then throw "invalid Type"
  nonNegative "Index" m.index

/-- `VoteSetMaj23Message.ValidateBasic`. -/
def VoteSetMaj23Message.validateBasic (m : VoteSetMaj23Message) : Except String Unit := do
  nonNegative "Height" m.height
  nonNegative "Round" m.round
  if !m.type.isVoteTypeValid then throw "invalid Type"
  m.blockID.validateBasicError.mapError ("wrong BlockID: " ++ ·)

/-- `VoteSetBitsMessage.ValidateBasic`.  Unlike the others it does not check
the round, and it allows an empty bit array: "Votes.Size() can be zero if the
node does not have any". -/
def VoteSetBitsMessage.validateBasic (m : VoteSetBitsMessage) : Except String Unit := do
  nonNegative "Height" m.height
  if !m.type.isVoteTypeValid then throw "invalid Type"
  m.blockID.validateBasicError.mapError ("wrong BlockID: " ++ ·)
  if m.votes.size > maxVotesCount then
    throw ("votes bit array is too big: " ++ toString m.votes.size ++ ", max: " ++
      toString maxVotesCount)

/-- `Message.ValidateBasic`. -/
def Message.validateBasic : Message → Except String Unit
  | .newRoundStep m => m.validateBasic
  | .newValidBlock m => m.validateBasic
  | .proposalPOL m => m.validateBasic
  | .hasVote m => m.validateBasic
  | .voteSetMaj23 m => m.validateBasic
  | .voteSetBits m => m.validateBasic

/-! ## Protobuf -/

/-- `tmcons.NewRoundStep`; the step is a `uint32`. -/
structure ProtoNewRoundStep where
  height : Int
  round : Int
  step : Nat
  secondsSinceStartTime : Int
  lastCommitRound : Int
  deriving DecidableEq, Repr

/-- `tmcons.NewValidBlock`: `BlockParts` may be `nil`. -/
structure ProtoNewValidBlock where
  height : Int
  round : Int
  blockPartSetHeader : PartSetHeader
  blockParts : Option ProtoBitArray
  isCommit : Bool
  deriving DecidableEq, Repr

/-- `tmcons.ProposalPOL`: the bit array is not nullable. -/
structure ProtoProposalPOL where
  height : Int
  proposalPolRound : Int
  proposalPol : ProtoBitArray
  deriving DecidableEq, Repr

/-- `tmcons.HasVote`. -/
structure ProtoHasVote where
  height : Int
  round : Int
  type : SignedMsgType
  index : Int
  deriving DecidableEq, Repr

/-- `tmcons.VoteSetMaj23`. -/
structure ProtoVoteSetMaj23 where
  height : Int
  round : Int
  type : SignedMsgType
  blockID : BlockID
  deriving DecidableEq, Repr

/-- `tmcons.VoteSetBits`: the bit array is not nullable. -/
structure ProtoVoteSetBits where
  height : Int
  round : Int
  type : SignedMsgType
  blockID : BlockID
  votes : ProtoBitArray
  deriving DecidableEq, Repr

/-- The `Sum` of `tmcons.Message`, for the kinds of this module. -/
inductive ProtoMessage
  | newRoundStep (m : ProtoNewRoundStep)
  | newValidBlock (m : ProtoNewValidBlock)
  | proposalPol (m : ProtoProposalPOL)
  | hasVote (m : ProtoHasVote)
  | voteSetMaj23 (m : ProtoVoteSetMaj23)
  | voteSetBits (m : ProtoVoteSetBits)
  deriving DecidableEq, Repr

/-- The native message of each kind, before `ValidateBasic`. -/
def ProtoMessage.toMessage : ProtoMessage → Except String Message
  | .newRoundStep m => do
    let rs ← (safeConvertUint8 m.step).mapError ("denying message due to possible overflow: " ++ ·)
    pure (.newRoundStep ⟨m.height, m.round, rs, m.secondsSinceStartTime, m.lastCommitRound⟩)
  | .newValidBlock m => do
    let pbPartSetHeader ← (partSetHeaderFromProto m.blockPartSetHeader).mapError
      ("parts to proto error: " ++ ·)
    pure (.newValidBlock ⟨m.height, m.round, pbPartSetHeader,
      some (BitArray.zero.fromProto m.blockParts), m.isCommit⟩)
  | .proposalPol m =>
    pure (.proposalPOL ⟨m.height, m.proposalPolRound, some (BitArray.zero.fromProto (some m.proposalPol))⟩)
  | .hasVote m => pure (.hasVote ⟨m.height, m.round, m.type, m.index⟩)
  | .voteSetMaj23 m => do
    let bi ← (blockIDFromProto m.blockID).mapError ("voteSetMaj23 msg to proto error: " ++ ·)
    pure (.voteSetMaj23 ⟨m.height, m.round, m.type, bi⟩)
  | .voteSetBits m => do
    let bi ← (blockIDFromProto m.blockID).mapError ("voteSetBits msg to proto error: " ++ ·)
    pure (.voteSetBits ⟨m.height, m.round, m.type, bi, some (BitArray.zero.fromProto (some m.votes))⟩)

/-- `MsgFromProto`: the native message, if its `ValidateBasic` passes. -/
def msgFromProto : Option ProtoMessage → Except String Message
  | none => .error "consensus: nil message"
  | some msg => do
    let pb ← msg.toMessage
    pb.validateBasic
    pure pb

end Ostracon.Consensus
