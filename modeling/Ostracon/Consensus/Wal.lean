import Ostracon.Consensus.Msgs
import Ostracon.Lib.ByteReader
/-!
# The write-ahead log's framing

`consensus/wal.go` and the conversions of `consensus/msgs.go` that the WAL
uses.  `WALEncoder.Encode` turns a `TimedWALMessage` into its protobuf
message (`WALToProto`, through `MsgToProto` for a `msgInfo`), marshals it, and
writes a frame: the CRC-32C of the data and its length, both big-endian
`uint32`s, then the data.  `WALDecoder.Decode` reads the three parts back with
three calls of `Read`, checks the length against `maxMsgSizeBytes` and the
checksum against the data, unmarshals, and converts back (`WALFromProto`,
through `MsgFromProto`, whose `ValidateBasic` may reject the message).

* The consensus messages are those of `Consensus.Msgs`; `Proposal`,
  `BlockPart` and `Vote` are left out, as there.
* Times and durations are nanoseconds, which protobuf's `Timestamp` and
  `Duration` keep.  The steps of a `timeoutInfo` and of a `NewRoundStep` are
  their `uint8` values.
* The protobuf serializer is a `ByteReader.Codec`, and `crc32.Checksum` with
  the Castagnoli table a function to `UInt32`.  A failing `proto.Marshal`
  panics in `Encode`.
* The stream is a `bytes.Reader` (`ByteReader.read`).
-/

namespace Ostracon.Consensus

open Ostracon.Types Ostracon.Bits

/-! ## `MsgToProto` -/

/-- `MsgToProto`; a `nil` message is `none`.  The result is `none` where the
code panics: `ToProto` of a proof-of-lock bit array without words is `nil`,
and `ProposalPol: *pbBits` dereferences it. -/
def msgToProto : Option Message → Option (Except String ProtoMessage)
  | none => some (.error "consensus: message is nil")
  | some (.newRoundStep m) =>
    some (.ok (.newRoundStep ⟨m.height, m.round, m.step, m.secondsSinceStartTime, m.lastCommitRound⟩))
  | some (.newValidBlock m) =>
    some (.ok (.newValidBlock ⟨m.height, m.round, m.blockPartSetHeader, m.blockParts.toProto, m.isCommit⟩))
  | some (.proposalPOL m) =>
    m.proposalPOL.toProto.map fun pbBits => .ok (.proposalPol ⟨m.height, m.proposalPOLRound, pbBits⟩)
  | some (.hasVote m) => some (.ok (.hasVote ⟨m.height, m.round, m.type, m.index⟩))
  | some (.voteSetMaj23 m) => some (.ok (.voteSetMaj23 ⟨m.height, m.round, m.type, m.blockID⟩))
  | some (.voteSetBits m) =>
    -- a `nil` result of `ToProto` leaves the zero `Votes` in place
    some (.ok (.voteSetBits ⟨m.height, m.round, m.type, m.blockID, m.votes.toProto.getD ⟨0, []⟩⟩))

namespace Wal

/-! ## WAL messages -/

/-- `types.EventDataRoundState`. -/
structure EventDataRoundState where
  height : Int
  round : Int
  step : String
  deriving DecidableEq, Repr

/-- `msgInfo`; a `nil` message is `none`. -/
structure MsgInfo where
  msg : Option Message
  peerID : String
  deriving DecidableEq, Repr

/-- `timeoutInfo`, with its duration; its step is any `uint8`, which is what
`WALFromProto` makes of one. -/
structure TimeoutInfo where
  duration : Int
  height : Int
  round : Int
  step : Nat
  deriving DecidableEq, Repr

/-- `EndHeightMessage`. -/
structure EndHeightMessage where
  height : Int
  deriving DecidableEq, Repr

/-- The `WALMessage`s `WALToProto` knows. -/
inductive WALMessage
  | eventDataRoundState (m : EventDataRoundState)
  | msgInfo (m : MsgInfo)
  | timeoutInfo (m : TimeoutInfo)
  | endHeight (m : EndHeightMessage)
  deriving DecidableEq, Repr

/-- `TimedWALMessage`. -/
structure TimedWALMessage where
  time : Int
  msg : WALMessage
  deriving DecidableEq, Repr

/-! ## Their protobuf messages -/

/-- `tmcons.MsgInfo`: the message is not nullable, and its `Sum` may be `nil`
(`none`). -/
structure ProtoMsgInfo where
  msg : Option ProtoMessage
  peerID : String
  deriving DecidableEq, Repr

/-- `tmcons.TimeoutInfo`; the step is a `uint32`. -/
structure ProtoTimeoutInfo where
  duration : Int
  height : Int
  round : Int
  step : Nat
  deriving DecidableEq, Repr

/-- The `Sum` of `tmcons.WALMessage`; `tmproto.EventDataRoundState` and
`tmcons.EndHeight` have the fields of the native messages. -/
inductive ProtoWALMessageSum
  | eventDataRoundState (m : EventDataRoundState)
  | msgInfo (m : ProtoMsgInfo)
  | timeoutInfo (m : ProtoTimeoutInfo)
  | endHeight (m : EndHeightMessage)
  deriving DecidableEq, Repr

/-- `tmcons.WALMessage`: its `Sum`, `none` when `nil`. -/
structure ProtoWALMessage where
  sum : Option ProtoWALMessageSum
  deriving DecidableEq, Repr

/-- `tmcons.TimedWALMessage`; a `nil` message is `none`. -/
structure ProtoTimedWALMessage where
  time : Int
  msg : Option ProtoWALMessage
  deriving DecidableEq, Repr

/-- `WALToProto`; `none` is a panic of `MsgToProto`. -/
def walToProto : WALMessage → Option (Except String ProtoWALMessage)
  | .eventDataRoundState m => some (.ok ⟨some (.eventDataRoundState m)⟩)
  | .msgInfo m =>
    (msgToProto m.msg).map fun r => r.map fun consMsg => ⟨some (.msgInfo ⟨some consMsg, m.peerID⟩)⟩
  | .timeoutInfo m => some (.ok ⟨some (.timeoutInfo ⟨m.duration, m.height, m.round, m.step⟩)⟩)
  | .endHeight m => some (.ok ⟨some (.endHeight m)⟩)

/-- `WALFromProto`.  A `nil` `Sum` is no kind of message: `%T` of it is
`<nil>`. -/
def walFromProto : Option ProtoWALMessage → Except String WALMessage
  | none => .error "nil WAL message"
  | some ⟨none⟩ => .error "from proto: wal message not recognized: <nil>"
  | some ⟨some (.eventDataRoundState m)⟩ => .ok (.eventDataRoundState m)
  | some ⟨some (.msgInfo m)⟩ =>
    match m.msg with
    | none => .error "msgInfo from proto error: consensus: message not recognized: <nil>"
    | some pm =>
      match msgFromProto (some pm) with
      | .error e => .error ("msgInfo from proto error: " ++ e)
      | .ok walMsg => .ok (.msgInfo ⟨some walMsg, m.peerID⟩)
  | some ⟨some (.timeoutInfo m)⟩ =>
    match safeConvertUint8 m.step with
    | .error e => .error ("denying message due to possible overflow: " ++ e)
    | .ok tis => .ok (.timeoutInfo ⟨m.duration, m.height, m.round, tis⟩)
  | some ⟨some (.endHeight m)⟩ => .ok (.endHeight m)

/-! ## Frames -/

/-- `maxMsgSize` of the consensus reactor. -/
def maxMsgSize : Nat := 1048576

/-- `maxMsgSizeBytes`: a time and a consensus message. -/
def maxMsgSizeBytes : Nat := maxMsgSize + 24

variable (codec : ByteReader.Codec ProtoTimedWALMessage) (crc32c : List UInt8 → UInt32)

/-- `WALEncoder.Encode`: the bytes it writes, or its error; `none` is a
panic.  `uint32(len(data))` keeps the length modulo `2^32`, and `copy` writes
that many bytes of the data. -/
def encode (v : TimedWALMessage) : Option (Except String (List UInt8)) :=
  match walToProto v.msg with
  | none => none
  | some (.error e) => some (.error e)
  | some (.ok pbMsg) =>
    match codec.marshal ⟨v.time, some pbMsg⟩ with
    | .error _ => none
    | .ok data =>
      let crc := crc32c data
      let length := data.length % 2 ^ 32
      if length > maxMsgSizeBytes then
        some (.error ("msg is too big: " ++ toString length ++ " bytes, max: " ++ toString maxMsgSizeBytes ++
          " bytes"))
      else some (.ok (ByteOrder.putBE 4 crc.toNat ++ ByteOrder.putBE 4 length ++ data.take length))

/-- What `Decode` returns besides a message: `io.EOF`, or a
`DataCorruptionError` with its cause. -/
inductive DecodeError
  | eof
  | dataCorruption (cause : String)
  deriving DecidableEq, Repr

/-- The end of `WALDecoder.Decode`, from the read of the data on, after it
read the checksum `crc` and the length `length`. -/
def decodeData (crc length : Nat) (rd : List UInt8) : Except DecodeError TimedWALMessage × List UInt8 :=
  match ByteReader.read length rd with
  | (none, rd) =>
    (.error (.dataCorruption ("failed to read data: EOF (read: 0, wanted: " ++ toString length ++ ")")), rd)
  | (some data, rd) =>
    let actualCRC := (crc32c data).toNat
    if actualCRC ≠ crc then
      (.error (.dataCorruption ("checksums do not match: read: " ++ toString crc ++ ", actual: " ++
        toString actualCRC)), rd)
    else
      match codec.unmarshal data with
      | .error e => (.error (.dataCorruption ("failed to decode data: " ++ e)), rd)
      | .ok res =>
        match walFromProto res.msg with
        | .error e => (.error (.dataCorruption ("failed to convert from proto: " ++ e)), rd)
        | .ok walMsg => (.ok ⟨res.time, walMsg⟩, rd)

/-- The middle of `WALDecoder.Decode`: the read of the length and its bound,
after it read the checksum `crc`. -/
def decodeLength (crc : Nat) (rd : List UInt8) : Except DecodeError TimedWALMessage × List UInt8 :=
  match ByteReader.read 4 rd with
  | (none, rd) => (.error (.dataCorruption "failed to read length: EOF"), rd)
  | (some b, rd) =>
    let length := ByteOrder.getBE b
    if length > maxMsgSizeBytes then
      (.error (.dataCorruption ("length " ++ toString length ++ " exceeded maximum possible value of " ++
        toString maxMsgSizeBytes ++ " bytes")), rd)
    else decodeData codec crc32c crc length rd

/-- `WALDecoder.Decode`: what it returns, and the bytes it leaves. -/
def decode (rd : List UInt8) : Except DecodeError TimedWALMessage × List UInt8 :=
  match ByteReader.read 4 rd with
  | (none, rd) => (.error .eof, rd)
  | (some b, rd) => decodeLength codec crc32c (ByteOrder.getBE b) rd

variable {codec crc32c}

theorem decodeData_snd (crc length : Nat) (rd : List UInt8) :
    (decodeData codec crc32c crc length rd).2 = (ByteReader.read length rd).2 := by
  unfold decodeData
  rcases ByteReader.read length rd with ⟨_ | data, rest⟩
  · rfl
  · dsimp only
    split_ifs
    · rfl
    · cases codec.unmarshal data with
      | error e => rfl
      | ok res =>
        dsimp only
        cases walFromProto res.msg <;> rfl

theorem length_decodeLength_le (crc : Nat) (rd : List UInt8) :
    (decodeLength codec crc32c crc rd).2.length ≤ rd.length := by
  have hread := ByteReader.length_read_le 4 rd
  unfold decodeLength
  rcases hr : ByteReader.read 4 rd with ⟨_ | b, rest⟩
  · rw [hr] at hread
    exact hread
  · rw [hr] at hread
    dsimp only
    split_ifs
    · exact hread
    · rw [decodeData_snd]
      exact Nat.le_trans (ByteReader.length_read_le _ rest) hread

@[simp] theorem decode_nil : decode codec crc32c [] = (.error .eof, []) := by
  rw [decode, ByteReader.read_nil]

theorem length_decode_lt {rd : List UInt8} (h : rd ≠ []) : (decode codec crc32c rd).2.length < rd.length := by
  have hlt := ByteReader.length_read_lt (by decide : 0 < 4) h
  rw [decode, ByteReader.read_of_ne_nil h]
  rw [ByteReader.read_of_ne_nil h] at hlt
  exact Nat.lt_of_le_of_lt (length_decodeLength_le _ _) hlt

theorem length_lt_of_decode_eq {rd rest : List UInt8} {r : Except DecodeError TimedWALMessage}
    (h : decode codec crc32c rd = (r, rest)) (hr : r ≠ .error .eof) : rest.length < rd.length := by
  have hrd : rd ≠ [] := by
    rintro rfl
    rw [decode_nil] at h
    exact hr (Prod.mk.inj h).1.symm
  have hlt : (decode codec crc32c rd).2.length < rd.length := length_decode_lt hrd
  rwa [h] at hlt

variable (codec crc32c)

/-- `Decode` called until it returns `io.EOF`: what each call returned. -/
def decodeAll (rd : List UInt8) : List (Except DecodeError TimedWALMessage) :=
  match _ : decode codec crc32c rd with
  | (.error .eof, _) => []
  | (.error (.dataCorruption cause), rest) => .error (.dataCorruption cause) :: decodeAll rest
  | (.ok m, rest) => .ok m :: decodeAll rest
termination_by rd.length
decreasing_by
  · exact length_lt_of_decode_eq ‹decode codec crc32c rd = _› (by simp)
  · exact length_lt_of_decode_eq ‹decode codec crc32c rd = _› (by simp)

/-- `Encode` of each message in turn, up to the first error or panic: the
bytes written. -/
def encodeAll : List TimedWALMessage → Option (Except String (List UInt8))
  | [] => some (.ok [])
  | v :: vs =>
    match encode codec crc32c v with
    | none => none
    | some (.error e) => some (.error e)
    | some (.ok bytes) => (encodeAll vs).map fun r => r.map (bytes ++ ·)

end Wal

end Ostracon.Consensus
