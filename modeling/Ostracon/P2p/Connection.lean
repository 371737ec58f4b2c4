import Mathlib
/-!
# The channels of an MConnection

The model of how `p2p/conn/connection.go` cuts the messages of a channel into
`PacketMsg`s and joins them again.  `Send` and `TrySend` put a message on the
channel's `sendQueue`, a Go channel of `SendQueueCapacity` places.
`sendPacketMsg` polls every channel with `isSendPending`, which takes the next
message into `sending` when `sending` is empty, and writes one `PacketMsg` of
at most `maxPacketMsgPayloadSize` bytes for the channel with the least ratio of
`recentlySent` to `Priority`.  On the other end `recvRoutine` hands each packet
to its channel's `recvPacketMsg`, which appends the data to `recving` and
returns the whole message at the packet marked `EOF`.

A `Link` is the two ends joined by the connection, which delivers the packets
in the order they are written.  Ratios are compared exactly, by cross
multiplication; Go compares `float32` quotients, which agree with it on the
values the results below use.  The bytes the delimited protobuf writer writes
for a packet are a parameter `size`.  A `Send` that waits for room in a full
queue is a later `send` here, and one that times out a refusal.  The write and
read errors of the connection, its throttling, pings and pongs, and
`updateStats` are not modelled.
-/

namespace Ostracon.P2p.Conn

/-- `PacketMsg`; its `ChannelID`, an `int32`, is a `Nat` here, as every packet
written carries a channel's byte. -/
structure PacketMsg where
  channelID : Nat
  eof : Bool
  data : List UInt8
  deriving DecidableEq, Repr

/-- `defaultSendQueueCapacity`. -/
def defaultSendQueueCapacity : Nat := 1

/-- `defaultRecvMessageCapacity`, 21MB. -/
def defaultRecvMessageCapacity : Nat := 22020096

/-- `ChannelDescriptor`, without `RecvBufferCapacity`, which only sizes the
`recving` buffer. -/
structure ChannelDescriptor where
  id : Nat
  priority : Int
  sendQueueCapacity : Nat
  recvMessageCapacity : Nat
  deriving DecidableEq, Repr

/-- `FillDefaults`. -/
def ChannelDescriptor.fillDefaults (d : ChannelDescriptor) : ChannelDescriptor :=
  { d with
    sendQueueCapacity :=
      if d.sendQueueCapacity = 0 then defaultSendQueueCapacity else d.sendQueueCapacity
    recvMessageCapacity :=
      if d.recvMessageCapacity = 0 then defaultRecvMessageCapacity else d.recvMessageCapacity }

/-- `Channel`, without its connection and logger. -/
structure Channel where
  desc : ChannelDescriptor
  sendQueue : List (List UInt8)
  sendQueueSize : Int
  recving : List UInt8
  sending : List UInt8
  recentlySent : Nat
  maxPacketMsgPayloadSize : Nat
  deriving DecidableEq, Repr

/-- `newChannel`; `none` is its panic on a priority that is not positive. -/
def newChannel (maxPacketMsgPayloadSize : Nat) (desc : ChannelDescriptor) : Option Channel :=
  let desc := desc.fillDefaults
  if desc.priority ≤ 0 then none
  else some ⟨desc, [], 0, [], [], 0, maxPacketMsgPayloadSize⟩

/-- The errors that stop `recvRoutine`. -/
inductive RecvError
  | exceedsCapacity (recvCap recvReceived : Nat)
  | unknownChannel (channelID : Nat)
  deriving DecidableEq, Repr

namespace Channel

/-- `trySendBytes`. -/
def trySendBytes (ch : Channel) (bytes : List UInt8) : Bool × Channel :=
  if ch.sendQueue.length < ch.desc.sendQueueCapacity then
    (true, { ch with sendQueue := ch.sendQueue ++ [bytes], sendQueueSize := ch.sendQueueSize + 1 })
  else (false, ch)

/-- `sendBytes`: its wait for room is a later call, and its timeout a
refusal. -/
def sendBytes (ch : Channel) (bytes : List UInt8) : Bool × Channel := ch.trySendBytes bytes

/-- `isSendPending`. -/
def isSendPending (ch : Channel) : Bool × Channel :=
  if ch.sending.length = 0 then
    match ch.sendQueue with
    | [] => (false, ch)
    | bytes :: rest => (true, { ch with sending := bytes, sendQueue := rest })
  else (true, ch)

/-- `nextPacketMsg`. -/
def nextPacketMsg (ch : Channel) : PacketMsg × Channel :=
  let maxSize := ch.maxPacketMsgPayloadSize
  let data := ch.sending.take (min maxSize ch.sending.length)
  if ch.sending.length ≤ maxSize then
    (⟨ch.desc.id, true, data⟩, { ch with sending := [], sendQueueSize := ch.sendQueueSize - 1 })
  else
    (⟨ch.desc.id, false, data⟩, { ch with sending := ch.sending.drop (min maxSize ch.sending.length) })

/-- `writePacketMsgTo`, where `size` is what the writer writes for a packet. -/
def writePacketMsgTo (size : PacketMsg → Nat) (ch : Channel) : PacketMsg × Channel :=
  match ch.nextPacketMsg with
  | (packet, ch) => (packet, { ch with recentlySent := ch.recentlySent + size packet })

/-- `recvPacketMsg`: the message at its last packet, and none before. -/
def recvPacketMsg (ch : Channel) (packet : PacketMsg) :
    Except RecvError (Option (List UInt8)) × Channel :=
  let recvCap := ch.desc.recvMessageCapacity
  let recvReceived := ch.recving.length + packet.data.length
  if recvCap < recvReceived then (.error (.exceedsCapacity recvCap recvReceived), ch)
  else
    let recving := ch.recving ++ packet.data
    if packet.eof then (.ok (some recving), { ch with recving := [] })
    else (.ok none, { ch with recving := recving })

end Channel

/-! ## The connection -/

/-- The loop of `NewMConnectionWithConfig` that fills `channelsIdx`, from the
channel at place `i` on: a later channel of an ID overwrites an earlier one. -/
def fillChannelsIdx (idx : Nat → Option Nat) (i : Nat) : List Channel → Nat → Option Nat
  | [] => idx
  | ch :: rest => fillChannelsIdx (Function.update idx ch.desc.id (some i)) (i + 1) rest

/-- `channelsIdx`: the place among `channels` of the channel with an ID. -/
def channelIdx (channels : List Channel) : Nat → Option Nat :=
  fillChannelsIdx (fun _ => none) 0 channels

/-- The channels of `NewMConnectionWithConfig`; `none` where `newChannel`
panics. -/
def newMConnection (maxPacketMsgPayloadSize : Nat) (chDescs : List ChannelDescriptor) :
    Option (List Channel) :=
  chDescs.mapM (newChannel maxPacketMsgPayloadSize)

/-- `Send` and `TrySend` of a running connection: `false` on an unknown
channel. -/
def send (channels : List Channel) (chID : Nat) (msgBytes : List UInt8) : Bool × List Channel :=
  match channelIdx channels chID with
  | none => (false, channels)
  | some i =>
    match channels[i]? with
    | none => (false, channels)
    | some ch =>
      match ch.sendBytes msgBytes with
      | (ok, ch) => (ok, channels.set i ch)

/-- The least ratio of `recentlySent` to `Priority` of the channels polled so
far, with the place of its channel; the first pending channel beats
`math.MaxFloat32`, and a tie keeps the earlier one. -/
def leastRatio (best : Option (Nat × Channel)) (i : Nat) (ch : Channel) : Option (Nat × Channel) :=
  match best with
  | none => some (i, ch)
  | some (j, b) =>
    if (ch.recentlySent : Int) * b.desc.priority < b.recentlySent * ch.desc.priority then some (i, ch)
    else some (j, b)

/-- The loop of `sendPacketMsg` from the channel at place `i` on: each is
polled with `isSendPending`, and a pending one competes for the least
ratio. -/
def pollChannels : Option (Nat × Channel) → Nat → List Channel → List Channel × Option (Nat × Channel)
  | best, _, [] => ([], best)
  | best, i, ch :: rest =>
    match ch.isSendPending with
    | (pending, ch) =>
      match pollChannels (if pending then leastRatio best i ch else best) (i + 1) rest with
      | (rest, best) => (ch :: rest, best)

/-- `sendPacketMsg`, with the packet it writes; `none` when nothing was
pending, where it returns `true`. -/
def sendPacketMsg (size : PacketMsg → Nat) (channels : List Channel) :
    Option PacketMsg × List Channel :=
  match pollChannels none 0 channels with
  | (channels, none) => (none, channels)
  | (channels, some (i, ch)) =>
    match ch.writePacketMsgTo size with
    | (packet, ch) => (some packet, channels.set i ch)

/-- One `PacketMsg` of `recvRoutine`: the channel and message it passes to
`onReceive`, if any. -/
def recvPacket (channels : List Channel) (packet : PacketMsg) :
    Except RecvError (Option (Nat × List UInt8)) × List Channel :=
  if packet.channelID > 255 then (.error (.unknownChannel packet.channelID), channels)
  else
    match channelIdx channels packet.channelID with
    | none => (.error (.unknownChannel packet.channelID), channels)
    | some i =>
      match channels[i]? with
      | none => (.error (.unknownChannel packet.channelID), channels)
      | some ch =>
        match ch.recvPacketMsg packet with
        | (.error e, _) => (.error e, channels)
        | (.ok msg, ch) => (.ok (msg.map fun bytes => (packet.channelID, bytes)), channels.set i ch)

/-! ## Two ends of a connection -/

/-- The sending end's channels, the packets written and not yet read, the
receiving end's channels, what its `recvRoutine` passed to `onReceive`, what
`Send` and `TrySend` accepted, and the error that stopped `recvRoutine`. -/
structure Link where
  sender : List Channel
  wire : List PacketMsg
  receiver : List Channel
  delivered : List (Nat × List UInt8)
  accepted : List (Nat × List UInt8)
  stopped : Option RecvError

/-- The steps of a link: a `Send` on the sending end, one `sendPacketMsg` of
its `sendRoutine`, and one packet read by the receiving end. -/
inductive LinkStep
  | send (chID : Nat) (msgBytes : List UInt8)
  | sendPacketMsg
  | recv
  deriving DecidableEq, Repr

namespace Link

/-- Two ends of one set of channels, before anything is sent. -/
def init (channels : List Channel) : Link := ⟨channels, [], channels, [], [], none⟩

variable (size : PacketMsg → Nat)

/-- One step of a link. -/
def step (l : Link) : LinkStep → Link
  | .send chID msgBytes =>
    match send l.sender chID msgBytes with
    | (ok, sender) =>
      { l with
        sender := sender
        accepted := if ok then l.accepted ++ [(chID, msgBytes)] else l.accepted }
  | .sendPacketMsg =>
    match sendPacketMsg size l.sender with
    | (none, sender) => { l with sender := sender }
    | (some packet, sender) => { l with sender := sender, wire := l.wire ++ [packet] }
  | .recv =>
    match l.stopped, l.wire with
    | none, packet :: rest =>
      match recvPacket l.receiver packet with
      | (.error e, receiver) => { l with wire := rest, receiver := receiver, stopped := some e }
      | (.ok out, receiver) =>
        { l with wire := rest, receiver := receiver, delivered := l.delivered ++ out.toList }
    | _, _ => l

/-- A run of steps. -/
def run (l : Link) : List LinkStep → Link
  | [] => l
  | s :: ss => (l.step size s).run ss

end Link

end Ostracon.P2p.Conn
