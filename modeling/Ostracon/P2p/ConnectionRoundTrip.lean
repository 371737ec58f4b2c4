import Ostracon.P2p.Connection
import Mathlib.Data.List.Nodup
/-!
# Messages cross a link whole and in order, unless one is empty

A message taken into `sending` leaves as its `fragments`: payloads of
`maxPacketMsgPayloadSize` bytes, then the rest marked `EOF`.  `recvAll` runs
`recvPacketMsg` over packets; over the fragments of a message that fits the
channel's capacity it returns the message (`recvAll_fragments`).

`LinkInv` says, for each channel, that the receiving end would turn the
channel's packets on the wire, then those its sending end will still write
(`Channel.stream`), into exactly the messages accepted and not yet delivered,
and that `sendQueueSize` counts the messages not yet written whole.  Every
step keeps it as long as each message sent is not empty and fits
(`LinkInv.run`), so what each channel delivers is a prefix of what it
accepted, and all of it once the link is idle (`run_delivered`).

An empty message breaks it: `isSendPending` takes it into `sending`, where its
length of zero reads as nothing pending.  When `sendPacketMsg` chooses
another channel, the empty message is never written
(`empty_message_is_lost`).
-/

namespace Ostracon.P2p.Conn

/-! ## The packets of one message -/

/-- The packets `nextPacketMsg` writes for a message taken into `sending`. -/
def fragments (id maxSize : Nat) (bytes : List UInt8) : List PacketMsg :=
  if bytes.length ≤ maxSize ∨ maxSize = 0 then [⟨id, true, bytes⟩]
  else ⟨id, false, bytes.take maxSize⟩ :: fragments id maxSize (bytes.drop maxSize)
termination_by bytes.length
decreasing_by simp only [List.length_drop]; omega

theorem fragments_of_le {id maxSize : Nat} {bytes : List UInt8} (h : bytes.length ≤ maxSize) :
    fragments id maxSize bytes = [⟨id, true, bytes⟩] := by
  rw [fragments, if_pos (.inl h)]

theorem fragments_of_lt {id maxSize : Nat} {bytes : List UInt8} (hpos : 0 < maxSize)
    (h : maxSize < bytes.length) :
    fragments id maxSize bytes = ⟨id, false, bytes.take maxSize⟩ :: fragments id maxSize (bytes.drop maxSize) := by
  rw [fragments, if_neg (by omega)]

/-! ## The receiving end of a channel -/

/-- `recvPacketMsg` over packets: the messages it returns and the channel it
leaves, or its first error. -/
def recvAll (ch : Channel) : List PacketMsg → Except RecvError (List (List UInt8) × Channel)
  | [] => .ok ([], ch)
  | p :: ps =>
    match ch.recvPacketMsg p with
    | (.error e, _) => .error e
    | (.ok msg, ch) => (recvAll ch ps).map fun r => (msg.toList ++ r.1, r.2)

theorem recvAll_append (ch : Channel) (xs ys : List PacketMsg) :
    recvAll ch (xs ++ ys) = (recvAll ch xs).bind fun r =>
      (recvAll r.2 ys).map fun r' => (r.1 ++ r'.1, r'.2) := by
  induction xs generalizing ch with
  | nil =>
    cases h : recvAll ch ys <;> simp [recvAll, Except.map, Except.bind, h]
  | cons p ps ih =>
    simp only [List.cons_append, recvAll]
    split
    · rfl
    · rw [ih]
      cases recvAll _ ps with
      | error e => rfl
      | ok r =>
        cases h : recvAll r.2 ys <;> simp [Except.map, Except.bind, h, List.append_assoc]

theorem recvAll_fragments {id maxSize : Nat} :
    ∀ (bytes : List UInt8) (ch : Channel),
      ch.recving.length + bytes.length ≤ ch.desc.recvMessageCapacity →
      recvAll ch (fragments id maxSize bytes) = .ok ([ch.recving ++ bytes], { ch with recving := [] }) := by
  intro bytes
  induction bytes using fragments.induct maxSize with
  | case1 bytes h =>
    intro ch hcap
    rw [fragments, if_pos h]
    simp only [recvAll, Channel.recvPacketMsg, if_neg (Nat.not_lt.mpr hcap), if_pos]
    rfl
  | case2 bytes h ih =>
    intro ch hcap
    have hlt : maxSize < bytes.length := by omega
    rw [fragments, if_neg h]
    -- the first fragment is held, and the rest of the message still fits
    have hfirst : ch.recving.length + (bytes.take maxSize).length ≤ ch.desc.recvMessageCapacity := by
      simp only [List.length_take]
      omega
    simp only [recvAll, Channel.recvPacketMsg, if_neg (Nat.not_lt.mpr hfirst)]
    rw [if_neg Bool.false_ne_true]
    dsimp only
    rw [ih { ch with recving := ch.recving ++ bytes.take maxSize } (by
      simp only [List.length_append, List.length_take, List.length_drop]
      omega)]
    simp [Except.map, List.append_assoc]

/-! ## The sending end of a channel -/

namespace Channel

/-- The packets the channel will still write: those of the message in
`sending`, unless its length is zero, then those of its queue. -/
def stream (ch : Channel) : List PacketMsg :=
  (if ch.sending = [] then [] else fragments ch.desc.id ch.maxPacketMsgPayloadSize ch.sending) ++
    ch.sendQueue.flatMap (fragments ch.desc.id ch.maxPacketMsgPayloadSize)

/-- What the sending end of a channel keeps while no message sent is empty:
payloads of at least a byte, no empty message queued, and `sendQueueSize`
counting the messages not yet written whole. -/
structure Sound (ch : Channel) : Prop where
  max : 0 < ch.maxPacketMsgPayloadSize
  queue : ∀ m ∈ ch.sendQueue, m ≠ []
  queueSize : ch.sendQueueSize = ch.sendQueue.length + if ch.sending = [] then 0 else 1

variable {ch : Channel}

@[simp] theorem isSendPending_desc : ch.isSendPending.2.desc = ch.desc := by
  unfold isSendPending
  split_ifs
  · split <;> rfl
  · rfl

@[simp] theorem writePacketMsgTo_desc (size : PacketMsg → Nat) :
    (ch.writePacketMsgTo size).2.desc = ch.desc := by
  unfold writePacketMsgTo nextPacketMsg
  dsimp only
  split_ifs <;> rfl

theorem trySendBytes_eq (bytes : List UInt8) :
    (ch.sendQueue.length < ch.desc.sendQueueCapacity ∧ ch.trySendBytes bytes =
      (true, { ch with sendQueue := ch.sendQueue ++ [bytes], sendQueueSize := ch.sendQueueSize + 1 })) ∨
    ch.trySendBytes bytes = (false, ch) := by
  unfold trySendBytes
  split_ifs with h
  · exact .inl ⟨h, rfl⟩
  · exact .inr rfl

theorem Sound.enqueue (h : ch.Sound) {bytes : List UInt8} (hne : bytes ≠ []) :
    Channel.Sound { ch with sendQueue := ch.sendQueue ++ [bytes], sendQueueSize := ch.sendQueueSize + 1 } := by
  refine ⟨h.max, ?_, ?_⟩
  · intro m hm
    rcases List.mem_append.mp hm with hm | hm
    · exact h.queue m hm
    · rw [List.mem_singleton.mp hm]
      exact hne
  · dsimp only
    rw [h.queueSize, List.length_append, List.length_singleton]
    omega

theorem stream_enqueue (bytes : List UInt8) :
    Channel.stream { ch with sendQueue := ch.sendQueue ++ [bytes], sendQueueSize := ch.sendQueueSize + 1 } =
      ch.stream ++ fragments ch.desc.id ch.maxPacketMsgPayloadSize bytes := by
  simp [stream, List.flatMap_append, List.append_assoc]

theorem stream_isSendPending (h : ch.Sound) : ch.isSendPending.2.stream = ch.stream := by
  unfold isSendPending
  split_ifs with hlen
  · split
    · rfl
    · next bytes rest hq =>
      have hne : bytes ≠ [] := h.queue bytes (by rw [hq]; exact List.mem_cons_self)
      simp [stream, hq, List.length_eq_zero_iff.mp hlen, hne]
  · rfl

theorem Sound.isSendPending (h : ch.Sound) : ch.isSendPending.2.Sound := by
  unfold Channel.isSendPending
  split_ifs with hlen
  · split
    · exact h
    · next bytes rest hq =>
      have hne : bytes ≠ [] := h.queue bytes (by rw [hq]; exact List.mem_cons_self)
      refine ⟨h.max, fun m hm => h.queue m (by rw [hq]; exact List.mem_cons_of_mem _ hm), ?_⟩
      dsimp only
      rw [h.queueSize, hq, List.length_eq_zero_iff.mp hlen, if_pos rfl, if_neg hne]
      simp only [List.length_cons]
      omega
  · exact h

theorem sending_ne_nil_of_isSendPending (h : ch.Sound) (hp : ch.isSendPending.1 = true) :
    ch.isSendPending.2.sending ≠ [] := by
  unfold Channel.isSendPending at hp ⊢
  by_cases hlen : ch.sending.length = 0
  · rw [if_pos hlen] at hp ⊢
    cases hq : ch.sendQueue with
    | nil =>
      simp only [hq] at hp
      cases hp
    | cons bytes rest =>
      dsimp only
      exact h.queue bytes (by rw [hq]; exact List.mem_cons_self)
  · rw [if_neg hlen]
    exact fun hs => hlen (by rw [hs]; rfl)

theorem stream_nextPacketMsg (h : ch.Sound) (hs : ch.sending ≠ []) :
    ch.stream = ch.nextPacketMsg.1 :: ch.nextPacketMsg.2.stream := by
  unfold nextPacketMsg
  dsimp only
  split_ifs with hle
  · simp [stream, hs, fragments_of_le hle, Nat.min_eq_right hle]
  · have hlt : ch.maxPacketMsgPayloadSize < ch.sending.length := by omega
    have hrest : ch.sending.drop ch.maxPacketMsgPayloadSize ≠ [] := by
      simp only [ne_eq, List.drop_eq_nil_iff]
      omega
    simp [stream, hs, fragments_of_lt h.max hlt, Nat.min_eq_left (Nat.le_of_lt hlt), hrest]

theorem Sound.nextPacketMsg (h : ch.Sound) (hs : ch.sending ≠ []) : ch.nextPacketMsg.2.Sound := by
  unfold Channel.nextPacketMsg
  dsimp only
  split_ifs with hle
  · refine ⟨h.max, h.queue, ?_⟩
    dsimp only
    rw [h.queueSize, if_neg hs, if_pos rfl]
    omega
  · have hrest : ch.sending.drop (min ch.maxPacketMsgPayloadSize ch.sending.length) ≠ [] := by
      simp only [ne_eq, List.drop_eq_nil_iff]
      omega
    refine ⟨h.max, h.queue, ?_⟩
    dsimp only
    rw [h.queueSize, if_neg hs, if_neg hrest]

theorem writePacketMsgTo_eq (size : PacketMsg → Nat) :
    (ch.writePacketMsgTo size).1 = ch.nextPacketMsg.1 ∧
      (ch.writePacketMsgTo size).2.stream = ch.nextPacketMsg.2.stream ∧
      (ch.nextPacketMsg.2.Sound → (ch.writePacketMsgTo size).2.Sound) := by
  unfold writePacketMsgTo
  exact ⟨rfl, rfl, fun h => ⟨h.max, h.queue, h.queueSize⟩⟩

theorem nextPacketMsg_channelID : ch.nextPacketMsg.1.channelID = ch.desc.id := by
  unfold nextPacketMsg
  dsimp only
  split_ifs <;> rfl

theorem recvPacketMsg_eq (p : PacketMsg) :
    ∃ recving, (ch.recvPacketMsg p).2 = { ch with recving := recving } := by
  unfold recvPacketMsg
  dsimp only
  split_ifs
  · exact ⟨ch.recving, rfl⟩
  · exact ⟨[], rfl⟩
  · exact ⟨_, rfl⟩

end Channel

/-! ## The connection -/

section Connection

variable {channels : List Channel}

theorem fillChannelsIdx_eq_some {idx : Nat → Option Nat} {i : Nat} {chs : List Channel}
    {chID k : Nat} (h : fillChannelsIdx idx i chs chID = some k) :
    idx chID = some k ∨ ∃ ch, i ≤ k ∧ chs[k - i]? = some ch ∧ ch.desc.id = chID := by
  induction chs generalizing idx i with
  | nil => exact .inl h
  | cons ch rest ih =>
    rcases ih h with hidx | ⟨ch', hik, hget, hid⟩
    · by_cases hc : chID = ch.desc.id
      · -- this channel's place, unless a later channel overwrote it
        rw [hc, Function.update_self] at hidx
        cases hidx
        exact .inr ⟨ch, Nat.le_refl _, by simp, hc.symm⟩
      · rw [Function.update_of_ne hc] at hidx
        exact .inl hidx
    · refine .inr ⟨ch', by omega, ?_, hid⟩
      rw [show k - i = (k - (i + 1)) + 1 by omega]
      exact hget

theorem fillChannelsIdx_of_not_mem {idx : Nat → Option Nat} {i : Nat} {chs : List Channel}
    {chID : Nat} (h : chID ∉ chs.map (·.desc.id)) : fillChannelsIdx idx i chs chID = idx chID := by
  induction chs generalizing idx i with
  | nil => rfl
  | cons ch rest ih =>
    simp only [List.map_cons, List.mem_cons, not_or] at h
    rw [fillChannelsIdx, ih h.2, Function.update_of_ne h.1]

theorem fillChannelsIdx_of_getElem? {idx : Nat → Option Nat} {i k : Nat} {chs : List Channel}
    (hnd : (chs.map (·.desc.id)).Nodup) {ch : Channel} (h : chs[k]? = some ch) :
    fillChannelsIdx idx i chs ch.desc.id = some (i + k) := by
  induction chs generalizing idx i k with
  | nil => cases h
  | cons c rest ih =>
    rw [List.map_cons, List.nodup_cons] at hnd
    cases k with
    | zero =>
      -- no later channel has the ID, so its own place stays
      cases h
      rw [fillChannelsIdx, fillChannelsIdx_of_not_mem hnd.1, Function.update_self, Nat.add_zero]
    | succ k =>
      rw [fillChannelsIdx, ih hnd.2 h]
      ac_rfl

theorem getElem?_of_channelIdx {chID i : Nat} (h : channelIdx channels chID = some i) :
    ∃ ch, channels[i]? = some ch ∧ ch.desc.id = chID := by
  rcases fillChannelsIdx_eq_some h with hnone | ⟨ch, -, hget, hid⟩
  · cases hnone
  · exact ⟨ch, by simpa using hget, hid⟩

theorem channelIdx_of_getElem? (hnd : (channels.map (·.desc.id)).Nodup) {i : Nat} {ch : Channel}
    (h : channels[i]? = some ch) : channelIdx channels ch.desc.id = some i := by
  rw [channelIdx, fillChannelsIdx_of_getElem? hnd h, Nat.zero_add]

theorem set_of_getElem? {α : Type} {l : List α} {i : Nat} {a : α} (h : l[i]? = some a) :
    l.set i a = l := by
  obtain ⟨hi, rfl⟩ := List.getElem?_eq_some_iff.mp h
  exact List.set_getElem_self hi

theorem getElem?_set_eq_some {α : Type} {l : List α} {i k : Nat} {a b : α}
    (h : (l.set i a)[k]? = some b) : (k = i ∧ b = a) ∨ (i ≠ k ∧ l[k]? = some b) := by
  rw [List.getElem?_set] at h
  split_ifs at h with hik
  · exact .inl ⟨hik.symm, (Option.some.inj h).symm⟩
  · exact .inr ⟨hik, h⟩

theorem send_eq (chID : Nat) (bytes : List UInt8) :
    send channels chID bytes = (false, channels) ∨
    ∃ i ch, channels[i]? = some ch ∧ ch.desc.id = chID ∧
      send channels chID bytes = (true, channels.set i
        { ch with sendQueue := ch.sendQueue ++ [bytes], sendQueueSize := ch.sendQueueSize + 1 }) := by
  unfold send
  rcases hidx : channelIdx channels chID with _ | i
  · exact .inl rfl
  · obtain ⟨ch, hget, hid⟩ := getElem?_of_channelIdx hidx
    simp only [hget, Channel.sendBytes]
    rcases @Channel.trySendBytes_eq ch bytes with ⟨-, hok⟩ | hno
    · exact .inr ⟨i, ch, hget, hid, by rw [hok]⟩
    · refine .inl ?_
      rw [hno, set_of_getElem? hget]

theorem leastRatio_eq {best : Option (Nat × Channel)} {i j : Nat} {ch c : Channel}
    (h : leastRatio best i ch = some (j, c)) : best = some (j, c) ∨ (j = i ∧ c = ch) := by
  unfold leastRatio at h
  split at h
  · cases h
    exact .inr ⟨rfl, rfl⟩
  · split_ifs at h
    · cases h
      exact .inr ⟨rfl, rfl⟩
    · exact .inl h

theorem pollChannels_fst (best : Option (Nat × Channel)) (i : Nat) (channels : List Channel) :
    (pollChannels best i channels).1 = channels.map fun ch => ch.isSendPending.2 := by
  induction channels generalizing best i with
  | nil => rfl
  | cons ch rest ih =>
    simp only [pollChannels, List.map_cons]
    rw [← ih (if ch.isSendPending.1 then leastRatio best i ch.isSendPending.2 else best) (i + 1)]

theorem pollChannels_snd {best : Option (Nat × Channel)} {i : Nat} {channels : List Channel}
    {j : Nat} {c : Channel} (h : (pollChannels best i channels).2 = some (j, c)) :
    best = some (j, c) ∨ ∃ ch, i ≤ j ∧ channels[j - i]? = some ch ∧ ch.isSendPending = (true, c) := by
  induction channels generalizing best i with
  | nil => exact .inl h
  | cons ch rest ih =>
    simp only [pollChannels] at h
    rcases ih h with hb | ⟨ch₀, hij, hget, hpoll⟩
    · -- the best before the rest: kept from before, or this channel
      by_cases hp : ch.isSendPending.1 = true
      · rw [if_pos hp] at hb
        rcases leastRatio_eq hb with hb | ⟨rfl, rfl⟩
        · exact .inl hb
        · exact .inr ⟨ch, Nat.le_refl _, by simp, by rw [← hp]⟩
      · rw [if_neg hp] at hb
        exact .inl hb
    · refine .inr ⟨ch₀, by omega, ?_, hpoll⟩
      rw [show j - i = (j - (i + 1)) + 1 by omega]
      exact hget

theorem sendPacketMsg_eq (size : PacketMsg → Nat) (channels : List Channel) :
    sendPacketMsg size channels = (none, channels.map fun ch => ch.isSendPending.2) ∨
    ∃ j ch, channels[j]? = some ch ∧ ch.isSendPending.1 = true ∧
      sendPacketMsg size channels = (some (ch.isSendPending.2.writePacketMsgTo size).1,
        (channels.map fun ch => ch.isSendPending.2).set j (ch.isSendPending.2.writePacketMsgTo size).2) := by
  have hfst := pollChannels_fst none 0 channels
  unfold sendPacketMsg
  rcases hp : pollChannels none 0 channels with ⟨chs, _ | ⟨j, c⟩⟩
  · rw [hp] at hfst
    exact .inl (by rw [← hfst])
  · rw [hp] at hfst
    rcases pollChannels_snd (show (pollChannels none 0 channels).2 = some (j, c) by rw [hp]) with
      hb | ⟨ch, -, hget, hpoll⟩
    · cases hb
    · rw [Nat.sub_zero] at hget
      refine .inr ⟨j, ch, hget, by rw [hpoll], ?_⟩
      rw [hpoll, ← hfst]

theorem recvPacket_of_ok (hnd : (channels.map (·.desc.id)).Nodup) {i : Nat} {r r' : Channel}
    {p : PacketMsg} {msg : Option (List UInt8)} (hget : channels[i]? = some r)
    (hid : r.desc.id = p.channelID) (hsmall : p.channelID ≤ 255)
    (hr : r.recvPacketMsg p = (.ok msg, r')) :
    recvPacket channels p = (.ok (msg.map fun bytes => (p.channelID, bytes)), channels.set i r') := by
  unfold recvPacket
  rw [if_neg (by omega), ← hid, channelIdx_of_getElem? hnd hget]
  simp only [hget, hr]

end Connection

/-! ## What one step of a link does -/

namespace Link

variable (size : PacketMsg → Nat) (l : Link)

theorem step_send (chID : Nat) (bytes : List UInt8) :
    l.step size (.send chID bytes) = l ∨
    ∃ i ch, l.sender[i]? = some ch ∧ ch.desc.id = chID ∧
      l.step size (.send chID bytes) =
        { l with
          sender := l.sender.set i
            { ch with sendQueue := ch.sendQueue ++ [bytes], sendQueueSize := ch.sendQueueSize + 1 }
          accepted := l.accepted ++ [(chID, bytes)] } := by
  simp only [step]
  rcases @send_eq l.sender chID bytes with hno | ⟨i, ch, hget, hid, hok⟩
  · exact .inl (by rw [hno]; rfl)
  · exact .inr ⟨i, ch, hget, hid, by rw [hok]; rfl⟩

theorem step_sendPacketMsg :
    l.step size .sendPacketMsg = { l with sender := l.sender.map fun ch => ch.isSendPending.2 } ∨
    ∃ j ch, l.sender[j]? = some ch ∧ ch.isSendPending.1 = true ∧
      l.step size .sendPacketMsg =
        { l with
          sender := (l.sender.map fun ch => ch.isSendPending.2).set j
            (ch.isSendPending.2.writePacketMsgTo size).2
          wire := l.wire ++ [(ch.isSendPending.2.writePacketMsgTo size).1] } := by
  simp only [step]
  rcases sendPacketMsg_eq size l.sender with hnone | ⟨j, ch, hget, hp, hsome⟩
  · exact .inl (by rw [hnone])
  · exact .inr ⟨j, ch, hget, hp, by rw [hsome]⟩

theorem step_recv_nil (hw : l.wire = []) : l.step size .recv = l := by
  simp only [step]
  rw [hw]
  split <;> simp_all

theorem step_recv_of_ok {p : PacketMsg} {rest : List PacketMsg} {out : Option (Nat × List UInt8)}
    {receiver : List Channel} (hs : l.stopped = none) (hw : l.wire = p :: rest)
    (hr : recvPacket l.receiver p = (.ok out, receiver)) :
    l.step size .recv = { l with wire := rest, receiver := receiver, delivered := l.delivered ++ out.toList } := by
  simp only [step]
  rw [hs, hw]
  simp only [hr]

end Link

/-! ## What a channel still has to deliver -/

/-- The packets of one channel, in the order they are on the wire. -/
def ofChannel (chID : Nat) (ps : List PacketMsg) : List PacketMsg :=
  ps.filter fun p => p.channelID = chID

/-- The messages of one channel among those passed to `onReceive` or accepted
by `Send`. -/
def messagesOf (chID : Nat) (ms : List (Nat × List UInt8)) : List (List UInt8) :=
  (ms.filter fun m => m.1 = chID).map (·.2)

section Filters

variable {chID : Nat}

@[simp] theorem ofChannel_append (ps qs : List PacketMsg) :
    ofChannel chID (ps ++ qs) = ofChannel chID ps ++ ofChannel chID qs :=
  List.filter_append ps qs

theorem ofChannel_cons_self {p : PacketMsg} (ps : List PacketMsg) (h : p.channelID = chID) :
    ofChannel chID (p :: ps) = p :: ofChannel chID ps :=
  List.filter_cons_of_pos (by simpa using h)

theorem ofChannel_cons_of_ne {p : PacketMsg} (ps : List PacketMsg) (h : p.channelID ≠ chID) :
    ofChannel chID (p :: ps) = ofChannel chID ps :=
  List.filter_cons_of_neg (by simpa using h)

@[simp] theorem messagesOf_append (ms ms' : List (Nat × List UInt8)) :
    messagesOf chID (ms ++ ms') = messagesOf chID ms ++ messagesOf chID ms' := by
  simp [messagesOf]

@[simp] theorem messagesOf_self (bytes : List UInt8) : messagesOf chID [(chID, bytes)] = [bytes] := by
  simp [messagesOf]

theorem messagesOf_of_ne {c : Nat} (bytes : List UInt8) (h : c ≠ chID) :
    messagesOf chID [(c, bytes)] = [] := by
  simp [messagesOf, h]

theorem messagesOf_received (msg : Option (List UInt8)) :
    messagesOf chID (msg.map fun bytes => (chID, bytes)).toList = msg.toList := by
  cases msg <;> simp [messagesOf]

theorem messagesOf_received_of_ne {c : Nat} (msg : Option (List UInt8)) (h : c ≠ chID) :
    messagesOf chID (msg.map fun bytes => (c, bytes)).toList = [] := by
  cases msg <;> simp [messagesOf, h]

end Filters

theorem recvAll_cons_eq_ok {r c : Channel} {p : PacketMsg} {ps : List PacketMsg}
    {out : List (List UInt8)} (h : recvAll r (p :: ps) = .ok (out, c)) :
    ∃ msg r' out', r.recvPacketMsg p = (.ok msg, r') ∧ recvAll r' ps = .ok (out', c) ∧
      out = msg.toList ++ out' := by
  unfold recvAll at h
  rcases hr : r.recvPacketMsg p with ⟨_ | msg, r'⟩
  · simp only [hr] at h
    cases h
  · simp only [hr] at h
    cases hrest : recvAll r' ps with
    | error e =>
      rw [hrest] at h
      cases h
    | ok res =>
      rw [hrest] at h
      cases h
      exact ⟨msg, r', res.1, rfl, by rw [hrest], rfl⟩

/-! ## The invariant of a link -/

/-- What one channel keeps on a link: its sending end is sound, and its
receiving end, fed the channel's packets on the wire and then those the
sending end will still write, returns exactly the messages accepted and not
yet delivered, and holds nothing after them. -/
structure ChanInv (l : Link) (s r : Channel) : Prop where
  sound : s.Sound
  stream : ∃ rest, recvAll r (ofChannel s.desc.id l.wire ++ s.stream) = .ok (rest, { r with recving := [] }) ∧
    messagesOf s.desc.id l.delivered ++ rest = messagesOf s.desc.id l.accepted

section ChanInv

variable {l l' : Link} {s r : Channel}

theorem ChanInv.frame (h : ChanInv l s r) {s' : Channel} (hsound : s'.Sound)
    (hid : s'.desc.id = s.desc.id) (hstream : s'.stream = s.stream)
    (hwire : ofChannel s.desc.id l'.wire = ofChannel s.desc.id l.wire)
    (hdel : messagesOf s.desc.id l'.delivered = messagesOf s.desc.id l.delivered)
    (hacc : messagesOf s.desc.id l'.accepted = messagesOf s.desc.id l.accepted) : ChanInv l' s' r := by
  obtain ⟨rest, hrecv, hmsgs⟩ := h.stream
  refine ⟨hsound, rest, ?_, ?_⟩
  · rw [hid, hwire, hstream]
    exact hrecv
  · rw [hid, hdel, hacc]
    exact hmsgs

theorem ChanInv.enqueue (h : ChanInv l s r) {bytes : List UInt8} (hne : bytes ≠ [])
    (hcap : bytes.length ≤ r.desc.recvMessageCapacity)
    (hwire : l'.wire = l.wire) (hdel : l'.delivered = l.delivered)
    (hacc : l'.accepted = l.accepted ++ [(s.desc.id, bytes)]) :
    ChanInv l' { s with sendQueue := s.sendQueue ++ [bytes], sendQueueSize := s.sendQueueSize + 1 } r := by
  obtain ⟨rest, hrecv, hmsgs⟩ := h.stream
  -- the receiving end holds nothing when the new message starts
  have hfrag := @recvAll_fragments s.desc.id s.maxPacketMsgPayloadSize bytes
    { r with recving := [] } (by simpa using hcap)
  refine ⟨h.sound.enqueue hne, rest ++ [bytes], ?_, ?_⟩
  · dsimp only
    rw [hwire, Channel.stream_enqueue, ← List.append_assoc, recvAll_append, hrecv]
    simp only [Except.bind, hfrag, Except.map, List.nil_append]
  · dsimp only
    rw [hdel, hacc, messagesOf_append, messagesOf_self, ← List.append_assoc, hmsgs]

theorem ChanInv.write (h : ChanInv l s r) (size : PacketMsg → Nat) (hp : s.isSendPending.1 = true)
    (hwire : l'.wire = l.wire ++ [(s.isSendPending.2.writePacketMsgTo size).1])
    (hdel : l'.delivered = l.delivered) (hacc : l'.accepted = l.accepted) :
    ChanInv l' (s.isSendPending.2.writePacketMsgTo size).2 r := by
  obtain ⟨hpacket, hstream, hsound⟩ := @Channel.writePacketMsgTo_eq s.isSendPending.2 size
  have hs := h.sound.isSendPending
  have hne := Channel.sending_ne_nil_of_isSendPending h.sound hp
  have hid : (s.isSendPending.2.writePacketMsgTo size).2.desc.id = s.desc.id := by simp
  have hpid : s.isSendPending.2.nextPacketMsg.1.channelID = s.desc.id := by
    rw [Channel.nextPacketMsg_channelID, Channel.isSendPending_desc]
  obtain ⟨rest, hrecv, hmsgs⟩ := h.stream
  refine ⟨hsound (hs.nextPacketMsg hne), rest, ?_, ?_⟩
  · -- the packet moves from the front of what the channel will write to the wire
    have hmove : ofChannel s.desc.id l'.wire ++ (s.isSendPending.2.writePacketMsgTo size).2.stream =
        ofChannel s.desc.id l.wire ++ s.stream := by
      calc ofChannel s.desc.id l'.wire ++ (s.isSendPending.2.writePacketMsgTo size).2.stream
          = ofChannel s.desc.id l.wire ++
              (s.isSendPending.2.nextPacketMsg.1 :: s.isSendPending.2.nextPacketMsg.2.stream) := by
            rw [hwire, ofChannel_append, hpacket, hstream, ofChannel_cons_self [] hpid,
              List.append_assoc]
            rfl
        _ = ofChannel s.desc.id l.wire ++ s.stream := by
            rw [← Channel.stream_nextPacketMsg hs hne, Channel.stream_isSendPending h.sound]
    rw [hid, hmove]
    exact hrecv
  · rw [hid, hdel, hacc]
    exact hmsgs

/-- The packet the receiving end reads, when it is the channel's:
`recvPacketMsg` takes it, and the channel keeps its invariant once the packet
is off the wire and its message, if any, delivered. -/
theorem ChanInv.recv (h : ChanInv l s r) {p : PacketMsg} {rest : List PacketMsg}
    (hw : l.wire = p :: rest) (hid : p.channelID = s.desc.id) :
    ∃ msg r', r.recvPacketMsg p = (.ok msg, r') ∧ r'.desc = r.desc ∧ ∀ l' : Link, l'.wire = rest →
      l'.delivered = l.delivered ++ (msg.map fun bytes => (p.channelID, bytes)).toList →
      l'.accepted = l.accepted → ChanInv l' s r' := by
  obtain ⟨out, hrecv, hmsgs⟩ := h.stream
  rw [hw, ofChannel_cons_self rest hid, List.cons_append] at hrecv
  obtain ⟨msg, r', out', hr, hrest, rfl⟩ := recvAll_cons_eq_ok hrecv
  obtain ⟨recving, hr'⟩ := @Channel.recvPacketMsg_eq r p
  have hr'eq : r' = { r with recving := recving } := by rw [← hr', hr]
  refine ⟨msg, r', hr, by rw [hr'eq], fun l' hwire hdel hacc => ⟨h.sound, out', ?_, ?_⟩⟩
  · -- what the channel returns next starts from what the packet left held
    rw [hwire, show ({ r' with recving := [] } : Channel) = { r with recving := [] } by rw [hr'eq]]
    exact hrest
  · rw [hdel, hacc, messagesOf_append, hid, messagesOf_received, List.append_assoc]
    exact hmsgs

end ChanInv

/-- A step whose `Send` is of a message that is not empty and fits its
channel's capacity. -/
def Fits (descs : List ChannelDescriptor) : LinkStep → Prop
  | .send chID msgBytes => msgBytes ≠ [] ∧ ∀ d ∈ descs, d.id = chID → msgBytes.length ≤ d.recvMessageCapacity
  | _ => True

/-- What a link keeps while every message sent is not empty and fits: both
ends have the channels of `descs`, of distinct IDs that fit in a byte, the
receiving end has not stopped, every packet on the wire is of a channel, and
every channel keeps `ChanInv`. -/
structure LinkInv (descs : List ChannelDescriptor) (l : Link) : Prop where
  sender : l.sender.map (·.desc) = descs
  receiver : l.receiver.map (·.desc) = descs
  nodup : (descs.map (·.id)).Nodup
  small : ∀ d ∈ descs, d.id ≤ 255
  running : l.stopped = none
  wire : ∀ p ∈ l.wire, ∃ d ∈ descs, d.id = p.channelID
  chans : ∀ (i : Nat) s r, l.sender[i]? = some s → l.receiver[i]? = some r → ChanInv l s r

section LinkInv

variable {descs : List ChannelDescriptor} {l : Link}

theorem desc_of_getElem? {chs : List Channel} (hd : chs.map (·.desc) = descs) {i : Nat} {ch : Channel}
    (h : chs[i]? = some ch) : descs[i]? = some ch.desc := by
  rw [← hd, List.getElem?_map, h]
  rfl

theorem nodup_of_descs {chs : List Channel} (hd : chs.map (·.desc) = descs)
    (hnd : (descs.map (·.id)).Nodup) : (chs.map (·.desc.id)).Nodup := by
  rw [← hd, List.map_map] at hnd
  exact hnd

theorem id_ne_of_getElem? (hnd : (descs.map (·.id)).Nodup) {i k : Nat} {d d' : ChannelDescriptor}
    (hi : descs[i]? = some d) (hk : descs[k]? = some d') (hik : i ≠ k) : d.id ≠ d'.id := by
  intro heq
  have hlen : i < (descs.map (·.id)).length := by
    simpa using (List.getElem?_eq_some_iff.mp hi).1
  have hids : (descs.map (·.id))[i]? = (descs.map (·.id))[k]? := by
    rw [List.getElem?_map, List.getElem?_map, hi, hk]
    exact congrArg some heq
  exact hik ((List.getElem?_inj hlen hnd).mp hids)

theorem LinkInv.exists_chan (h : LinkInv descs l) {i : Nat} {d : ChannelDescriptor}
    (hd : descs[i]? = some d) :
    ∃ s r, l.sender[i]? = some s ∧ l.receiver[i]? = some r ∧ s.desc = d ∧ r.desc = d := by
  have hs := hd
  have hr := hd
  rw [← h.sender, List.getElem?_map, Option.map_eq_some_iff] at hs
  rw [← h.receiver, List.getElem?_map, Option.map_eq_some_iff] at hr
  obtain ⟨s, hs, hsd⟩ := hs
  obtain ⟨r, hr, hrd⟩ := hr
  exact ⟨s, r, hs, hr, hsd, hrd⟩

variable (size : PacketMsg → Nat)

theorem LinkInv.send (h : LinkInv descs l) {chID : Nat} {bytes : List UInt8} (hne : bytes ≠ [])
    (hcap : ∀ d ∈ descs, d.id = chID → bytes.length ≤ d.recvMessageCapacity) :
    LinkInv descs (l.step size (.send chID bytes)) := by
  rcases Link.step_send size l chID bytes with hl | ⟨i, ch, hget, rfl, hl⟩
  · rw [hl]
    exact h
  rw [hl]
  have hdesc := desc_of_getElem? h.sender hget
  refine ⟨?_, h.receiver, h.nodup, h.small, h.running, h.wire, ?_⟩
  · rw [List.map_set, h.sender]
    exact set_of_getElem? hdesc
  intro k s r hs hr
  have hrd := desc_of_getElem? h.receiver hr
  rcases getElem?_set_eq_some hs with ⟨rfl, rfl⟩ | ⟨hik, hs⟩
  · -- the channel that took the message
    have hrc : ch.desc = r.desc := Option.some.inj (hdesc.symm.trans hrd)
    have hcap' := hcap r.desc (List.mem_of_getElem? hrd) (by rw [← hrc])
    exact (h.chans k ch r hget hr).enqueue hne hcap' rfl rfl rfl
  · -- another channel: the message is not its own
    have hc := h.chans k s r hs hr
    have hid := id_ne_of_getElem? h.nodup hdesc (desc_of_getElem? h.sender hs) hik
    exact hc.frame hc.sound rfl rfl rfl rfl (by
      rw [messagesOf_append, messagesOf_of_ne _ hid, List.append_nil])

theorem LinkInv.sendPacketMsg (h : LinkInv descs l) : LinkInv descs (l.step size .sendPacketMsg) := by
  have hpoll : (l.sender.map fun ch => ch.isSendPending.2).map (·.desc) = descs := by
    rw [List.map_map, ← h.sender]
    simp
  -- every channel was polled, which leaves what it will write as it was
  have hpolled : ∀ {k : Nat} {s r : Channel}, (l.sender.map fun ch => ch.isSendPending.2)[k]? = some s →
      l.receiver[k]? = some r → ∃ s₀, l.sender[k]? = some s₀ ∧ s = s₀.isSendPending.2 ∧ ChanInv l s₀ r := by
    intro k s r hs hr
    rw [List.getElem?_map, Option.map_eq_some_iff] at hs
    obtain ⟨s₀, hs₀, rfl⟩ := hs
    exact ⟨s₀, hs₀, rfl, h.chans k s₀ r hs₀ hr⟩
  rcases Link.step_sendPacketMsg size l with hl | ⟨j, ch, hget, hp, hl⟩
  · rw [hl]
    refine ⟨hpoll, h.receiver, h.nodup, h.small, h.running, h.wire, ?_⟩
    intro k s r hs hr
    obtain ⟨s₀, -, rfl, hc⟩ := hpolled hs hr
    exact hc.frame hc.sound.isSendPending (by simp) (Channel.stream_isSendPending hc.sound) rfl rfl rfl
  rw [hl]
  have hdesc := desc_of_getElem? h.sender hget
  have hpid : (ch.isSendPending.2.writePacketMsgTo size).1.channelID = ch.desc.id := by
    rw [(Channel.writePacketMsgTo_eq size).1, Channel.nextPacketMsg_channelID, Channel.isSendPending_desc]
  refine ⟨?_, h.receiver, h.nodup, h.small, h.running, ?_, ?_⟩
  · rw [List.map_set, hpoll]
    exact set_of_getElem? (by simpa using hdesc)
  · intro p hp'
    rcases List.mem_append.mp hp' with hp' | hp'
    · exact h.wire p hp'
    · rw [List.mem_singleton.mp hp']
      exact ⟨ch.desc, List.mem_of_getElem? hdesc, hpid.symm⟩
  intro k s r hs hr
  rcases getElem?_set_eq_some hs with ⟨rfl, rfl⟩ | ⟨hjk, hs⟩
  · -- the channel `sendPacketMsg` chose
    exact (h.chans k ch r hget hr).write size hp rfl rfl rfl
  · -- another channel: polled, and the packet is not its own
    obtain ⟨s₀, hs₀, rfl, hc⟩ := hpolled hs hr
    have hid := id_ne_of_getElem? h.nodup hdesc (desc_of_getElem? h.sender hs₀) hjk
    refine hc.frame hc.sound.isSendPending (by simp) (Channel.stream_isSendPending hc.sound) ?_ rfl rfl
    rw [ofChannel_append, ofChannel_cons_of_ne [] (by rw [hpid]; exact hid)]
    exact List.append_nil _

theorem LinkInv.recv (h : LinkInv descs l) : LinkInv descs (l.step size .recv) := by
  cases hw : l.wire with
  | nil =>
    rw [Link.step_recv_nil size l hw]
    exact h
  | cons p rest =>
    -- the packet's channel, at the same place on both ends
    obtain ⟨d, hd, hpd⟩ := h.wire p (by rw [hw]; exact List.mem_cons_self)
    obtain ⟨i, hdi⟩ := List.mem_iff_getElem?.mp hd
    obtain ⟨s, r, hs, hr, hsd, hrd⟩ := h.exists_chan hdi
    obtain ⟨msg, r', hrecv, hr'd, hc'⟩ := (h.chans i s r hs hr).recv hw (by rw [hsd, hpd])
    have hpkt := recvPacket_of_ok (nodup_of_descs h.receiver h.nodup) hr (by rw [hrd, hpd])
      (hpd ▸ h.small d hd) hrecv
    rw [Link.step_recv_of_ok size l h.running hw hpkt]
    refine ⟨h.sender, ?_, h.nodup, h.small, h.running,
      fun q hq => h.wire q (by rw [hw]; exact List.mem_cons_of_mem _ hq), ?_⟩
    · rw [List.map_set, h.receiver, hr'd]
      exact set_of_getElem? (desc_of_getElem? h.receiver hr)
    intro k s₁ r₁ hs₁ hr₁
    rcases getElem?_set_eq_some hr₁ with ⟨rfl, rfl⟩ | ⟨hik, hr₁⟩
    · -- the packet's channel
      rw [hs] at hs₁
      cases hs₁
      exact hc' _ rfl rfl rfl
    · -- another channel: neither the packet nor its message is its own
      have hc := h.chans k s₁ r₁ hs₁ hr₁
      have hid : p.channelID ≠ s₁.desc.id := by
        rw [← hpd]
        exact id_ne_of_getElem? h.nodup hdi (desc_of_getElem? h.sender hs₁) hik
      refine hc.frame hc.sound rfl rfl ?_ ?_ rfl
      · rw [hw, ofChannel_cons_of_ne rest hid]
      · rw [messagesOf_append, messagesOf_received_of_ne _ hid, List.append_nil]

theorem LinkInv.step (h : LinkInv descs l) {st : LinkStep} (hst : Fits descs st) :
    LinkInv descs (l.step size st) := by
  cases st with
  | send chID bytes => exact h.send size hst.1 hst.2
  | sendPacketMsg => exact h.sendPacketMsg size
  | recv => exact h.recv size

theorem LinkInv.run (h : LinkInv descs l) {steps : List LinkStep} (hst : ∀ st ∈ steps, Fits descs st) :
    LinkInv descs (l.run size steps) := by
  induction steps generalizing l with
  | nil => exact h
  | cons st steps ih =>
    exact ih (h.step size (hst st List.mem_cons_self)) fun st' hst' => hst st' (List.mem_cons_of_mem _ hst')

end LinkInv

/-! ## From `NewMConnectionWithConfig` on -/

theorem newChannel_eq_some {maxSize : Nat} {d : ChannelDescriptor} {ch : Channel}
    (h : newChannel maxSize d = some ch) : ch = ⟨d.fillDefaults, [], 0, [], [], 0, maxSize⟩ := by
  unfold newChannel at h
  dsimp only at h
  split_ifs at h
  exact (Option.some.inj h).symm

theorem newMConnection_eq_some {maxSize : Nat} :
    ∀ {chDescs : List ChannelDescriptor} {channels : List Channel},
      newMConnection maxSize chDescs = some channels →
      channels.map (·.desc) = chDescs.map ChannelDescriptor.fillDefaults ∧
      ∀ ch ∈ channels, ch = ⟨ch.desc, [], 0, [], [], 0, maxSize⟩
  | [], channels, h => by
    cases h
    exact ⟨rfl, fun ch hch => by cases hch⟩
  | d :: ds, channels, h => by
    simp only [newMConnection, List.mapM_cons, Option.pure_def, Option.bind_eq_bind,
      Option.bind_eq_some_iff, Option.some.injEq] at h
    obtain ⟨ch, hch, chs, hchs, rfl⟩ := h
    obtain ⟨hdescs, hfresh⟩ := newMConnection_eq_some hchs
    rw [newChannel_eq_some hch]
    refine ⟨by rw [List.map_cons, hdescs, List.map_cons], ?_⟩
    intro c hc
    rcases List.mem_cons.mp hc with rfl | hc
    · rfl
    · exact hfresh c hc

@[simp] theorem fillDefaults_id (d : ChannelDescriptor) : d.fillDefaults.id = d.id := rfl

theorem chanInv_fresh (l : Link) {desc : ChannelDescriptor} {maxSize : Nat} (hmax : 0 < maxSize)
    (hwire : ofChannel desc.id l.wire = []) (hdel : l.delivered = []) (hacc : l.accepted = []) :
    ChanInv l ⟨desc, [], 0, [], [], 0, maxSize⟩ ⟨desc, [], 0, [], [], 0, maxSize⟩ := by
  refine ⟨⟨hmax, fun m hm => (by cases hm), rfl⟩, [], ?_, ?_⟩
  · rw [hwire]
    rfl
  · rw [hdel, hacc]
    rfl

theorem LinkInv.init {maxSize : Nat} {chDescs : List ChannelDescriptor} {channels : List Channel}
    (hch : newMConnection maxSize chDescs = some channels) (hmax : 0 < maxSize)
    (hnd : (chDescs.map (·.id)).Nodup) (hsmall : ∀ d ∈ chDescs, d.id ≤ 255) :
    LinkInv (chDescs.map ChannelDescriptor.fillDefaults) (Link.init channels) := by
  obtain ⟨hdescs, hfresh⟩ := newMConnection_eq_some hch
  refine ⟨hdescs, hdescs, by rw [List.map_map]; exact hnd, ?_, rfl, fun p hp => (by cases hp), ?_⟩
  · intro d hd
    obtain ⟨d₀, hd₀, rfl⟩ := List.mem_map.mp hd
    exact hsmall d₀ hd₀
  · intro i s r hs hr
    -- both ends start from the same fresh channel
    have hsr : s = r := Option.some.inj (hs.symm.trans hr)
    subst hsr
    rw [hfresh s (List.mem_of_getElem? hs)]
    exact chanInv_fresh _ hmax rfl rfl rfl

/-- Over every run from `NewMConnectionWithConfig` whose sends are each of a
message that is not empty and fits its channel: the receiving end never stops,
`sendQueueSize` counts the messages not yet written whole, what each channel
delivers is a prefix of what it accepted, and once nothing is left to write or
read it is all of it, in order. -/
theorem run_delivered (size : PacketMsg → Nat) {maxSize : Nat} {chDescs : List ChannelDescriptor}
    {channels : List Channel} (hch : newMConnection maxSize chDescs = some channels) (hmax : 0 < maxSize)
    (hnd : (chDescs.map (·.id)).Nodup) (hsmall : ∀ d ∈ chDescs, d.id ≤ 255) {steps : List LinkStep}
    (hfit : ∀ st ∈ steps, Fits (chDescs.map ChannelDescriptor.fillDefaults) st) :
    let l := (Link.init channels).run size steps
    l.stopped = none ∧
    (∀ ch ∈ l.sender, ch.sendQueueSize = ch.sendQueue.length + if ch.sending = [] then 0 else 1) ∧
    ∀ d ∈ chDescs, messagesOf d.id l.delivered <+: messagesOf d.id l.accepted ∧
      (l.wire = [] → (∀ ch ∈ l.sender, ch.sendQueue = [] ∧ ch.sending = []) →
        messagesOf d.id l.delivered = messagesOf d.id l.accepted) := by
  intro l
  have h : LinkInv (chDescs.map ChannelDescriptor.fillDefaults) l :=
    (LinkInv.init hch hmax hnd hsmall).run size hfit
  refine ⟨h.running, fun ch hch' => ?_, fun d hd => ?_⟩
  · obtain ⟨i, hs⟩ := List.mem_iff_getElem?.mp hch'
    obtain ⟨s, r, hs', hr, -, -⟩ := h.exists_chan (desc_of_getElem? h.sender hs)
    rw [hs] at hs'
    cases hs'
    exact (h.chans i ch r hs hr).sound.queueSize
  · -- the channel of `d`, at the same place on both ends
    obtain ⟨i, hdi⟩ := List.mem_iff_getElem?.mp
      (List.mem_map_of_mem hd : d.fillDefaults ∈ chDescs.map ChannelDescriptor.fillDefaults)
    obtain ⟨s, r, hs, hr, hsd, -⟩ := h.exists_chan hdi
    obtain ⟨rest, hrecv, hmsgs⟩ := (h.chans i s r hs hr).stream
    rw [hsd, fillDefaults_id] at hmsgs hrecv
    refine ⟨⟨rest, hmsgs⟩, fun hw hidle => ?_⟩
    -- an idle channel has nothing left to return
    obtain ⟨hq, hsending⟩ := hidle s (List.mem_of_getElem? hs)
    have hstream : s.stream = [] := by simp [Channel.stream, hq, hsending]
    rw [hw, hstream] at hrecv
    have hrest : rest = [] := by
      simp only [ofChannel, List.filter_nil, List.append_nil, recvAll, Except.ok.injEq,
        Prod.mk.injEq] at hrecv
      exact hrecv.1.symm
    rw [← hmsgs, hrest, List.append_nil]

/-- Two fresh channels, the one of ID 2 first, whatever the writer writes for
a packet: an empty message sent on channel 1 is taken into `sending` by the
poll in which channel 2 wins, and is then never written, while its
`sendQueueSize` stays at one. -/
theorem empty_message_is_lost (size : PacketMsg → Nat) :
    ∃ channels, newMConnection 1024 [⟨2, 1, 0, 0⟩, ⟨1, 1, 0, 0⟩] = some channels ∧
      let l := (Link.init channels).run size
        [.send 1 [], .send 2 [5], .sendPacketMsg, .sendPacketMsg, .recv, .recv]
      messagesOf 1 l.accepted = [[]] ∧ messagesOf 1 l.delivered = [] ∧
        messagesOf 2 l.delivered = [[5]] ∧ l.wire = [] ∧
        l.sender.map (fun ch => (ch.desc.id, ch.sendQueue, ch.sending, ch.sendQueueSize)) =
          [(2, [], [], 0), (1, [], [], 1)] ∧
        (sendPacketMsg size l.sender).1 = none :=
  ⟨_, rfl, rfl, rfl, rfl, rfl, rfl, rfl⟩

/-- One non-empty message on each of the two channels, both written and read. -/
def twoMessages : List LinkStep := [.send 1 [7], .send 2 [5], .sendPacketMsg, .sendPacketMsg, .recv, .recv]

theorem run_delivered_twoMessages :
    ∃ channels, newMConnection 1024 [⟨2, 1, 0, 0⟩, ⟨1, 1, 0, 0⟩] = some channels ∧
      let l := (Link.init channels).run (fun _ => 0) twoMessages
      l.stopped = none ∧
      (∀ ch ∈ l.sender, ch.sendQueueSize = ch.sendQueue.length + if ch.sending = [] then 0 else 1) ∧
      ∀ d ∈ ([⟨2, 1, 0, 0⟩, ⟨1, 1, 0, 0⟩] : List ChannelDescriptor),
        messagesOf d.id l.delivered <+: messagesOf d.id l.accepted ∧
        (l.wire = [] → (∀ ch ∈ l.sender, ch.sendQueue = [] ∧ ch.sending = []) →
          messagesOf d.id l.delivered = messagesOf d.id l.accepted) := by
  obtain ⟨channels, hch⟩ : ∃ channels, newMConnection 1024 [⟨2, 1, 0, 0⟩, ⟨1, 1, 0, 0⟩] = some channels :=
    ⟨_, rfl⟩
  have hfit : ∀ st ∈ twoMessages,
      Fits (([⟨2, 1, 0, 0⟩, ⟨1, 1, 0, 0⟩] : List ChannelDescriptor).map ChannelDescriptor.fillDefaults) st := by
    simp only [twoMessages, List.mem_cons, List.not_mem_nil, or_false, forall_eq_or_imp, forall_eq, Fits]
    decide
  exact ⟨channels, hch, run_delivered (fun _ => 0) hch (by decide) (by decide) (by decide) hfit⟩

end Ostracon.P2p.Conn
