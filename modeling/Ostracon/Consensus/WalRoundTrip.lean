import Ostracon.Consensus.Wal
import Ostracon.Bits.Shape
/-!
# What the WAL's frames give back

`Decode` inverts `Encode`, message after message, for every message whose
consensus message passes `ValidateBasic` and has every bit array present and
well formed, whose `timeoutInfo` step is a `uint8`, and whose protobuf data is
at most `maxMsgSizeBytes` (`decodeAll_encodeAll`).

The bit arrays are where it breaks.  A `ProposalPOL` array of positive size
without words passes `ValidateBasic`, yet `ToProto` makes it `nil` and
`MsgToProto` dereferences that: `Encode` panics
(`encode_panics_on_proposalPOL_without_words`).
-/

namespace Ostracon.Consensus

open Ostracon.Types Ostracon.Bits

/-! ## What `ValidateBasic` guarantees -/

theorem ok_of_bind_eq_ok {ε : Type} {a b : Except ε Unit} (h : (a >>= fun _ => b) = .ok ()) :
    a = .ok () ∧ b = .ok () := by
  cases a with
  | error e => cases h
  | ok u => exact ⟨rfl, h⟩

theorem not_of_ite_throw_bind {ε : Type} {c : Prop} [Decidable c] {e : ε} {k : Unit → Except ε Unit}
    {k' : Except ε Unit} (h : (if c then throw e >>= k else k') = .ok ()) : ¬ c := fun hc => by
  rw [if_pos hc] at h
  cases h

theorem eq_ok_of_mapError_eq_ok {ε : Type} {e : Except ε Unit} {f : ε → ε} (h : e.mapError f = .ok ()) :
    e = .ok () := by
  cases e with
  | error x => cases h
  | ok u => rfl

theorem NewRoundStepMessage.isValidStep_of_validateBasic {m : NewRoundStepMessage}
    (h : m.validateBasic = .ok ()) : isValidStep m.step = true := by
  unfold NewRoundStepMessage.validateBasic at h
  obtain ⟨-, h⟩ := ok_of_bind_eq_ok h
  obtain ⟨-, h⟩ := ok_of_bind_eq_ok h
  simpa using not_of_ite_throw_bind h

theorem NewValidBlockMessage.of_validateBasic {m : NewValidBlockMessage} (h : m.validateBasic = .ok ()) :
    m.blockPartSetHeader.validateBasic = .ok () ∧ m.blockParts.size ≠ 0 := by
  unfold NewValidBlockMessage.validateBasic at h
  obtain ⟨-, h⟩ := ok_of_bind_eq_ok h
  obtain ⟨-, h⟩ := ok_of_bind_eq_ok h
  obtain ⟨hpsh, h⟩ := ok_of_bind_eq_ok h
  exact ⟨eq_ok_of_mapError_eq_ok hpsh, not_of_ite_throw_bind h⟩

theorem ProposalPOLMessage.size_ne_zero_of_validateBasic {m : ProposalPOLMessage}
    (h : m.validateBasic = .ok ()) : m.proposalPOL.size ≠ 0 := by
  unfold ProposalPOLMessage.validateBasic at h
  obtain ⟨-, h⟩ := ok_of_bind_eq_ok h
  obtain ⟨-, h⟩ := ok_of_bind_eq_ok h
  exact not_of_ite_throw_bind h

theorem VoteSetMaj23Message.blockID_of_validateBasic {m : VoteSetMaj23Message}
    (h : m.validateBasic = .ok ()) : m.blockID.validateBasicError = .ok () := by
  unfold VoteSetMaj23Message.validateBasic at h
  obtain ⟨-, h⟩ := ok_of_bind_eq_ok h
  obtain ⟨-, h⟩ := ok_of_bind_eq_ok h
  dsimp only at h
  -- the type check passes, then the block ID's
  by_cases ht : (!m.type.isVoteTypeValid) = true
  · rw [if_pos ht] at h
    cases h
  · rw [if_neg ht] at h
    exact eq_ok_of_mapError_eq_ok h

theorem VoteSetBitsMessage.blockID_of_validateBasic {m : VoteSetBitsMessage}
    (h : m.validateBasic = .ok ()) : m.blockID.validateBasicError = .ok () := by
  unfold VoteSetBitsMessage.validateBasic at h
  obtain ⟨-, h⟩ := ok_of_bind_eq_ok h
  dsimp only at h
  by_cases ht : (!m.type.isVoteTypeValid) = true
  · rw [if_pos ht] at h
    cases h
  · rw [if_neg ht] at h
    exact eq_ok_of_mapError_eq_ok (ok_of_bind_eq_ok h).1

/-! ## The conversions invert each other -/

theorem safeConvertUint8_of_lt {n : Nat} (h : n < 256) : safeConvertUint8 n = .ok n := by
  rw [safeConvertUint8, if_neg (by omega), if_neg (by omega), Int.toNat_natCast]

theorem partSetHeaderFromProto_of_validateBasic {psh : PartSetHeader} (h : psh.validateBasic = .ok ()) :
    partSetHeaderFromProto psh = .ok psh := by
  simp only [partSetHeaderFromProto, h]
  rfl

theorem blockIDFromProto_of_validateBasicError {bID : BlockID} (h : bID.validateBasicError = .ok ()) :
    blockIDFromProto bID = .ok bID := by
  unfold BlockID.validateBasicError at h
  by_cases hh : validateHash bID.hash = true
  · rw [if_pos hh] at h
    have hpsh := eq_ok_of_mapError_eq_ok h
    simp only [blockIDFromProto, partSetHeaderFromProto_of_validateBasic hpsh]
    -- the block ID rebuilt from its fields passes its check again
    show (bID.validateBasicError >>= fun _ => pure bID) = .ok bID
    rw [BlockID.validateBasicError, if_pos hh, h]
    rfl
  · rw [if_neg hh] at h
    cases h

theorem msgFromProto_of_toMessage {pm : ProtoMessage} {msg : Message} (h : pm.toMessage = .ok msg)
    (hv : msg.validateBasic = .ok ()) : msgFromProto (some pm) = .ok msg := by
  simp only [msgFromProto, h]
  show (msg.validateBasic >>= fun _ => pure msg) = .ok msg
  rw [hv]
  rfl

theorem zero_fromProto_getD {b : BitArray} (hb : b.WF) :
    BitArray.zero.fromProto (some ((BitArrayPtr.toProto (some b)).getD ⟨0, []⟩)) = b := by
  cases hp : BitArrayPtr.toProto (some b) with
  | some p =>
    have hback := BitArrayPtr.fromProto_toProto hb
    rw [hp] at hback
    rw [Option.getD_some, hback]
  | none =>
    have hnil : b.elems = [] := by
      simp only [BitArrayPtr.toProto] at hp
      split_ifs at hp with hlen
      exact List.eq_nil_of_length_eq_zero hlen
    have hbits := hb.eq_nil_iff.mp hnil
    obtain ⟨bits, elems⟩ := b
    dsimp only at hnil hbits
    subst hnil hbits
    rfl

/-- Every bit array of the message is there and well formed. -/
def Message.BitsWF : Message → Prop
  | .newValidBlock m => ∃ b, m.blockParts = some b ∧ b.WF
  | .proposalPOL m => ∃ b, m.proposalPOL = some b ∧ b.WF
  | .voteSetBits m => ∃ b, m.votes = some b ∧ b.WF
  | _ => True

theorem msgFromProto_msgToProto {msg : Message} (hv : msg.validateBasic = .ok ()) (hwf : msg.BitsWF) :
    ∃ pm, msgToProto (some msg) = some (.ok pm) ∧ msgFromProto (some pm) = .ok msg := by
  cases msg with
  | newRoundStep m =>
    refine ⟨_, rfl, msgFromProto_of_toMessage ?_ hv⟩
    have hstep : m.step < 256 := by
      have hvalid := NewRoundStepMessage.isValidStep_of_validateBasic hv
      simp only [isValidStep, Bool.and_eq_true, decide_eq_true_eq] at hvalid
      omega
    simp only [ProtoMessage.toMessage, safeConvertUint8_of_lt hstep]
    rfl
  | newValidBlock m =>
    obtain ⟨b, hb, hwf⟩ := hwf
    obtain ⟨height, round, psh, blockParts, isCommit⟩ := m
    subst hb
    refine ⟨_, rfl, msgFromProto_of_toMessage ?_ hv⟩
    have hpsh := (NewValidBlockMessage.of_validateBasic hv).1
    simp only [ProtoMessage.toMessage, partSetHeaderFromProto_of_validateBasic hpsh,
      BitArrayPtr.fromProto_toProto hwf]
    rfl
  | proposalPOL m =>
    obtain ⟨⟨bits, elems⟩, hb, hwf⟩ := hwf
    obtain ⟨height, round, pol⟩ := m
    subst hb
    -- an array of positive size has words, so `ToProto` does not return `nil`
    have hsize := ProposalPOLMessage.size_ne_zero_of_validateBasic hv
    rw [BitArrayPtr.size] at hsize
    have hne : elems.length ≠ 0 := fun hlen => hsize (hwf.eq_nil_iff.mp (List.eq_nil_of_length_eq_zero hlen))
    refine ⟨.proposalPol ⟨height, round, ⟨bits, elems⟩⟩,
      by simp only [msgToProto, BitArrayPtr.toProto, if_neg hne, Option.map_some], ?_⟩
    refine msgFromProto_of_toMessage ?_ hv
    simp only [ProtoMessage.toMessage, BitArray.zero_fromProto]
    rfl
  | hasVote m => exact ⟨_, rfl, msgFromProto_of_toMessage rfl hv⟩
  | voteSetMaj23 m =>
    refine ⟨_, rfl, msgFromProto_of_toMessage ?_ hv⟩
    simp only [ProtoMessage.toMessage,
      blockIDFromProto_of_validateBasicError (VoteSetMaj23Message.blockID_of_validateBasic hv)]
    rfl
  | voteSetBits m =>
    obtain ⟨b, hb, hwf⟩ := hwf
    obtain ⟨height, round, type, blockID, votes⟩ := m
    subst hb
    refine ⟨_, rfl, msgFromProto_of_toMessage ?_ hv⟩
    simp only [ProtoMessage.toMessage,
      blockIDFromProto_of_validateBasicError (VoteSetBitsMessage.blockID_of_validateBasic hv),
      zero_fromProto_getD hwf]
    rfl

namespace Wal

/-- What the round trip needs of a WAL message: a consensus message that passes
`ValidateBasic` with its bit arrays there and well formed, and a `uint8`
timeout step. -/
def WALMessage.WF : WALMessage → Prop
  | .eventDataRoundState _ => True
  | .msgInfo m => ∃ msg, m.msg = some msg ∧ msg.validateBasic = .ok () ∧ msg.BitsWF
  | .timeoutInfo m => m.step < 256
  | .endHeight _ => True

theorem walFromProto_walToProto {m : WALMessage} (h : m.WF) :
    ∃ pb, walToProto m = some (.ok pb) ∧ walFromProto (some pb) = .ok m := by
  cases m with
  | eventDataRoundState m => exact ⟨_, rfl, rfl⟩
  | msgInfo m =>
    obtain ⟨msg, hmsg, hv, hwf⟩ := h
    obtain ⟨pm, hto, hfrom⟩ := msgFromProto_msgToProto hv hwf
    refine ⟨_, by simp only [walToProto, hmsg, hto, Option.map_some]; rfl, ?_⟩
    simp only [walFromProto, hfrom, ← hmsg]
  | timeoutInfo m =>
    refine ⟨_, rfl, ?_⟩
    simp only [walFromProto, safeConvertUint8_of_lt (show m.step < 256 from h)]
  | endHeight m => exact ⟨_, rfl, rfl⟩

/-! ## Frames -/

variable {codec : ByteReader.Codec ProtoTimedWALMessage} {crc32c : List UInt8 → UInt32}

theorem maxMsgSizeBytes_lt : maxMsgSizeBytes < 2 ^ 32 := by decide

theorem encode_eq {v : TimedWALMessage} {pb : ProtoWALMessage} {data : List UInt8}
    (hpb : walToProto v.msg = some (.ok pb)) (hdata : codec.marshal ⟨v.time, some pb⟩ = .ok data)
    (hlen : data.length ≤ maxMsgSizeBytes) :
    encode codec crc32c v =
      some (.ok (ByteOrder.putBE 4 (crc32c data).toNat ++ ByteOrder.putBE 4 data.length ++ data)) := by
  have hmod : data.length % 2 ^ 32 = data.length := Nat.mod_eq_of_lt (by have := maxMsgSizeBytes_lt; omega)
  simp only [encode, hpb, hdata, hmod, if_neg (Nat.not_lt.mpr hlen), List.take_length]

theorem decode_frame {data : List UInt8} (hlen : data.length ≤ maxMsgSizeBytes)
    (rest : List UInt8) :
    decode codec crc32c (ByteOrder.putBE 4 (crc32c data).toNat ++ ByteOrder.putBE 4 data.length ++ data ++ rest) =
      decodeData codec crc32c (crc32c data).toNat data.length (data ++ rest) := by
  have hcrc : ByteOrder.getBE (ByteOrder.putBE 4 (crc32c data).toNat) = (crc32c data).toNat := by
    rw [ByteOrder.getBE_putBE, Nat.mod_eq_of_lt (Nat.lt_of_lt_of_eq (crc32c data).toNat_lt (by decide))]
  have hlength : ByteOrder.getBE (ByteOrder.putBE 4 data.length) = data.length := by
    rw [ByteOrder.getBE_putBE, Nat.mod_eq_of_lt (by have := maxMsgSizeBytes_lt; omega)]
  rw [List.append_assoc, List.append_assoc, decode, ByteReader.read_putBE (by decide)]
  dsimp only
  rw [decodeLength, ByteReader.read_putBE (by decide)]
  dsimp only
  rw [hcrc, hlength, if_neg (Nat.not_lt.mpr hlen)]

theorem decodeData_of_unmarshal {data : List UInt8} (hne : data ≠ []) {time : Int} {pb : ProtoWALMessage}
    {m : WALMessage} (hun : codec.unmarshal data = .ok ⟨time, some pb⟩) (hfrom : walFromProto (some pb) = .ok m)
    (rest : List UInt8) :
    decodeData codec crc32c (crc32c data).toNat data.length (data ++ rest) = (.ok ⟨time, m⟩, rest) := by
  rw [decodeData, ByteReader.read_append hne]
  simp only [ne_eq, not_true_eq_false, if_false, hun, hfrom]

theorem decodeAll_of_decode_ok {rd rest : List UInt8} {v : TimedWALMessage}
    (h : decode codec crc32c rd = (.ok v, rest)) : decodeAll codec crc32c rd = .ok v :: decodeAll codec crc32c rest := by
  rw [decodeAll]
  split <;> simp_all

theorem decodeAll_nil : decodeAll codec crc32c [] = [] := by
  rw [decodeAll]
  split <;> simp_all

/-- Writing messages with `Encode` and reading them back with `Decode` until
`io.EOF` gives the messages, in order. -/
theorem decodeAll_encodeAll (hcodec : codec.Lawful) (msgs : List TimedWALMessage) (hwf : ∀ v ∈ msgs, v.msg.WF)
    (hsize : ∀ v ∈ msgs, ∀ pb, walToProto v.msg = some (.ok pb) →
      ∃ data, codec.marshal ⟨v.time, some pb⟩ = .ok data ∧ data.length ≤ maxMsgSizeBytes) :
    ∃ bytes, encodeAll codec crc32c msgs = some (.ok bytes) ∧ decodeAll codec crc32c bytes = msgs.map .ok := by
  induction msgs with
  | nil => exact ⟨[], rfl, decodeAll_nil⟩
  | cons v vs ih =>
    obtain ⟨bytes, henc, hdec⟩ := ih (fun w hw => hwf w (List.mem_cons_of_mem _ hw))
      (fun w hw => hsize w (List.mem_cons_of_mem _ hw))
    obtain ⟨pb, hto, hfrom⟩ := walFromProto_walToProto (hwf v List.mem_cons_self)
    obtain ⟨data, hdata, hlen⟩ := hsize v List.mem_cons_self pb hto
    have hne := hcodec.ne_nil hdata
    -- the first frame decodes to the first message, and the rest as before
    have hv : decode codec crc32c
        ((ByteOrder.putBE 4 (crc32c data).toNat ++ ByteOrder.putBE 4 data.length ++ data) ++ bytes) = (.ok v, bytes) := by
      rw [decode_frame hlen, decodeData_of_unmarshal hne (hcodec.unmarshal_marshal hdata) hfrom]
    refine ⟨(ByteOrder.putBE 4 (crc32c data).toNat ++ ByteOrder.putBE 4 data.length ++ data) ++ bytes, ?_, ?_⟩
    · simp only [encodeAll, encode_eq hto hdata hlen, henc, Option.map_some, Except.map]
    · rw [decodeAll_of_decode_ok hv, hdec, List.map_cons]

/-- A timeout at height 1, then the end of height 1. -/
def timeoutThenEnd : List TimedWALMessage := [⟨5, .timeoutInfo ⟨1000, 1, 0, 3⟩⟩, ⟨7, .endHeight ⟨1⟩⟩]

/-- A serializer that knows the two messages of `timeoutThenEnd`, one byte each. -/
def twoMessageCodec : ByteReader.Codec ProtoTimedWALMessage where
  marshal x :=
    if x = ⟨5, some ⟨some (.timeoutInfo ⟨1000, 1, 0, 3⟩)⟩⟩ then .ok [1]
    else if x = ⟨7, some ⟨some (.endHeight ⟨1⟩)⟩⟩ then .ok [2]
    else .error "unknown message"
  unmarshal
    | [1] => .ok ⟨5, some ⟨some (.timeoutInfo ⟨1000, 1, 0, 3⟩)⟩⟩
    | [2] => .ok ⟨7, some ⟨some (.endHeight ⟨1⟩)⟩⟩
    | _ => .error "unknown bytes"

theorem twoMessageCodec_lawful : twoMessageCodec.Lawful where
  unmarshal_marshal := by
    intro x d h
    simp only [twoMessageCodec] at h
    split_ifs at h with h1 h2 <;> cases h
    · subst h1
      rfl
    · subst h2
      rfl
  ne_nil := by
    intro x d h
    simp only [twoMessageCodec] at h
    split_ifs at h <;> cases h <;> simp

theorem decodeAll_encodeAll_timeoutThenEnd :
    ∃ bytes, encodeAll twoMessageCodec (fun _ => 0) timeoutThenEnd = some (.ok bytes) ∧
      decodeAll twoMessageCodec (fun _ => 0) bytes = timeoutThenEnd.map .ok := by
  have hwf : ∀ v ∈ timeoutThenEnd, v.msg.WF := by
    simp only [timeoutThenEnd, List.mem_cons, List.not_mem_nil, or_false, forall_eq_or_imp, forall_eq,
      WALMessage.WF]
    decide
  have hsize : ∀ v ∈ timeoutThenEnd, ∀ pb, walToProto v.msg = some (.ok pb) →
      ∃ data, twoMessageCodec.marshal ⟨v.time, some pb⟩ = .ok data ∧ data.length ≤ maxMsgSizeBytes := by
    simp only [timeoutThenEnd, List.mem_cons, List.not_mem_nil, or_false, forall_eq_or_imp, forall_eq,
      walToProto, Option.some.injEq, Except.ok.injEq, forall_eq']
    exact ⟨⟨[1], by decide, by decide⟩, ⟨[2], by decide, by decide⟩⟩
  exact decodeAll_encodeAll twoMessageCodec_lawful timeoutThenEnd hwf hsize

/-! ## A bit array without words -/

/-- A proof-of-lock message whose bit array has size five and no words passes
`ValidateBasic`, and `Encode` of it panics, whatever the serializer and the
checksum. -/
theorem encode_panics_on_proposalPOL_without_words (codec : ByteReader.Codec ProtoTimedWALMessage)
    (crc32c : List UInt8 → UInt32) :
    (Message.proposalPOL ⟨0, 0, some ⟨5, []⟩⟩).validateBasic = .ok () ∧
      encode codec crc32c ⟨0, .msgInfo ⟨some (.proposalPOL ⟨0, 0, some ⟨5, []⟩⟩), ""⟩⟩ = none :=
  ⟨by decide, rfl⟩

end Wal

end Ostracon.Consensus
