import Ostracon.Crypto.Keys
/-!
# An ideal signature scheme

A concrete `Primitives` in which a signature is the record of what it signs:
an individual signature names one key and one message, and adding BLS
signatures concatenates their records.  A signature verifies exactly when it
is the record of the key's holder signing the message, and an aggregate
verifies exactly for the keys and messages it was added up from.  It stands
for the unforgeable schemes the code relies on, and it makes the statements
that assume them satisfiable.
-/

namespace Ostracon.Crypto

open Ostracon.Crypto.Merkle

/-- `SignatureSize` of each leaf algorithm. -/
def signatureSize : KeyType → Nat
  | .ed25519 => 64
  | .secp256k1 => 64
  | .sr25519 => 64
  | .bls => 96

/-- A signature of the ideal scheme: its length in bytes and the pairs of key
and message it signs. -/
structure IdealSig (K M : Type) where
  len : Nat
  signed : List (K × M)
  deriving DecidableEq, Repr

section Ideal

variable {K M : Type} [DecidableEq K] [DecidableEq M]

/-- The signature of the holder of the leaf key `key` of algorithm `type` on
`msg`. -/
def IdealSig.sign (type : KeyType) (key : K) (msg : M) : IdealSig K M :=
  ⟨signatureSize type, [(key, msg)]⟩

/-- The leaf key a public key signs with: composite keys sign with their
signing key. -/
def PubKey.signingLeaf : PubKey K → KeyType × K
  | .leaf type key => (type, key)
  | .composite signKey _ => signKey.signingLeaf

/-- The ideal scheme, with the given addresses of keys. -/
def idealPrimitives (address : PubKey K → Bytes) : Primitives K M (IdealSig K M) where
  verifyLeaf type key msg sig := decide (sig = IdealSig.sign type key msg)
  address := address
  sigLen sig := sig.len
  blsAdd a b := some ⟨a.len, a.signed ++ b.signed⟩
  blsVerifyAggregate aggr pubKeys msgs := decide (aggr.signed = pubKeys.zip msgs)

/-- The holder's signature of a key, as `PrivKey.Sign` produces it. -/
def PubKey.idealSign (pubKey : PubKey K) (msg : M) : IdealSig K M :=
  IdealSig.sign pubKey.signingLeaf.1 pubKey.signingLeaf.2 msg

end Ideal

/-! ## What the code assumes of the algorithms -/

section Sound

variable {K M S : Type}

/-- What rebuilding a vote set from a commit asks of the algorithms: every
`VerifySignature` checks the length of the signature first, and BLS
signatures that verify one by one add up, in order, to an aggregate that
verifies for their keys and messages. -/
structure SoundPrimitives (c : Primitives K M S) : Prop where
  sigLen_of_verifyLeaf : ∀ {type key msg sig}, c.verifyLeaf type key msg sig = true →
    c.sigLen sig = signatureSize type
  verifyAggregate_one : ∀ {key msg sig}, c.verifyLeaf .bls key msg sig = true →
    c.blsVerifyAggregate sig [key] [msg] = true
  verifyAggregate_add : ∀ {aggr aggr' : S} {keys : List K} {msgs : List M} {key msg sig},
    keys.length = msgs.length → c.blsVerifyAggregate aggr keys msgs = true →
    c.verifyLeaf .bls key msg sig = true → c.blsAdd aggr sig = some aggr' →
    c.blsVerifyAggregate aggr' (keys ++ [key]) (msgs ++ [msg]) = true

theorem verifySignature_eq_signingLeaf (c : Primitives K M S) (pubKey : PubKey K) (msg : M) (sig : S) :
    pubKey.verifySignature c msg sig = c.verifyLeaf pubKey.signingLeaf.1 pubKey.signingLeaf.2 msg sig := by
  induction pubKey with
  | leaf type key => rfl
  | composite signKey vrfKey ih => exact ih

theorem getSignatureKey_eq_signingLeaf (pubKey : PubKey K) :
    getSignatureKey pubKey =
      if pubKey.signingLeaf.1 = .bls then some pubKey.signingLeaf.2 else none := by
  induction pubKey with
  | leaf type key => cases type <;> rfl
  | composite signKey vrfKey ih => exact ih

theorem signatureSize_eq_iff (type : KeyType) : signatureSize type = blsSignatureSize ↔ type = .bls := by
  cases type <;> decide

variable {c : Primitives K M S} (hc : SoundPrimitives c) {pubKey : PubKey K} {msg : M} {sig : S}
include hc

theorem SoundPrimitives.getSignatureKey_isSome_iff (h : pubKey.verifySignature c msg sig = true) :
    (getSignatureKey pubKey).isSome ↔ c.sigLen sig = blsSignatureSize := by
  rw [verifySignature_eq_signingLeaf] at h
  rw [getSignatureKey_eq_signingLeaf, hc.sigLen_of_verifyLeaf h, signatureSize_eq_iff]
  split_ifs with hbls <;> simp [hbls]

omit hc in
theorem verifyLeaf_of_getSignatureKey {key : K} (h : pubKey.verifySignature c msg sig = true)
    (hkey : getSignatureKey pubKey = some key) : c.verifyLeaf .bls key msg sig = true := by
  rw [verifySignature_eq_signingLeaf] at h
  rw [getSignatureKey_eq_signingLeaf] at hkey
  split_ifs at hkey with hbls
  rw [← Option.some.inj hkey, ← hbls]
  exact h

end Sound

theorem idealPrimitives_sound {K M : Type} [DecidableEq K] [DecidableEq M] (address : PubKey K → Bytes) :
    SoundPrimitives (idealPrimitives (M := M) address) := by
  refine ⟨fun h => ?_, fun h => ?_, fun hlen hagg h hadd => ?_⟩
  · simp only [idealPrimitives, decide_eq_true_eq] at h
    rw [h]
    rfl
  · simp only [idealPrimitives, decide_eq_true_eq] at h ⊢
    rw [h]
    rfl
  · simp only [idealPrimitives, decide_eq_true_eq, Option.some.injEq] at hagg h hadd ⊢
    rw [← hadd, h, hagg, List.zip_append hlen]
    rfl

end Ostracon.Crypto
