import Ostracon.Crypto.Merkle
/-!
# Public keys, signatures and BLS aggregation

The key types a voter can have and what the verification code of `types`
asks of them.  The algorithms themselves (ed25519, secp256k1, sr25519 and
herumi's BLS12-381) are not modelled: `Primitives` collects them as
parameters.  What `crypto/composite` and `crypto/bls` add on top of the
algorithms is modelled:

* `PubKey.verifySignature` — a composite key verifies with its signing key;
* `getSignatureKey` — `GetSignatureKey` in `types/block.go`, the BLS key a
  voter signs with, through any nesting of composite keys;
* `addSignature` and `verifyAggregatedSignature` — the size checks and the
  `nil` cases of `bls.AddSignature` and `bls.VerifyAggregatedSignature`
  around the pairing check.

Signed messages are kept abstract (`M`); the vote code instantiates them
with canonical votes.
-/

namespace Ostracon.Crypto

open Ostracon.Crypto.Merkle

/-- The algorithms of the leaf key types. -/
inductive KeyType
  | ed25519
  | secp256k1
  | sr25519
  | bls
  deriving DecidableEq, Repr

/-- `crypto.PubKey`: a leaf key, or a `composite.PubKey` with its signing
key and its VRF key. -/
inductive PubKey (K : Type)
  | leaf (type : KeyType) (key : K)
  | composite (signKey vrfKey : PubKey K)
  deriving DecidableEq, Repr

/-- The primitives the model takes from the cryptographic libraries, over
key material `K`, messages `M` and signatures `S`. -/
structure Primitives (K M S : Type) where
  /-- `VerifySignature` of a leaf key. -/
  verifyLeaf : KeyType → K → M → S → Bool
  /-- `PubKey.Address()`. -/
  address : PubKey K → Bytes
  /-- `len(sig)` of a signature's bytes. -/
  sigLen : S → Nat
  /-- herumi's `Deserialize` of two signatures followed by `Add`; `none` when
  one does not deserialize. -/
  blsAdd : S → S → Option S
  /-- `Deserialize` of the aggregate and of the keys, and
  `VerifyAggregateHashes` over the hashes of the messages. -/
  blsVerifyAggregate : S → List K → List M → Bool

variable {K M S : Type}

/-- `PubKey.VerifySignature`; `composite.PubKey` delegates to its signing key. -/
def PubKey.verifySignature (c : Primitives K M S) : PubKey K → M → S → Bool
  | .leaf type key, msg, sig => c.verifyLeaf type key msg sig
  | .composite signKey _, msg, sig => signKey.verifySignature c msg sig

/-- `GetSignatureKey`: the BLS key behind a public key, unwrapping composite
keys through their signing key. -/
def getSignatureKey : PubKey K → Option K
  | .leaf .bls key => some key
  | .leaf _ _ => none
  | .composite signKey _ => getSignatureKey signKey

/-- `bls.SignatureSize`. -/
def blsSignatureSize : Nat := 96

/-- The errors of `bls.AddSignature` and `bls.VerifyAggregatedSignature`. -/
inductive BlsError
  /-- "invalid BLS signature: aggregated signature size %d is not valid size %d" -/
  | aggregateSize (got : Nat)
  /-- "invalid BLS signature: signature size %d is not valid size %d" -/
  | signatureSize (got : Nat)
  /-- an error of herumi's `Deserialize` -/
  | deserialize
  /-- "the number of public keys %d doesn't match the one of messages %d" -/
  | lengthMismatch (keys msgs : Nat)
  /-- "the aggregate signature was omitted, even though %d public keys were specified" -/
  | omitted (keys : Nat)
  /-- a `Deserialize` error, or "failed to verify the aggregated hashes by %d public keys" -/
  | failed (keys : Nat)
  deriving DecidableEq, Repr

/-- `bls.AddSignature` for a non-`nil` aggregate, the only way
`Commit.AggregateSignatures` calls it. -/
def addSignature (c : Primitives K M S) (init signature : S) : Except BlsError S :=
  if c.sigLen init ≠ blsSignatureSize then .error (.aggregateSize (c.sigLen init))
  else if c.sigLen signature ≠ blsSignatureSize then .error (.signatureSize (c.sigLen signature))
  else
    match c.blsAdd init signature with
    | none => .error .deserialize
    | some aggr => .ok aggr

/-- `bls.VerifyAggregatedSignature`; a `nil` aggregate passes only for no keys. -/
def verifyAggregatedSignature (c : Primitives K M S) (aggregatedSignature : Option S)
    (pubKeys : List K) (msgs : List M) : Except BlsError Unit :=
  if pubKeys.length ≠ msgs.length then .error (.lengthMismatch pubKeys.length msgs.length)
  else
    match aggregatedSignature with
    | none => if pubKeys.length = 0 then .ok () else .error (.omitted pubKeys.length)
    | some aggr =>
        if c.blsVerifyAggregate aggr pubKeys msgs then .ok () else .error (.failed pubKeys.length)

/-- The signature of `key` on `msg` is inside the aggregate: the aggregate
verifies for lists of keys and messages that pair `key` with `msg`. -/
def AggregateCovers (c : Primitives K M S) (aggregatedSignature : Option S) (key : K)
    (msg : M) : Prop :=
  ∃ aggr pubKeys msgs, aggregatedSignature = some aggr ∧
    c.blsVerifyAggregate aggr pubKeys msgs = true ∧ (key, msg) ∈ pubKeys.zip msgs

@[simp] theorem verifySignature_composite (c : Primitives K M S) (signKey vrfKey : PubKey K)
    (msg : M) (sig : S) :
    (PubKey.composite signKey vrfKey).verifySignature c msg sig = signKey.verifySignature c msg sig :=
  rfl

@[simp] theorem getSignatureKey_composite (signKey vrfKey : PubKey K) :
    getSignatureKey (PubKey.composite signKey vrfKey) = getSignatureKey signKey := rfl

end Ostracon.Crypto
