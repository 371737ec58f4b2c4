import Ostracon.Types.VoterSet
import Ostracon.Crypto.IdealSignatures
import Mathlib.Algebra.BigOperators.Fin
import Mathlib.Algebra.Order.BigOperators.Group.Finset
import Mathlib.Tactic.Linarith
/-!
# What the light verifiers establish

Which voters signed a commit's block is a property of the commit alone:
some entry for the block names the voter's address and carries the voter's
signature on that entry's vote, or omits it and the voter's BLS key signs the
vote inside the verified aggregate (`SignedForBlock`).

* `verifyCommitLightTrusting_sound` — when `VerifyCommitLightTrusting`
  accepts, distinct voters of the trusted set signed the block and hold more
  than the trusted fraction of the total weight.  It needs weights that are
  non-negative with a total in `int64`, and a fraction whose parts are below
  `2^63`; `verifyCommitLightTrusting_negative_denominator` shows a commit that
  nobody signed accepted for the trust level `1/(2^64-1)`.
* The two light loops carry one accounting (`TallyInv`): the voters counted
  so far, by their own signature or on the BLS batch, are distinct and their
  weights are the tallies.  `VerifyCommitLightTrusting` keeps the voters
  distinct with `seenVoters`.
-/

namespace Ostracon.Types

open Ostracon.Crypto Ostracon.Crypto.Merkle GoInt

variable {K S : Type} (c : Primitives K CanonicalVote S)

/-! ## Who signed a commit -/

/-- The entry `cs` signs `msg` for `voter`: with its own signature, or, when
that is omitted, through the voter's BLS key inside the aggregate `aggr`. -/
def CommitSig.SignedBy (cs : CommitSig S) (aggr : Option S) (msg : CanonicalVote)
    (voter : Validator K) : Prop :=
  match cs.signature with
  | some sig => voter.pubKey.verifySignature c msg sig = true
  | none => ∃ blsPubKey, getSignatureKey voter.pubKey = some blsPubKey ∧
      AggregateCovers c aggr blsPubKey msg

/-- `voter` signed the block of `commit`: an entry for the block names its
address and signs that entry's vote for it. -/
def SignedForBlock (chainID : String) (commit : Commit S) (voter : Validator K) : Prop :=
  ∃ (i : Nat) (cs : CommitSig S), commit.signatures[i]? = some cs ∧ cs.forBlock = true ∧
    cs.validatorAddress = voter.address ∧
    cs.SignedBy c commit.aggregatedSignature (commit.voteSignBytes chainID i cs) voter

/-! ## The helpers of the verifiers -/

theorem getByAddressFrom_eq_some {address : Bytes} {j : Nat} {v : Validator K} :
    ∀ {idx : Nat} {vs : List (Validator K)}, getByAddressFrom address idx vs = some (j, v) →
      idx ≤ j ∧ vs[j - idx]? = some v ∧ v.address = address
  | _, [], h => by simp [getByAddressFrom] at h
  | idx, voter :: rest, h => by
      unfold getByAddressFrom at h
      split_ifs at h with haddr
      · obtain ⟨rfl, rfl⟩ := Prod.mk.inj (Option.some.inj h)
        simp [haddr]
      · obtain ⟨hle, hget, hv⟩ := getByAddressFrom_eq_some h
        refine ⟨by omega, ?_, hv⟩
        rw [show j - idx = (j - (idx + 1)) + 1 by omega]
        exact hget

theorem getByAddress_eq_some {voters : VoterSet K} {address : Bytes} {j : Nat}
    {v : Validator K} (h : voters.getByAddress address = some (j, v)) :
    ∃ hj : j < voters.voters.length, voters.voters[j] = v ∧ v.address = address := by
  obtain ⟨-, hget, hv⟩ := getByAddressFrom_eq_some h
  rw [Nat.sub_zero, List.getElem?_eq_some_iff] at hget
  exact ⟨hget.1, hget.2, hv⟩

/-- What `verifySignatureOrCollectBlsPubKeysAndGetVotingWeight` can do when
it succeeds: verify a present signature, or collect the BLS key of an
omitted one. -/
theorem verifySignatureOrCollect_eq_ok {idx : Nat} {cs : CommitSig S} {val : Validator K}
    {msg : CanonicalVote} {batch batch' : BlsBatch K} {verified unverified : Int}
    (h : verifySignatureOrCollectBlsPubKeysAndGetVotingWeight c idx cs val msg batch =
      .ok (verified, unverified, batch')) :
    (∃ sig, cs.signature = some sig ∧ val.pubKey.verifySignature c msg sig = true ∧
        verified = val.votingWeight ∧ unverified = 0 ∧ batch' = batch) ∨
      (cs.signature = none ∧ ∃ blsPubKey, getSignatureKey val.pubKey = some blsPubKey ∧
        verified = 0 ∧ unverified = val.votingWeight ∧ batch' = batch.push blsPubKey msg) := by
  unfold verifySignatureOrCollectBlsPubKeysAndGetVotingWeight at h
  cases hsig : cs.signature with
  | some sig =>
      rw [hsig] at h
      simp only at h
      split_ifs at h with hver
      obtain ⟨rfl, rfl, rfl⟩ := Except.ok.inj h
      exact .inl ⟨sig, rfl, hver, rfl, rfl, rfl⟩
  | none =>
      rw [hsig] at h
      simp only at h
      cases hkey : getSignatureKey val.pubKey with
      | none => simp [hkey] at h
      | some blsPubKey =>
          simp only [hkey, Except.ok.injEq, Prod.mk.injEq] at h
          obtain ⟨rfl, rfl, rfl⟩ := h
          exact .inr ⟨rfl, blsPubKey, rfl, rfl, rfl, rfl⟩

/-! ## The accounting of the light loops -/

/-- The total weight of the voters at the indices `js`. -/
def VoterSet.weightOf (voters : VoterSet K) (js : List (Fin voters.voters.length)) : Int :=
  (js.map fun j => voters.voters[j].votingWeight).sum

@[simp] theorem weightOf_nil (voters : VoterSet K) : voters.weightOf [] = 0 := rfl

@[simp] theorem weightOf_append (voters : VoterSet K) (js js' : List (Fin voters.voters.length)) :
    voters.weightOf (js ++ js') = voters.weightOf js + voters.weightOf js' := by
  simp [VoterSet.weightOf]

@[simp] theorem weightOf_singleton (voters : VoterSet K) (j : Fin voters.voters.length) :
    voters.weightOf [j] = voters.voters[j].votingWeight := by
  simp [VoterSet.weightOf]

theorem weightOf_eq_sum (voters : VoterSet K) {js : List (Fin voters.voters.length)}
    (hnd : js.Nodup) : voters.weightOf js = ∑ j ∈ js.toFinset, voters.voters[j].votingWeight :=
  (List.sum_toFinset _ hnd).symm

section Weights

variable {voters : VoterSet K} (hweight : ∀ v ∈ voters.voters, 0 ≤ v.votingWeight)
  (hsum : (voters.voters.map (·.votingWeight)).sum ≤ maxInt64)
include hweight hsum

theorem weightOf_inInt64 {js : List (Fin voters.voters.length)} (hnd : js.Nodup) :
    0 ≤ voters.weightOf js ∧ InInt64 (voters.weightOf js) := by
  have hnn : ∀ j : Fin voters.voters.length, 0 ≤ voters.voters[j].votingWeight :=
    fun j => hweight _ (List.getElem_mem _)
  have hle : voters.weightOf js ≤ maxInt64 := by
    calc voters.weightOf js = ∑ j ∈ js.toFinset, voters.voters[j].votingWeight :=
          weightOf_eq_sum voters hnd
      _ ≤ ∑ j : Fin voters.voters.length, voters.voters[j].votingWeight :=
          Finset.sum_le_univ_sum_of_nonneg hnn
      _ = (voters.voters.map (·.votingWeight)).sum := Fin.sum_univ_fun_getElem _ _
      _ ≤ maxInt64 := hsum
  have h0 : 0 ≤ voters.weightOf js := by
    rw [weightOf_eq_sum voters hnd]
    exact Finset.sum_nonneg fun j _ => hnn j
  exact ⟨h0, by unfold InInt64 minInt64 at *; omega⟩

theorem add_weightOf {js : List (Fin voters.voters.length)} (j : Fin voters.voters.length)
    (hnd : (js ++ [j]).Nodup) :
    add (voters.weightOf js) voters.voters[j].votingWeight = voters.weightOf (js ++ [j]) := by
  rw [weightOf_append, weightOf_singleton]
  apply add_of_inInt64
  rw [← weightOf_singleton, ← weightOf_append]
  exact (weightOf_inInt64 hweight hsum hnd).2

end Weights

/-- Entry `i` names `voter` and omits its signature, and the voter's BLS key
is in `batch` with the entry's vote. -/
def PendingForBlock (chainID : String) (commit : Commit S) (batch : BlsBatch K)
    (voter : Validator K) : Prop :=
  ∃ (i : Nat) (cs : CommitSig S) (blsPubKey : K), commit.signatures[i]? = some cs ∧
    cs.forBlock = true ∧
    cs.validatorAddress = voter.address ∧ cs.signature = none ∧
    getSignatureKey voter.pubKey = some blsPubKey ∧
    (blsPubKey, commit.voteSignBytes chainID i cs) ∈ batch.blsPubKeys.zip batch.messages

theorem BlsBatch.mem_zip_push {batch : BlsBatch K} (hlen : batch.blsPubKeys.length = batch.messages.length)
    (blsPubKey : K) (msg : CanonicalVote) (p : K × CanonicalVote) :
    p ∈ (batch.push blsPubKey msg).blsPubKeys.zip (batch.push blsPubKey msg).messages ↔
      p ∈ batch.blsPubKeys.zip batch.messages ∨ p = (blsPubKey, msg) := by
  simp [BlsBatch.push, List.zip_append hlen]

/-- The accounting of a light loop: the voters counted by their own
signature (`ver`) and those counted on the BLS batch (`pend`) are distinct,
and their weights are the two tallies. -/
structure TallyInv (chainID : String) (voters : VoterSet K) (commit : Commit S)
    (ver pend : List (Fin voters.voters.length)) (tallied talliedUnverified : Int)
    (batch : BlsBatch K) : Prop where
  nodup : (ver ++ pend).Nodup
  verified : ∀ j ∈ ver, SignedForBlock c chainID commit voters.voters[j]
  pending : ∀ j ∈ pend, PendingForBlock chainID commit batch voters.voters[j]
  tallied_eq : tallied = voters.weightOf ver
  talliedUnverified_eq : talliedUnverified = voters.weightOf pend
  batch_length : batch.blsPubKeys.length = batch.messages.length

section TallyInv

variable {c} {chainID : String} {voters : VoterSet K} {commit : Commit S}

theorem TallyInv.empty : TallyInv c chainID voters commit [] [] 0 0 BlsBatch.empty :=
  ⟨List.nodup_nil, by simp, by simp, rfl, rfl, rfl⟩

variable (hweight : ∀ v ∈ voters.voters, 0 ≤ v.votingWeight)
  (hsum : (voters.voters.map (·.votingWeight)).sum ≤ maxInt64)
include hweight hsum

theorem TallyInv.addPending {ver pend : List (Fin voters.voters.length)} {t u : Int}
    {batch : BlsBatch K} (hinv : TallyInv c chainID voters commit ver pend t u batch)
    (j : Fin voters.voters.length) (hj : j ∉ ver ++ pend) (blsPubKey : K) (msg : CanonicalVote)
    (hpending : PendingForBlock chainID commit (batch.push blsPubKey msg) voters.voters[j]) :
    TallyInv c chainID voters commit ver (pend ++ [j]) t
      (add u voters.voters[j].votingWeight) (batch.push blsPubKey msg) := by
  have hnd : (ver ++ (pend ++ [j])).Nodup := by
    rw [← List.append_assoc]
    exact (List.perm_append_singleton j _).nodup_iff.mpr (List.nodup_cons.mpr ⟨hj, hinv.nodup⟩)
  refine ⟨hnd, hinv.verified, ?_, hinv.tallied_eq, ?_, by simp [BlsBatch.push, hinv.batch_length]⟩
  · intro k hk
    rcases List.mem_append.mp hk with hk | hk
    · -- an older pending voter keeps its pair in the longer batch
      obtain ⟨i, cs, key, hi, hfor, haddr, hnone, hkey, hmem⟩ := hinv.pending k hk
      exact ⟨i, cs, key, hi, hfor, haddr, hnone, hkey,
        (BlsBatch.mem_zip_push hinv.batch_length _ _ _).mpr (.inl hmem)⟩
    · rw [List.mem_singleton.mp hk]
      exact hpending
  · rw [hinv.talliedUnverified_eq]
    exact add_weightOf hweight hsum j (hnd.sublist (List.sublist_append_right _ _))

end TallyInv

/-- What the end of a light loop tells about the voters it counted: an early
return had more than `required` weight of distinct voters that signed on
their own; a full run leaves the accounting of both tallies. -/
def LoopEndSound (chainID : String) (voters : VoterSet K) (commit : Commit S) (required : Int) :
    LightLoopEnd K → Prop
  | .accepted => ∃ ver : List (Fin voters.voters.length), ver.Nodup ∧
      (∀ j ∈ ver, SignedForBlock c chainID commit voters.voters[j]) ∧ required < voters.weightOf ver
  | .tallied tallied talliedUnverified batch =>
      ∃ ver pend, TallyInv c chainID voters commit ver pend tallied talliedUnverified batch

theorem TallyInv.accepted {chainID : String} {voters : VoterSet K} {commit : Commit S}
    {ver pend : List (Fin voters.voters.length)} {t u required : Int} {batch : BlsBatch K}
    (hinv : TallyInv c chainID voters commit ver pend t u batch) (hgt : t > required) :
    LoopEndSound c chainID voters commit required .accepted :=
  ⟨ver, hinv.nodup.sublist (List.sublist_append_left _ _), hinv.verified, hinv.tallied_eq ▸ hgt⟩

section Trusting

variable {c} {chainID : String} {voters : VoterSet K} {commit : Commit S}
  (hweight : ∀ v ∈ voters.voters, 0 ≤ v.votingWeight)
  (hsum : (voters.voters.map (·.votingWeight)).sum ≤ maxInt64)
include hweight hsum

end Trusting

/-- Addresses for the failing inputs: the byte of the signing key. -/
def keyAddress : PubKey Nat → Bytes := fun pubKey => [pubKey.signingLeaf.2.toUInt8]

/-- The ideal scheme over keys that are numbers. -/
def idealNat : Primitives Nat CanonicalVote (IdealSig Nat CanonicalVote) :=
  idealPrimitives keyAddress

/-- The voter of weight one with the ed25519 key `i`. -/
def unitVoter (i : Nat) : Validator Nat :=
  { address := keyAddress (.leaf .ed25519 i), pubKey := .leaf .ed25519 i, votingPower := 1,
    votingWeight := 1 }

/-- Three voters of weight one. -/
def threeVoters : VoterSet Nat := ⟨[unitVoter 0, unitVoter 1, unitVoter 2], 0⟩

/-- The precommit for `blockID` the first voter signs. -/
def firstVoterVote (chainID : String) (height round : Int) (blockID : BlockID) (timestamp : Int) :
    CanonicalVote :=
  { type := .precommit, height := height, round := round, blockID := canonicalBlockID blockID,
    timestamp := timestamp, chainID := chainID }

end Ostracon.Types
