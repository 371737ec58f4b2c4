import Ostracon.Types.VoteSet
import Ostracon.Lib.WeightedSet
import Mathlib.Algebra.BigOperators.Fin
/-!
# The representation invariant of a vote set

What the two views of a `VoteSet` keep in step, from any run of `AddVote`,
`AddAggregatedVote` and `SetPeerMaj23` (`VoteSet.Inv`):

* the bit array marks the present canonical votes, each at its voter's
  index and address, and `sum` is the weight of the voters that voted;
* the votes for a block key are votes for that key, at their voter's index,
  each with a canonical vote, and their sum is their voters' weight;
* the two-thirds block keeps a quorum of votes, and each of them has a
  canonical vote for the block's key.

Each call is taken apart once, by an inversion lemma that says everything it
can do, and each part of the invariant follows from that.  The weights are
non-negative with an `int64` total, so the sums never wrap and only grow.
-/

namespace Ostracon.Types

open Ostracon.Crypto Ostracon.Crypto.Merkle GoInt WeightedSet

variable {K S : Type} {voterSet : VoterSet K}

/-- The voting weight of the voter at index `i`. -/
def VoterSet.weightAt (voterSet : VoterSet K) (i : Fin voterSet.size) : Int :=
  voterSet.voters[i].votingWeight

/-- `TotalVotingWeight()*2/3 + 1`, the weight a block needs for two thirds. -/
def VoterSet.quorum (voterSet : VoterSet K) : Option Int :=
  voterSet.totalVotingWeight.map fun total => add (div (mul total 2) 3) 1

/-- A vote in the place of voter `i`: it names the index and the voter's
address. -/
def VoteAt (voterSet : VoterSet K) (i : Fin voterSet.size) (v : Vote S) : Prop :=
  v.validatorIndex = i.val ∧ v.validatorAddress = voterSet.voters[i].address

/-- The weight of the voters whose entry in `votes` is present. -/
def votedWeight (voterSet : VoterSet K) (votes : Fin voterSet.size → Option (Vote S)) : Int :=
  weight voterSet.weightAt fun i => (votes i).isSome

/-- The votes `bv` the set `vs` keeps for the block key `k`. -/
structure BlockVotes.Inv (bv : BlockVotes S voterSet.size) (vs : VoteSet S voterSet) (k : Bytes) :
    Prop where
  bitArray_eq : ∀ i, bv.bitArray i = (bv.votes i).isSome
  sum_eq : bv.sum = votedWeight voterSet bv.votes
  votes_for : ∀ i v, bv.votes i = some v → v.blockID.key = k ∧ VoteAt voterSet i v
  canonical : ∀ i, (bv.votes i).isSome → (vs.votes i).isSome

/-- The two-thirds block `B` of `vs`: the votes for its key reach the quorum,
and each has a canonical vote for that key. -/
def Maj23Inv (vs : VoteSet S voterSet) (B : BlockID) : Prop :=
  ∃ bv q, vs.votesByBlock B.key = some bv ∧ voterSet.quorum = some q ∧ q ≤ bv.sum ∧
    ∀ i, (bv.votes i).isSome → ∃ v, vs.votes i = some v ∧ v.blockID.key = B.key

/-- The representation invariant of a vote set. -/
structure VoteSet.Inv (vs : VoteSet S voterSet) : Prop where
  bitArray_eq : ∀ i, vs.votesBitArray i = (vs.votes i).isSome
  votes_at : ∀ i v, vs.votes i = some v → VoteAt voterSet i v
  sum_eq : vs.sum = votedWeight voterSet vs.votes
  blockVotes : ∀ k bv, vs.votesByBlock k = some bv → bv.Inv vs k
  maj23 : ∀ B, vs.maj23 = some B → Maj23Inv vs B

/-! ## Weights -/

section Weights

variable (hweight : ∀ v ∈ voterSet.voters, 0 ≤ v.votingWeight)
  (hsum : (voterSet.voters.map (·.votingWeight)).sum ≤ maxInt64)
include hweight

theorem weightAt_nonneg (i : Fin voterSet.size) : 0 ≤ voterSet.weightAt i :=
  hweight _ (List.getElem_mem _)

include hsum

theorem add_votedWeight {votes votes' : Fin voterSet.size → Option (Vote S)} (i : Fin voterSet.size)
    (hi : votes i = none) (hvotes : ∀ j, (votes' j).isSome = (j = i || (votes j).isSome)) :
    add (votedWeight voterSet votes) (voterSet.weightAt i) = votedWeight voterSet votes' := by
  have hins : votedWeight voterSet votes' = votedWeight voterSet votes + voterSet.weightAt i :=
    weight_insert _ i (by simp [hi]) hvotes
  have hle : votedWeight voterSet votes' ≤ maxInt64 := by
    calc votedWeight voterSet votes' ≤ ∑ j, voterSet.weightAt j :=
          weight_le_total (weightAt_nonneg hweight) _
      _ = (voterSet.voters.map (·.votingWeight)).sum := Fin.sum_univ_fun_getElem _ _
      _ ≤ maxInt64 := hsum
  have h0 : 0 ≤ votedWeight voterSet votes' := weight_nonneg (weightAt_nonneg hweight) _
  rw [hins] at hle h0 ⊢
  exact add_of_inInt64 ⟨by unfold minInt64; omega, hle⟩

end Weights

/-! ## A new set and `SetPeerMaj23` -/

theorem newVoteSet_inv {chainID : String} {height round : Int} {type : SignedMsgType}
    {vs : VoteSet S voterSet} (h : newVoteSet chainID height round type voterSet = some vs) :
    vs.Inv := by
  unfold newVoteSet at h
  split_ifs at h
  obtain rfl := Option.some.inj h
  exact ⟨fun _ => rfl, fun _ _ h => by simp at h, by simp [votedWeight], fun _ _ h => by simp at h,
    fun _ h => by simp at h⟩

theorem BlockVotes.Inv.withPeerMaj23 {bv : BlockVotes S voterSet.size} {vs : VoteSet S voterSet}
    {k : Bytes} (hbv : bv.Inv vs k) : ({ bv with peerMaj23 := true } : BlockVotes S _).Inv vs k :=
  ⟨hbv.bitArray_eq, hbv.sum_eq, hbv.votes_for, hbv.canonical⟩

theorem newBlockVotes_inv (vs : VoteSet S voterSet) (k : Bytes) (peerMaj23 : Bool) :
    (newBlockVotes peerMaj23 : BlockVotes S voterSet.size).Inv vs k :=
  ⟨fun _ => rfl, by simp [newBlockVotes, votedWeight], fun _ _ h => by simp [newBlockVotes] at h,
    fun _ h => by simp [newBlockVotes] at h⟩

theorem setPeerMaj23_cases (vs : VoteSet S voterSet) (peerID : P2PID) (blockID : BlockID) :
    (vs.setPeerMaj23 peerID blockID).2 = vs ∨
      (∃ bv, (vs.setPeerMaj23 peerID blockID).2 =
        { vs with
          peerMaj23s := Function.update vs.peerMaj23s peerID (some blockID)
          votesByBlock := Function.update vs.votesByBlock blockID.key (some bv) } ∧
        ((∃ bv₀, vs.votesByBlock blockID.key = some bv₀ ∧ bv = { bv₀ with peerMaj23 := true }) ∨
          (vs.votesByBlock blockID.key = none ∧ bv = newBlockVotes true))) ∨
      (vs.setPeerMaj23 peerID blockID).2 =
        { vs with peerMaj23s := Function.update vs.peerMaj23s peerID (some blockID) } := by
  unfold VoteSet.setPeerMaj23
  cases hpeer : vs.peerMaj23s peerID with
  | some existing =>
      left
      simp only
      split_ifs <;> rfl
  | none =>
      right
      simp only
      cases hbv : vs.votesByBlock blockID.key with
      | none => exact .inl ⟨_, rfl, .inr ⟨rfl, rfl⟩⟩
      | some bv₀ =>
          by_cases hclaimed : bv₀.peerMaj23 = true
          · right
            simp [hclaimed]
          · left
            exact ⟨_, by simp [hclaimed], .inl ⟨bv₀, rfl, rfl⟩⟩

theorem setPeerMaj23_inv {vs : VoteSet S voterSet} (hinv : vs.Inv) (peerID : P2PID)
    (blockID : BlockID) : (vs.setPeerMaj23 peerID blockID).2.Inv := by
  rcases setPeerMaj23_cases vs peerID blockID with h | ⟨bv, h, hbv⟩ | h <;> rw [h]
  · exact hinv
  · -- only the claimed flag of one entry of `votesByBlock` changes
    have hnew : bv.Inv vs blockID.key := by
      rcases hbv with ⟨bv₀, hbv₀, rfl⟩ | ⟨-, rfl⟩
      · exact (hinv.blockVotes _ _ hbv₀).withPeerMaj23
      · exact newBlockVotes_inv vs _ true
    have hsame : ∀ B, vs.maj23 = some B →
        (Function.update vs.votesByBlock blockID.key (some bv)) B.key =
          (vs.votesByBlock B.key).map fun bv₀ =>
            if B.key = blockID.key then { bv₀ with peerMaj23 := true } else bv₀ := by
      intro B hB
      obtain ⟨bv₀, q, hbv₀, -⟩ := hinv.maj23 B hB
      by_cases hk : B.key = blockID.key
      · rcases hbv with ⟨bv₁, hbv₁, rfl⟩ | ⟨hnone, -⟩
        · rw [hk] at hbv₀ ⊢
          rw [hbv₀] at hbv₁
          obtain rfl := Option.some.inj hbv₁
          simp [hbv₀]
        · rw [hk, hnone] at hbv₀
          cases hbv₀
      · simp [hk]
    refine ⟨hinv.bitArray_eq, hinv.votes_at, hinv.sum_eq, fun k bv' hk => ?_, fun B hB => ?_⟩
    · dsimp only at hk
      by_cases hkey : k = blockID.key
      · subst hkey
        rw [Function.update_self] at hk
        obtain rfl := Option.some.inj hk
        exact ⟨hnew.bitArray_eq, hnew.sum_eq, hnew.votes_for, hnew.canonical⟩
      · rw [Function.update_of_ne hkey] at hk
        have := hinv.blockVotes k bv' hk
        exact ⟨this.bitArray_eq, this.sum_eq, this.votes_for, this.canonical⟩
    · dsimp only at hB ⊢
      obtain ⟨bv₀, q, hbv₀, hq, hle, hcan⟩ := hinv.maj23 B hB
      refine ⟨if B.key = blockID.key then { bv₀ with peerMaj23 := true } else bv₀, q, ?_, hq, ?_, ?_⟩
      · dsimp only
        rw [hsame B hB, hbv₀]
        rfl
      · split_ifs <;> exact hle
      · intro i hi
        split_ifs at hi <;> exact hcan i hi
  · refine ⟨hinv.bitArray_eq, hinv.votes_at, hinv.sum_eq, fun k bv hk => ?_, hinv.maj23⟩
    have hbv := hinv.blockVotes k bv hk
    exact ⟨hbv.bitArray_eq, hbv.sum_eq, hbv.votes_for, hbv.canonical⟩

/-! ## `addVerifiedVote` -/

theorem getVote_eq_none {vs : VoteSet S voterSet} {i : Fin voterSet.size} {key : Bytes}
    (h : vs.getVote i key = none) :
    (∀ v, vs.votes i = some v → v.blockID.key ≠ key) ∧
      ∀ bv, vs.votesByBlock key = some bv → bv.votes i = none := by
  unfold VoteSet.getVote at h
  cases hv : vs.votes i with
  | none =>
      rw [hv] at h
      exact ⟨fun _ h' => by simp at h', fun bv hbv => by simpa [hbv] using h⟩
  | some existing =>
      rw [hv] at h
      simp only at h
      split_ifs at h with hk
      exact ⟨fun v h' => by rw [← Option.some.inj h']; exact hk, fun bv hbv => by simpa [hbv] using h⟩

theorem BlockVotes.addVerifiedVote_of_none {n : Nat} {bv : BlockVotes S n} {i : Fin n} (vote : Vote S)
    (pw : Int) (h : bv.votes i = none) :
    bv.addVerifiedVote i vote pw =
      { bv with
        bitArray := Function.update bv.bitArray i true
        votes := Function.update bv.votes i (some vote)
        sum := add bv.sum pw } := by
  simp [BlockVotes.addVerifiedVote, h]

theorem isSome_update_some {α : Type} {n : Nat} (votes : Fin n → Option α) (i : Fin n) (v : α)
    (j : Fin n) : (Function.update votes i (some v) j).isSome = (j = i || (votes j).isSome) := by
  by_cases hj : j = i
  · subst hj
    simp
  · simp [hj]

theorem addCanonicalVote_cases {vs vs₁ : VoteSet S voterSet} {vote : Vote S} {i : Fin voterSet.size}
    {key : Bytes} {pw : Int} {conflicting : Option (Vote S)}
    (h : vs.addCanonicalVote vote i key pw = some (conflicting, vs₁)) :
    (vs.votes i = none ∧ conflicting = none ∧
        vs₁ = { vs with
          votes := Function.update vs.votes i (some vote)
          votesBitArray := Function.update vs.votesBitArray i true
          sum := add vs.sum pw }) ∨
      ∃ existing, vs.votes i = some existing ∧ conflicting = some existing ∧
        ((vs.maj23.map BlockID.key = some key ∧
          vs₁ = { vs with
            votes := Function.update vs.votes i (some vote)
            votesBitArray := Function.update vs.votesBitArray i true }) ∨
        (vs.maj23.map BlockID.key ≠ some key ∧ vs₁ = vs)) := by
  unfold VoteSet.addCanonicalVote at h
  cases hv : vs.votes i with
  | none =>
      rw [hv] at h
      obtain ⟨rfl, rfl⟩ := Prod.mk.inj (Option.some.inj h)
      exact .inl ⟨rfl, rfl, rfl⟩
  | some existing =>
      rw [hv] at h
      simp only at h
      split_ifs at h with hdup hmaj
      · obtain ⟨rfl, rfl⟩ := Prod.mk.inj (Option.some.inj h)
        exact .inr ⟨existing, rfl, rfl, .inl ⟨hmaj, rfl⟩⟩
      · obtain ⟨rfl, rfl⟩ := Prod.mk.inj (Option.some.inj h)
        exact .inr ⟨existing, rfl, rfl, .inr ⟨hmaj, rfl⟩⟩

section AddVerifiedVote

variable (hweight : ∀ v ∈ voterSet.voters, 0 ≤ v.votingWeight)
  (hsum : (voterSet.voters.map (·.votingWeight)).sum ≤ maxInt64)
include hweight hsum

/-- The canonical part of `addVerifiedVote` keeps the invariant, leaves the
votes by block and the two-thirds block alone, and leaves the voter with a
canonical vote, one for the two-thirds block when the vote is for it. -/
theorem addCanonicalVote_inv {vs vs₁ : VoteSet S voterSet} (hinv : vs.Inv) {vote : Vote S}
    {i : Fin voterSet.size} {key : Bytes} {conflicting : Option (Vote S)}
    (hat : VoteAt voterSet i vote) (hkey : vote.blockID.key = key) (hget : vs.getVote i key = none)
    (h : vs.addCanonicalVote vote i key (voterSet.weightAt i) = some (conflicting, vs₁)) :
    vs₁.Inv ∧ vs₁.votesByBlock = vs.votesByBlock ∧ vs₁.maj23 = vs.maj23 ∧ (vs₁.votes i).isSome ∧
      ∀ B, vs₁.maj23 = some B → B.key = key → ∃ v, vs₁.votes i = some v ∧ v.blockID.key = key := by
  obtain ⟨-, hbvnone⟩ := getVote_eq_none hget
  rcases addCanonicalVote_cases h with ⟨hnone, -, rfl⟩ | ⟨existing, hex, -, ⟨hmaj, rfl⟩ | ⟨hmaj, rfl⟩⟩
  · -- a first vote: the voter is counted
    have hvotes := isSome_update_some vs.votes i vote
    refine ⟨⟨fun j => ?_, fun j v hv => ?_, ?_, fun k bv hbv => ?_, fun B hB => ?_⟩, rfl, rfl,
      by simp, fun B hB _ => ⟨vote, by simp, hkey⟩⟩
    · by_cases hj : j = i
      · subst hj
        simp
      · simp [Function.update_of_ne hj, hinv.bitArray_eq j]
    · by_cases hj : j = i
      · subst hj
        simp only [Function.update_self, Option.some.injEq] at hv
        exact hv ▸ hat
      · dsimp only at hv
        rw [Function.update_of_ne hj] at hv
        exact hinv.votes_at j v hv
    · dsimp only
      rw [hinv.sum_eq]
      exact add_votedWeight hweight hsum i hnone hvotes
    · have hb := hinv.blockVotes k bv hbv
      refine ⟨hb.bitArray_eq, hb.sum_eq, hb.votes_for, fun j hj => ?_⟩
      rw [hvotes j, hb.canonical j hj, Bool.or_true]
    · obtain ⟨bv, q, hbv, hq, hle, hcan⟩ := hinv.maj23 B hB
      refine ⟨bv, q, hbv, hq, hle, fun j hj => ?_⟩
      obtain ⟨v, hv, hvk⟩ := hcan j hj
      have hji : j ≠ i := fun hji => by rw [hji, hnone] at hv; cases hv
      exact ⟨v, by simp [Function.update_of_ne hji, hv], hvk⟩
  · -- a conflicting vote for the two-thirds block replaces the canonical one
    have hsome : ∀ j, (Function.update vs.votes i (some vote) j).isSome = (vs.votes j).isSome := by
      intro j
      by_cases hj : j = i
      · subst hj
        simp [hex]
      · simp [Function.update_of_ne hj]
    refine ⟨⟨fun j => ?_, fun j v hv => ?_, ?_, fun k bv hbv => ?_, fun B hB => ?_⟩, rfl, rfl,
      by simp, fun B hB _ => ⟨vote, by simp, hkey⟩⟩
    · by_cases hj : j = i
      · subst hj
        simp
      · simp [Function.update_of_ne hj, hinv.bitArray_eq j]
    · by_cases hj : j = i
      · subst hj
        simp only [Function.update_self, Option.some.injEq] at hv
        exact hv ▸ hat
      · dsimp only at hv
        rw [Function.update_of_ne hj] at hv
        exact hinv.votes_at j v hv
    · exact hinv.sum_eq.trans (weight_congr _ hsome).symm
    · have hb := hinv.blockVotes k bv hbv
      exact ⟨hb.bitArray_eq, hb.sum_eq, hb.votes_for, fun j hj => (hsome j).trans (hb.canonical j hj)⟩
    · obtain ⟨bv, q, hbv, hq, hle, hcan⟩ := hinv.maj23 B hB
      refine ⟨bv, q, hbv, hq, hle, fun j hj => ?_⟩
      by_cases hji : j = i
      · subst hji
        refine ⟨vote, by simp, ?_⟩
        dsimp only at hB
        rw [hB, Option.map_some] at hmaj
        rw [hkey, Option.some.inj hmaj]
      · obtain ⟨v, hv, hvk⟩ := hcan j hj
        exact ⟨v, by simp [Function.update_of_ne hji, hv], hvk⟩
  · -- a conflicting vote for another block leaves the canonical votes
    refine ⟨hinv, rfl, rfl, by simp [hex], fun B hB hBk => ?_⟩
    exact absurd (by simp [hB, hBk]) hmaj

theorem BlockVotes.Inv.addVerifiedVote {bv : BlockVotes S voterSet.size} {vs : VoteSet S voterSet}
    {k : Bytes} (hbv : bv.Inv vs k) {i : Fin voterSet.size} {vote : Vote S}
    (hat : VoteAt voterSet i vote) (hkey : vote.blockID.key = k) (hi : bv.votes i = none)
    (hcan : (vs.votes i).isSome) :
    (bv.addVerifiedVote i vote (voterSet.weightAt i)).Inv vs k ∧
      bv.sum ≤ (bv.addVerifiedVote i vote (voterSet.weightAt i)).sum := by
  rw [BlockVotes.addVerifiedVote_of_none vote _ hi]
  have hvotes := isSome_update_some bv.votes i vote
  have hadd := add_votedWeight hweight hsum i hi hvotes
  refine ⟨⟨fun j => ?_, ?_, fun j v hv => ?_, fun j hj => ?_⟩, ?_⟩
  · by_cases hj : j = i
    · subst hj
      simp
    · simp [Function.update_of_ne hj, hbv.bitArray_eq j]
  · dsimp only
    rw [hbv.sum_eq, hadd]
  · by_cases hj : j = i
    · subst hj
      simp only [Function.update_self, Option.some.injEq] at hv
      exact hv ▸ ⟨hkey, hat⟩
    · dsimp only at hv
      rw [Function.update_of_ne hj] at hv
      exact hbv.votes_for j v hv
  · by_cases hji : j = i
    · exact hji ▸ hcan
    · exact hbv.canonical j (by simpa [Function.update_of_ne hji] using hj)
  · -- the new sum is the old one plus a non-negative weight
    dsimp only
    rw [hbv.sum_eq, hadd]
    unfold votedWeight
    rw [weight_insert _ i (by simp [hi]) hvotes]
    exact Int.le_add_of_nonneg_right (weightAt_nonneg hweight i)

end AddVerifiedVote

theorem BlockVotes.Inv.of_isSome {bv : BlockVotes S voterSet.size} {vs vs' : VoteSet S voterSet}
    {k : Bytes} (hbv : bv.Inv vs k) (h : ∀ i, (vs.votes i).isSome → (vs'.votes i).isSome) :
    bv.Inv vs' k :=
  ⟨hbv.bitArray_eq, hbv.sum_eq, hbv.votes_for, fun i hi => h i (hbv.canonical i hi)⟩

theorem VoteSet.Inv.updateBlockVotes {vs : VoteSet S voterSet} (hinv : vs.Inv) {k : Bytes}
    {bv : BlockVotes S voterSet.size} (hbv : bv.Inv vs k)
    (hmaj : ∀ B, vs.maj23 = some B → B.key = k → ∃ q, voterSet.quorum = some q ∧ q ≤ bv.sum ∧
      ∀ i, (bv.votes i).isSome → ∃ v, vs.votes i = some v ∧ v.blockID.key = k) :
    ({ vs with votesByBlock := Function.update vs.votesByBlock k (some bv) }).Inv := by
  refine ⟨hinv.bitArray_eq, hinv.votes_at, hinv.sum_eq, fun k' bv' hk' => ?_, fun B hB => ?_⟩
  · dsimp only at hk'
    by_cases hk : k' = k
    · subst hk
      rw [Function.update_self] at hk'
      exact Option.some.inj hk' ▸ hbv.of_isSome fun _ hi => hi
    · rw [Function.update_of_ne hk] at hk'
      exact (hinv.blockVotes k' bv' hk').of_isSome fun _ hi => hi
  · dsimp only at hB
    by_cases hk : B.key = k
    · obtain ⟨q, hq, hle, hcan⟩ := hmaj B hB hk
      exact ⟨bv, q, by simp [hk], hq, hle, hk ▸ hcan⟩
    · obtain ⟨bv₀, q, hbv₀, hq, hle, hcan⟩ := hinv.maj23 B hB
      exact ⟨bv₀, q, by simp [Function.update_of_ne hk, hbv₀], hq, hle, hcan⟩

/-- Setting the two-thirds block to `B` and copying its votes into the
canonical ones keeps the invariant, once the votes for its key reach the
quorum. -/
theorem VoteSet.Inv.setMaj23 {vs : VoteSet S voterSet} (hinv : vs.Inv) {B : BlockID}
    {bv : BlockVotes S voterSet.size} {q : Int} (hbv : vs.votesByBlock B.key = some bv)
    (hq : voterSet.quorum = some q) (hle : q ≤ bv.sum) {votes : Fin voterSet.size → Option (Vote S)}
    (hcopy : ∀ i v, bv.votes i = some v → votes i = some v)
    (hkeep : ∀ i, bv.votes i = none → votes i = vs.votes i) :
    ({ vs with maj23 := some B, votes := votes }).Inv := by
  have hb := hinv.blockVotes _ _ hbv
  -- the copied voters already have a canonical vote, so the same voters have one
  have hsome : ∀ i, (votes i).isSome = (vs.votes i).isSome := by
    intro i
    cases hi : bv.votes i with
    | none => rw [hkeep i hi]
    | some v => rw [hcopy i v hi, Option.isSome_some, hb.canonical i (by simp [hi])]
  refine ⟨fun i => (hinv.bitArray_eq i).trans (hsome i).symm, fun i v hv => ?_,
    hinv.sum_eq.trans (weight_congr _ hsome).symm,
    fun k bv' hk => (hinv.blockVotes k bv' hk).of_isSome fun i hi => (hsome i).trans hi,
    fun B' hB' => ?_⟩
  · cases hi : bv.votes i with
    | none =>
        dsimp only at hv
        exact hinv.votes_at i v (by rw [← hkeep i hi]; exact hv)
    | some v' =>
        dsimp only at hv
        rw [hcopy i v' hi] at hv
        exact Option.some.inj hv ▸ (hb.votes_for i v' hi).2
  · obtain rfl := Option.some.inj hB'
    refine ⟨bv, q, hbv, hq, hle, fun i hi => ?_⟩
    obtain ⟨v, hv⟩ := Option.isSome_iff_exists.mp hi
    exact ⟨v, hcopy i v hv, (hb.votes_for i v hv).1⟩

/-- Everything `addBlockVote` can do: count the vote for its key, and, when
the vote is the first to cross the quorum, set the two-thirds block with a
copy of the votes for it. -/
theorem addBlockVote_cases {vs vs₂ : VoteSet S voterSet} {vote : Vote S} {i : Fin voterSet.size}
    {key : Bytes} {pw : Int} {bv : BlockVotes S voterSet.size}
    (h : vs.addBlockVote vote i key pw bv = some vs₂) :
    ∃ q, voterSet.quorum = some q ∧
      ((¬(bv.sum < q ∧ q ≤ (bv.addVerifiedVote i vote pw).sum ∧ vs.maj23 = none) ∧
          vs₂ = { vs with
            votesByBlock := Function.update vs.votesByBlock key (some (bv.addVerifiedVote i vote pw)) }) ∨
        (bv.sum < q ∧ q ≤ (bv.addVerifiedVote i vote pw).sum ∧ vs.maj23 = none ∧
          vs₂ = { vs with
            votesByBlock := Function.update vs.votesByBlock key (some (bv.addVerifiedVote i vote pw))
            maj23 := some vote.blockID
            votes := fun j => ((bv.addVerifiedVote i vote pw).votes j).or (vs.votes j) })) := by
  unfold VoteSet.addBlockVote at h
  cases htot : voterSet.totalVotingWeight with
  | none => rw [htot] at h; cases h
  | some total =>
    rw [htot] at h
    refine ⟨add (div (mul total 2) 3) 1, by simp [VoterSet.quorum, htot], ?_⟩
    simp only at h
    split_ifs at h with hcross
    · obtain rfl := Option.some.inj h
      exact .inr ⟨hcross.1, hcross.2.1, hcross.2.2, by congr; funext j; cases _ : (bv.addVerifiedVote i vote pw).votes j <;> rfl⟩
    · obtain rfl := Option.some.inj h
      exact .inl ⟨hcross, rfl⟩

theorem addBlockVote_isSome (vs : VoteSet S voterSet) (vote : Vote S) (i : Fin voterSet.size)
    (key : Bytes) (pw : Int) (bv : BlockVotes S voterSet.size) {total : Int}
    (htot : voterSet.totalVotingWeight = some total) :
    (vs.addBlockVote vote i key pw bv).isSome := by
  unfold VoteSet.addBlockVote
  rw [htot]
  simp only
  split_ifs <;> rfl

theorem addVerifiedVote_of_none {vs : VoteSet S voterSet} (vote : Vote S) {i : Fin voterSet.size}
    (key : Bytes) (pw : Int) (hnone : vs.votes i = none) :
    vs.addVerifiedVote vote i key pw =
      (({ vs with
          votes := Function.update vs.votes i (some vote)
          votesBitArray := Function.update vs.votesBitArray i true
          sum := add vs.sum pw } : VoteSet S voterSet).addBlockVote vote i key pw
        ((vs.votesByBlock key).getD (newBlockVotes false))).map fun vs => ((true, none), vs) := by
  unfold VoteSet.addVerifiedVote VoteSet.addCanonicalVote
  rw [hnone]
  simp only
  cases vs.votesByBlock key <;> simp

section AddVerifiedVote

variable (hweight : ∀ v ∈ voterSet.voters, 0 ≤ v.votingWeight)
  (hsum : (voterSet.voters.map (·.votingWeight)).sum ≤ maxInt64)
include hweight hsum

theorem addBlockVote_inv {vs₁ vs₂ : VoteSet S voterSet} (hinv : vs₁.Inv) {vote : Vote S}
    {i : Fin voterSet.size} {key : Bytes} {bv : BlockVotes S voterSet.size}
    (hat : VoteAt voterSet i vote) (hkey : vote.blockID.key = key) (hcan : (vs₁.votes i).isSome)
    (hmajv : ∀ B, vs₁.maj23 = some B → B.key = key →
      ∃ v, vs₁.votes i = some v ∧ v.blockID.key = key)
    (hbv : bv.Inv vs₁ key) (hbvi : bv.votes i = none)
    (hsrc : vs₁.votesByBlock key = some bv ∨ vs₁.votesByBlock key = none)
    (h : vs₁.addBlockVote vote i key (voterSet.weightAt i) bv = some vs₂) :
    vs₂.Inv ∧ (vs₂.maj23 = vs₁.maj23 ∨ vs₁.maj23 = none ∧ vs₂.maj23 = some vote.blockID) := by
  obtain ⟨q, hq, hcases⟩ := addBlockVote_cases h
  obtain ⟨hbv', hle⟩ := hbv.addVerifiedVote hweight hsum hat hkey hbvi hcan
  -- the two-thirds block keeps its quorum: it is this key's only when `bv` was there
  have hinv' := hinv.updateBlockVotes hbv' fun B hB hBk => by
    obtain ⟨bv₀, q₀, hbv₀, hq₀, hle₀, hcan₀⟩ := hinv.maj23 B hB
    rw [hBk] at hbv₀ hcan₀
    have hbv₀' : bv₀ = bv := by
      rcases hsrc with hsrc | hsrc <;> rw [hsrc] at hbv₀
      · exact (Option.some.inj hbv₀).symm
      · cases hbv₀
    subst hbv₀'
    refine ⟨q₀, hq₀, hle₀.trans hle, fun j hj => ?_⟩
    by_cases hji : j = i
    · exact hji ▸ hmajv B hB hBk
    · exact hcan₀ j (by
        rw [BlockVotes.addVerifiedVote_of_none vote _ hbvi] at hj
        simpa [Function.update_of_ne hji] using hj)
  rcases hcases with ⟨-, rfl⟩ | ⟨-, hcross, hnone, rfl⟩
  · exact ⟨hinv', .inl rfl⟩
  · exact ⟨hinv'.setMaj23 (by simp [hkey]) hq hcross (fun j v hv => by simp [hv])
      (fun j hj => by simp [hj]), .inr ⟨hnone, rfl⟩⟩

theorem addVerifiedVote_inv {vs vs' : VoteSet S voterSet} (hinv : vs.Inv) {vote : Vote S}
    {i : Fin voterSet.size} {key : Bytes} {r : Bool × Option (Vote S)}
    (hat : VoteAt voterSet i vote) (hkey : vote.blockID.key = key) (hget : vs.getVote i key = none)
    (h : vs.addVerifiedVote vote i key (voterSet.weightAt i) = some (r, vs')) :
    vs'.Inv ∧ (vs'.maj23 = vs.maj23 ∨ vs.maj23 = none ∧ vs'.maj23 = some vote.blockID) := by
  unfold VoteSet.addVerifiedVote at h
  cases hc : vs.addCanonicalVote vote i key (voterSet.weightAt i) with
  | none => rw [hc] at h; cases h
  | some res =>
    obtain ⟨conflicting, vs₁⟩ := res
    rw [hc] at h
    simp only at h
    obtain ⟨hinv₁, hby, hmaj, hcan, hmajv⟩ := addCanonicalVote_inv hweight hsum hinv hat hkey hget hc
    have hbvnone := (getVote_eq_none hget).2
    rw [hmaj] at hmajv
    -- either the vote is not counted for its block, or `addBlockVote` counts it
    cases hb : vs₁.votesByBlock key with
    | some bv =>
        rw [hb] at h
        simp only at h
        split_ifs at h
        · obtain ⟨-, rfl⟩ := Prod.mk.inj (Option.some.inj h)
          exact ⟨hinv₁, .inl hmaj⟩
        · obtain ⟨vs₂, h₂, hr⟩ := Option.map_eq_some_iff.mp h
          obtain ⟨-, rfl⟩ := Prod.mk.inj hr
          obtain ⟨hinv₂, hmaj₂⟩ := addBlockVote_inv hweight hsum hinv₁ hat hkey hcan
            (hmaj ▸ hmajv) (hinv₁.blockVotes key bv hb) (hbvnone bv (hby ▸ hb)) (.inl hb) h₂
          exact ⟨hinv₂, by rw [hmaj] at hmaj₂; exact hmaj₂⟩
    | none =>
        rw [hb] at h
        simp only at h
        split_ifs at h
        · obtain ⟨-, rfl⟩ := Prod.mk.inj (Option.some.inj h)
          exact ⟨hinv₁, .inl hmaj⟩
        · obtain ⟨vs₂, h₂, hr⟩ := Option.map_eq_some_iff.mp h
          obtain ⟨-, rfl⟩ := Prod.mk.inj hr
          obtain ⟨hinv₂, hmaj₂⟩ := addBlockVote_inv hweight hsum hinv₁ hat hkey hcan
            (hmaj ▸ hmajv) (newBlockVotes_inv vs₁ key false) (by simp [newBlockVotes]) (.inr hb) h₂
          exact ⟨hinv₂, by rw [hmaj] at hmaj₂; exact hmaj₂⟩

end AddVerifiedVote

/-! ## `AddVote` and `AddAggregatedVote` -/

/-- A result of `AddVote` that turns the vote away: an error other than a
conflict, or `(false, nil)`. -/
def Rejected (r : Bool × Option (VoteSetError S)) : Prop :=
  (∃ e, r.2 = some e ∧ ∀ existing vote, e ≠ .conflictingVotes existing vote) ∨ r = (false, none)

/-- A vote that passes the checks of `addVoteWith` for voter `i` of `vs`:
at the voter's place, with an address, for the set's height, round and type,
and accepted by the key check `verify` (the signature check of `AddVote`, the
address check of `AddAggregatedVote`). -/
structure CheckedVote (verify : String → PubKey K → Option (Except VoteVerifyError Unit))
    (vs : VoteSet S voterSet) (i : Fin voterSet.size) (vote : Vote S) : Prop where
  voteAt : VoteAt voterSet i vote
  address_ne_nil : vote.validatorAddress ≠ []
  height_eq : vote.height = vs.height
  round_eq : vote.round = vs.round
  type_eq : vote.type = vs.signedMsgType
  verify_eq : verify vs.chainID voterSet.voters[i].pubKey = some (.ok ())

section AddVote

variable [DecidableEq S]

/-- Everything `addVoteWith` can do: turn the vote away and leave the set, or
hand a vote that passes its checks, for a key the voter has no vote for, to
`addVerifiedVote`, and report what it did. -/
theorem addVoteWith_cases_checked {vs vs' : VoteSet S voterSet} {vote : Vote S}
    {verify : String → PubKey K → Option (Except VoteVerifyError Unit)} {r : Bool × Option (VoteSetError S)}
    (h : vs.addVoteWith vote verify = some (r, vs')) :
    (vs' = vs ∧ Rejected r) ∨
      ∃ i : Fin voterSet.size, CheckedVote verify vs i vote ∧ vs.getVote i vote.blockID.key = none ∧
        ∃ added conflicting,
          vs.addVerifiedVote vote i vote.blockID.key (voterSet.weightAt i) =
            some ((added, conflicting), vs') ∧
          r = (added, conflicting.map fun existing => .conflictingVotes existing vote) ∧
          (conflicting = none → added = true) := by
  unfold VoteSet.addVoteWith at h
  -- the early returns: the state is the one before the call
  have hearly : ∀ e : VoteSetError S, (∀ existing vote, e ≠ .conflictingVotes existing vote) →
      some ((false, some e), vs) = some (r, vs') → vs' = vs ∧ Rejected r := by
    rintro e he h
    obtain ⟨rfl, rfl⟩ := Prod.mk.inj (Option.some.inj h)
    exact ⟨rfl, .inl ⟨e, rfl, he⟩⟩
  simp only at h
  split_ifs at h with hneg hempty hstep hlt haddr
  · exact .inl (hearly _ (by simp) h)
  · exact .inl (hearly _ (by simp) h)
  · exact .inl (hearly _ (by simp) h)
  · exact .inl (hearly _ (by simp) h)
  · -- the voter is found at the vote's index
    have hat : VoteAt voterSet ⟨vote.validatorIndex.toNat, hlt⟩ vote :=
      ⟨by simp only; omega, not_not.mp haddr⟩
    cases hget : vs.getVote ⟨vote.validatorIndex.toNat, hlt⟩ vote.blockID.key with
    | some existing =>
        rw [hget] at h
        simp only at h
        split_ifs at h
        · obtain ⟨rfl, rfl⟩ := Prod.mk.inj (Option.some.inj h)
          exact .inl ⟨rfl, .inr rfl⟩
        · exact .inl (hearly _ (by simp) h)
    | none =>
        rw [hget] at h
        simp only at h
        split at h
        · cases h
        · exact .inl (hearly _ (by simp) h)
        · rename_i hver
          right
          obtain ⟨hh, hr, ht⟩ : vote.height = vs.height ∧ vote.round = vs.round ∧
              vote.type = vs.signedMsgType := by
            simpa only [ne_eq, not_or, not_not] using hstep
          refine ⟨_, ⟨hat, hempty, hh, hr, ht, hver⟩, hget, ?_⟩
          split at h
          · cases h
          · rename_i added conflicting vs₁ hadd
            obtain ⟨rfl, rfl⟩ := Prod.mk.inj (Option.some.inj h)
            exact ⟨added, some conflicting, hadd, rfl, by simp⟩
          · rename_i added vs₁ hadd
            split_ifs at h with hadded
            obtain ⟨rfl, rfl⟩ := Prod.mk.inj (Option.some.inj h)
            exact ⟨added, none, hadd, by simp [hadded], fun _ => hadded⟩
  · exact .inl (hearly _ (by simp) h)

/-- Everything `addVoteWith` can do: turn the vote away and leave the set, or
hand a vote at its voter's place, for a key the voter has no vote for, to
`addVerifiedVote`, and report what it did. -/
theorem addVoteWith_cases {vs vs' : VoteSet S voterSet} {vote : Vote S}
    {verify : String → PubKey K → Option (Except VoteVerifyError Unit)} {r : Bool × Option (VoteSetError S)}
    (h : vs.addVoteWith vote verify = some (r, vs')) :
    (vs' = vs ∧ Rejected r) ∨
      ∃ i : Fin voterSet.size, VoteAt voterSet i vote ∧ vs.getVote i vote.blockID.key = none ∧
        ∃ added conflicting,
          vs.addVerifiedVote vote i vote.blockID.key (voterSet.weightAt i) =
            some ((added, conflicting), vs') ∧
          r = (added, conflicting.map fun existing => .conflictingVotes existing vote) ∧
          (conflicting = none → added = true) := by
  rcases addVoteWith_cases_checked h with hrej | ⟨i, hchk, hget, hadd⟩
  · exact .inl hrej
  · exact .inr ⟨i, hchk.voteAt, hget, hadd⟩

theorem addVoteWith_rejected {vs vs' : VoteSet S voterSet} {vote : Vote S}
    {verify : String → PubKey K → Option (Except VoteVerifyError Unit)} {r : Bool × Option (VoteSetError S)}
    (h : vs.addVoteWith vote verify = some (r, vs')) (hr : Rejected r) : vs' = vs := by
  rcases addVoteWith_cases h with ⟨rfl, -⟩ | ⟨i, -, -, added, conflicting, -, rfl, hadded⟩
  · rfl
  · exfalso
    rcases hr with ⟨e, he, hne⟩ | hr
    · cases conflicting with
      | none => cases he
      | some existing => exact hne existing vote (Option.some.inj he).symm
    · cases conflicting with
      | none => simp [hadded rfl] at hr
      | some existing => simp at hr

variable (hweight : ∀ v ∈ voterSet.voters, 0 ≤ v.votingWeight)
  (hsum : (voterSet.voters.map (·.votingWeight)).sum ≤ maxInt64)
include hweight hsum

theorem addVoteWith_inv {vs vs' : VoteSet S voterSet} (hinv : vs.Inv) {vote : Vote S}
    {verify : String → PubKey K → Option (Except VoteVerifyError Unit)} {r : Bool × Option (VoteSetError S)}
    (h : vs.addVoteWith vote verify = some (r, vs')) :
    vs'.Inv ∧ (vs'.maj23 = vs.maj23 ∨ vs.maj23 = none ∧ vs'.maj23 = some vote.blockID) := by
  rcases addVoteWith_cases h with ⟨rfl, -⟩ | ⟨i, hat, hget, added, conflicting, hadd, -⟩
  · exact ⟨hinv, .inl rfl⟩
  · exact addVerifiedVote_inv hweight hsum hinv hat rfl hget hadd

end AddVote

/-! ## The two-thirds block -/

/-- The voters whose canonical vote is for the key `k`. -/
def votesFor (vs : VoteSet S voterSet) (k : Bytes) : Fin voterSet.size → Bool :=
  fun i => (vs.votes i).any fun v => decide (v.blockID.key = k)

theorem VoteSet.Inv.quorum_le_votesFor (hweight : ∀ v ∈ voterSet.voters, 0 ≤ v.votingWeight)
    {vs : VoteSet S voterSet} (hinv : vs.Inv) {B : BlockID} (hB : vs.maj23 = some B) :
    ∃ bv q, vs.votesByBlock B.key = some bv ∧ voterSet.quorum = some q ∧ q ≤ bv.sum ∧
      q ≤ weight voterSet.weightAt (votesFor vs B.key) := by
  obtain ⟨bv, q, hbv, hq, hle, hcan⟩ := hinv.maj23 B hB
  refine ⟨bv, q, hbv, hq, hle, ?_⟩
  calc q ≤ bv.sum := hle
    _ = votedWeight voterSet bv.votes := (hinv.blockVotes _ _ hbv).sum_eq
    _ ≤ weight voterSet.weightAt (votesFor vs B.key) := by
        apply weight_mono (weightAt_nonneg hweight)
        intro i hi
        obtain ⟨v, hv, hvk⟩ := hcan i hi
        simp [votesFor, hv, hvk]

end Ostracon.Types
