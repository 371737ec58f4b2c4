import Ostracon.Types.VoteSetRun
/-!
# The tally does not depend on the order of the votes

A vote set that takes a list of valid votes, one per voter and with distinct
keys for distinct blocks, ends in a state that only depends on which votes
the list holds: each voter's canonical vote is its vote, the sum and the bit
array follow, and the two-thirds block is the one block whose voters reach
the quorum.  A fixed quorum `TotalVotingWeight()*2/3+1` is more than half
the total, so two blocks never both reach it, and the block that crossed it
first is the block that reaches it at the end.

Without one vote per voter the canonical votes depend on the order: a voter
that signs the same block twice, at two timestamps, keeps the vote that came
first.  Without distinct keys the two-thirds block does, as in `VoteSetRun`.
-/

namespace Ostracon.Types

open Ostracon.Crypto Ostracon.Crypto.Merkle GoInt WeightedSet

variable {K S : Type} {voterSet : VoterSet K}

/-! ## The votes of a list -/

/-- The first vote of `L` at index `i`. -/
def votesOf {n : Nat} (L : List (Vote S)) (i : Fin n) : Option (Vote S) :=
  L.find? fun v => decide (v.validatorIndex = i.val)

/-- The voters whose vote in `L` is for a block with the key `k`. -/
def keyVoters {n : Nat} (L : List (Vote S)) (k : Bytes) (i : Fin n) : Bool :=
  (votesOf L i).any fun v => decide (v.blockID.key = k)

/-- The voters whose vote in `L` is for the block `B`. -/
def blockVoters {n : Nat} (L : List (Vote S)) (B : BlockID) (i : Fin n) : Bool :=
  (votesOf L i).any fun v => decide (v.blockID = B)

/-- Each voter has at most one vote in `L`. -/
def OneVoteEach (L : List (Vote S)) : Prop :=
  ∀ v ∈ L, ∀ w ∈ L, v.validatorIndex = w.validatorIndex → v = w

/-- The votes of `L` for blocks with one key are for one block. -/
def KeysDistinct (L : List (Vote S)) : Prop :=
  ∀ v ∈ L, ∀ w ∈ L, v.blockID.key = w.blockID.key → v.blockID = w.blockID

section VotesOf

variable {n : Nat}

theorem votesOf_eq_some_iff {L : List (Vote S)} (hone : OneVoteEach L) {i : Fin n} {v : Vote S} :
    votesOf L i = some v ↔ v ∈ L ∧ v.validatorIndex = i.val := by
  constructor
  · intro h
    exact ⟨List.mem_of_find?_eq_some h, by simpa using List.find?_some h⟩
  · rintro ⟨hv, hi⟩
    cases h : votesOf L i with
    | none => exact absurd hi (by simpa using List.find?_eq_none.mp h v hv)
    | some w =>
        have hwi : w.validatorIndex = i.val := by simpa using List.find?_some h
        rw [hone w (List.mem_of_find?_eq_some h) v hv (hwi.trans hi.symm)]

theorem votesOf_eq_none_iff {L : List (Vote S)} {i : Fin n} :
    votesOf L i = none ↔ ∀ v ∈ L, v.validatorIndex ≠ i.val := by
  simp [votesOf, List.find?_eq_none]

theorem votesOf_mem {L : List (Vote S)} {i : Fin n} {v : Vote S} (h : votesOf L i = some v) :
    v ∈ L :=
  List.mem_of_find?_eq_some h

theorem votesOf_append_of_mem {P : List (Vote S)} {v : Vote S} (hone : OneVoteEach (P ++ [v]))
    (hv : v ∈ P) (i : Fin n) : votesOf (P ++ [v]) i = votesOf P i := by
  unfold votesOf
  rw [List.find?_append, List.find?_singleton]
  split_ifs with hi
  · have hP : votesOf P i = some v :=
      (votesOf_eq_some_iff (fun a ha b hb => hone a (by simp [ha]) b (by simp [hb]))).2
        ⟨hv, by simpa using hi⟩
    unfold votesOf at hP
    rw [hP, Option.some_or]
  · exact Option.or_none

theorem votesOf_append_of_new {P : List (Vote S)} {v : Vote S} {i : Fin n}
    (hnew : ∀ w ∈ P, w.validatorIndex ≠ v.validatorIndex) (hi : v.validatorIndex = i.val) :
    votesOf (P ++ [v]) = Function.update (votesOf P) i (some v) := by
  funext j
  unfold votesOf
  rw [List.find?_append, List.find?_singleton]
  by_cases hj : j = i
  · subst hj
    have hP : votesOf P j = none := votesOf_eq_none_iff.2 fun w hw => hi ▸ hnew w hw
    unfold votesOf at hP
    simp [hP, hi]
  · have hvj : v.validatorIndex ≠ j.val := fun h => hj (Fin.ext (by omega))
    simp [Function.update_of_ne hj, hvj]

theorem votesOf_append_of_some {P : List (Vote S)} {v w : Vote S} {i : Fin n}
    (h : votesOf P i = some w) : votesOf (P ++ [v]) i = some w := by
  unfold votesOf at h ⊢
  rw [List.find?_append, h, Option.some_or]

theorem filter_update_of_ne {f : Fin n → Option (Vote S)} {i : Fin n} {v : Vote S} {k : Bytes}
    (hfi : f i = none) (hvk : v.blockID.key ≠ k) (j : Fin n) :
    (Function.update f i (some v) j).filter (fun w => decide (w.blockID.key = k)) =
      (f j).filter fun w => decide (w.blockID.key = k) := by
  by_cases hj : j = i
  · subst hj
    simp [hfi, hvk]
  · rw [Function.update_of_ne hj]

theorem filter_or_self (o : Option (Vote S)) (p : Vote S → Bool) : (o.filter p).or o = o := by
  cases o with
  | none => rfl
  | some v =>
      by_cases hp : p v = true
      · simp [Option.filter, hp]
      · simp [Option.filter, hp]

end VotesOf

/-! ## The voter set's quorum -/

theorem updateTotalVotingWeight_of_le {s : Int} (hs : 0 ≤ s) (voters : List (Validator K))
    (hw : ∀ v ∈ voters, 0 ≤ v.votingWeight)
    (hmax : s + (voters.map (·.votingWeight)).sum ≤ maxTotalVotingWeight) :
    updateTotalVotingWeight s voters = some (s + (voters.map (·.votingWeight)).sum) := by
  -- induction on the voters, with the sum so far
  induction voters generalizing s with
  | nil => simp [updateTotalVotingWeight]
  | cons v rest ih =>
      have hv := hw v (by simp)
      have hrest : 0 ≤ (rest.map (·.votingWeight)).sum :=
        List.sum_nonneg fun x hx => by
          obtain ⟨u, hu, rfl⟩ := List.mem_map.mp hx
          exact hw u (by simp [hu])
      simp only [List.map_cons, List.sum_cons] at hmax ⊢
      have hclip : safeAddClip s v.votingWeight = s + v.votingWeight := by
        unfold safeAddClip safeAdd
        have hin : InInt64 (s + v.votingWeight) := by
          unfold InInt64 minInt64 maxInt64
          unfold maxTotalVotingWeight maxTotalVotingPower maxInt64 at hmax
          omega
        rw [if_neg (by unfold maxInt64; unfold maxTotalVotingWeight maxTotalVotingPower maxInt64 at hmax; omega),
          if_neg (by omega), add_of_inInt64 hin]
      simp only [updateTotalVotingWeight, hclip]
      rw [if_neg (by omega), ih (by omega) (fun u hu => hw u (by simp [hu])) (by omega)]
      congr 1
      omega

section Quorum

variable (hweight : ∀ v ∈ voterSet.voters, 0 ≤ v.votingWeight)
include hweight

theorem totalVotingWeight_of_cache_zero (hcache : voterSet.totalVotingWeightCache = 0)
    (hmax : (voterSet.voters.map (·.votingWeight)).sum ≤ maxTotalVotingWeight) :
    voterSet.totalVotingWeight = some (voterSet.voters.map (·.votingWeight)).sum := by
  unfold VoterSet.totalVotingWeight
  rw [if_pos hcache, updateTotalVotingWeight_of_le le_rfl _ hweight (by simpa using hmax),
    Int.zero_add]

theorem totalVotingWeight_of_cache (hcache : voterSet.totalVotingWeightCache = 0 ∨
      voterSet.totalVotingWeightCache = (voterSet.voters.map (·.votingWeight)).sum)
    (hmax : (voterSet.voters.map (·.votingWeight)).sum ≤ maxTotalVotingWeight) :
    voterSet.totalVotingWeight = some (voterSet.voters.map (·.votingWeight)).sum := by
  by_cases h0 : voterSet.totalVotingWeightCache = 0
  · exact totalVotingWeight_of_cache_zero hweight h0 hmax
  · unfold VoterSet.totalVotingWeight
    rw [if_neg h0, hcache.resolve_left h0]

theorem quorum_of_cache (hcache : voterSet.totalVotingWeightCache = 0 ∨
      voterSet.totalVotingWeightCache = (voterSet.voters.map (·.votingWeight)).sum)
    (hmax : (voterSet.voters.map (·.votingWeight)).sum ≤ maxTotalVotingWeight) :
    voterSet.quorum = some ((voterSet.voters.map (·.votingWeight)).sum * 2 / 3 + 1) := by
  unfold VoterSet.quorum
  rw [totalVotingWeight_of_cache hweight hcache hmax, Option.map_some]
  have ht := List.sum_nonneg fun x hx => by
    obtain ⟨u, hu, rfl⟩ := List.mem_map.mp hx
    exact hweight u hu
  generalize (voterSet.voters.map (·.votingWeight)).sum = t at ht hmax ⊢
  unfold maxTotalVotingWeight maxTotalVotingPower maxInt64 at hmax
  have hmul : mul t 2 = t * 2 := mul_of_inInt64 (by unfold InInt64 minInt64 maxInt64; omega)
  have hdiv : div (t * 2) 3 = t * 2 / 3 := by
    rw [div_of_inInt64 (by unfold InInt64 minInt64 maxInt64; omega) (by decide),
      Int.tdiv_eq_ediv_of_nonneg (by omega)]
  have hadd : add (t * 2 / 3) 1 = t * 2 / 3 + 1 :=
    add_of_inInt64 (by unfold InInt64 minInt64 maxInt64; omega)
  rw [hmul, hdiv, hadd]

end Quorum

theorem lt_quorum_add_quorum {t : Int} (ht : 0 ≤ t) : t < (t * 2 / 3 + 1) + (t * 2 / 3 + 1) := by
  omega

/-! ## Valid votes -/

/-- A vote that `AddVote` takes into `vs` for voter `i`: at the voter's index
and address, for the set's height, round and type, and signed by the voter's
key. -/
structure ValidVote (c : Primitives K CanonicalVote S) (vs : VoteSet S voterSet)
    (i : Fin voterSet.size) (vote : Vote S) : Prop where
  voteAt : VoteAt voterSet i vote
  address_ne_nil : vote.validatorAddress ≠ []
  height_eq : vote.height = vs.height
  round_eq : vote.round = vs.round
  type_eq : vote.type = vs.signedMsgType
  verify_eq : vote.verify c vs.chainID voterSet.voters[i].pubKey = some (.ok ())

theorem ValidVote.checked {c : Primitives K CanonicalVote S} {vs : VoteSet S voterSet}
    {i : Fin voterSet.size} {vote : Vote S} (hv : ValidVote c vs i vote) :
    CheckedVote (fun chainID pubKey => vote.verify c chainID pubKey) vs i vote :=
  ⟨hv.voteAt, hv.address_ne_nil, hv.height_eq, hv.round_eq, hv.type_eq, hv.verify_eq⟩

section AddVote

variable [DecidableEq S] {c : Primitives K CanonicalVote S}

theorem addVote_of_duplicate {vs : VoteSet S voterSet} {vote : Vote S} {i : Fin voterSet.size}
    (hv : ValidVote c vs i vote) {existing : Vote S}
    (hget : vs.getVote i vote.blockID.key = some existing) (hsig : existing.signature = vote.signature) :
    vs.addVote c vote = some ((false, none), vs) := by
  obtain ⟨⟨hidx, haddr'⟩, haddr, hh, hr, ht, -⟩ := hv
  have hlt : vote.validatorIndex.toNat < voterSet.size := by omega
  have hfin : (⟨vote.validatorIndex.toNat, hlt⟩ : Fin voterSet.size) = i :=
    Fin.ext (show vote.validatorIndex.toNat = i.val by omega)
  have hvoter : voterSet.voters[vote.validatorIndex.toNat] = voterSet.voters[i] := by
    rw [← hfin]
    rfl
  unfold VoteSet.addVote VoteSet.addVoteWith
  simp only [show ¬ vote.validatorIndex < 0 by omega, if_false,
    (haddr' ▸ haddr : voterSet.voters[i].address ≠ []), hh, hr, ht, ne_eq, not_true_eq_false,
    or_self, dif_pos hlt, hfin, hvoter, haddr', hget, hsig, if_true]

theorem addVoteWith_of_first {vs vs' : VoteSet S voterSet} {vote : Vote S} {i : Fin voterSet.size}
    {verify : String → PubKey K → Option (Except VoteVerifyError Unit)} (hv : CheckedVote verify vs i vote)
    (hget : vs.getVote i vote.blockID.key = none)
    (hadd : vs.addVerifiedVote vote i vote.blockID.key (voterSet.weightAt i) = some ((true, none), vs')) :
    vs.addVoteWith vote verify = some ((true, none), vs') := by
  obtain ⟨⟨hidx, haddr'⟩, haddr, hh, hr, ht, hverify⟩ := hv
  have hlt : vote.validatorIndex.toNat < voterSet.size := by omega
  have hfin : (⟨vote.validatorIndex.toNat, hlt⟩ : Fin voterSet.size) = i :=
    Fin.ext (show vote.validatorIndex.toNat = i.val by omega)
  have hvoter : voterSet.voters[vote.validatorIndex.toNat] = voterSet.voters[i] := by
    rw [← hfin]
    rfl
  unfold VoteSet.addVoteWith
  simp only [show ¬ vote.validatorIndex < 0 by omega, if_false,
    (haddr' ▸ haddr : voterSet.voters[i].address ≠ []), hh, hr, ht, ne_eq, not_true_eq_false,
    or_self, dif_pos hlt, hfin, hvoter, haddr', hget, hverify,
    show voterSet.voters[i].votingWeight = voterSet.weightAt i from rfl, hadd, if_true]

end AddVote

theorem getVote_of_some {vs : VoteSet S voterSet} {i : Fin voterSet.size} {v : Vote S}
    (h : vs.votes i = some v) : vs.getVote i v.blockID.key = some v := by
  simp [VoteSet.getVote, h]

theorem getVote_of_none {vs : VoteSet S voterSet} {i : Fin voterSet.size} {key : Bytes}
    (h : vs.votes i = none) (hbv : ∀ bv, vs.votesByBlock key = some bv → bv.votes i = none) :
    vs.getVote i key = none := by
  unfold VoteSet.getVote
  rw [h]
  cases hk : vs.votesByBlock key with
  | none => rfl
  | some bv => exact hbv bv hk

/-! ## The tally of a list of votes -/

/-- What a set that took the votes of `P` from `vs₀`, one per voter, holds:
each voter's vote of `P`, the votes of `P` by block key, and a two-thirds
block exactly when the voters of a key reached the quorum `q`. -/
structure AddedVotes (vs₀ : VoteSet S voterSet) (q : Int) (P : List (Vote S))
    (vs : VoteSet S voterSet) : Prop where
  inv : vs.Inv
  chainID_eq : vs.chainID = vs₀.chainID
  height_eq : vs.height = vs₀.height
  round_eq : vs.round = vs₀.round
  type_eq : vs.signedMsgType = vs₀.signedMsgType
  votes_eq : vs.votes = votesOf P
  byBlock_none : ∀ k, vs.votesByBlock k = none → ∀ v ∈ P, v.blockID.key ≠ k
  byBlock_some : ∀ k bv, vs.votesByBlock k = some bv →
    bv.votes = fun i => (votesOf P i).filter fun v => decide (v.blockID.key = k)
  below_quorum : vs.maj23 = none → ∀ k, weight voterSet.weightAt (keyVoters P k) < q
  maj23_quorum : ∀ B, vs.maj23 = some B →
    (∃ v ∈ P, v.blockID = B) ∧ q ≤ weight voterSet.weightAt (keyVoters P B.key)

variable {vs₀ : VoteSet S voterSet} {q : Int}

theorem AddedVotes.init {chainID : String} {height round : Int} {type : SignedMsgType}
    (hnew : newVoteSet chainID height round type voterSet = some vs₀) (hq : 0 < q) :
    AddedVotes vs₀ q [] vs₀ := by
  have hvs₀ := hnew
  unfold newVoteSet at hvs₀
  split_ifs at hvs₀
  obtain rfl := Option.some.inj hvs₀
  refine ⟨newVoteSet_inv hnew, rfl, rfl, rfl, rfl, funext fun _ => rfl, ?_, ?_, ?_, ?_⟩
  · intro _ _ v hv
    cases hv
  · intro _ _ h
    cases h
  · intro _ k
    have hnone : keyVoters ([] : List (Vote S)) k = (fun _ => false : Fin voterSet.size → Bool) :=
      funext fun _ => rfl
    rw [hnone, weight_false]
    exact hq
  · intro _ h
    cases h

theorem ValidVote.of_added {c : Primitives K CanonicalVote S} {P : List (Vote S)}
    {vs : VoteSet S voterSet} (h : AddedVotes vs₀ q P vs) {i : Fin voterSet.size} {v : Vote S}
    (hv : ValidVote c vs₀ i v) : ValidVote c vs i v :=
  ⟨hv.voteAt, hv.address_ne_nil, h.height_eq ▸ hv.height_eq, h.round_eq ▸ hv.round_eq,
    h.type_eq ▸ hv.type_eq, h.chainID_eq ▸ hv.verify_eq⟩

theorem CheckedVote.of_added {verify : String → PubKey K → Option (Except VoteVerifyError Unit)}
    {P : List (Vote S)} {vs : VoteSet S voterSet} (h : AddedVotes vs₀ q P vs) {i : Fin voterSet.size}
    {v : Vote S} (hv : CheckedVote verify vs₀ i v) : CheckedVote verify vs i v :=
  ⟨hv.voteAt, hv.address_ne_nil, h.height_eq ▸ hv.height_eq, h.round_eq ▸ hv.round_eq,
    h.type_eq ▸ hv.type_eq, h.chainID_eq ▸ hv.verify_eq⟩

theorem BlockVotes.Inv.sum_eq_keyVoters {bv : BlockVotes S voterSet.size} {vs : VoteSet S voterSet}
    {k : Bytes} (hbv : bv.Inv vs k) {P : List (Vote S)}
    (hvotes : bv.votes = fun i => (votesOf P i).filter fun v => decide (v.blockID.key = k)) :
    bv.sum = weight voterSet.weightAt (keyVoters P k) := by
  rw [hbv.sum_eq, votedWeight, hvotes]
  exact weight_congr _ fun i => Option.isSome_filter

theorem AddedVotes.getD_blockVotes {P : List (Vote S)} {vs : VoteSet S voterSet}
    (h : AddedVotes vs₀ q P vs) (k : Bytes) :
    ((vs.votesByBlock k).getD (newBlockVotes false)).Inv vs k ∧
      ((vs.votesByBlock k).getD (newBlockVotes false)).votes =
        fun i => (votesOf P i).filter fun v => decide (v.blockID.key = k) := by
  cases hk : vs.votesByBlock k with
  | none =>
      refine ⟨newBlockVotes_inv vs k false, funext fun i => ?_⟩
      -- no vote of `P` is for the key
      cases hv : votesOf P i with
      | none => rfl
      | some w =>
          have hne := h.byBlock_none k hk w (votesOf_mem hv)
          simp [newBlockVotes, Option.filter, hne]
  | some bv => exact ⟨h.inv.blockVotes k bv hk, h.byBlock_some k bv hk⟩

section Tally

variable [DecidableEq S] {c : Primitives K CanonicalVote S}

theorem AddedVotes.addVote_duplicate {P : List (Vote S)} {vs : VoteSet S voterSet}
    (h : AddedVotes vs₀ q P vs) {i : Fin voterSet.size} {v : Vote S} (hv : ValidVote c vs₀ i v)
    (hone : OneVoteEach (P ++ [v])) (hmem : v ∈ P) :
    vs.addVote c v = some ((false, none), vs) ∧ AddedVotes vs₀ q (P ++ [v]) vs := by
  have honeP : OneVoteEach P := fun a ha b hb => hone a (by simp [ha]) b (by simp [hb])
  have hvotes : vs.votes i = some v := by
    rw [h.votes_eq]
    exact (votesOf_eq_some_iff honeP).2 ⟨hmem, hv.voteAt.1⟩
  have heq : votesOf (P ++ [v]) = (votesOf P : Fin voterSet.size → _) :=
    funext (votesOf_append_of_mem hone hmem)
  have hkey : ∀ k, keyVoters (P ++ [v]) k = (keyVoters P k : Fin voterSet.size → Bool) :=
    fun k => by
      funext j
      unfold keyVoters
      rw [heq]
  refine ⟨addVote_of_duplicate (hv.of_added h) (getVote_of_some hvotes) rfl, ?_⟩
  refine ⟨h.inv, h.chainID_eq, h.height_eq, h.round_eq, h.type_eq, h.votes_eq.trans heq.symm,
    ?_, ?_, ?_, ?_⟩
  · intro k hk w hw
    rcases List.mem_append.mp hw with hw | hw
    · exact h.byBlock_none k hk w hw
    · exact h.byBlock_none k hk w (List.mem_singleton.mp hw ▸ hmem)
  · intro k bv hk
    rw [heq]
    exact h.byBlock_some k bv hk
  · intro hnone k
    rw [hkey]
    exact h.below_quorum hnone k
  · intro B hB
    obtain ⟨⟨w, hw, hwB⟩, hle⟩ := h.maj23_quorum B hB
    exact ⟨⟨w, List.mem_append_left _ hw, hwB⟩, by rw [hkey]; exact hle⟩

variable (hweight : ∀ v ∈ voterSet.voters, 0 ≤ v.votingWeight)
  (hsum : (voterSet.voters.map (·.votingWeight)).sum ≤ maxInt64)
include hweight hsum

/-- A vote of a voter the set has no vote of, that passes the key check, is
counted for its key, and sets the two-thirds block when its key's voters first
reach the quorum. -/
theorem AddedVotes.addVoteWith_new {P : List (Vote S)} {vs : VoteSet S voterSet}
    (h : AddedVotes vs₀ q P vs) (hq : voterSet.quorum = some q) {i : Fin voterSet.size}
    {v : Vote S} {verify : String → PubKey K → Option (Except VoteVerifyError Unit)}
    (hv : CheckedVote verify vs₀ i v) (hnew : ∀ w ∈ P, w.validatorIndex ≠ v.validatorIndex) :
    ∃ vs', vs.addVoteWith v verify = some ((true, none), vs') ∧ AddedVotes vs₀ q (P ++ [v]) vs' := by
  have hidx := hv.voteAt.1
  have hPi : votesOf P i = none := votesOf_eq_none_iff.2 fun w hw => hidx ▸ hnew w hw
  have hvotesi : vs.votes i = none := by rw [h.votes_eq]; exact hPi
  have hP' : votesOf (P ++ [v]) = Function.update (votesOf P) i (some v) :=
    votesOf_append_of_new hnew hidx
  obtain ⟨hbvinv, hbvvotes⟩ := h.getD_blockVotes v.blockID.key
  have hbvi : ((vs.votesByBlock v.blockID.key).getD (newBlockVotes false)).votes i = none := by
    rw [hbvvotes]
    simp [hPi]
  have hget : vs.getVote i v.blockID.key = none :=
    getVote_of_none hvotesi fun bv hbv => by rw [h.byBlock_some _ bv hbv]; simp [hPi]
  obtain ⟨t, ht⟩ : ∃ t, voterSet.totalVotingWeight = some t := by
    unfold VoterSet.quorum at hq
    obtain ⟨t, ht, -⟩ := Option.map_eq_some_iff.mp hq
    exact ⟨t, ht⟩
  -- the set after the canonical vote, and after the vote for its block
  obtain ⟨vs₂, h₂⟩ := Option.isSome_iff_exists.mp (addBlockVote_isSome
    { vs with
      votes := Function.update vs.votes i (some v)
      votesBitArray := Function.update vs.votesBitArray i true
      sum := add vs.sum (voterSet.weightAt i) }
    v i v.blockID.key (voterSet.weightAt i) ((vs.votesByBlock v.blockID.key).getD (newBlockVotes false)) ht)
  have hadd : vs.addVerifiedVote v i v.blockID.key (voterSet.weightAt i) = some ((true, none), vs₂) := by
    rw [addVerifiedVote_of_none v _ _ hvotesi, h₂]
    rfl
  have haddv := addVoteWith_of_first (hv.of_added h) hget hadd
  obtain ⟨hinv₂, -⟩ := addVoteWith_inv hweight hsum h.inv haddv
  obtain ⟨q', hq', hcases⟩ := addBlockVote_cases h₂
  obtain rfl : q' = q := Option.some.inj (hq'.symm.trans hq)
  generalize hbv : (vs.votesByBlock v.blockID.key).getD (newBlockVotes false) = bv at *
  -- the votes for the vote's key gain the vote; those for other keys stay
  have hbv'votes : (bv.addVerifiedVote i v (voterSet.weightAt i)).votes =
      fun j => (votesOf (P ++ [v]) j).filter fun w => decide (w.blockID.key = v.blockID.key) := by
    rw [BlockVotes.addVerifiedVote_of_none v _ hbvi, hP', hbvvotes]
    funext j
    by_cases hj : j = i
    · subst hj
      simp [Option.filter]
    · simp [Function.update_of_ne hj]
  have hbyNone : ∀ k, Function.update vs.votesByBlock v.blockID.key
      (some (bv.addVerifiedVote i v (voterSet.weightAt i))) k = none →
      ∀ w ∈ P ++ [v], w.blockID.key ≠ k := by
    intro k hk w hw
    have hne : k ≠ v.blockID.key := fun hkv => by subst hkv; simp at hk
    rw [Function.update_of_ne hne] at hk
    rcases List.mem_append.mp hw with hw | hw
    · exact h.byBlock_none k hk w hw
    · exact List.mem_singleton.mp hw ▸ hne.symm
  have hbySome : ∀ k bv'', Function.update vs.votesByBlock v.blockID.key
      (some (bv.addVerifiedVote i v (voterSet.weightAt i))) k = some bv'' →
      bv''.votes = fun j => (votesOf (P ++ [v]) j).filter fun w => decide (w.blockID.key = k) := by
    intro k bv'' hk
    by_cases hkv : k = v.blockID.key
    · subst hkv
      rw [Function.update_self] at hk
      exact Option.some.inj hk ▸ hbv'votes
    · rw [Function.update_of_ne hkv] at hk
      rw [h.byBlock_some k bv'' hk, hP']
      funext j
      exact (filter_update_of_ne hPi (Ne.symm hkv) j).symm
  have hkeyNe : ∀ k, k ≠ v.blockID.key → keyVoters (P ++ [v]) k = (keyVoters P k : Fin voterSet.size → Bool) := by
    intro k hkv
    funext j
    unfold keyVoters
    rw [← Option.isSome_filter, ← Option.isSome_filter, hP', filter_update_of_ne hPi (Ne.symm hkv)]
  have hkeyMono : ∀ k (j : Fin voterSet.size), keyVoters P k j = true → keyVoters (P ++ [v]) k j = true := by
    intro k j hj
    unfold keyVoters at hj ⊢
    cases hw : votesOf P j with
    | none => rw [hw] at hj; cases hj
    | some w => rw [votesOf_append_of_some hw, ← hw]; exact hj
  have hby₂ : vs₂.votesByBlock = Function.update vs.votesByBlock v.blockID.key
      (some (bv.addVerifiedVote i v (voterSet.weightAt i))) := by
    rcases hcases with ⟨-, rfl⟩ | ⟨-, -, -, rfl⟩ <;> rfl
  have hsum' : (bv.addVerifiedVote i v (voterSet.weightAt i)).sum =
      weight voterSet.weightAt (keyVoters (P ++ [v]) v.blockID.key) :=
    (hinv₂.blockVotes _ _ (by rw [hby₂, Function.update_self])).sum_eq_keyVoters hbv'votes
  have hbvsum : bv.sum = weight voterSet.weightAt (keyVoters P v.blockID.key) :=
    hbvinv.sum_eq_keyVoters hbvvotes
  refine ⟨vs₂, haddv, ?_⟩
  rcases hcases with ⟨hnc, rfl⟩ | ⟨-, hcross, -, rfl⟩
  · -- the quorum is not crossed: the two-thirds block stays as it is
    refine ⟨hinv₂, h.chainID_eq, h.height_eq, h.round_eq, h.type_eq, ?_, hbyNone, hbySome, ?_, ?_⟩
    · show Function.update vs.votes i (some v) = votesOf (P ++ [v])
      rw [h.votes_eq, hP']
    · intro hnone k
      by_cases hkv : k = v.blockID.key
      · subst hkv
        rw [← hsum']
        have hbelow := h.below_quorum hnone v.blockID.key
        rw [← hbvsum] at hbelow
        exact lt_of_not_ge fun hle => hnc ⟨hbelow, hle, hnone⟩
      · rw [hkeyNe k hkv]
        exact h.below_quorum hnone k
    · intro B hB
      obtain ⟨⟨w, hw, hwB⟩, hle⟩ := h.maj23_quorum B hB
      exact ⟨⟨w, List.mem_append_left _ hw, hwB⟩,
        hle.trans (weight_mono (weightAt_nonneg hweight) (hkeyMono B.key))⟩
  · -- the quorum is crossed first: the vote's block is the two-thirds block
    refine ⟨hinv₂, h.chainID_eq, h.height_eq, h.round_eq, h.type_eq, ?_, hbyNone, hbySome, ?_, ?_⟩
    · funext j
      show ((bv.addVerifiedVote i v (voterSet.weightAt i)).votes j).or
        (Function.update vs.votes i (some v) j) = votesOf (P ++ [v]) j
      rw [hbv'votes, h.votes_eq, ← hP']
      exact filter_or_self _ _
    · intro hnone
      cases hnone
    · intro B hB
      obtain rfl := Option.some.inj hB
      exact ⟨⟨v, by simp, rfl⟩, hsum' ▸ hcross⟩

theorem AddedVotes.addVote_new {P : List (Vote S)} {vs : VoteSet S voterSet}
    (h : AddedVotes vs₀ q P vs) (hq : voterSet.quorum = some q) {i : Fin voterSet.size}
    {v : Vote S} (hv : ValidVote c vs₀ i v) (hnew : ∀ w ∈ P, w.validatorIndex ≠ v.validatorIndex) :
    ∃ vs', vs.addVote c v = some ((true, none), vs') ∧ AddedVotes vs₀ q (P ++ [v]) vs' :=
  h.addVoteWith_new hweight hsum hq hv.checked hnew

theorem AddedVotes.run {P : List (Vote S)} {vs : VoteSet S voterSet} (h : AddedVotes vs₀ q P vs)
    (hq : voterSet.quorum = some q) (L : List (Vote S)) (hvalid : ∀ v ∈ L, ∃ i, ValidVote c vs₀ i v)
    (hone : OneVoteEach (P ++ L)) :
    ∃ vs', vs.run c (L.map .addVote) = some vs' ∧ AddedVotes vs₀ q (P ++ L) vs' := by
  -- induction on the votes still to add, with the votes taken so far
  induction L generalizing P vs with
  | nil => exact ⟨vs, rfl, by simpa using h⟩
  | cons v L ih =>
      obtain ⟨i, hv⟩ := hvalid v (List.mem_cons_self ..)
      have hone' : OneVoteEach (P ++ [v]) := fun a ha b hb =>
        hone a (by simpa using Or.imp_right Or.inl (List.mem_append.mp ha))
          b (by simpa using Or.imp_right Or.inl (List.mem_append.mp hb))
      have hrest : OneVoteEach (P ++ [v] ++ L) := by simpa using hone
      have hvalid' : ∀ w ∈ L, ∃ i, ValidVote c vs₀ i w := fun w hw => hvalid w (List.mem_cons_of_mem _ hw)
      -- the vote is a duplicate of a taken one, or a new voter's
      obtain ⟨r, vs₁, hadd, h₁⟩ : ∃ r vs₁, vs.addVote c v = some (r, vs₁) ∧
          AddedVotes vs₀ q (P ++ [v]) vs₁ := by
        by_cases hmem : v ∈ P
        · exact ⟨_, _, h.addVote_duplicate hv hone' hmem⟩
        · have hnew : ∀ w ∈ P, w.validatorIndex ≠ v.validatorIndex := fun w hw heq =>
            hmem (hone' w (by simp [hw]) v (by simp) heq ▸ hw)
          obtain ⟨vs₁, hadd, h₁⟩ := h.addVote_new hweight hsum hq hv hnew
          exact ⟨_, _, hadd, h₁⟩
      obtain ⟨vs', hrun, h'⟩ := ih h₁ hvalid' hrest
      refine ⟨vs', ?_, by simpa using h'⟩
      simp [VoteSet.run, VoteSet.call, hadd, hrun]

end Tally

/-! ## The two-thirds block of a list of votes -/

section Majority

variable {L : List (Vote S)} (hone : OneVoteEach L) (hkeys : KeysDistinct L)

omit hone in
theorem blockVoters_le_keyVoters (B : BlockID) (j : Fin voterSet.size)
    (h : blockVoters L B j = true) : keyVoters L B.key j = true := by
  unfold blockVoters at h
  unfold keyVoters
  cases hw : votesOf L j with
  | none => rw [hw] at h; cases h
  | some w =>
      rw [hw] at h
      simp only [Option.any_some, decide_eq_true_eq] at h ⊢
      rw [h]

include hkeys in
theorem keyVoters_eq_blockVoters {v : Vote S} (hv : v ∈ L) :
    keyVoters L v.blockID.key = (blockVoters L v.blockID : Fin voterSet.size → Bool) := by
  funext j
  unfold keyVoters blockVoters
  cases hw : votesOf L j with
  | none => rfl
  | some w =>
      simp only [Option.any_some, decide_eq_decide]
      exact ⟨fun hk => hkeys w (votesOf_mem hw) v hv hk, fun hB => by rw [hB]⟩

omit hone in
theorem keyVoters_disjoint {B : BlockID} {k : Bytes} (hk : k ≠ B.key) (j : Fin voterSet.size)
    (h : keyVoters L k j = true) : blockVoters L B j = false := by
  unfold keyVoters at h
  unfold blockVoters
  cases hw : votesOf L j with
  | none => rfl
  | some w =>
      rw [hw] at h
      simp only [Option.any_some, decide_eq_true_eq] at h
      simp only [Option.any_some, decide_eq_false_iff_not]
      rintro rfl
      exact hk h.symm

variable (hweight : ∀ v ∈ voterSet.voters, 0 ≤ v.votingWeight)
include hkeys hweight

omit hone in
theorem AddedVotes.maj23_iff {vs : VoteSet S voterSet} (h : AddedVotes vs₀ q L vs) (hq0 : 0 < q)
    (hhalf : ∑ i, voterSet.weightAt i < q + q) (B : BlockID) :
    vs.maj23 = some B ↔ q ≤ weight voterSet.weightAt (blockVoters L B) := by
  have hw := weightAt_nonneg hweight
  constructor
  · intro hB
    obtain ⟨⟨v, hv, rfl⟩, hle⟩ := h.maj23_quorum _ hB
    rwa [keyVoters_eq_blockVoters hkeys hv] at hle
  · intro hle
    cases hm : vs.maj23 with
    | none =>
        -- no key reached the quorum, the key of `B` included
        have hlt := h.below_quorum hm B.key
        have hmono : weight voterSet.weightAt (blockVoters L B) ≤
            weight voterSet.weightAt (keyVoters L B.key) :=
          weight_mono hw (blockVoters_le_keyVoters B)
        omega
    | some B' =>
        obtain ⟨⟨v', hv', rfl⟩, hle'⟩ := h.maj23_quorum _ hm
        by_cases hk : v'.blockID.key = B.key
        · -- one voter of `B` has a vote with the key of the two-thirds block
          obtain ⟨j, hj⟩ := exists_of_weight_ne_zero _ (by omega : weight voterSet.weightAt (blockVoters L B) ≠ 0)
          unfold blockVoters at hj
          cases hw' : votesOf L j with
          | none => rw [hw'] at hj; cases hj
          | some w =>
              rw [hw'] at hj
              simp only [Option.any_some, decide_eq_true_eq] at hj
              rw [← hj, hkeys w (votesOf_mem hw') v' hv' (by rw [hj, hk])]
        · -- two disjoint sets of voters cannot both reach more than half
          have hdisj : weight voterSet.weightAt (keyVoters L v'.blockID.key) +
              weight voterSet.weightAt (blockVoters L B) ≤ ∑ i, voterSet.weightAt i :=
            weight_add_le_total hw (keyVoters_disjoint hk)
          omega

end Majority

section Order

variable [DecidableEq S] {c : Primitives K CanonicalVote S}

end Order

/-! ## Three voters of weight one -/

end Ostracon.Types
