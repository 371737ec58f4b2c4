import Ostracon.State.Validation
import Ostracon.Types.CommitVerification
/-!
# Who chooses the time of a block

`MedianTime` is documented to lie between the timestamps of the honest voters
of the last commit.  Here `faulty` marks a set of voters by index, and the
honest timestamps are those of the signatures that are not absent at the
other indices.

For blocks that `validateBlock` accepts, when each signature of the last
commit carries the address of the voter at its index (`AddressedByIndex`),
`validateBlock_time_le_honest` bounds the block time from above: if the
marked voters hold less than a third of the total weight, it is at most some
honest timestamp.

`VerifyCommit` checks each signature against the voter at its index and never
reads the address the signature carries.  The address is not part of the
signed vote either.  `MedianTime` weighs each signature by the voter at that
address, so without `AddressedByIndex` the weights it uses are whatever the
proposer wrote.
-/

namespace Ostracon.State

open Ostracon.Types Ostracon.Crypto Ostracon.Crypto.Merkle GoInt WeightedPick

variable {K S : Type}

/-! ## Reading `validateBlock` back -/

theorem bind_eq_ok {ε α β : Type} {x : Except ε α} {f : α → Except ε β} {b : β}
    (h : (x >>= f) = .ok b) : ∃ a, x = .ok a ∧ f a = .ok b := by
  cases x with
  | error e => cases h
  | ok a => exact ⟨a, rfl, h⟩

section Accepted

variable {c : Primitives K CanonicalVote S} {state : CommittedState K} {round : Int} {block : Block S}

theorem validateBlock_eq_ok (h : validateBlock c state round block = .ok ()) :
    validateLastCommit c state block = .ok () ∧ validateBlockTime state block = .ok () := by
  unfold validateBlock at h
  split_ifs at h
  -- the remaining checks run in sequence, and each must pass for the block to be accepted
  all_goals
    obtain ⟨⟨⟩, hc, h⟩ := bind_eq_ok h
    obtain ⟨⟨⟩, -, h⟩ := bind_eq_ok h
    obtain ⟨⟨⟩, ht, -⟩ := bind_eq_ok h
    exact ⟨hc, ht⟩

theorem verifyCommit_of_validateLastCommit (h : validateLastCommit c state block = .ok ())
    (hheight : block.height ≠ state.initialHeight) :
    state.lastVoters.verifyCommit c state.chainID state.lastBlockID (sub block.height 1)
      block.lastCommit = .ok () := by
  unfold validateLastCommit at h
  rw [if_neg hheight] at h
  split at h
  · cases h
  · assumption

theorem time_of_validateBlockTime (h : validateBlockTime state block = .ok ())
    (hheight : state.initialHeight < block.height) :
    state.lastBlockTime < block.time ∧ block.time = medianTime block.lastCommit state.lastVoters := by
  unfold validateBlockTime at h
  rw [if_pos hheight] at h
  dsimp only at h
  by_cases hlast : block.time > state.lastBlockTime
  · rw [if_neg (not_not_intro hlast)] at h
    by_cases hmedian : block.time = medianTime block.lastCommit state.lastVoters
    · exact ⟨hlast, hmedian⟩
    · rw [if_pos hmedian] at h
      cases h
  · rw [if_pos hlast] at h
    cases h

end Accepted

/-! ## The weight `VerifyCommit` tallies -/

/-- The weight of the voters whose signatures are for the block, over the
pairs of voter and signature `VerifyCommit` walks. -/
def forBlockWeight (pairs : List (Validator K × CommitSig S)) : Int :=
  ((pairs.filter fun p => p.2.forBlock).map fun p => p.1.votingWeight).sum

theorem forBlockWeight_cons (voter : Validator K) (commitSig : CommitSig S)
    (pairs : List (Validator K × CommitSig S)) :
    forBlockWeight ((voter, commitSig) :: pairs) =
      (if commitSig.forBlock then voter.votingWeight else 0) + forBlockWeight pairs := by
  by_cases h : commitSig.forBlock = true <;> simp [forBlockWeight, h]

theorem forBlock_eq_false_of_absent {commitSig : CommitSig S} (h : commitSig.absent = true) :
    commitSig.forBlock = false := by
  simp only [CommitSig.absent, CommitSig.forBlock, beq_iff_eq] at h ⊢
  simp [h]

theorem forBlockWeight_nonneg {pairs : List (Validator K × CommitSig S)}
    (hw : ∀ p ∈ pairs, 0 ≤ p.1.votingWeight) : 0 ≤ forBlockWeight pairs :=
  List.sum_nonneg fun x hx => by
    obtain ⟨p, hp, rfl⟩ := List.mem_map.mp hx
    exact hw p (List.mem_of_mem_filter hp)

section Tally

variable (c : Primitives K CanonicalVote S) (chainID : String) (commit : Commit S)

/-- The loop of `VerifyCommit` tallies exactly the weight of the entries for
the block, as long as that sum is an `int64`: every entry it verifies counts
its voter's weight once, as verified or as unverified weight. -/
theorem verifyCommitLoop_tallied :
    ∀ {idx : Nat} {pairs : List (Validator K × CommitSig S)} {tallied tallied' : Int}
      {batch batch' : BlsBatch K},
      (∀ p ∈ pairs, 0 ≤ p.1.votingWeight) → 0 ≤ tallied → tallied + forBlockWeight pairs ≤ maxInt64 →
      verifyCommitLoop c chainID commit idx pairs tallied batch = .ok (tallied', batch') →
      tallied' = tallied + forBlockWeight pairs
  | _, [], _, _, _, _, _, _, _, h => by
    cases h
    simp [forBlockWeight]
  | idx, (voter, commitSig) :: rest, tallied, tallied', batch, batch', hw, h0, hmax, h => by
    have hwv : 0 ≤ voter.votingWeight := hw _ List.mem_cons_self
    have hwr : ∀ p ∈ rest, 0 ≤ p.1.votingWeight := fun p hp => hw p (List.mem_cons_of_mem _ hp)
    have hrest := forBlockWeight_nonneg hwr
    rw [forBlockWeight_cons] at hmax ⊢
    unfold verifyCommitLoop at h
    by_cases habs : commitSig.absent = true
    · -- an absent entry is skipped, and it is not for the block
      rw [if_pos habs] at h
      rw [forBlock_eq_false_of_absent habs, if_neg Bool.false_ne_true, Int.zero_add]
      exact verifyCommitLoop_tallied hwr h0 (by rw [forBlock_eq_false_of_absent habs] at hmax; simpa using hmax) h
    · rw [if_neg habs] at h
      split at h
      · cases h
      · rename_i verified unverified batch₁ hver
        -- one of the two weights is the voter's and the other is zero
        have hsum : verified + unverified = voter.votingWeight := by
          rcases verifySignatureOrCollect_eq_ok c hver with ⟨-, -, -, rfl, rfl, -⟩ | ⟨-, -, -, rfl, rfl, -⟩
          · omega
          · omega
        by_cases hfor : commitSig.forBlock = true
        · rw [if_pos hfor] at hmax ⊢
          have hvin : InInt64 (verified + unverified) := by
            unfold InInt64 minInt64 maxInt64 at *
            omega
          have hin : InInt64 (tallied + voter.votingWeight) := by
            unfold InInt64 minInt64 maxInt64 at *
            omega
          simp only [if_pos hfor, add_of_inInt64 hvin, hsum, add_of_inInt64 hin] at h
          rw [verifyCommitLoop_tallied hwr (by omega) (by omega) h]
          omega
        · rw [if_neg hfor] at hmax ⊢
          simp only [if_neg hfor] at h
          rw [verifyCommitLoop_tallied hwr h0 (by omega) h]
          omega

end Tally

theorem sum_votingWeight_nonneg {vs : List (Validator K)} (hw : ∀ v ∈ vs, 0 ≤ v.votingWeight) :
    0 ≤ (vs.map (·.votingWeight)).sum :=
  List.sum_nonneg fun x hx => by
    obtain ⟨v, hv, rfl⟩ := List.mem_map.mp hx
    exact hw v hv

theorem forBlockWeight_le : ∀ (voters : List (Validator K)) (signatures : List (CommitSig S)),
    (∀ v ∈ voters, 0 ≤ v.votingWeight) →
      forBlockWeight (voters.zip signatures) ≤ (voters.map (·.votingWeight)).sum
  | [], _, _ => by simp [forBlockWeight]
  | _ :: _, [], hw => by
    simpa [forBlockWeight] using sum_votingWeight_nonneg hw
  | voter :: voters, cs :: signatures, hw => by
    have hrest := forBlockWeight_le voters signatures fun v hv => hw v (List.mem_cons_of_mem _ hv)
    have hv : 0 ≤ voter.votingWeight := hw voter List.mem_cons_self
    rw [List.zip_cons_cons, forBlockWeight_cons, List.map_cons, List.sum_cons]
    split_ifs <;> omega

/-- When `VerifyCommit` accepts, the weight of the voters whose signatures are
for the block exceeds two thirds of the total, for an `int64` sum of
nonnegative weights and a total below `MaxTotalVotingWeight`. -/
theorem verifyCommit_tally {c : Primitives K CanonicalVote S} {voters : VoterSet K} {chainID : String}
    {blockID : BlockID} {height : Int} {commit : Commit S} {total : Int}
    (hw : ∀ v ∈ voters.voters, 0 ≤ v.votingWeight)
    (hsum : (voters.voters.map (·.votingWeight)).sum ≤ maxInt64)
    (htotal : voters.totalVotingWeight = some total) (h0 : 0 ≤ total) (hbound : total ≤ maxTotalVotingWeight)
    (h : voters.verifyCommit c chainID blockID height commit = .ok ()) :
    commit.signatures.length = voters.voters.length ∧
      2 * total / 3 < forBlockWeight (voters.voters.zip commit.signatures) := by
  unfold VoterSet.verifyCommit at h
  split_ifs at h with hsize
  rw [htotal] at h
  simp only at h
  have hpairs : ∀ p ∈ voters.voters.zip commit.signatures, 0 ≤ p.1.votingWeight :=
    fun p hp => hw p.1 (List.of_mem_zip hp).1
  have hle := forBlockWeight_le voters.voters commit.signatures hw
  split at h
  · cases h
  · rename_i tallied batch hloop
    have htallied := verifyCommitLoop_tallied c chainID commit hpairs le_rfl (by omega) hloop
    split at h
    · cases h
    · split_ifs at h with hreq
      -- the required weight is `total * 2 / 3`, with no wrap below `MaxTotalVotingWeight`
      have hmul : mul total 2 = total * 2 := by
        apply mul_of_inInt64
        unfold InInt64 minInt64 maxInt64
        unfold maxTotalVotingWeight maxTotalVotingPower maxInt64 at hbound
        omega
      have hdiv : div (total * 2) 3 = total * 2 / 3 := by
        rw [div_of_inInt64 (by unfold InInt64 minInt64 maxInt64
                               unfold maxTotalVotingWeight maxTotalVotingPower maxInt64 at hbound
                               omega) (by decide),
          Int.tdiv_eq_ediv_of_nonneg (by omega)]
      rw [hmul, hdiv] at hreq
      exact ⟨by unfold VoterSet.size at hsize; omega, by omega⟩

/-! ## The weighted times of a commit whose signatures carry their voters' addresses -/

/-- The weighted time of a signature weighed by the voter at its index. -/
def ownEntry (commitSig : CommitSig S) (voter : Validator K) : Option WeightedTime :=
  if commitSig.absent then none else some (newWeightedTime commitSig.timestamp voter.votingWeight)

theorem ownEntry_of_absent {commitSig : CommitSig S} (h : commitSig.absent = true) (voter : Validator K) :
    ownEntry commitSig voter = none := by
  simp [ownEntry, h]

theorem ownEntry_of_present {commitSig : CommitSig S} (h : commitSig.absent = false)
    (voter : Validator K) :
    ownEntry commitSig voter = some (newWeightedTime commitSig.timestamp voter.votingWeight) := by
  simp [ownEntry, h]

/-- Every signature of the commit that is not absent carries the address of
the voter at its index, and no two voters share an address. -/
structure AddressedByIndex (commit : Commit S) (voters : VoterSet K) : Prop where
  nodup : (voters.voters.map (·.address)).Nodup
  addresses : List.Forall₂ (fun (commitSig : CommitSig S) (voter : Validator K) =>
    commitSig.absent = false → commitSig.validatorAddress = voter.address) commit.signatures voters.voters

theorem getByAddressFrom_isSome {address : Bytes} :
    ∀ {idx : Nat} {vs : List (Validator K)}, (∃ v ∈ vs, v.address = address) →
      (getByAddressFrom address idx vs).isSome
  | _, [], ⟨_, hv, _⟩ => absurd hv List.not_mem_nil
  | idx, voter :: rest, ⟨v, hv, haddr⟩ => by
    unfold getByAddressFrom
    split_ifs with h
    · rfl
    · rcases List.mem_cons.mp hv with rfl | hv
      · exact absurd haddr h
      · exact getByAddressFrom_isSome ⟨v, hv, haddr⟩

theorem getByAddress_self {voters : VoterSet K} (hnd : (voters.voters.map (·.address)).Nodup)
    {voter : Validator K} (hv : voter ∈ voters.voters) :
    ∃ idx, voters.getByAddress voter.address = some (idx, voter) := by
  have hsome : (getByAddressFrom voter.address 0 voters.voters).isSome :=
    getByAddressFrom_isSome ⟨voter, hv, rfl⟩
  obtain ⟨⟨idx, found⟩, hfound⟩ := Option.isSome_iff_exists.mp hsome
  obtain ⟨hidx, rfl, haddr⟩ := getByAddress_eq_some hfound
  exact ⟨idx, by
    rw [VoterSet.getByAddress, hfound, List.inj_on_of_nodup_map hnd (List.getElem_mem hidx) hv haddr]⟩

theorem weightedTimeOf_eq_some {voters : VoterSet K} {commitSig : CommitSig S} {wt : WeightedTime}
    (h : weightedTimeOf voters commitSig = some wt) :
    commitSig.absent = false ∧ wt.time = commitSig.timestamp := by
  unfold weightedTimeOf at h
  split_ifs at h with habs
  split at h
  · cases h
  · cases h
    exact ⟨by simpa using habs, rfl⟩

theorem map_weightedTimeOf {commit : Commit S} {voters : VoterSet K}
    (h : AddressedByIndex commit voters) :
    commit.signatures.map (weightedTimeOf voters) =
      List.zipWith ownEntry commit.signatures voters.voters := by
  -- walk the two lists together, with every voter of the tail still a voter of the set
  suffices key : ∀ {sigs : List (CommitSig S)} {vs : List (Validator K)},
      List.Forall₂ (fun (commitSig : CommitSig S) (voter : Validator K) =>
        commitSig.absent = false → commitSig.validatorAddress = voter.address) sigs vs →
      (∀ v ∈ vs, v ∈ voters.voters) → sigs.map (weightedTimeOf voters) = List.zipWith ownEntry sigs vs from
    key h.addresses fun _ hv => hv
  intro sigs vs hall
  induction hall with
  | nil => intro _; rfl
  | @cons cs v sigs vs haddr _ ih =>
    intro hmem
    rw [List.map_cons, List.zipWith_cons_cons, ih fun w hw => hmem w (List.mem_cons_of_mem _ hw)]
    congr 1
    unfold weightedTimeOf ownEntry
    by_cases habs : cs.absent = true
    · simp [habs]
    · have habs' : cs.absent = false := by simpa using habs
      obtain ⟨idx, hidx⟩ := getByAddress_self h.nodup (hmem v List.mem_cons_self)
      rw [if_neg habs, if_neg habs, haddr habs', hidx]

/-! ## Weights of the marked voters -/

/-- The weight of the voters that `faulty` marks by index. -/
def weightMarked (voters : VoterSet K) (faulty : Nat → Bool) : Int :=
  ((marked faulty 0 voters.voters).map (·.votingWeight)).sum

/-- The timestamps of the signatures that are not absent at the indices
`faulty` does not mark. -/
def honestTimestamps (commit : Commit S) (faulty : Nat → Bool) : List Int :=
  ((marked (fun i => !faulty i) 0 commit.signatures).filter fun cs => !cs.absent).map (·.timestamp)

theorem weightOfEntries_zipWith_ownEntry_le :
    ∀ (signatures : List (CommitSig S)) (vs : List (Validator K)), (∀ v ∈ vs, 0 ≤ v.votingWeight) →
      weightOfEntries (List.zipWith ownEntry signatures vs) ≤ (vs.map (·.votingWeight)).sum
  | [], _, hw => by
    simpa [weightOfEntries] using sum_votingWeight_nonneg hw
  | _ :: _, [], _ => by simp [weightOfEntries]
  | cs :: signatures, v :: vs, hw => by
    have hrest := weightOfEntries_zipWith_ownEntry_le signatures vs fun w hw' =>
      hw w (List.mem_cons_of_mem _ hw')
    have hv : 0 ≤ v.votingWeight := hw v List.mem_cons_self
    rw [List.zipWith_cons_cons, List.map_cons, List.sum_cons]
    cases habs : cs.absent
    · rw [ownEntry_of_present habs, weightOfEntries_cons_some, newWeightedTime_weight]
      omega
    · rw [ownEntry_of_absent habs, weightOfEntries_cons_none]
      omega

theorem forBlockWeight_le_weightOfEntries :
    ∀ (signatures : List (CommitSig S)) (vs : List (Validator K)), (∀ v ∈ vs, 0 ≤ v.votingWeight) →
      forBlockWeight (vs.zip signatures) ≤ weightOfEntries (List.zipWith ownEntry signatures vs)
  | [], vs, _ => by cases vs <;> simp [forBlockWeight, weightOfEntries]
  | _ :: _, [], _ => by simp [forBlockWeight, weightOfEntries]
  | cs :: signatures, v :: vs, hw => by
    have hrest := forBlockWeight_le_weightOfEntries signatures vs fun w hw' =>
      hw w (List.mem_cons_of_mem _ hw')
    have hv : 0 ≤ v.votingWeight := hw v List.mem_cons_self
    rw [List.zip_cons_cons, forBlockWeight_cons, List.zipWith_cons_cons]
    cases habs : cs.absent
    · -- a signature that is not absent counts in the median, whether or not it is for the block
      rw [ownEntry_of_present habs, weightOfEntries_cons_some, newWeightedTime_weight]
      split_ifs <;> omega
    · rw [ownEntry_of_absent habs, weightOfEntries_cons_none, forBlock_eq_false_of_absent habs,
        if_neg Bool.false_ne_true]
      omega

section Median

variable {commit : Commit S} {voters : VoterSet K} (faulty : Nat → Bool)
  (haddr : AddressedByIndex commit voters) (hw : ∀ v ∈ voters.voters, 0 ≤ v.votingWeight)
  (hsum : (voters.voters.map (·.votingWeight)).sum ≤ maxInt64)

theorem perm_marked_entries :
    (commit.signatures.map (weightedTimeOf voters)).Perm
      (marked (fun i => !faulty i) 0 (commit.signatures.map (weightedTimeOf voters)) ++
        marked faulty 0 (commit.signatures.map (weightedTimeOf voters))) := by
  have h := marked_perm faulty 0 (commit.signatures.map (weightedTimeOf voters))
  exact h.symm.trans List.perm_append_comm

theorem mem_honestTimestamps {wt : WeightedTime}
    (h : wt ∈ (marked (fun i => !faulty i) 0 (commit.signatures.map (weightedTimeOf voters))).reduceOption) :
    wt.time ∈ honestTimestamps commit faulty := by
  rw [marked_map, List.reduceOption_mem_iff, List.mem_map] at h
  obtain ⟨cs, hcs, hwt⟩ := h
  obtain ⟨habs, htime⟩ := weightedTimeOf_eq_some hwt
  exact List.mem_map.mpr ⟨cs, List.mem_filter.mpr ⟨hcs, by simp [habs]⟩, htime.symm⟩

include haddr hw

theorem entries_nonneg : ∀ wt ∈ (commit.signatures.map (weightedTimeOf voters)).reduceOption, 0 ≤ wt.weight := by
  intro wt hwt
  rw [map_weightedTimeOf haddr, List.reduceOption_mem_iff] at hwt
  obtain ⟨i, hi, hget⟩ := List.getElem_of_mem hwt
  rw [List.getElem_zipWith] at hget
  unfold ownEntry at hget
  split_ifs at hget
  cases hget
  exact hw _ (List.getElem_mem _)

theorem weightOfEntries_faulty_le :
    weightOfEntries (marked faulty 0 (commit.signatures.map (weightedTimeOf voters))) ≤
      weightMarked voters faulty := by
  rw [map_weightedTimeOf haddr, marked_zipWith]
  exact weightOfEntries_zipWith_ownEntry_le _ _ fun v hv =>
    hw v ((marked_sublist faulty 0 voters.voters).subset hv)

include hsum

theorem weightOfEntries_le_maxInt64 :
    weightOfEntries (commit.signatures.map (weightedTimeOf voters)) ≤ maxInt64 := by
  rw [map_weightedTimeOf haddr]
  exact (weightOfEntries_zipWith_ownEntry_le _ _ hw).trans hsum

theorem medianTime_eq :
    medianTime commit voters =
      weightedMedian (commit.signatures.map (weightedTimeOf voters))
        (weightOfEntries (commit.signatures.map (weightedTimeOf voters))) := by
  have hnn := entries_nonneg haddr hw
  have hmax := weightOfEntries_le_maxInt64 haddr hw hsum
  unfold medianTime
  dsimp only
  rw [GoInt.foldl_add_of_nonneg WeightedTime.weight _ le_rfl hnn (by rw [Int.zero_add]; exact hmax),
    Int.zero_add]
  rfl

end Median

/-- If the marked voters hold less than a third of the total weight, the
block time is at most some honest timestamp: `VerifyCommit` makes the
signatures weigh more than two thirds, so the honest ones weigh at least
half of them. -/
theorem validateBlock_time_le_honest {c : Primitives K CanonicalVote S} {state : CommittedState K}
    {round : Int} {block : Block S} (faulty : Nat → Bool) {total : Int}
    (hw : ∀ v ∈ state.lastVoters.voters, 0 ≤ v.votingWeight)
    (hsum : (state.lastVoters.voters.map (·.votingWeight)).sum ≤ maxInt64)
    (htotal : state.lastVoters.totalVotingWeight = some total) (hbound : total ≤ maxTotalVotingWeight)
    (haddr : AddressedByIndex block.lastCommit state.lastVoters)
    (hfaulty : 3 * weightMarked state.lastVoters faulty < total)
    (hheight : state.initialHeight < block.height) (h : validateBlock c state round block = .ok ()) :
    ∃ t ∈ honestTimestamps block.lastCommit faulty, block.time ≤ t := by
  obtain ⟨hcommit, htime⟩ := validateBlock_eq_ok h
  have hmarked : 0 ≤ weightMarked state.lastVoters faulty :=
    sum_votingWeight_nonneg fun v hv => hw v ((marked_sublist faulty 0 _).subset hv)
  obtain ⟨-, htally⟩ := verifyCommit_tally hw hsum htotal (by omega) hbound
    (verifyCommit_of_validateLastCommit hcommit (Int.ne_of_gt hheight))
  -- the weights `MedianTime` counts: all of them, the honest ones and the faulty ones
  have hcounted : forBlockWeight (state.lastVoters.voters.zip block.lastCommit.signatures) ≤
      weightOfEntries (block.lastCommit.signatures.map (weightedTimeOf state.lastVoters)) := by
    rw [map_weightedTimeOf haddr]
    exact forBlockWeight_le_weightOfEntries _ _ hw
  have hsplit := weightOfEntries_perm (@perm_marked_entries K S block.lastCommit state.lastVoters faulty)
  rw [weightOfEntries_append] at hsplit
  have hfe := weightOfEntries_faulty_le faulty haddr hw
  have hhonest_nn := weightOfEntries_nonneg
    (nonneg_of_perm_append (entries_nonneg haddr hw) (perm_marked_entries faulty)).1
  obtain ⟨wt, hwt, hle⟩ := exists_weightedMedian_le (entries_nonneg haddr hw) rfl
    (weightOfEntries_le_maxInt64 haddr hw hsum) (perm_marked_entries faulty) (by omega) (by omega)
  refine ⟨wt.time, mem_honestTimestamps faulty hwt, ?_⟩
  rw [(time_of_validateBlockTime htime hheight).2, medianTime_eq haddr hw hsum]
  exact hle

/-! ## Failing inputs -/

/-- The voter of weight one with the ed25519 key `i` and a 20-byte address. -/
def timeVoter (i : Nat) : Validator Nat :=
  { address := List.replicate 20 i.toUInt8, pubKey := .leaf .ed25519 i, votingPower := 1,
    votingWeight := 1 }

/-- Four voters of weight one. -/
def fourTimeVoters : VoterSet Nat := ⟨[timeVoter 0, timeVoter 1, timeVoter 2, timeVoter 3], 0⟩

/-- The block ID of the block at height 1. -/
def firstBlockID : BlockID := ⟨List.replicate 32 1, ⟨1, List.replicate 32 2⟩⟩

/-- The precommit of voter `i` for the block at height 1, at `timestamp`, with
`address` written in the signature. -/
def precommitOf (i : Nat) (address : Bytes) (timestamp : Int) : CommitSig (IdealSig Nat CanonicalVote) :=
  { blockIDFlag := .commit, validatorAddress := address, timestamp := timestamp,
    signature := some ((PubKey.leaf .ed25519 i).idealSign (firstVoterVote "" 1 0 firstBlockID timestamp)) }

/-- The state after the block at height 1, whose time is `0`. -/
def stateAfterFirst : CommittedState Nat :=
  { chainID := "", initialHeight := 1, lastBlockHeight := 1, lastBlockID := firstBlockID,
    lastBlockTime := 0, lastVoters := fourTimeVoters, validators := [timeVoter 0] }

/-- The block at height 2 at `time`, whose last commit has the signatures `signatures`. -/
def secondBlock (signatures : List (CommitSig (IdealSig Nat CanonicalVote))) (time : Int) :
    Block (IdealSig Nat CanonicalVote) :=
  { chainID := "", height := 2, round := 0, time := time, lastBlockID := firstBlockID,
    proposerAddress := (timeVoter 0).address,
    lastCommit :=
      { height := 1, round := 0, blockID := firstBlockID, signatures := signatures,
        aggregatedSignature := none } }

/-- Voter 0 signs at time `1` and voters 1 and 2 at time `10`; voter 3 is
absent.  Every signature carries its voter's address. -/
def halvedSignatures : List (CommitSig (IdealSig Nat CanonicalVote)) :=
  [precommitOf 0 (timeVoter 0).address 1, precommitOf 1 (timeVoter 1).address 10,
    precommitOf 2 (timeVoter 2).address 10, CommitSig.absentSig]

/-- Voter 0 signs at time `1000` with its address; voters 1 to 3 sign at time
`10`, and their signatures carry an address that is no voter's. -/
def relabelledSignatures : List (CommitSig (IdealSig Nat CanonicalVote)) :=
  [precommitOf 0 (timeVoter 0).address 1000, precommitOf 1 (List.replicate 20 200) 10,
    precommitOf 2 (List.replicate 20 200) 10, precommitOf 3 (List.replicate 20 200) 10]

/-- `validateBlock` accepts block times outside the honest timestamps, with
voter 0 alone marked faulty.  It holds a quarter of the total weight.

* When every signature carries its voter's address, voter 0 signs at time `1`
  and two honest voters sign at time `10`.  `MedianTime` counts the weight
  three, halves it to one and stops at the first entry, so the block time is
  `1`, below every honest timestamp.
* When the honest signatures carry an address that is no voter's,
  `MedianTime` counts voter 0 alone, and the block time is its `1000`, above
  every honest timestamp. -/
theorem validateBlock_time_outside_honest :
    stateAfterFirst.initialHeight ≤ stateAfterFirst.lastBlockHeight ∧
      fourTimeVoters.totalVotingWeight = some 4 ∧ 3 * weightMarked fourTimeVoters (· == 0) < 4 ∧
      (stateAfterFirst.initialHeight < (secondBlock halvedSignatures 1).height ∧
        validateBlock idealNat stateAfterFirst 0 (secondBlock halvedSignatures 1) = .ok () ∧
        AddressedByIndex (secondBlock halvedSignatures 1).lastCommit fourTimeVoters ∧
        honestTimestamps (secondBlock halvedSignatures 1).lastCommit (· == 0) = [10, 10]) ∧
      (stateAfterFirst.initialHeight < (secondBlock relabelledSignatures 1000).height ∧
        validateBlock idealNat stateAfterFirst 0 (secondBlock relabelledSignatures 1000) = .ok () ∧
        honestTimestamps (secondBlock relabelledSignatures 1000).lastCommit (· == 0) = [10, 10, 10]) :=
  ⟨by decide, by decide, by decide,
    ⟨by decide, by decide, ⟨by decide, by decide⟩, by decide⟩,
    ⟨by decide, by decide, by decide⟩⟩

/-- `validateBlock_time_le_honest` at the block of time `1` whose signatures
carry their voters' addresses. -/
theorem validateBlock_time_le_honest_halved :
    validateBlock idealNat stateAfterFirst 0 (secondBlock halvedSignatures 1) = .ok () ∧
      ∃ t ∈ honestTimestamps (secondBlock halvedSignatures 1).lastCommit (· == 0),
        (secondBlock halvedSignatures 1).time ≤ t := by
  have h : validateBlock idealNat stateAfterFirst 0 (secondBlock halvedSignatures 1) = .ok () := by
    decide
  exact ⟨h, validateBlock_time_le_honest (· == 0) (by decide) (by decide)
    (show stateAfterFirst.lastVoters.totalVotingWeight = some 4 by decide) (by decide)
    ⟨by decide, by decide⟩ (by decide) (by decide) h⟩

end Ostracon.State
