import Ostracon.Types.ElectionTolerance
/-!
# The voter election returns well-formed voters

Whatever the tolerable Byzantine percentage below 33 and the minimum number
of voters, `electVotersNonDup` returns (`electVotersNonDup_wellElected`)
copies of input validators, each with a weight of its own, at most as often
as they occur in the input (so with distinct addresses when the input's are
distinct), and at least `minVoters` of them unless it returns every
validator.  It returns from one of two places: at a break, voters drawn by
power, so none without power; at the fallback, every validator with its
power as weight.  Either way the weights are not negative and add up to at
most the total power, so `WrapValidatorsToVoterSet` does not panic on them.

The loop is followed by `PassInv`, with `VotersCopied` beside it for what the
voters are copies of; unlike `electStep_spec`, nothing here depends on the
tolerable power.
-/

namespace Ostracon.Types

open GoInt

variable {K : Type}

/-- `v` is `u` with a voting weight of its own. -/
def CopyOf (u v : Validator K) : Prop := v = { u with votingWeight := v.votingWeight }

theorem copyOf_self (u : Validator K) : CopyOf u u := rfl

theorem CopyOf.withWeight {u v : Validator K} (h : CopyOf u v) (w : Int) :
    CopyOf u { v with votingWeight := w } := by
  unfold CopyOf at h ⊢
  rw [h]

/-- What `electVotersNonDup` returns from `validators` for `minVoters`. -/
structure WellElected (validators : List (Validator K)) (minVoters : Int) (R : List (Validator K)) :
    Prop where
  copies : ∀ v ∈ R, ∃ u ∈ validators, CopyOf u v
  addresses : (R.map (·.address)).Subperm (validators.map (·.address))
  enough : min minVoters validators.length ≤ R.length
  /-- every validator with its power as weight, or voters drawn by power -/
  branch : R.Perm (validators.map fun v => { v with votingWeight := v.votingPower }) ∨
    ∀ v ∈ R, 0 < v.votingPower
  weight_nonneg : ∀ v ∈ R, 0 ≤ v.votingWeight
  weight_le : (R.map (·.votingWeight)).sum ≤ (validators.map (·.votingPower)).sum

/-- The voters are copies of input validators. -/
def VotersCopied (validators : List (Validator K)) (st : ElectionState K) : Prop :=
  ∀ v ∈ st.voters, ∃ u ∈ validators, CopyOf u v.val

theorem val_of_mem_setVotingWeights {totalVotingPower : Int} {voters : List (Voter K)} {v : Voter K}
    (h : v ∈ setVotingWeights totalVotingPower voters) :
    ∃ u ∈ voters, v.val = { u.val with votingWeight := v.val.votingWeight } := by
  simp only [setVotingWeights, List.mem_map] at h
  obtain ⟨u, hu, rfl⟩ := h
  exact ⟨u, hu, rfl⟩

section Loop

variable {validators zeros rest elected : List (Validator K)} {st : ElectionState K}
  {totalVotingPower tol : Int}

theorem fallbackOrNext_wellElected (hnonneg : ∀ v ∈ validators, 0 ≤ v.votingPower) (minVoters : Int)
    (hinv : PassInv validators zeros rest elected st) :
    (∃ R, fallbackOrNext zeros.length st = .done R ∧ WellElected validators minVoters R) ∨
      (rest ≠ [] ∧ fallbackOrNext zeros.length st = .next st) := by
  unfold fallbackOrNext
  have hlen := hinv.length_voters
  have hcand := hinv.length_candidates
  split_ifs with hall
  · left
    have hperm : (st.candidates.map fun c => { c with votingWeight := c.votingPower }).Perm
        (validators.map fun v => { v with votingWeight := v.votingPower }) := hinv.perm.map _
    refine ⟨_, rfl, ⟨fun v hv => ?_, ?_, ?_, .inl hperm, fun v hv => ?_, ?_⟩⟩
    · obtain ⟨c, hc, rfl⟩ := List.mem_map.mp hv
      exact ⟨c, hinv.perm.mem_iff.mp hc, rfl⟩
    · have haddr : (st.candidates.map fun c => { c with votingWeight := c.votingPower }).map
          (·.address) = st.candidates.map (·.address) := by
        simp [Function.comp_def]
      rw [haddr]
      exact (hinv.perm.map _).subperm
    · rw [List.length_map, hinv.perm.length_eq]
      omega
    · obtain ⟨c, hc, rfl⟩ := List.mem_map.mp hv
      exact hnonneg c (hinv.perm.mem_iff.mp hc)
    · have hsum := (hinv.perm.map (·.votingPower)).sum_eq
      simp only [List.map_map, Function.comp_def] at hsum ⊢
      omega
  · right
    refine ⟨?_, rfl⟩
    rintro rfl
    simp only [List.length_nil] at hcand
    omega

theorem VotersCopied.draw (hinv : PassInv validators zeros rest elected st)
    (hcopied : VotersCopied validators st) {j : Nat} (hj : j < rest.length) (seed : UInt64)
    (totalVotingPower : Int) :
    VotersCopied validators ⟨seed, rest.eraseIdx j ++ (zeros ++ elected) ++ [rest[j]],
      setVotingWeights totalVotingPower
        (accumulateWinPoints st.losersVotingPower st.voters ++ [⟨rest[j], precisionForSelection⟩]),
      sub st.losersVotingPower rest[j].votingPower⟩ := by
  intro v hv
  obtain ⟨u, hu, hval⟩ := val_of_mem_setVotingWeights hv
  rw [hval]
  rcases List.mem_append.mp hu with hu | hu
  · obtain ⟨w, hw, hwu⟩ := mem_accumulateWinPoints hu
    obtain ⟨a, ha, hcopy⟩ := hcopied w hw
    rw [hwu]
    exact ⟨a, ha, hcopy.withWeight _⟩
  · rw [List.mem_singleton.mp hu]
    have hmem : rest[j] ∈ validators :=
      hinv.perm.mem_iff.mp (by rw [hinv.candidates]; simp [List.getElem_mem hj])
    exact ⟨rest[j], hmem, (copyOf_self _).withWeight _⟩

section Draw

variable (hnonneg : ∀ v ∈ validators, 0 ≤ v.votingPower)
  (htotal : totalVotingPower = (validators.map (·.votingPower)).sum)
  (hmax : totalVotingPower ≤ maxTotalVotingPower)
include hnonneg htotal hmax

theorem electStep_wellElected (minVoters : Int) (hinv : PassInv validators zeros rest elected st)
    (hcopied : VotersCopied validators st) (hrest : rest ≠ []) :
    ∃ r, electStep totalVotingPower tol minVoters zeros.length st = some r ∧
      ((∃ R, r = .done R ∧ WellElected validators minVoters R) ∨
        ∃ st' rest' elected', r = .next st' ∧ PassInv validators zeros rest' elected' st' ∧
          VotersCopied validators st' ∧ rest' ≠ [] ∧ rest'.length < rest.length) := by
  have hlen := hinv.length_voters
  have hL0 := hinv.losers_pos hrest
  have hLmax : st.losersVotingPower ≤ maxInt64 := by
    have := hinv.sum_parts
    have := hinv.sum_elected_nonneg hnonneg
    unfold maxTotalVotingPower at hmax
    unfold maxInt64 at hmax ⊢
    rw [hinv.losers] at hL0 ⊢
    omega
  obtain ⟨seed', j, hj, hvoter, -⟩ := @electVoter_eq_some K st.seed rest (zeros ++ elected) _
    (fun a ha => (hinv.rest_power a ha).le) hinv.losers hL0 hLmax
  have hvoter' : electVoter st.seed st.candidates
      ((accumulateWinPoints st.losersVotingPower st.voters).length + zeros.length)
      st.losersVotingPower = some (seed', j, rest[j]) := by
    rw [hinv.candidates, List.append_assoc, length_accumulateWinPoints, hlen,
      show elected.length + zeros.length = (zeros ++ elected).length by simp; omega]
    exact hvoter
  have hmove : moveWinnerToLast st.candidates j =
      some (rest.eraseIdx j ++ (zeros ++ elected) ++ [rest[j]]) := by
    rw [hinv.candidates, List.append_assoc]
    exact moveWinnerToLast_eq hj
  have hnext := hinv.draw hnonneg htotal hmax hj seed'
  have hcopiedNext := hcopied.draw hinv hj seed' totalVotingPower
  generalize hvs : setVotingWeights totalVotingPower (accumulateWinPoints st.losersVotingPower
    st.voters ++ [⟨rest[j], precisionForSelection⟩]) = voters at hnext hcopiedNext
  obtain ⟨hnn, hsum, -⟩ := hinv.draw_weights hnonneg htotal hmax hj hvs
  -- what a pass ends with when it does not break
  have hend : ∀ vs : List (Voter K), vs.Perm voters →
      (∃ R, fallbackOrNext zeros.length ⟨seed', rest.eraseIdx j ++ (zeros ++ elected) ++ [rest[j]],
          vs, sub st.losersVotingPower rest[j].votingPower⟩ = .done R ∧ WellElected validators minVoters R) ∨
        ∃ st' rest' elected', fallbackOrNext zeros.length ⟨seed', rest.eraseIdx j ++
          (zeros ++ elected) ++ [rest[j]], vs, sub st.losersVotingPower rest[j].votingPower⟩ = .next st' ∧
          PassInv validators zeros rest' elected' st' ∧ VotersCopied validators st' ∧
          rest' ≠ [] ∧ rest'.length < rest.length := by
    intro vs hperm
    rcases fallbackOrNext_wellElected hnonneg minVoters (hnext.of_perm_voters hperm) with
      hdone | ⟨hne, hnxt⟩
    · exact .inl hdone
    · refine .inr ⟨_, _, _, hnxt, hnext.of_perm_voters hperm,
        fun v hv => hcopiedNext v (hperm.mem_iff.mp hv), hne, ?_⟩
      rw [List.length_eraseIdx_of_lt hj]
      omega
  simp only [electStep, hvoter', hmove, hvs]
  split_ifs with hmin hbreak
  · -- the break: the sorted voters, drawn by power
    refine ⟨_, rfl, .inl ⟨_, rfl, ?_⟩⟩
    have hperm := sortVoters_perm voters
    have hsorted := hnext.of_perm_voters hperm
    have hlenSorted : (sortVoters voters).length = voters.length := hperm.length_eq
    refine ⟨fun v hv => ?_, ?_, ?_, .inr fun v hv => ?_, fun v hv => ?_, ?_⟩
    · obtain ⟨w, hw, rfl⟩ := List.mem_map.mp hv
      exact hcopiedNext w (hperm.mem_iff.mp hw)
    · obtain ⟨l, hl, hsub⟩ := hsorted.voters_subperm
      have haddr := (⟨l.map Prod.fst, hl.map _, hsub.map _⟩ :
        ((((sortVoters voters).map (·.val)).map Validator.stake).map Prod.fst).Subperm
          ((validators.map Validator.stake).map Prod.fst))
      simp only [List.map_map, Function.comp_def, Validator.stake] at haddr ⊢
      exact haddr
    · rw [List.length_map, hlenSorted]
      omega
    · obtain ⟨w, hw, rfl⟩ := List.mem_map.mp hv
      exact hsorted.voters_power w hw
    · obtain ⟨w, hw, rfl⟩ := List.mem_map.mp hv
      exact hnn w (hperm.mem_iff.mp hw)
    · rw [List.map_map, show ((·.votingWeight) ∘ (·.val) : Voter K → Int) = (·.val.votingWeight) from rfl,
        (hperm.map _).sum_eq, ← htotal]
      exact hsum
  · exact ⟨_, rfl, hend _ (sortVoters_perm voters)⟩
  · exact ⟨_, rfl, hend _ (List.Perm.refl voters)⟩

theorem electLoop_wellElected (minVoters : Int) :
    ∀ (fuel : Nat) (st : ElectionState K) (rest elected : List (Validator K)),
      PassInv validators zeros rest elected st → VotersCopied validators st → rest ≠ [] →
      rest.length ≤ fuel →
      ∃ R, electLoop totalVotingPower tol minVoters zeros.length fuel st = some R ∧
        WellElected validators minVoters R
  | 0, _, rest, _, _, _, hrest, hfuel => absurd (List.length_eq_zero_iff.mp (by omega)) hrest
  | fuel + 1, st, rest, elected, hinv, hcopied, hrest, hfuel => by
    obtain ⟨r, hstep, hdone | ⟨st', rest', elected', rfl, hinv', hcopied', hrest', hlt⟩⟩ :=
      electStep_wellElected hnonneg htotal hmax minVoters hinv hcopied hrest
    · obtain ⟨R, rfl, hR⟩ := hdone
      exact ⟨R, by rw [electLoop, hstep], hR⟩
    · obtain ⟨R, hloop, hR⟩ :=
        electLoop_wellElected minVoters fuel st' rest' elected' hinv' hcopied' hrest' (by omega)
      exact ⟨R, by rw [electLoop, hstep]; exact hloop, hR⟩

end Draw

end Loop

section Election

variable {validators : List (Validator K)} (hnonneg : ∀ v ∈ validators, 0 ≤ v.votingPower)
  (hmax : (validators.map (·.votingPower)).sum ≤ maxTotalVotingPower)
include hnonneg hmax

theorem electVotersNonDup_wellElected (seed : UInt64) {p : Int} (minVoters : Int)
    (hpos : ∃ v ∈ validators, 0 < v.votingPower) (hp33 : p < bftMaxTolerableByzantinePercentage) :
    ∃ R, electVotersNonDup validators seed p minVoters = some R ∧ WellElected validators minVoters R := by
  obtain ⟨v, hv, hv0⟩ := hpos
  obtain ⟨z, hz⟩ := countZeroValidators_isSome
    ⟨v, List.mem_reverse.mpr ((sortValidators_perm validators).mem_iff.mpr hv), by omega⟩
  obtain ⟨zeros, rest, hlen, hrest, hfuel, hinv⟩ := passInv_init hnonneg hz seed
  unfold electVotersNonDup
  rw [if_neg (not_le.mpr hp33)]
  simp only [hz]
  rw [← hlen, getTotalVotingPower_of_le hnonneg hmax]
  exact electLoop_wellElected hnonneg rfl hmax minVoters _ _ rest [] hinv
    (fun _ hv => absurd hv List.not_mem_nil) hrest hfuel

end Election

/-- The election is well-formed: for validators of distinct addresses and
non-negative powers that fit, some positive, every seed, every percentage
below 33 and every `minVoters`, `electVotersNonDup` returns well-formed voters
of distinct addresses whose weights `WrapValidatorsToVoterSet` accepts. -/
theorem electVotersNonDup_wellFormed (validators : List (Validator K))
    (hnodup : (validators.map (·.address)).Nodup)
    (hnonneg : ∀ v ∈ validators, 0 ≤ v.votingPower)
    (hmax : (validators.map (·.votingPower)).sum ≤ maxTotalVotingPower)
    (hpos : ∃ v ∈ validators, 0 < v.votingPower) :
    ∀ (seed : UInt64) (p minVoters : Int), p < bftMaxTolerableByzantinePercentage →
      ∃ R, electVotersNonDup validators seed p minVoters = some R ∧
        WellElected validators minVoters R ∧ (R.map (·.address)).Nodup ∧
        ∃ voterSet, wrapValidatorsToVoterSet R = some voterSet ∧ voterSet.voters.Perm R := by
  intro seed p minVoters hp33
  obtain ⟨R, hR, hwell⟩ := electVotersNonDup_wellElected hnonneg hmax seed minVoters hpos hp33
  have hweight : (R.map (·.votingWeight)).sum ≤ maxTotalVotingWeight := by
    have := hwell.weight_le
    unfold maxTotalVotingWeight
    omega
  obtain ⟨l, hl, hsub⟩ := hwell.addresses
  exact ⟨R, hR, hwell, hl.nodup_iff.mp (hnodup.sublist hsub),
    wrapValidatorsToVoterSet_eq_some hwell.weight_nonneg hweight⟩

/-- Two validators of powers 10 and 0: the first draw takes the one with
power, which leaves no candidate with power, so the fallback returns both
with their powers as weights. -/
def twoValidatorsOneZero : List (Validator Unit) :=
  [⟨[1], .leaf .ed25519 (), 10, 0⟩, ⟨[2], .leaf .ed25519 (), 0, 0⟩]

theorem electVotersNonDup_wellFormed_twoValidators :
    (twoValidatorsOneZero.map (·.address)).Nodup ∧
      (∀ v ∈ twoValidatorsOneZero, 0 ≤ v.votingPower) ∧
      (twoValidatorsOneZero.map (·.votingPower)).sum ≤ maxTotalVotingPower ∧
      (∃ v ∈ twoValidatorsOneZero, 0 < v.votingPower) ∧
      ∃ R, electVotersNonDup twoValidatorsOneZero 0 20 1 = some R ∧
        WellElected twoValidatorsOneZero 1 R ∧ (R.map (·.address)).Nodup ∧
        ∃ voterSet, wrapValidatorsToVoterSet R = some voterSet ∧ voterSet.voters.Perm R := by
  have hnodup : (twoValidatorsOneZero.map (·.address)).Nodup := by decide
  have hnonneg : ∀ v ∈ twoValidatorsOneZero, 0 ≤ v.votingPower := by decide
  have hmax : (twoValidatorsOneZero.map (·.votingPower)).sum ≤ maxTotalVotingPower := by decide
  have hpos : ∃ v ∈ twoValidatorsOneZero, 0 < v.votingPower := by decide
  exact ⟨hnodup, hnonneg, hmax, hpos,
    electVotersNonDup_wellFormed twoValidatorsOneZero hnodup hnonneg hmax hpos 0 20 1 (by decide)⟩

example : electVotersNonDup twoValidatorsOneZero 0 20 1 =
    some [⟨[2], .leaf .ed25519 (), 0, 0⟩, ⟨[1], .leaf .ed25519 (), 10, 10⟩] := by decide

end Ostracon.Types
