import Ostracon.Types.VoterElection
import Ostracon.Types.VoteSetOrder
/-!
# The election tolerates the Byzantine power it is given

A group of validators is named by the addresses it holds.  The election
tolerates a power `tol` when every group of the input validators with less
power than `tol` holds less than a third of the elected voters' weight
(`ByzantineTolerant`).

`electVotersNonDup` returns from one of two places.  At a break, the voters
sorted by weight per power have a greedy prefix reaching `tol` whose weight
is below a third of the total; by the fractional knapsack bound
(`Knapsack.sum_filter_le_greedy`) no group below `tol` weighs more than that
prefix.  At the fallback, and in `ToVoterAll`, weight is power, and a power
below `tol`, for a percentage under 33, is below a third of the total.

The loop is followed by an invariant of its state at the top of each pass
(`PassInv`): the sorted candidates are those not drawn yet, all with power,
then the zero powers, then the drawn ones, whose stakes the voters carry.
One pass keeps it or returns (`electStep_spec`), and the passes, each
drawing one candidate, end before the fuel does (`electLoop_spec`).
-/

namespace Ostracon.Types

open Ostracon.Crypto Ostracon.Crypto.Merkle GoInt

variable {K : Type}

/-! ## Groups of validators -/

/-- What the election keeps of a validator: its address and power. -/
def Validator.stake (v : Validator K) : Bytes × Int := (v.address, v.votingPower)

/-- The power of the validators of `vals` whose address `S` selects. -/
def groupPower (S : Bytes → Bool) (vals : List (Validator K)) : Int :=
  ((vals.filter fun v => S v.address).map (·.votingPower)).sum

/-- The weight of the validators of `vals` whose address `S` selects. -/
def groupWeight (S : Bytes → Bool) (vals : List (Validator K)) : Int :=
  ((vals.filter fun v => S v.address).map (·.votingWeight)).sum

/-- The total weight of `vals`. -/
def totalWeight (vals : List (Validator K)) : Int := (vals.map (·.votingWeight)).sum

/-- Every group of the `validators` with less power than `tolerable` holds
less than a third of the weight of the `voters`. -/
def ByzantineTolerant (validators voters : List (Validator K)) (tolerable : Int) : Prop :=
  ∀ S : Bytes → Bool,
    groupPower S validators < tolerable → 3 * groupWeight S voters < totalWeight voters

/-- What the election returns from `validators`: validators of the input, each
at most as often as it occurs there and with its power, that tolerate
`tolerable`. -/
structure ElectedFrom (validators : List (Validator K)) (tolerable : Int)
    (voters : List (Validator K)) : Prop where
  stake : (voters.map Validator.stake).Subperm (validators.map Validator.stake)
  weight_nonneg : ∀ v ∈ voters, 0 ≤ v.votingWeight
  totalWeight_le : totalWeight voters ≤ (validators.map (·.votingPower)).sum
  tolerant : ByzantineTolerant validators voters tolerable

theorem groupPower_eq_stake (S : Bytes → Bool) (vals : List (Validator K)) :
    groupPower S vals = (((vals.map Validator.stake).filter fun a => S a.1).map Prod.snd).sum := by
  simp [groupPower, List.filter_map, Function.comp_def, Validator.stake]

theorem sum_power_eq_stake (vals : List (Validator K)) :
    (vals.map (·.votingPower)).sum = ((vals.map Validator.stake).map Prod.snd).sum := by
  simp [Function.comp_def, Validator.stake]

theorem groupPower_le_of_subperm {l₁ l₂ : List (Validator K)}
    (h : (l₁.map Validator.stake).Subperm (l₂.map Validator.stake))
    (hnonneg : ∀ v ∈ l₂, 0 ≤ v.votingPower) (S : Bytes → Bool) :
    groupPower S l₁ ≤ groupPower S l₂ := by
  rw [groupPower_eq_stake, groupPower_eq_stake]
  apply Knapsack.sum_map_le_of_subperm _ (h.filter _)
  intro a ha
  obtain ⟨v, hv, rfl⟩ := List.mem_map.mp (List.mem_of_mem_filter ha)
  exact hnonneg v hv

theorem power_nonneg_of_subperm {l₁ l₂ : List (Validator K)}
    (h : (l₁.map Validator.stake).Subperm (l₂.map Validator.stake))
    (hnonneg : ∀ v ∈ l₂, 0 ≤ v.votingPower) {v : Validator K} (hv : v ∈ l₁) : 0 ≤ v.votingPower := by
  obtain ⟨u, hu, hstake⟩ := List.mem_map.mp (h.subset (List.mem_map_of_mem hv))
  have hpower : u.votingPower = v.votingPower := congrArg Prod.snd hstake
  rw [← hpower]
  exact hnonneg u hu

theorem sum_power_eq_of_stake_perm {l₁ l₂ : List (Validator K)}
    (h : (l₁.map Validator.stake).Perm (l₂.map Validator.stake)) :
    (l₁.map (·.votingPower)).sum = (l₂.map (·.votingPower)).sum := by
  rw [sum_power_eq_stake, sum_power_eq_stake, (h.map _).sum_eq]

theorem ElectedFrom.of_perm {validators R R' : List (Validator K)} {tol : Int} (h : R'.Perm R)
    (hR : ElectedFrom validators tol R) : ElectedFrom validators tol R' where
  stake := (h.map _).subperm.trans hR.stake
  weight_nonneg v hv := hR.weight_nonneg v (h.mem_iff.mp hv)
  totalWeight_le := by
    have ht : totalWeight R' = totalWeight R := (h.map _).sum_eq
    rw [ht]
    exact hR.totalWeight_le
  tolerant S hS := by
    have hw : groupWeight S R' = groupWeight S R := ((h.filter _).map _).sum_eq
    have ht : totalWeight R' = totalWeight R := (h.map _).sum_eq
    rw [hw, ht]
    exact hR.tolerant S hS

/-- Where weight is power and the total weight is the total power, a group
below the tolerable power holds less than a third of the weight, provided
the tolerable power lies below a third of the total. -/
theorem electedFrom_of_weight_eq_power {validators R : List (Validator K)} {tol : Int}
    (hnonneg : ∀ v ∈ validators, 0 ≤ v.votingPower)
    (hstake : (R.map Validator.stake).Subperm (validators.map Validator.stake))
    (hweight : ∀ v ∈ R, v.votingWeight = v.votingPower)
    (htotal : totalWeight R = (validators.map (·.votingPower)).sum)
    (hthird : ∀ s, s < tol → 3 * s < (validators.map (·.votingPower)).sum) :
    ElectedFrom validators tol R where
  stake := hstake
  weight_nonneg v hv := hweight v hv ▸ power_nonneg_of_subperm hstake hnonneg hv
  totalWeight_le := htotal.le
  tolerant S hS := by
    have hw : groupWeight S R = groupPower S R := by
      unfold groupWeight groupPower
      congr 1
      exact List.map_congr_left fun v hv => hweight v (List.mem_of_mem_filter hv)
    rw [hw, htotal]
    exact hthird _ (lt_of_le_of_lt (groupPower_le_of_subperm hstake hnonneg S) hS)

/-! ## The break -/

section Break

variable (S : Bytes → Bool) (voters : List (Voter K))

theorem groupPower_map_val :
    groupPower S (voters.map (·.val)) =
      ((voters.filter fun v => S v.val.address).map (·.val.votingPower)).sum := by
  simp [groupPower, List.filter_map, Function.comp_def]

theorem groupWeight_map_val :
    groupWeight S (voters.map (·.val)) =
      ((voters.filter fun v => S v.val.address).map (·.val.votingWeight)).sum := by
  simp [groupWeight, List.filter_map, Function.comp_def]

theorem totalWeight_map_val :
    totalWeight (voters.map (·.val)) = (voters.map (·.val.votingWeight)).sum := by
  simp [totalWeight, Function.comp_def]

end Break

theorem electedFrom_of_break {validators : List (Validator K)} {voters : List (Voter K)}
    {tol : Int} (hnonneg : ∀ v ∈ validators, 0 ≤ v.votingPower)
    (hstake : ((voters.map (·.val)).map Validator.stake).Subperm (validators.map Validator.stake))
    (hsort : voters.Pairwise
      (Knapsack.RatioGe (fun v : Voter K => v.val.votingWeight) (fun v => v.val.votingPower)))
    (hvoters : ∀ v ∈ voters, 0 ≤ v.val.votingPower ∧ 0 ≤ v.val.votingWeight)
    (hpower : (voters.map (·.val.votingPower)).sum ≤ maxInt64)
    (hweight : (voters.map (·.val.votingWeight)).sum ≤ maxInt64)
    (htotal : (voters.map (·.val.votingWeight)).sum ≤ (validators.map (·.votingPower)).sum)
    (hbreak : getTopByzantineVotingWeight voters tol <
      div (voters.map (·.val.votingWeight)).sum 3) :
    ElectedFrom validators tol (voters.map (·.val)) := by
  refine ⟨hstake, ?_, by rwa [totalWeight_map_val], fun S hS => ?_⟩
  · simp only [List.mem_map]
    rintro _ ⟨v, hv, rfl⟩
    exact (hvoters v hv).2
  have hW : 0 ≤ (voters.map (·.val.votingWeight)).sum :=
    List.sum_nonneg (by simpa using fun v hv => (hvoters v hv).2)
  -- `totalVotingWeight/3` in `int64` is the floor of a third
  have hdiv : div (voters.map (·.val.votingWeight)).sum 3 = (voters.map (·.val.votingWeight)).sum / 3 := by
    rw [div_of_inInt64 (by unfold InInt64 minInt64; omega) (by decide),
      Int.tdiv_eq_ediv_of_nonneg hW]
  have hgroup : groupPower S (voters.map (·.val)) < tol :=
    lt_of_le_of_lt (groupPower_le_of_subperm hstake hnonneg S) hS
  rw [hdiv] at hbreak
  rw [groupPower_map_val] at hgroup
  rw [groupWeight_map_val, totalWeight_map_val]
  unfold getTopByzantineVotingWeight at hbreak
  rcases getTopByzantineVotingWeightLoop_cases tol voters 0 0 le_rfl le_rfl hvoters (by omega)
      (by omega) with ⟨G, x, H, rfl, hlt, hge, htop⟩ | htop
  · -- the greedy prefix up to `x` bounds every group below the tolerable power
    have hx := hvoters x (by simp)
    have hknap := Knapsack.sum_filter_le_greedy (fun v : Voter K => v.val.votingWeight)
      (fun v => v.val.votingPower) hsort hx.2 (by omega) (by omega) (fun v => S v.val.address)
      hgroup
    omega
  · -- without a prefix reaching the tolerable power the top weight is all of it
    omega

/-! ## The loop -/

/-- The loop's state at the top of a pass, against the sorted input split as
`rest ++ zeros ++ elected`: the candidates not drawn yet, all with power;
the zero powers that `zeroValidators` counts; and the drawn candidates,
whose stakes the voters carry. -/
structure PassInv (validators zeros rest elected : List (Validator K)) (st : ElectionState K) :
    Prop where
  candidates : st.candidates = rest ++ zeros ++ elected
  perm : st.candidates.Perm validators
  zeros_power : ∀ a ∈ zeros, a.votingPower = 0
  rest_power : ∀ a ∈ rest, 0 < a.votingPower
  voters_stake : ((st.voters.map (·.val)).map Validator.stake).Perm (elected.map Validator.stake)
  voters_power : ∀ v ∈ st.voters, 0 < v.val.votingPower
  winPoint_nonneg : ∀ v ∈ st.voters, 0 ≤ v.winPoint
  losers : st.losersVotingPower = (rest.map (·.votingPower)).sum

section Loop

variable {validators zeros rest elected : List (Validator K)} {st : ElectionState K}
  {totalVotingPower tol : Int}

theorem PassInv.length_voters (hinv : PassInv validators zeros rest elected st) :
    st.voters.length = elected.length := by
  simpa using hinv.voters_stake.length_eq

theorem PassInv.length_candidates (hinv : PassInv validators zeros rest elected st) :
    st.candidates.length = rest.length + zeros.length + elected.length := by
  simp only [hinv.candidates, List.length_append]

theorem PassInv.of_perm_voters {seed : UInt64} {candidates : List (Validator K)}
    {voters voters' : List (Voter K)} {losers : Int}
    (hinv : PassInv validators zeros rest elected ⟨seed, candidates, voters, losers⟩)
    (h : voters'.Perm voters) :
    PassInv validators zeros rest elected ⟨seed, candidates, voters', losers⟩ where
  candidates := hinv.candidates
  perm := hinv.perm
  zeros_power := hinv.zeros_power
  rest_power := hinv.rest_power
  voters_stake := ((h.map _).map _).trans hinv.voters_stake
  voters_power v hv := hinv.voters_power v (h.mem_iff.mp hv)
  winPoint_nonneg v hv := hinv.winPoint_nonneg v (h.mem_iff.mp hv)
  losers := hinv.losers

theorem PassInv.sum_parts (hinv : PassInv validators zeros rest elected st) :
    (rest.map (·.votingPower)).sum + (elected.map (·.votingPower)).sum =
      (validators.map (·.votingPower)).sum := by
  have hzeros : (zeros.map (·.votingPower)).sum = 0 :=
    List.sum_eq_zero (by simpa using hinv.zeros_power)
  have hperm := (hinv.perm.map (·.votingPower)).sum_eq
  rw [hinv.candidates] at hperm
  simp only [List.map_append, List.sum_append] at hperm
  omega

theorem PassInv.voters_subperm (hinv : PassInv validators zeros rest elected st) :
    ((st.voters.map (·.val)).map Validator.stake).Subperm (validators.map Validator.stake) := by
  have hsub : (elected.map Validator.stake).Sublist (st.candidates.map Validator.stake) := by
    rw [hinv.candidates]
    exact (List.sublist_append_right _ _).map _
  exact hinv.voters_stake.subperm.trans (hsub.subperm.trans (hinv.perm.map _).subperm)

theorem PassInv.losers_pos (hinv : PassInv validators zeros rest elected st) (hrest : rest ≠ []) :
    0 < st.losersVotingPower := by
  obtain ⟨a, ha⟩ := List.exists_mem_of_ne_nil rest hrest
  rw [hinv.losers]
  calc 0 < a.votingPower := hinv.rest_power a ha
    _ ≤ (rest.map (·.votingPower)).sum :=
      List.single_le_sum (by simpa using fun b hb => (hinv.rest_power b hb).le) _
        (List.mem_map_of_mem ha)

section Input

variable (hnonneg : ∀ v ∈ validators, 0 ≤ v.votingPower)
include hnonneg

theorem PassInv.mem_nonneg (hinv : PassInv validators zeros rest elected st) {a : Validator K}
    (ha : a ∈ rest ++ zeros ++ elected) : 0 ≤ a.votingPower :=
  hnonneg a (hinv.perm.mem_iff.mp (hinv.candidates ▸ ha))

theorem PassInv.sum_elected_nonneg (hinv : PassInv validators zeros rest elected st) :
    0 ≤ (elected.map (·.votingPower)).sum :=
  List.sum_nonneg (by simpa using fun a ha => hinv.mem_nonneg hnonneg (by simp [ha]))

end Input

theorem fallbackOrNext_spec (hnonneg : ∀ v ∈ validators, 0 ≤ v.votingPower)
    (hthird : ∀ s, s < tol → 3 * s < (validators.map (·.votingPower)).sum)
    (hinv : PassInv validators zeros rest elected st) :
    (∃ R, fallbackOrNext zeros.length st = .done R ∧ ElectedFrom validators tol R) ∨
      (rest ≠ [] ∧ fallbackOrNext zeros.length st = .next st) := by
  unfold fallbackOrNext
  have hlen := hinv.length_voters
  have hcand := hinv.length_candidates
  split_ifs with hall
  · -- every candidate with power is a voter: all candidates, weight as power
    left
    refine ⟨_, rfl, electedFrom_of_weight_eq_power hnonneg ?_ ?_ ?_ hthird⟩
    · have hstake : (st.candidates.map fun c => { c with votingWeight := c.votingPower }).map
          Validator.stake = st.candidates.map Validator.stake := by
        simp [Function.comp_def, Validator.stake]
      rw [hstake]
      exact (hinv.perm.map _).subperm
    · simp
    · simpa [totalWeight, Function.comp_def] using (hinv.perm.map (·.votingPower)).sum_eq
  · right
    refine ⟨?_, rfl⟩
    rintro rfl
    simp only [List.length_nil] at hcand
    omega

section Draw

variable (hnonneg : ∀ v ∈ validators, 0 ≤ v.votingPower)
  (htotal : totalVotingPower = (validators.map (·.votingPower)).sum)
  (hmax : totalVotingPower ≤ maxTotalVotingPower)
include hnonneg htotal hmax

theorem PassInv.draw (hinv : PassInv validators zeros rest elected st) {j : Nat}
    (hj : j < rest.length) (seed : UInt64) :
    PassInv validators zeros (rest.eraseIdx j) (elected ++ [rest[j]])
      ⟨seed, rest.eraseIdx j ++ (zeros ++ elected) ++ [rest[j]],
        setVotingWeights totalVotingPower
          (accumulateWinPoints st.losersVotingPower st.voters ++ [⟨rest[j], precisionForSelection⟩]),
        sub st.losersVotingPower rest[j].votingPower⟩ := by
  have hwinner := List.getElem_cons_eraseIdx_perm hj
  have hL0 : 0 ≤ st.losersVotingPower := by
    rw [hinv.losers]
    exact List.sum_nonneg (by simpa using fun b hb => (hinv.rest_power b hb).le)
  have hLmax : st.losersVotingPower ≤ (validators.map (·.votingPower)).sum := by
    have := hinv.sum_parts
    have := hinv.sum_elected_nonneg hnonneg
    rw [hinv.losers]
    omega
  have hrestSum : (rest.map (·.votingPower)).sum =
      rest[j].votingPower + ((rest.eraseIdx j).map (·.votingPower)).sum := by
    rw [← (hwinner.map (·.votingPower)).sum_eq, List.map_cons, List.sum_cons]
  have hpj : 0 < rest[j].votingPower := hinv.rest_power _ (List.getElem_mem hj)
  unfold maxTotalVotingPower maxInt64 at hmax
  constructor
  · simp
  · -- the winner moved to the end of the same candidates
    have hback : (rest ++ (zeros ++ elected)).Perm validators := by
      rw [← List.append_assoc, ← hinv.candidates]
      exact hinv.perm
    exact (List.perm_append_singleton _ _).trans ((hwinner.append_right _).trans hback)
  · exact hinv.zeros_power
  · exact fun a ha => hinv.rest_power a (List.mem_of_mem_eraseIdx ha)
  · -- the voters' stakes are the old ones and the winner's
    have hstakes : ((setVotingWeights totalVotingPower (accumulateWinPoints st.losersVotingPower
        st.voters ++ [⟨rest[j], precisionForSelection⟩])).map (·.val)).map Validator.stake =
        (st.voters.map (·.val)).map Validator.stake ++ [rest[j].stake] := by
      simp [setVotingWeights, accumulateWinPoints, Function.comp_def, Validator.stake]
    rw [hstakes, List.map_append]
    exact hinv.voters_stake.append_right _
  · intro v hv
    obtain ⟨u, hu, -, -, hpower⟩ := mem_setVotingWeights hv
    rw [hpower]
    rcases List.mem_append.mp hu with hu | hu
    · obtain ⟨w, hw, hval⟩ := mem_accumulateWinPoints hu
      rw [hval]
      exact hinv.voters_power w hw
    · rw [List.mem_singleton.mp hu]
      exact hpj
  · intro v hv
    obtain ⟨u, hu, hwin, -, -⟩ := mem_setVotingWeights hv
    rw [hwin]
    rcases List.mem_append.mp hu with hu | hu
    · exact winPoint_accumulateWinPoints hL0
        (fun w hw => ⟨hinv.winPoint_nonneg w hw, (hinv.voters_power w hw).le⟩) u hu
    · rw [List.mem_singleton.mp hu]
      exact (by decide : (0 : Int) ≤ precisionForSelection)
  · show sub st.losersVotingPower rest[j].votingPower = _
    have hrest' : 0 ≤ ((rest.eraseIdx j).map (·.votingPower)).sum :=
      List.sum_nonneg (by simpa using fun b hb => (hinv.rest_power b (List.mem_of_mem_eraseIdx hb)).le)
    rw [hinv.losers] at hL0 hLmax ⊢
    rw [sub_of_inInt64 (by unfold InInt64 minInt64 maxInt64; omega)]
    omega

theorem PassInv.draw_weights (hinv : PassInv validators zeros rest elected st) {j : Nat}
    (hj : j < rest.length) {voters : List (Voter K)}
    (hvoters : setVotingWeights totalVotingPower
      (accumulateWinPoints st.losersVotingPower st.voters ++ [⟨rest[j], precisionForSelection⟩]) =
        voters) :
    (∀ v ∈ voters, 0 ≤ v.val.votingWeight) ∧
      (voters.map (·.val.votingWeight)).sum ≤ totalVotingPower ∧
      (voters.map (·.val.votingPower)).sum ≤ totalVotingPower := by
  have hnext := hinv.draw hnonneg htotal hmax hj 0
  rw [hvoters] at hnext
  have hL0 : 0 ≤ st.losersVotingPower := by
    rw [hinv.losers]
    exact List.sum_nonneg (by simpa using fun b hb => (hinv.rest_power b hb).le)
  have hT0 : 0 ≤ totalVotingPower := by
    rw [htotal]
    exact List.sum_nonneg (by simpa using hnonneg)
  have hwin : ∀ v : Voter K, v ∈ accumulateWinPoints st.losersVotingPower st.voters ++
      [⟨rest[j], precisionForSelection⟩] → 0 ≤ v.winPoint := by
    intro v hv
    rcases List.mem_append.mp hv with hv | hv
    · exact winPoint_accumulateWinPoints hL0
        (fun w hw => ⟨hinv.winPoint_nonneg w hw, (hinv.voters_power w hw).le⟩) v hv
    · rw [List.mem_singleton.mp hv]
      exact (by decide : (0 : Int) ≤ precisionForSelection)
  -- the new voter's win point makes the total positive
  have htot : 0 < ((accumulateWinPoints st.losersVotingPower st.voters ++
      [(⟨rest[j], precisionForSelection⟩ : Voter K)]).map (·.winPoint)).sum := by
    have hacc : 0 ≤ ((accumulateWinPoints st.losersVotingPower st.voters).map (·.winPoint)).sum :=
      List.sum_nonneg (by simpa using fun v hv => hwin v (List.mem_append_left _ hv))
    simp only [List.map_append, List.sum_append, List.map_singleton, List.sum_singleton]
    unfold precisionForSelection
    omega
  obtain ⟨hnn, hsum⟩ := votingWeight_setVotingWeights hT0
    (by unfold maxTotalVotingPower at hmax; omega) hwin htot
  rw [hvoters] at hnn hsum
  refine ⟨hnn, hsum, ?_⟩
  have hpowers := sum_power_eq_of_stake_perm hnext.voters_stake
  dsimp only at hpowers
  have hparts := hnext.sum_parts
  have hrest : 0 ≤ ((rest.eraseIdx j).map (·.votingPower)).sum :=
    List.sum_nonneg (by simpa using fun b hb => (hnext.rest_power b hb).le)
  rw [show (voters.map (·.val.votingPower)) = (voters.map (·.val)).map (·.votingPower) by
    simp [Function.comp_def], hpowers]
  simp only [List.map_append, List.sum_append] at hparts ⊢
  omega

/-- One pass of the loop, while some candidate is not drawn: it draws one,
and either returns validators the election guarantees or keeps the
invariant with one candidate fewer left. -/
theorem electStep_spec (minVoters : Int)
    (hthird : ∀ s, s < tol → 3 * s < (validators.map (·.votingPower)).sum)
    (hinv : PassInv validators zeros rest elected st) (hrest : rest ≠ []) :
    ∃ r, electStep totalVotingPower tol minVoters zeros.length st = some r ∧
      ((∃ R, r = .done R ∧ ElectedFrom validators tol R) ∨
        ∃ st' rest' elected', r = .next st' ∧ PassInv validators zeros rest' elected' st' ∧
          rest' ≠ [] ∧ rest'.length < rest.length) := by
  have hlen := hinv.length_voters
  have hL0 := hinv.losers_pos hrest
  have hLmax : st.losersVotingPower ≤ maxInt64 := by
    have := hinv.sum_parts
    have := hinv.sum_elected_nonneg hnonneg
    unfold maxTotalVotingPower at hmax
    unfold maxInt64 at hmax ⊢
    rw [hinv.losers] at hL0 ⊢
    omega
  obtain ⟨seed', j, hj, hvoter, -⟩ := @electVoter_eq_some K st.seed rest (zeros ++ elected) _
    (fun a ha => (hinv.rest_power a ha).le) hinv.losers hL0 hLmax
  have hvoter' : electVoter st.seed st.candidates
      ((accumulateWinPoints st.losersVotingPower st.voters).length + zeros.length)
      st.losersVotingPower = some (seed', j, rest[j]) := by
    rw [hinv.candidates, List.append_assoc, length_accumulateWinPoints, hlen,
      show elected.length + zeros.length = (zeros ++ elected).length by simp; omega]
    exact hvoter
  have hmove : moveWinnerToLast st.candidates j =
      some (rest.eraseIdx j ++ (zeros ++ elected) ++ [rest[j]]) := by
    rw [hinv.candidates, List.append_assoc]
    exact moveWinnerToLast_eq hj
  have hnext := hinv.draw hnonneg htotal hmax hj seed'
  generalize hvs : setVotingWeights totalVotingPower (accumulateWinPoints st.losersVotingPower
    st.voters ++ [⟨rest[j], precisionForSelection⟩]) = voters at hnext
  obtain ⟨hnn, hsum, hpower⟩ := hinv.draw_weights hnonneg htotal hmax hj hvs
  unfold maxTotalVotingPower maxInt64 at hmax
  have hW : totalVotingWeightOf voters = (voters.map (·.val.votingWeight)).sum :=
    totalVotingWeightOf_eq_sum hnn (by unfold maxInt64; omega)
  -- what a pass ends with when it does not break
  have hend : ∀ vs : List (Voter K), vs.Perm voters →
      (∃ R, fallbackOrNext zeros.length ⟨seed', rest.eraseIdx j ++ (zeros ++ elected) ++ [rest[j]],
          vs, sub st.losersVotingPower rest[j].votingPower⟩ = .done R ∧ ElectedFrom validators tol R) ∨
        ∃ st' rest' elected', fallbackOrNext zeros.length ⟨seed', rest.eraseIdx j ++
          (zeros ++ elected) ++ [rest[j]], vs, sub st.losersVotingPower rest[j].votingPower⟩ = .next st' ∧
          PassInv validators zeros rest' elected' st' ∧ rest' ≠ [] ∧ rest'.length < rest.length := by
    intro vs hperm
    rcases fallbackOrNext_spec hnonneg hthird (hnext.of_perm_voters hperm) with hdone | ⟨hne, hnxt⟩
    · exact .inl hdone
    · refine .inr ⟨_, _, _, hnxt, hnext.of_perm_voters hperm, hne, ?_⟩
      rw [List.length_eraseIdx_of_lt hj]
      omega
  simp only [electStep, hvoter', hmove, hvs, hW]
  split_ifs with hmin hbreak
  · -- the break: the sorted voters are the result
    refine ⟨_, rfl, .inl ⟨_, rfl, ?_⟩⟩
    have hperm := sortVoters_perm voters
    have hsorted := hnext.of_perm_voters hperm
    refine electedFrom_of_break hnonneg (hsorted.voters_subperm)
      (sortVoters_pairwise hnext.voters_power)
      (fun v hv => ⟨(hsorted.voters_power v hv).le, hnn v (hperm.mem_iff.mp hv)⟩)
      (by rw [(hperm.map _).sum_eq]; unfold maxInt64; omega)
      (by rw [(hperm.map _).sum_eq]; unfold maxInt64; omega)
      (by rw [(hperm.map _).sum_eq]; omega) ?_
    rwa [(hperm.map _).sum_eq]
  · exact ⟨_, rfl, hend _ (sortVoters_perm voters)⟩
  · exact ⟨_, rfl, hend _ (List.Perm.refl voters)⟩

theorem electLoop_spec (minVoters : Int)
    (hthird : ∀ s, s < tol → 3 * s < (validators.map (·.votingPower)).sum) :
    ∀ (fuel : Nat) (st : ElectionState K) (rest elected : List (Validator K)),
      PassInv validators zeros rest elected st → rest ≠ [] → rest.length ≤ fuel →
      ∃ R, electLoop totalVotingPower tol minVoters zeros.length fuel st = some R ∧
        ElectedFrom validators tol R
  | 0, _, rest, _, _, hrest, hfuel => absurd (List.length_eq_zero_iff.mp (by omega)) hrest
  | fuel + 1, st, rest, elected, hinv, hrest, hfuel => by
    obtain ⟨r, hstep, hdone | ⟨st', rest', elected', rfl, hinv', hrest', hlt⟩⟩ :=
      electStep_spec hnonneg htotal hmax minVoters hthird hinv hrest
    · obtain ⟨R, rfl, hR⟩ := hdone
      exact ⟨R, by rw [electLoop, hstep], hR⟩
    · obtain ⟨R, hloop, hR⟩ :=
        electLoop_spec minVoters hthird fuel st' rest' elected' hinv' hrest' (by omega)
      exact ⟨R, by rw [electLoop, hstep]; exact hloop, hR⟩

end Draw

end Loop

/-! ## `electVotersNonDup` and `SelectVoter` -/

theorem passInv_init {validators : List (Validator K)} (hnonneg : ∀ v ∈ validators, 0 ≤ v.votingPower)
    {zeroValidators : Nat}
    (hzero : countZeroValidators (sortValidators validators).reverse = some zeroValidators)
    (seed : UInt64) :
    ∃ zeros rest, zeros.length = zeroValidators ∧ rest ≠ [] ∧
      rest.length ≤ (sortValidators validators).length ∧
      PassInv validators zeros rest []
        ⟨seed, sortValidators validators, [], (validators.map (·.votingPower)).sum⟩ := by
  obtain ⟨zs, y, ys, hrev, hlen, hzs, hy⟩ := countZeroValidators_eq_some hzero
  have hcands : sortValidators validators = (ys.reverse ++ [y]) ++ zs.reverse := by
    rw [← List.reverse_reverse (sortValidators validators), hrev]
    simp
  have hperm := sortValidators_perm validators
  have hsorted := sortValidators_pairwise validators
  have hy0 : 0 < y.votingPower := by
    have := hnonneg y (hperm.mem_iff.mp (by rw [hcands]; simp))
    omega
  refine ⟨zs.reverse, ys.reverse ++ [y], by simp [hlen], by simp, by rw [hcands]; simp, ?_⟩
  refine ⟨by rw [hcands]; simp, hperm, by simpa using hzs, ?_, by simp, by simp, by simp, ?_⟩
  · -- the candidates in front of `y` have at least its power
    rw [hcands] at hsorted
    have hfront := (List.pairwise_append.mp hsorted).1
    intro a ha
    rcases List.mem_append.mp ha with ha | ha
    · have := (List.pairwise_append.mp hfront).2.2 a ha y (List.mem_singleton_self y)
      omega
    · rw [List.mem_singleton.mp ha]
      exact hy0
  · -- all the power is in front
    have hsum := (hperm.map (·.votingPower)).sum_eq
    have hzeros : (zs.reverse.map (·.votingPower)).sum = 0 :=
      List.sum_eq_zero (by simpa using hzs)
    rw [hcands] at hsum
    simp only [List.map_append, List.sum_append] at hsum hzeros ⊢
    omega

section Election

variable {validators : List (Validator K)} (hnonneg : ∀ v ∈ validators, 0 ≤ v.votingPower)
  (hmax : (validators.map (·.votingPower)).sum ≤ maxTotalVotingPower)
include hnonneg hmax

theorem getTotalVotingPower_of_le : getTotalVotingPower validators = (validators.map (·.votingPower)).sum :=
  getTotalVotingPower_eq_sum hnonneg (by
    unfold maxTotalVotingPower at hmax
    unfold maxInt64 at hmax ⊢
    omega)

theorem three_mul_lt_of_lt_tolerable {p : Int} (hp : 0 ≤ p)
    (hp33 : p < bftMaxTolerableByzantinePercentage) {s : Int}
    (hs : s < getTolerableByzantinePower (getTotalVotingPower validators) p) :
    3 * s < (validators.map (·.votingPower)).sum := by
  rw [getTotalVotingPower_of_le hnonneg hmax] at hs
  exact three_mul_lt_of_lt_getTolerableByzantinePower (List.sum_nonneg (by simpa using hnonneg))
    hmax hp hp33 hs

theorem electVotersNonDup_electedFrom (seed : UInt64) {p : Int} (minVoters : Int)
    (hpos : ∃ v ∈ validators, 0 < v.votingPower) (hp : 0 ≤ p)
    (hp33 : p < bftMaxTolerableByzantinePercentage) :
    ∃ R, electVotersNonDup validators seed p minVoters = some R ∧
      ElectedFrom validators (getTolerableByzantinePower (getTotalVotingPower validators) p) R := by
  have hthird := fun s => three_mul_lt_of_lt_tolerable hnonneg hmax hp hp33 (s := s)
  obtain ⟨v, hv, hv0⟩ := hpos
  obtain ⟨z, hz⟩ := countZeroValidators_isSome
    ⟨v, List.mem_reverse.mpr ((sortValidators_perm validators).mem_iff.mpr hv), by omega⟩
  obtain ⟨zeros, rest, hlen, hrest, hfuel, hinv⟩ := passInv_init hnonneg hz seed
  unfold electVotersNonDup
  rw [if_neg (not_le.mpr hp33)]
  simp only [hz]
  rw [← hlen]
  rw [getTotalVotingPower_of_le hnonneg hmax] at hthird ⊢
  exact electLoop_spec hnonneg rfl hmax minVoters hthird _ _ rest [] hinv hrest hfuel

end Election

theorem wrapValidatorsToVoterSet_eq_some {vals : List (Validator K)}
    (hw : ∀ v ∈ vals, 0 ≤ v.votingWeight)
    (hmax : (vals.map (·.votingWeight)).sum ≤ maxTotalVotingWeight) :
    ∃ voterSet, wrapValidatorsToVoterSet vals = some voterSet ∧ voterSet.voters.Perm vals := by
  have hperm := List.perm_insertionSort (fun a b => validatorsByVotingPowerLess b a = false) vals
  unfold wrapValidatorsToVoterSet
  dsimp only
  rw [updateTotalVotingWeight_of_le le_rfl _ (fun v hv => hw v (hperm.mem_iff.mp hv))
    (by rw [(hperm.map _).sum_eq]; omega)]
  exact ⟨_, rfl, hperm⟩

theorem toVoterAll_electedFrom {validators : List (Validator K)} {tol : Int}
    (hnonneg : ∀ v ∈ validators, 0 ≤ v.votingPower)
    (hmax : (validators.map (·.votingPower)).sum ≤ maxTotalVotingPower)
    (hthird : ∀ s, s < tol → 3 * s < (validators.map (·.votingPower)).sum) :
    ∃ voterSet, toVoterAll validators = some voterSet ∧
      ElectedFrom validators tol voterSet.voters := by
  have hR : ElectedFrom validators tol ((validators.filter fun val => val.votingPower != 0).map
      fun val => { val with votingWeight := val.votingPower }) := by
    refine electedFrom_of_weight_eq_power hnonneg ?_ ?_ ?_ hthird
    · have hstake : ((validators.filter fun val => val.votingPower != 0).map
          fun val => { val with votingWeight := val.votingPower }).map Validator.stake =
          (validators.filter fun val => val.votingPower != 0).map Validator.stake := by
        simp [Function.comp_def, Validator.stake]
      rw [hstake]
      exact (List.filter_sublist.map _).subperm
    · simp only [List.mem_map]
      rintro _ ⟨v, -, rfl⟩
      rfl
    · -- the validators left out have no power
      have hzero : ((validators.filter fun val => !(val.votingPower != 0)).map
          (·.votingPower)).sum = 0 := by
        apply List.sum_eq_zero
        simp only [List.mem_map, List.mem_filter]
        rintro _ ⟨v, ⟨-, hv⟩, rfl⟩
        simpa using hv
      have hsplit := Knapsack.sum_filter_add_sum_filter_not (·.votingPower)
        (fun val : Validator K => val.votingPower != 0) validators
      simp only [totalWeight, List.map_map, Function.comp_def]
      omega
  obtain ⟨voterSet, hwrap, hperm⟩ := wrapValidatorsToVoterSet_eq_some hR.weight_nonneg (by
    have := hR.totalWeight_le
    unfold totalWeight at this
    unfold maxTotalVotingWeight
    omega)
  exact ⟨voterSet, hwrap, hR.of_perm hperm⟩

theorem selectVoter_electedFrom {validators : List (Validator K)} (proofHash : Bytes)
    (voterParams : VoterParams) (hnonneg : ∀ v ∈ validators, 0 ≤ v.votingPower)
    (hmax : (validators.map (·.votingPower)).sum ≤ maxTotalVotingPower)
    (hpos : ∃ v ∈ validators, 0 < v.votingPower) (hp : 0 ≤ voterParams.maxTolerableByzantinePercentage)
    (hp33 : voterParams.maxTolerableByzantinePercentage < bftMaxTolerableByzantinePercentage) :
    ∃ voterSet, selectVoter validators proofHash voterParams = some voterSet ∧
      ElectedFrom validators (getTolerableByzantinePower (getTotalVotingPower validators)
        voterParams.maxTolerableByzantinePercentage) voterSet.voters := by
  have hthird := fun s => three_mul_lt_of_lt_tolerable hnonneg hmax hp hp33 (s := s)
  unfold selectVoter
  split_ifs
  · exact toVoterAll_electedFrom hnonneg hmax hthird
  · obtain ⟨R, hR, hel⟩ := electVotersNonDup_electedFrom hnonneg hmax (hashToSeed proofHash)
      voterParams.voterElectionThreshold hpos hp hp33
    obtain ⟨voterSet, hwrap, hperm⟩ := wrapValidatorsToVoterSet_eq_some hel.weight_nonneg (by
      have := hel.totalWeight_le
      unfold totalWeight at this
      unfold maxTotalVotingWeight
      omega)
    refine ⟨voterSet, ?_, hel.of_perm hperm⟩
    dsimp only
    rw [hR]
    exact hwrap

/-- `SelectVoter` does not panic on validators of non-negative powers that fit,
some positive, for any percentage not negative: from 33 percent on it takes
every validator with power. -/
theorem selectVoter_isSome {validators : List (Validator K)} (proofHash : Bytes) (voterParams : VoterParams)
    (hnonneg : ∀ v ∈ validators, 0 ≤ v.votingPower)
    (hmax : (validators.map (·.votingPower)).sum ≤ maxTotalVotingPower)
    (hpos : ∃ v ∈ validators, 0 < v.votingPower) (hp : 0 ≤ voterParams.maxTolerableByzantinePercentage) :
    (selectVoter validators proofHash voterParams).isSome := by
  by_cases hp33 : voterParams.maxTolerableByzantinePercentage < bftMaxTolerableByzantinePercentage
  · obtain ⟨voterSet, hsel, -⟩ := selectVoter_electedFrom proofHash voterParams hnonneg hmax hpos hp hp33
    rw [hsel]
    rfl
  · have hsum := List.sum_nonneg (l := validators.map (·.votingPower)) (by simpa using hnonneg)
    obtain ⟨voterSet, hall, -⟩ := toVoterAll_electedFrom hnonneg hmax
      fun (s : Int) (hs : s < 0) => show 3 * s < _ by omega
    unfold selectVoter
    rw [if_pos (.inr (.inr (not_lt.mp hp33))), hall]
    rfl

/-- The election tolerates the Byzantine power it computes: for validators of
non-negative powers that fit, some positive, and a percentage in `[0, 33)`,
`electVotersNonDup` and `SelectVoter` return voters in which every group of
less than the tolerable power holds less than a third of the weight. -/
theorem voterElection_byzantineTolerant (validators : List (Validator K))
    (hnonneg : ∀ v ∈ validators, 0 ≤ v.votingPower)
    (hmax : (validators.map (·.votingPower)).sum ≤ maxTotalVotingPower)
    (hpos : ∃ v ∈ validators, 0 < v.votingPower) :
    (∀ (seed : UInt64) (p minVoters : Int), 0 ≤ p → p < bftMaxTolerableByzantinePercentage →
      ∃ R, electVotersNonDup validators seed p minVoters = some R ∧
        ByzantineTolerant validators R (getTolerableByzantinePower (getTotalVotingPower validators) p)) ∧
    (∀ (proofHash : Bytes) (voterParams : VoterParams),
      0 ≤ voterParams.maxTolerableByzantinePercentage →
      voterParams.maxTolerableByzantinePercentage < bftMaxTolerableByzantinePercentage →
      ∃ voterSet, selectVoter validators proofHash voterParams = some voterSet ∧
        ByzantineTolerant validators voterSet.voters (getTolerableByzantinePower
          (getTotalVotingPower validators) voterParams.maxTolerableByzantinePercentage)) := by
  constructor
  · intro seed p minVoters hp hp33
    obtain ⟨R, hR, hel⟩ := electVotersNonDup_electedFrom hnonneg hmax seed minVoters hpos hp hp33
    exact ⟨R, hR, hel.tolerant⟩
  · intro proofHash voterParams hp hp33
    obtain ⟨voterSet, hsel, hel⟩ :=
      selectVoter_electedFrom proofHash voterParams hnonneg hmax hpos hp hp33
    exact ⟨voterSet, hsel, hel.tolerant⟩

/-- Four validators of power 10. -/
def fourValidators : List (Validator Unit) :=
  [⟨[1], .leaf .ed25519 (), 10, 0⟩, ⟨[2], .leaf .ed25519 (), 10, 0⟩, ⟨[3], .leaf .ed25519 (), 10, 0⟩,
    ⟨[4], .leaf .ed25519 (), 10, 0⟩]

/-- At 30 percent the tolerable power of four validators of power 10 is 12,
above any one of them: the voters give the first one less than a third of
their weight. -/
theorem voterElection_byzantineTolerant_fourValidators :
    (∀ v ∈ fourValidators, 0 ≤ v.votingPower) ∧
      (fourValidators.map (·.votingPower)).sum ≤ maxTotalVotingPower ∧
      (∃ v ∈ fourValidators, 0 < v.votingPower) ∧
      groupPower (· == [1]) fourValidators <
        getTolerableByzantinePower (getTotalVotingPower fourValidators) 30 ∧
      ∃ R, electVotersNonDup fourValidators 0 30 1 = some R ∧
        ByzantineTolerant fourValidators R
          (getTolerableByzantinePower (getTotalVotingPower fourValidators) 30) ∧
        3 * groupWeight (· == [1]) R < totalWeight R := by
  have hnonneg : ∀ v ∈ fourValidators, 0 ≤ v.votingPower := by decide
  have hmax : (fourValidators.map (·.votingPower)).sum ≤ maxTotalVotingPower := by decide
  have hpos : ∃ v ∈ fourValidators, 0 < v.votingPower := by decide
  have hgroup : groupPower (· == [1]) fourValidators <
      getTolerableByzantinePower (getTotalVotingPower fourValidators) 30 := by decide
  obtain ⟨R, hR, htol⟩ :=
    (voterElection_byzantineTolerant fourValidators hnonneg hmax hpos).1 0 30 1 (by decide) (by decide)
  exact ⟨hnonneg, hmax, hpos, hgroup, R, hR, htol, htol _ hgroup⟩

/-- One validator, of power `10^12`. -/
def bigValidator : List (Validator Unit) := [⟨[1], .leaf .ed25519 (), 1000000000000, 0⟩]

/-- A negative percentage, which `SelectVoter` passes on to
`getTolerableByzantinePower`: the product overflows `int64` in `Int64()` and
wraps to a tolerable power above the total, so that the single validator, a
group below it, holds all the weight. -/
theorem selectVoter_negative_percentage_intolerant :
    (∀ v ∈ bigValidator, 0 ≤ v.votingPower) ∧
      (bigValidator.map (·.votingPower)).sum ≤ maxTotalVotingPower ∧
      (∃ v ∈ bigValidator, 0 < v.votingPower) ∧
      ∃ voterSet, selectVoter bigValidator [] ⟨33, -1844574407⟩ = some voterSet ∧
        ¬ ByzantineTolerant bigValidator voterSet.voters
          (getTolerableByzantinePower (getTotalVotingPower bigValidator) (-1844574407)) := by
  refine ⟨by decide, by decide, by decide,
    ⟨[⟨[1], .leaf .ed25519 (), 1000000000000, 1000000000000⟩], 1000000000000⟩, by decide, ?_⟩
  intro htolerant
  have hall := htolerant (fun _ => true) (by decide)
  revert hall
  decide

end Ostracon.Types
