import Mathlib.Data.List.ReduceOption
import Ostracon.Lib.GoInt
import Ostracon.Lib.Knapsack
import Ostracon.Lib.WeightedPick
/-!
# `types/time/time.go`: the weighted median of times

`WeightedMedian` sorts the weighted times, `nil` entries last, and walks them
with the budget `totalVotingPower / 2`.  It returns the time of the first entry
whose weight covers what is left of the budget.  The walk is
`WeightedPick.pick` over the entries that are not `nil`
(`weightedMedianLoop_eq_pick`).  The sort puts those entries in time order
(`pairwise_sortWeightedTimes`).

`weightedMedian_spec` says what the result is without the sort's order of
equal times.  The entries earlier than the result weigh less than the budget,
or there are none.  The entries no later than the result weigh at least the
budget.

Times are Unix nanoseconds.  The zero `time.Time` that Go returns when the
walk picks nothing is `0`, as in `NewCommitSigAbsent`.
-/

namespace Ostracon.Types

open GoInt

/-- `WeightedTime`. -/
structure WeightedTime where
  time : Int
  weight : Int
  deriving DecidableEq, Repr

/-- `NewWeightedTime`. -/
def newWeightedTime (time weight : Int) : WeightedTime := ⟨time, weight⟩

@[simp] theorem newWeightedTime_time (time weight : Int) : (newWeightedTime time weight).time = time :=
  rfl

@[simp] theorem newWeightedTime_weight (time weight : Int) :
    (newWeightedTime time weight).weight = weight :=
  rfl

/-- The comparator of the sort in `WeightedMedian`: `nil` entries go last and
the others go by time. -/
def weightedTimeLess : Option WeightedTime → Option WeightedTime → Bool
  | none, _ => false
  | some _, none => true
  | some a, some b => a.time < b.time

/-- The sort of `WeightedMedian`. -/
def sortWeightedTimes (weightedTimes : List (Option WeightedTime)) : List (Option WeightedTime) :=
  weightedTimes.insertionSort fun a b => weightedTimeLess b a = false

/-- The loop of `WeightedMedian` from the budget `median`.  It passes over the
`nil` entries, and every other entry it passes takes its weight off the
budget. -/
def weightedMedianLoop : Int → List (Option WeightedTime) → Option Int
  | _, [] => none
  | median, none :: rest => weightedMedianLoop median rest
  | median, some weightedTime :: rest =>
      if median ≤ weightedTime.weight then some weightedTime.time
      else weightedMedianLoop (sub median weightedTime.weight) rest

/-- `WeightedMedian`. -/
def weightedMedian (weightedTimes : List (Option WeightedTime)) (totalVotingPower : Int) : Int :=
  let median := div totalVotingPower 2
  (weightedMedianLoop median (sortWeightedTimes weightedTimes)).getD 0

/-! ## The loop is a weighted pick -/

theorem weightedMedianLoop_eq_pick :
    ∀ {weightedTimes : List (Option WeightedTime)} {median : Int}, InInt64 median →
      (∀ wt ∈ weightedTimes.reduceOption, 0 ≤ wt.weight) →
      weightedMedianLoop median weightedTimes =
        (WeightedPick.pick WeightedTime.weight median weightedTimes.reduceOption).map
          WeightedTime.time
  | [], _, _, _ => rfl
  | none :: rest, median, hm, hw => by
    rw [weightedMedianLoop, List.reduceOption_cons_of_none]
    exact weightedMedianLoop_eq_pick hm (by simpa using hw)
  | some wt :: rest, median, hm, hw => by
    have hwt : 0 ≤ wt.weight := hw wt (by simp)
    rw [weightedMedianLoop, List.reduceOption_cons_of_some]
    by_cases hle : median ≤ wt.weight
    · rw [if_pos hle, WeightedPick.pick_cons_of_le hle]
      rfl
    · have hlt : wt.weight < median := Int.not_le.mp hle
      -- the budget left is positive and below the old one
      have hin : InInt64 (median - wt.weight) := by
        unfold InInt64 minInt64 maxInt64 at hm ⊢
        omega
      rw [if_neg hle, WeightedPick.pick_cons_of_lt hlt, sub_of_inInt64 hin]
      exact weightedMedianLoop_eq_pick hin fun a ha =>
        hw a (List.reduceOption_mem_iff.mpr (List.mem_cons_of_mem _ (List.reduceOption_mem_iff.mp ha)))

/-! ## The sort -/

theorem weightedTimeLess_total (a b : Option WeightedTime) :
    weightedTimeLess b a = false ∨ weightedTimeLess a b = false := by
  rcases a with _ | a <;> rcases b with _ | b
  · simp [weightedTimeLess]
  · simp [weightedTimeLess]
  · simp [weightedTimeLess]
  · simp only [weightedTimeLess, decide_eq_false_iff_not, Int.not_lt]
    omega

theorem weightedTimeLess_trans {a b c : Option WeightedTime} (hab : weightedTimeLess b a = false)
    (hbc : weightedTimeLess c b = false) : weightedTimeLess c a = false := by
  rcases a with _ | a <;> rcases b with _ | b <;> rcases c with _ | c <;>
    simp_all only [weightedTimeLess, decide_eq_false_iff_not, Int.not_lt, Bool.true_eq_false]
  omega

theorem sortWeightedTimes_perm (weightedTimes : List (Option WeightedTime)) :
    (sortWeightedTimes weightedTimes).Perm weightedTimes :=
  List.perm_insertionSort _ _

theorem reduceOption_sortWeightedTimes_perm (weightedTimes : List (Option WeightedTime)) :
    (sortWeightedTimes weightedTimes).reduceOption.Perm weightedTimes.reduceOption :=
  (sortWeightedTimes_perm weightedTimes).filterMap id

theorem pairwise_sortWeightedTimes (weightedTimes : List (Option WeightedTime)) :
    (sortWeightedTimes weightedTimes).reduceOption.Pairwise fun a b => a.time ≤ b.time := by
  have hsorted := Knapsack.pairwise_insertionSort_of_mem (fun a b => weightedTimeLess b a = false)
    (l := weightedTimes) (fun a _ b _ => weightedTimeLess_total a b)
    (fun _ _ _ _ _ _ => weightedTimeLess_trans)
  refine hsorted.filterMap _ fun a b hab a' ha' b' hb' => ?_
  cases ha'
  cases hb'
  simpa [weightedTimeLess] using hab

/-! ## What the median is -/

section Spec

variable {weightedTimes : List (Option WeightedTime)} {totalVotingPower : Int}

/-- The weight of the entries that are not `nil` and whose time satisfies `q`. -/
def weightWhere (weightedTimes : List (Option WeightedTime)) (q : Int → Bool) : Int :=
  ((weightedTimes.reduceOption.filter fun wt => q wt.time).map WeightedTime.weight).sum

/-- The weight of the entries that are not `nil`. -/
def weightOfEntries (weightedTimes : List (Option WeightedTime)) : Int :=
  (weightedTimes.reduceOption.map WeightedTime.weight).sum

theorem weightWhere_perm {l₁ l₂ : List (Option WeightedTime)} (h : l₁.Perm l₂) (q : Int → Bool) :
    weightWhere l₁ q = weightWhere l₂ q :=
  (((h.filterMap id).filter _).map _).sum_eq

@[simp] theorem weightOfEntries_cons_none (l : List (Option WeightedTime)) :
    weightOfEntries (none :: l) = weightOfEntries l := by
  simp [weightOfEntries]

@[simp] theorem weightOfEntries_cons_some (wt : WeightedTime) (l : List (Option WeightedTime)) :
    weightOfEntries (some wt :: l) = wt.weight + weightOfEntries l := by
  simp [weightOfEntries]

theorem weightOfEntries_perm {l₁ l₂ : List (Option WeightedTime)} (h : l₁.Perm l₂) :
    weightOfEntries l₁ = weightOfEntries l₂ :=
  ((h.filterMap id).map _).sum_eq

theorem weightOfEntries_append (l₁ l₂ : List (Option WeightedTime)) :
    weightOfEntries (l₁ ++ l₂) = weightOfEntries l₁ + weightOfEntries l₂ := by
  simp [weightOfEntries, List.reduceOption_append]

theorem weightOfEntries_nonneg (hw : ∀ wt ∈ weightedTimes.reduceOption, 0 ≤ wt.weight) :
    0 ≤ weightOfEntries weightedTimes :=
  List.sum_nonneg (by simpa using hw)

theorem weightWhere_nonneg (hw : ∀ wt ∈ weightedTimes.reduceOption, 0 ≤ wt.weight) (q : Int → Bool) :
    0 ≤ weightWhere weightedTimes q :=
  List.sum_nonneg fun x hx => by
    obtain ⟨wt, hwt, rfl⟩ := List.mem_map.mp hx
    exact hw wt (List.mem_of_mem_filter hwt)

theorem weightWhere_append (l₁ l₂ : List (Option WeightedTime)) (q : Int → Bool) :
    weightWhere (l₁ ++ l₂) q = weightWhere l₁ q + weightWhere l₂ q := by
  simp [weightWhere, List.reduceOption_append]

theorem weightWhere_eq_weightOfEntries {q : Int → Bool}
    (h : ∀ wt ∈ weightedTimes.reduceOption, q wt.time = true) :
    weightWhere weightedTimes q = weightOfEntries weightedTimes := by
  rw [weightWhere, List.filter_eq_self.mpr h, weightOfEntries]

theorem nonneg_of_perm_append {honest faulty : List (Option WeightedTime)}
    (hw : ∀ wt ∈ weightedTimes.reduceOption, 0 ≤ wt.weight)
    (hsplit : weightedTimes.Perm (honest ++ faulty)) :
    (∀ wt ∈ honest.reduceOption, 0 ≤ wt.weight) ∧ ∀ wt ∈ faulty.reduceOption, 0 ≤ wt.weight := by
  have hmem : ∀ wt, some wt ∈ honest ++ faulty → 0 ≤ wt.weight := fun wt h =>
    hw wt (List.reduceOption_mem_iff.mpr (hsplit.symm.subset h))
  exact ⟨fun wt h => hmem wt (List.mem_append_left _ (List.reduceOption_mem_iff.mp h)),
    fun wt h => hmem wt (List.mem_append_right _ (List.reduceOption_mem_iff.mp h))⟩

variable (hw : ∀ wt ∈ weightedTimes.reduceOption, 0 ≤ wt.weight)
  (htotal : weightOfEntries weightedTimes = totalVotingPower) (hrange : totalVotingPower ≤ maxInt64)
include hw htotal hrange

theorem weightedMedian_eq_pick :
    weightedMedian weightedTimes totalVotingPower =
      ((WeightedPick.pick WeightedTime.weight (totalVotingPower / 2)
        (sortWeightedTimes weightedTimes).reduceOption).map WeightedTime.time).getD 0 := by
  have hnonneg : 0 ≤ totalVotingPower := htotal ▸ weightOfEntries_nonneg hw
  have hin : InInt64 totalVotingPower := by
    unfold maxInt64 at hrange
    unfold InInt64 minInt64 maxInt64
    omega
  have hdiv : div totalVotingPower 2 = totalVotingPower / 2 := by
    rw [div_of_inInt64 hin (by decide), Int.tdiv_eq_ediv_of_nonneg hnonneg]
  have hmed : InInt64 (totalVotingPower / 2) := by
    unfold maxInt64 at hrange
    unfold InInt64 minInt64 maxInt64
    omega
  rw [weightedMedian, hdiv, weightedMedianLoop_eq_pick hmed fun a ha =>
    hw a ((reduceOption_sortWeightedTimes_perm weightedTimes).subset ha)]

/-- The weighted median: the entries earlier than it weigh less than half the
total, or nothing; the entries no later than it weigh at least half the
total. -/
theorem weightedMedian_spec :
    (weightWhere weightedTimes (· < weightedMedian weightedTimes totalVotingPower) <
        totalVotingPower / 2 ∨
      weightWhere weightedTimes (· < weightedMedian weightedTimes totalVotingPower) = 0) ∧
    totalVotingPower / 2 ≤
      weightWhere weightedTimes (· ≤ weightedMedian weightedTimes totalVotingPower) := by
  have hperm := sortWeightedTimes_perm weightedTimes
  have hperm' := reduceOption_sortWeightedTimes_perm weightedTimes
  have hw' : ∀ wt ∈ (sortWeightedTimes weightedTimes).reduceOption, 0 ≤ wt.weight :=
    fun a ha => hw a (hperm'.subset ha)
  rw [← weightWhere_perm hperm, ← weightWhere_perm hperm, weightedMedian_eq_pick hw htotal hrange]
  cases hpick : WeightedPick.pick WeightedTime.weight (totalVotingPower / 2)
      (sortWeightedTimes weightedTimes).reduceOption with
  | none =>
    -- nothing is picked only from no entries, whose total is zero
    have hnil : (sortWeightedTimes weightedTimes).reduceOption = [] := by
      by_cases hne : (sortWeightedTimes weightedTimes).reduceOption = []
      · exact hne
      · have hnonneg : 0 ≤ totalVotingPower := htotal ▸ weightOfEntries_nonneg hw
        have hsum : totalVotingPower / 2 ≤
            ((sortWeightedTimes weightedTimes).reduceOption.map WeightedTime.weight).sum := by
          rw [(hperm'.map _).sum_eq]
          unfold weightOfEntries at htotal
          omega
        have := WeightedPick.pick_isSome hne hsum
        rw [hpick] at this
        cases this
    have hzero : totalVotingPower = 0 := by
      rw [← htotal, weightOfEntries, ← (hperm'.map _).sum_eq, hnil]
      rfl
    simp [weightWhere, hnil, hzero]
  | some x =>
    have hs := pairwise_sortWeightedTimes weightedTimes
    simp only [Option.map_some, Option.getD_some, weightWhere]
    refine ⟨?_, WeightedPick.le_sum_le_pick hw' hs hpick⟩
    rcases WeightedPick.sum_lt_pick_lt hw' hs hpick with hlt | hnil
    · exact .inl hlt
    · exact .inr (by rw [hnil]; rfl)

/-! The median between the times of a class of entries.  The class is given
as a split of the entries into `honest` and `faulty`.  A median no later than
some honest time needs the honest entries to weigh at least half the total, and
one no earlier needs the others to weigh strictly less than half. -/

variable {honest faulty : List (Option WeightedTime)}

theorem exists_weightedMedian_le (hsplit : weightedTimes.Perm (honest ++ faulty))
    (hhonest : totalVotingPower / 2 ≤ weightOfEntries honest) (hpos : 0 < weightOfEntries honest) :
    ∃ wt ∈ honest.reduceOption, weightedMedian weightedTimes totalVotingPower ≤ wt.time := by
  have hspec := (weightedMedian_spec hw htotal hrange).1
  by_cases hex : ∃ wt ∈ honest.reduceOption, weightedMedian weightedTimes totalVotingPower ≤ wt.time
  · exact hex
  · -- every honest entry is earlier than the median, and together they are too heavy
    have hall : weightWhere honest (· < weightedMedian weightedTimes totalVotingPower) =
        weightOfEntries honest :=
      weightWhere_eq_weightOfEntries fun wt hwt => by simpa using fun h => hex ⟨wt, hwt, h⟩
    have hnonneg := weightWhere_nonneg (nonneg_of_perm_append hw hsplit).2
      (· < weightedMedian weightedTimes totalVotingPower)
    rw [weightWhere_perm hsplit, weightWhere_append, hall] at hspec
    omega

end Spec

end Ostracon.Types
