import Ostracon.Types.ValidatorSetUpdate
import Mathlib.Data.List.Perm.Subperm
import Mathlib.Data.List.Sort
/-!
# `UpdateWithChangeSet`: what a change set does to a validator set

A change set names validators by address: a change of positive power adds the
validator or sets its power, a change of power `0` removes it.  The update
should leave the old validators whose address no change names and the
changes of positive power (`changedValidators`).  A new validator starts at
`-1.125` times the total before the removals, the others keep their priority
(`startValidators`); the priorities are then scaled into a window of twice the
total and centred (`expectedValidators`), all in exact arithmetic.

Every set reachable from `NewValidatorSet` by successful updates is empty or
`Valid`: addresses distinct, powers positive with a total within
`MaxTotalVotingPower` in the cache, sorted strictly by `ValidatorsByVotingPower`,
priorities summing to `[0, n)` within twice the total of each other.  From such
a set, a change set with non-empty addresses is refused exactly when
`UpdateFails` (a repeated address, a power out of range, the removal of an
absent validator, an empty or too heavy result), and the set is then left as it
was; otherwise the update returns the expected validators sorted by power, so
no priority arithmetic wrapped or clipped (`updateWithChangeSet_of_not_fails`).
The result depends on the change set only up to order.
-/

namespace Ostracon.Types

open Ostracon.Crypto.Merkle GoInt KeyedList IntWindow PriorityValidatorSet

variable {K : Type}

/-! ## The invariant -/

namespace PriorityValidatorSet

/-- What a non-empty set keeps through `UpdateWithChangeSet`. -/
structure Valid (vals : PriorityValidatorSet K) : Prop where
  nonempty : vals.validators ≠ []
  nodup : (vals.validators.map (·.address)).Nodup
  power_pos : ∀ v ∈ vals.validators, 0 < v.votingPower
  total_le : sumVotingPower vals.validators ≤ maxTotalVotingPower
  cache : vals.totalVotingPowerCache = sumVotingPower vals.validators
  sorted : vals.validators.Pairwise fun a b => validatorsByVotingPowerLess a.toValidator b.toValidator = true
  priority_sum : 0 ≤ (vals.validators.map (·.proposerPriority)).sum ∧
    (vals.validators.map (·.proposerPriority)).sum < vals.validators.length
  priority_spread : Spread (2 * sumVotingPower vals.validators) (vals.validators.map (·.proposerPriority))

/-- The sets `NewValidatorSet` and `UpdateWithChangeSet` reach: the empty one or
a valid one. -/
def Inv (vals : PriorityValidatorSet K) : Prop := vals = empty ∨ vals.Valid

variable {vals : PriorityValidatorSet K}

theorem Valid.priority_mem_Icc (hvalid : vals.Valid) {v : PriorityValidator K} (hv : v ∈ vals.validators) :
    -(2 * sumVotingPower vals.validators) ≤ v.proposerPriority ∧
      v.proposerPriority ≤ 2 * sumVotingPower vals.validators := by
  have hlen : (vals.validators.map (·.proposerPriority)).length = vals.validators.length := List.length_map _
  exact abs_le_of_spread hvalid.priority_spread (by rw [hlen]; exact hvalid.priority_sum)
    (List.mem_map_of_mem hv)

theorem Inv.nodup (hinv : vals.Inv) : (vals.validators.map (·.address)).Nodup := by
  rcases hinv with rfl | hvalid
  · exact List.nodup_nil
  · exact hvalid.nodup

/-- What an update needs of the set it starts from: distinct addresses,
positive powers with a total within `MaxTotalVotingPower` in the cache, and
priorities within three times `MaxTotalVotingPower` of zero.  A valid set has
them, and so has every set `IncrementProposerPriority` leaves. -/
structure Updatable (vals : PriorityValidatorSet K) : Prop where
  nodup : (vals.validators.map (·.address)).Nodup
  power_pos : ∀ v ∈ vals.validators, 0 < v.votingPower
  total_le : sumVotingPower vals.validators ≤ maxTotalVotingPower
  cache_eq_sum : vals.totalVotingPowerCache = sumVotingPower vals.validators
  priority_mem_Icc : ∀ v ∈ vals.validators,
    -(3 * maxTotalVotingPower) ≤ v.proposerPriority ∧ v.proposerPriority ≤ 3 * maxTotalVotingPower

theorem Valid.updatable (hvalid : vals.Valid) : vals.Updatable where
  nodup := hvalid.nodup
  power_pos := hvalid.power_pos
  total_le := hvalid.total_le
  cache_eq_sum := hvalid.cache
  priority_mem_Icc v hv := by
    have := hvalid.priority_mem_Icc hv
    have := hvalid.total_le
    omega

theorem Inv.updatable (hinv : vals.Inv) : vals.Updatable := by
  rcases hinv with rfl | hvalid
  · exact ⟨List.nodup_nil, by simp [empty], by simp [empty, maxTotalVotingPower_eq], rfl, by simp [empty]⟩
  · exact hvalid.updatable

theorem Updatable.cache (hupd : vals.Updatable) :
    vals.totalVotingPowerCache = 0 ∨ vals.totalVotingPowerCache = sumVotingPower vals.validators :=
  .inr hupd.cache_eq_sum

theorem Updatable.power_mem_Icc (hupd : vals.Updatable) :
    ∀ v ∈ vals.validators, 0 ≤ v.votingPower ∧ v.votingPower ≤ maxTotalVotingPower := by
  intro v hv
  have hpos := hupd.power_pos
  have hle : v.votingPower ≤ sumVotingPower vals.validators :=
    List.single_le_sum (by simpa using fun w hw => (hpos w hw).le) _ (List.mem_map_of_mem hv)
  exact ⟨(hpos v hv).le, hle.trans hupd.total_le⟩

theorem Updatable.cache_eq (hupd : vals.Updatable) :
    { vals with totalVotingPowerCache := sumVotingPower vals.validators } = vals := by
  obtain ⟨validators, cache⟩ := vals
  have hcache : cache = sumVotingPower validators := hupd.cache_eq_sum
  subst hcache
  rfl

theorem Updatable.startPriority_mem_Icc (hupd : vals.Updatable) {T : Int}
    (hT : 0 ≤ T ∧ T ≤ 2 * maxTotalVotingPower) (address : Bytes) :
    -(3 * maxTotalVotingPower) ≤ vals.startPriority T address ∧ vals.startPriority T address ≤ 3 * maxTotalVotingPower := by
  unfold startPriority
  cases h : vals.getByAddress address with
  | some val =>
    have := hupd.priority_mem_Icc val (mem_of_lookup_eq_some h)
    simp only
    omega
  | none =>
    simp only
    omega

theorem getByAddress_of_mem (hnodup : (vals.validators.map (·.address)).Nodup) {v : PriorityValidator K}
    (hv : v ∈ vals.validators) : vals.getByAddress v.address = some v :=
  (lookup_eq_some_iff hnodup).mpr ⟨hv, rfl⟩

end PriorityValidatorSet

/-! ## Priorities set one validator at a time -/

section SetPriority

variable (l : List (PriorityValidator K)) (f : PriorityValidator K → Int)

@[simp] theorem map_address_setPriority :
    (l.map fun v => { v with proposerPriority := f v }).map (·.address) = l.map (·.address) := by
  simp [Function.comp_def]

@[simp] theorem map_proposerPriority_setPriority :
    (l.map fun v => { v with proposerPriority := f v }).map (·.proposerPriority) = l.map f := by
  simp [Function.comp_def]

@[simp] theorem map_votingPower_setPriority :
    (l.map fun v => { v with proposerPriority := f v }).map (·.votingPower) = l.map (·.votingPower) := by
  simp [Function.comp_def]

@[simp] theorem sumVotingPower_setPriority :
    sumVotingPower (l.map fun v => { v with proposerPriority := f v }) = sumVotingPower l := by
  simp [sumVotingPower, Function.comp_def]

theorem lookup_setPriority (address : Bytes) :
    lookup (·.address) address (l.map fun v => { v with proposerPriority := f v }) =
      (lookup (·.address) address l).map fun v => { v with proposerPriority := f v } := by
  apply lookup_map
  intro v
  rfl

theorem map_address_scaleAndCentrePriorities : (scaleAndCentrePriorities l).map (·.address) = l.map (·.address) :=
  map_address_setPriority l _

theorem map_proposerPriority_scaleAndCentrePriorities :
    (scaleAndCentrePriorities l).map (·.proposerPriority) =
      (l.map (·.proposerPriority)).map (scaleAndCentre (2 * sumVotingPower l) (l.map (·.proposerPriority))) := by
  rw [scaleAndCentrePriorities, map_proposerPriority_setPriority, List.map_map]
  rfl

theorem scaleAndCentrePriorities_perm {l l' : List (PriorityValidator K)} (hp : l.Perm l') :
    (scaleAndCentrePriorities l).Perm (scaleAndCentrePriorities l') := by
  unfold scaleAndCentrePriorities
  rw [sumVotingPower_eq_of_perm hp, scaleAndCentre_eq_of_perm (hp.map (·.proposerPriority))]
  exact hp.map _

end SetPriority

/-! ## The updates and removals of a change set -/

section Split

variable {changes : List (PriorityValidator K)}

/-- The updates `processChanges` returns: the changes of power, by address. -/
def changeUpdates (changes : List (PriorityValidator K)) : List (PriorityValidator K) :=
  (sortByAddress changes).filter fun v => v.votingPower ≠ 0

/-- The removals `processChanges` returns: the changes of power `0`, by
address. -/
def changeDeletes (changes : List (PriorityValidator K)) : List (PriorityValidator K) :=
  (sortByAddress changes).filter fun v => v.votingPower = 0

theorem mem_changeUpdates {u : PriorityValidator K} : u ∈ changeUpdates changes ↔ u ∈ changes ∧ u.votingPower ≠ 0 := by
  simp [changeUpdates, (sortByKey_perm changes).mem_iff, sortByAddress]

theorem mem_changeDeletes {d : PriorityValidator K} : d ∈ changeDeletes changes ↔ d ∈ changes ∧ d.votingPower = 0 := by
  simp [changeDeletes, (sortByKey_perm changes).mem_iff, sortByAddress]

theorem removedPower_eq (vals : PriorityValidatorSet K) :
    removedPower vals changes =
      sumVotingPower (vals.validators.filter fun v => v.address ∈ (changeDeletes changes).map (·.address)) := by
  unfold removedPower
  congr 1
  apply List.filter_congr
  intro v _
  simp [mem_changeDeletes, and_comm]

theorem address_mem_changes_iff {a : Bytes} :
    a ∈ changes.map (·.address) ↔
      a ∈ (changeUpdates changes).map (·.address) ∨ a ∈ (changeDeletes changes).map (·.address) := by
  simp only [List.mem_map, mem_changeUpdates, mem_changeDeletes]
  constructor
  · rintro ⟨c, hc, rfl⟩
    by_cases h0 : c.votingPower = 0
    · exact .inr ⟨c, ⟨hc, h0⟩, rfl⟩
    · exact .inl ⟨c, ⟨hc, h0⟩, rfl⟩
  · rintro (⟨c, ⟨hc, _⟩, rfl⟩ | ⟨c, ⟨hc, _⟩, rfl⟩) <;> exact ⟨c, hc, rfl⟩

variable (hnodup : (changes.map (·.address)).Nodup)
include hnodup

theorem ascending_changeUpdates : Ascending (·.address) (changeUpdates changes) :=
  (ascending_sortByKey hnodup).filter _

theorem ascending_changeDeletes : Ascending (·.address) (changeDeletes changes) :=
  (ascending_sortByKey hnodup).filter _

theorem eq_of_address_eq {c c' : PriorityValidator K} (hc : c ∈ changes) (hc' : c' ∈ changes)
    (h : c.address = c'.address) : c = c' :=
  List.inj_on_of_nodup_map hnodup hc hc' h

theorem not_mem_changeUpdates_of_mem_changeDeletes {d : PriorityValidator K} (hd : d ∈ changeDeletes changes) :
    d.address ∉ (changeUpdates changes).map (·.address) := by
  intro hmem
  obtain ⟨u, hu, hud⟩ := List.mem_map.mp hmem
  obtain ⟨hu, hu0⟩ := mem_changeUpdates.mp hu
  obtain ⟨hd, hd0⟩ := mem_changeDeletes.mp hd
  exact hu0 (eq_of_address_eq hnodup hu hd hud ▸ hd0)

theorem nodup_changeUpdates : ((changeUpdates changes).map (·.address)).Nodup :=
  (ascending_changeUpdates hnodup).nodup_keys

theorem nodup_changeDeletes : ((changeDeletes changes).map (·.address)).Nodup :=
  (ascending_changeDeletes hnodup).nodup_keys

end Split

section SplitPerm

variable {changes : List (PriorityValidator K)}

theorem changeUpdates_perm (hnonneg : ∀ c ∈ changes, 0 ≤ c.votingPower) :
    (changeUpdates changes).Perm (changes.filter fun c => 0 < c.votingPower) := by
  have hsame : changes.filter (fun c => c.votingPower ≠ 0) = changes.filter fun c => 0 < c.votingPower := by
    apply List.filter_congr
    intro c hc
    have := hnonneg c hc
    simp only [decide_eq_decide]
    omega
  rw [← hsame]
  exact (sortByKey_perm changes).filter _

theorem changeUpdates_append_changeDeletes_perm :
    (changeUpdates changes ++ changeDeletes changes).Perm changes := by
  have hsplit := List.filter_append_perm (fun v : PriorityValidator K => decide (v.votingPower ≠ 0)) (sortByAddress changes)
  have hdeletes : (sortByAddress changes).filter (fun v => !decide (v.votingPower ≠ 0)) = changeDeletes changes := by
    simp [changeDeletes]
  rw [hdeletes] at hsplit
  exact hsplit.trans (sortByKey_perm changes)

end SplitPerm

/-! ## The validators a change set leaves -/

section Changed

variable {vals : PriorityValidatorSet K} {changes : List (PriorityValidator K)}

theorem mem_changedValidators {v : PriorityValidator K} :
    v ∈ changedValidators vals changes ↔
      (v ∈ vals.validators ∧ v.address ∉ changes.map (·.address)) ∨ (v ∈ changes ∧ 0 < v.votingPower) := by
  simp only [changedValidators, List.mem_append, List.mem_filter, decide_eq_true_eq]

theorem power_pos_changedValidators (hpos : ∀ v ∈ vals.validators, 0 < v.votingPower) :
    ∀ v ∈ changedValidators vals changes, 0 < v.votingPower := by
  intro v hv
  rcases mem_changedValidators.mp hv with ⟨hv, -⟩ | ⟨-, hv⟩
  · exact hpos v hv
  · exact hv

theorem nodup_changedValidators (hvals : (vals.validators.map (·.address)).Nodup)
    (hnodup : (changes.map (·.address)).Nodup) :
    ((changedValidators vals changes).map (·.address)).Nodup := by
  rw [changedValidators, List.map_append, List.nodup_append]
  refine ⟨(List.filter_sublist.map _).nodup hvals, (List.filter_sublist.map _).nodup hnodup, ?_⟩
  -- an old validator left in place has an address no change names
  intro a ha b hb hab
  obtain ⟨v, hv, rfl⟩ := List.mem_map.mp ha
  obtain ⟨c, hc, rfl⟩ := List.mem_map.mp hb
  have hv' : v.address ∉ changes.map (·.address) := of_decide_eq_true (List.mem_filter.mp hv).2
  apply hv'
  rw [hab]
  exact List.mem_map_of_mem (List.mem_filter.mp hc).1

theorem sum_powerChange (vals : PriorityValidatorSet K) (l : List (PriorityValidator K)) :
    (l.map vals.powerChange).sum = sumVotingPower l - (l.map fun u => vals.powerOf u.address).sum := by
  induction l with
  | nil => rfl
  | cons u l ih =>
    simp only [List.map_cons, List.sum_cons, sumVotingPower_cons, ih, PriorityValidatorSet.powerChange]
    omega

variable (hvals : (vals.validators.map (·.address)).Nodup) (hnodup : (changes.map (·.address)).Nodup)
  (hnonneg : ∀ c ∈ changes, 0 ≤ c.votingPower)
include hvals hnodup hnonneg

theorem sum_changedValidators :
    sumVotingPower (changedValidators vals changes) =
      sumVotingPower vals.validators - removedPower vals changes +
        ((changeUpdates changes).map vals.powerChange).sum := by
  have hsplit : sumVotingPower (vals.validators.filter fun v => v.address ∈ changes.map (·.address)) +
      sumVotingPower (vals.validators.filter fun v => v.address ∉ changes.map (·.address)) =
      sumVotingPower vals.validators := by
    rw [← sumVotingPower_append]
    apply sumVotingPower_eq_of_perm
    simpa only [decide_not] using
      List.filter_append_perm (fun v : PriorityValidator K => decide (v.address ∈ changes.map (·.address)))
        vals.validators
  -- the old power at the changed addresses is that of the updated and of the removed validators
  have hnamed : sumVotingPower (vals.validators.filter fun v => v.address ∈ changes.map (·.address)) =
      sumVotingPower (vals.validators.filter fun v => v.address ∈ (changeUpdates changes).map (·.address)) +
        removedPower vals changes := by
    rw [← sum_powerOf hnodup hvals, ← sum_powerOf (nodup_changeUpdates hnodup) hvals,
      removedPower_eq, ← sum_powerOf (nodup_changeDeletes hnodup) hvals,
      ← ((changeUpdates_append_changeDeletes_perm).map _).sum_eq, List.map_append, List.sum_append]
  have hupdates := sumVotingPower_eq_of_perm (changeUpdates_perm hnonneg)
  rw [sum_powerChange, sum_powerOf (nodup_changeUpdates hnodup) hvals, changedValidators, sumVotingPower_append,
    ← hupdates]
  omega

theorem floor_changeUpdates (hnonnegV : ∀ v ∈ vals.validators, 0 ≤ v.votingPower)
    {P : List (PriorityValidator K)} (hP : P.Subperm (changeUpdates changes)) :
    0 ≤ sumVotingPower vals.validators - removedPower vals changes + (P.map vals.powerChange).sum := by
  have hPnodup : (P.map (·.address)).Nodup := by
    obtain ⟨Q, hQ, hsub⟩ := hP
    exact (hQ.map (·.address)).nodup_iff.mp ((hsub.map (·.address)).nodup (nodup_changeUpdates hnodup))
  have hmem : ∀ u ∈ P, u ∈ changeUpdates changes := fun u hu => hP.subset hu
  have hpower : 0 ≤ sumVotingPower P :=
    sumVotingPower_nonneg fun u hu => hnonneg u (mem_changeUpdates.mp (hmem u hu)).1
  -- an old validator is not both updated by `P` and removed
  have hdisjoint : ∀ v ∈ vals.validators, ¬(decide (v.address ∈ P.map (·.address)) = true ∧
      decide (v.address ∈ (changeDeletes changes).map (·.address)) = true) := by
    rintro v - ⟨hvP, hvD⟩
    obtain ⟨u, hu, huv⟩ := List.mem_map.mp (of_decide_eq_true hvP)
    obtain ⟨d, hd, hdv⟩ := List.mem_map.mp (of_decide_eq_true hvD)
    apply not_mem_changeUpdates_of_mem_changeDeletes hnodup hd
    rw [hdv, ← huv]
    exact List.mem_map_of_mem (hmem u hu)
  have hle := Knapsack.sum_filter_add_sum_filter_le (·.votingPower) hdisjoint hnonnegV
  rw [sum_powerChange, sum_powerOf hPnodup hvals, removedPower_eq]
  unfold sumVotingPower at hpower ⊢
  omega

/-- With every removal found, the check of `updateWithChangeSet` for an empty
result (no new validator, as many removals as validators) holds exactly when
the change set leaves no validator. -/
theorem emptySetCheck_iff (hfound : ∀ d ∈ changeDeletes changes, d.address ∈ vals.validators.map (·.address)) :
    (numNewValidators (changeUpdates changes) vals = 0 ∧ vals.validators.length = (changeDeletes changes).length) ↔
      changedValidators vals changes = [] := by
  have hsub : ((changeDeletes changes).map (·.address)).Subperm (vals.validators.map (·.address)) :=
    (nodup_changeDeletes hnodup).subperm fun a ha => by
      obtain ⟨d, hd, rfl⟩ := List.mem_map.mp ha
      exact hfound d hd
  have hnew : numNewValidators (changeUpdates changes) vals = 0 ↔
      ∀ u ∈ changeUpdates changes, u.address ∈ vals.validators.map (·.address) := by
    simp [numNewValidators, List.countP_eq_zero, hasAddress_eq]
  constructor
  · rintro ⟨hnew0, hlen⟩
    -- as many removals as validators: every old address is removed
    have hperm := hsub.perm_of_length_le (by simp [hlen])
    have hall : ∀ v ∈ vals.validators, v.address ∈ (changeDeletes changes).map (·.address) :=
      fun v hv => hperm.mem_iff.mpr (List.mem_map_of_mem hv)
    rw [List.eq_nil_iff_forall_not_mem]
    intro v hv
    rcases mem_changedValidators.mp hv with ⟨hv, hnot⟩ | ⟨hc, hpos⟩
    · exact hnot ((address_mem_changes_iff).mpr (.inr (hall v hv)))
    · -- a change of positive power names an old validator, which is removed
      have hu : v ∈ changeUpdates changes := mem_changeUpdates.mpr ⟨hc, by omega⟩
      obtain ⟨w, hw, hwv⟩ := List.mem_map.mp ((hnew.mp hnew0) v hu)
      obtain ⟨d, hd, hdw⟩ := List.mem_map.mp (hall w hw)
      apply not_mem_changeUpdates_of_mem_changeDeletes hnodup hd
      rw [hdw, hwv]
      exact List.mem_map_of_mem hu
  · intro hnil
    have hnone := List.eq_nil_iff_forall_not_mem.mp hnil
    have hupdates : changeUpdates changes = [] := by
      rw [List.eq_nil_iff_forall_not_mem]
      intro u hu
      obtain ⟨hc, h0⟩ := mem_changeUpdates.mp hu
      have := hnonneg u hc
      exact hnone u (mem_changedValidators.mpr (.inr ⟨hc, by omega⟩))
    -- every old address is named by a change, so by a removal
    have hsub' : (vals.validators.map (·.address)).Subperm ((changeDeletes changes).map (·.address)) :=
      hvals.subperm fun a ha => by
        obtain ⟨v, hv, rfl⟩ := List.mem_map.mp ha
        have hnamed : v.address ∈ changes.map (·.address) :=
          Classical.byContradiction fun h => hnone v (mem_changedValidators.mpr (.inl ⟨hv, h⟩))
        rcases address_mem_changes_iff.mp hnamed with h | h
        · simp [hupdates] at h
        · exact h
    have h1 := hsub.length_le
    have h2 := hsub'.length_le
    simp only [List.length_map] at h1 h2
    exact ⟨by simp [hupdates, numNewValidators], by omega⟩

end Changed

theorem processChanges_eq_ok {changes : List (PriorityValidator K)} (hnodup : (changes.map (·.address)).Nodup)
    (haddr : ∀ c ∈ changes, c.address ≠ [])
    (hpower : ∀ c ∈ changes, 0 ≤ c.votingPower ∧ c.votingPower ≤ maxTotalVotingPower) :
    processChanges changes = .ok (changeUpdates changes, changeDeletes changes) :=
  processChanges_eq_ok_iff.mpr ⟨hnodup, haddr, hpower, rfl, rfl⟩

/-! ## A change set that passes the checks -/

section Apply

variable {vals : PriorityValidatorSet K} {changes : List (PriorityValidator K)}

theorem not_updateFails_iff :
    ¬UpdateFails vals changes ↔
      (changes.map (·.address)).Nodup ∧
        (∀ c ∈ changes, 0 ≤ c.votingPower ∧ c.votingPower ≤ maxTotalVotingPower) ∧
        (∀ c ∈ changes, c.votingPower = 0 → c.address ∈ vals.validators.map (·.address)) ∧
        changedValidators vals changes ≠ [] ∧
        sumVotingPower (changedValidators vals changes) ≤ maxTotalVotingPower := by
  simp only [UpdateFails, not_or, not_not, not_exists, not_and, not_lt, ne_eq]

variable (hvals : (vals.validators.map (·.address)).Nodup) (hnodup : (changes.map (·.address)).Nodup)
  (hnonneg : ∀ c ∈ changes, 0 ≤ c.votingPower)
include hvals hnodup hnonneg

theorem appliedValidators_perm (T : Int) :
    (vals.appliedValidators ((changeUpdates changes).map fun u =>
        { u with proposerPriority := vals.startPriority T u.address }) (changeDeletes changes)).Perm
      ((changedValidators vals changes).map fun v =>
        { v with proposerPriority := vals.startPriority T v.address }) := by
  set updates := (changeUpdates changes).map fun u => { u with proposerPriority := vals.startPriority T u.address }
  have haddr : updates.map (·.address) = (changeUpdates changes).map (·.address) := map_address_setPriority _ _
  have hascending : Ascending (·.address) updates := List.pairwise_map.mpr (ascending_changeUpdates hnodup)
  have hmerge := merge_perm (ascending_sortByKey hvals) hascending
  -- the removals keep every update
  have hkeep : updates.filter (fun v => v.address ∉ (changeDeletes changes).map (·.address)) = updates := by
    apply List.filter_eq_self.mpr
    intro u hu
    apply decide_eq_true
    intro hD
    obtain ⟨d, hd, hdu⟩ := List.mem_map.mp hD
    apply not_mem_changeUpdates_of_mem_changeDeletes hnodup hd
    rw [hdu, ← haddr]
    exact List.mem_map_of_mem hu
  -- the old validators kept are those no change names
  have hold : (((sortByAddress vals.validators).filter fun v => v.address ∉ updates.map (·.address)).filter
      fun v => v.address ∉ (changeDeletes changes).map (·.address)).Perm
      (vals.validators.filter fun v => v.address ∉ changes.map (·.address)) := by
    rw [List.filter_filter, haddr]
    refine ((sortByKey_perm vals.validators).filter _).trans (List.Perm.of_eq ?_)
    apply List.filter_congr
    intro v _
    simp only [@address_mem_changes_iff K changes v.address]
    by_cases hU : v.address ∈ (changeUpdates changes).map (·.address) <;>
      by_cases hD : v.address ∈ (changeDeletes changes).map (·.address) <;> simp [hU, hD]
  -- an old validator keeps its priority
  have hstart : ((vals.validators.filter fun v => v.address ∉ changes.map (·.address)).map fun v =>
      { v with proposerPriority := vals.startPriority T v.address }) =
      vals.validators.filter fun v => v.address ∉ changes.map (·.address) := by
    refine (List.map_congr_left fun v hv => ?_).trans (List.map_id' _)
    rw [startPriority, getByAddress_of_mem hvals (List.mem_filter.mp hv).1]
  unfold appliedValidators
  refine (hmerge.filter _).trans ?_
  rw [List.filter_append, hkeep, changedValidators, List.map_append, hstart]
  exact hold.append ((changeUpdates_perm hnonneg).map _)

end Apply

/-! ## One update -/

section Step

variable {vals : PriorityValidatorSet K} {changes : List (PriorityValidator K)}

theorem removedPower_mem_Icc (hinv : vals.Updatable) :
    0 ≤ removedPower vals changes ∧ removedPower vals changes ≤ sumVotingPower vals.validators :=
  ⟨sumVotingPower_nonneg fun v hv => (hinv.power_pos v (List.mem_filter.mp hv).1).le,
    sumVotingPower_le_of_sublist List.filter_sublist fun v hv => (hinv.power_pos v hv).le⟩

theorem sumVotingPower_pos {l : List (PriorityValidator K)} (hpos : ∀ v ∈ l, 0 < v.votingPower) (hne : l ≠ []) :
    0 < sumVotingPower l := by
  obtain ⟨v, l, rfl⟩ := List.exists_cons_of_ne_nil hne
  have hv := hpos v List.mem_cons_self
  have hl := sumVotingPower_nonneg fun w hw => (hpos w (List.mem_cons_of_mem v hw)).le
  rw [sumVotingPower_cons]
  omega

variable (hinv : vals.Updatable) (hpower : ∀ c ∈ changes, 0 ≤ c.votingPower ∧ c.votingPower ≤ maxTotalVotingPower)
  (hnodup : (changes.map (·.address)).Nodup)
include hinv hpower hnodup

theorem applyChanges_changeSet
    (hfound : ∀ d ∈ changeDeletes changes, d.address ∈ vals.validators.map (·.address))
    (hnonempty : changedValidators vals changes ≠ [])
    (htotal : sumVotingPower (changedValidators vals changes) ≤ maxTotalVotingPower) :
    vals.applyChanges (computeNewPriorities (changeUpdates changes) vals
        (sumVotingPower (changedValidators vals changes) + removedPower vals changes)) (changeDeletes changes) =
      some (expectedSet vals changes) := by
  have hnonneg : ∀ c ∈ changes, 0 ≤ c.votingPower := fun c hc => (hpower c hc).1
  have hpos : ∀ v ∈ changedValidators vals changes, 0 < v.votingPower := power_pos_changedValidators hinv.power_pos
  have hsumpos := sumVotingPower_pos hpos hnonempty
  have hremoved : 0 ≤ removedPower vals changes ∧ removedPower vals changes ≤ sumVotingPower vals.validators :=
    removedPower_mem_Icc hinv
  set T := sumVotingPower (changedValidators vals changes) + removedPower vals changes with hTdef
  have hT : 0 ≤ T ∧ T ≤ 2 * maxTotalVotingPower := by
    have := hinv.total_le
    omega
  rw [computeNewPriorities_eq hT]
  set updates := (changeUpdates changes).map fun u => { u with proposerPriority := vals.startPriority T u.address }
  have hperm : (vals.appliedValidators updates (changeDeletes changes)).Perm (startValidators vals changes) :=
    appliedValidators_perm hinv.nodup hnodup hnonneg T
  have hsum : sumVotingPower (vals.appliedValidators updates (changeDeletes changes)) =
      sumVotingPower (changedValidators vals changes) := by
    rw [sumVotingPower_eq_of_perm hperm, startValidators, sumVotingPower_setPriority]
  -- every start priority lies within three times the bound of zero, which leaves room for the window
  have hbound : ∀ v ∈ vals.appliedValidators updates (changeDeletes changes),
      -(3 * maxTotalVotingPower) ≤ v.proposerPriority ∧ v.proposerPriority ≤ 3 * maxTotalVotingPower := by
    intro v hv
    obtain ⟨w, -, rfl⟩ := List.mem_map.mp (hperm.mem_iff.mp hv)
    exact hinv.startPriority_mem_Icc hT w.address
  have hnonnegApplied : ∀ v ∈ vals.appliedValidators updates (changeDeletes changes), 0 ≤ v.votingPower := by
    intro v hv
    obtain ⟨w, hw, rfl⟩ := List.mem_map.mp (hperm.mem_iff.mp hv)
    exact (hpos w hw).le
  have hascending : Ascending (·.address) updates := List.pairwise_map.mpr (ascending_changeUpdates hnodup)
  have hdisjoint : ∀ d ∈ changeDeletes changes, d.address ∉ updates.map (·.address) := by
    intro d hd
    rw [map_address_setPriority]
    exact not_mem_changeUpdates_of_mem_changeDeletes hnodup hd
  have hnodupApplied : ((scaleAndCentrePriorities (vals.appliedValidators updates (changeDeletes changes))).map
      (·.address)).Nodup := by
    rw [map_address_scaleAndCentrePriorities, (hperm.map _).nodup_iff, startValidators, map_address_setPriority]
    exact nodup_changedValidators hinv.nodup hnodup
  rw [applyChanges_eq hinv.nodup hascending (ascending_changeDeletes hnodup) hfound hdisjoint hnonnegApplied
      (by rw [hsum]; exact ⟨hsumpos, htotal⟩) hbound
      (by rw [maxTotalVotingPower_eq]; unfold minInt64; omega)
      (by rw [maxTotalVotingPower_eq]; unfold maxInt64; omega)
      (by rw [maxTotalVotingPower_eq]; unfold maxInt64; omega),
    hsum, sortByVotingPower_eq_of_perm (scaleAndCentrePriorities_perm hperm) hnodupApplied]
  rfl

end Step

/-! ## The set an update returns -/

section Result

variable {vals : PriorityValidatorSet K} {changes : List (PriorityValidator K)}

theorem map_address_expectedValidators :
    (expectedValidators vals changes).map (·.address) = (changedValidators vals changes).map (·.address) := by
  rw [expectedValidators, map_address_scaleAndCentrePriorities, startValidators, map_address_setPriority]

theorem map_votingPower_expectedValidators :
    (expectedValidators vals changes).map (·.votingPower) = (changedValidators vals changes).map (·.votingPower) := by
  rw [expectedValidators, scaleAndCentrePriorities, map_votingPower_setPriority, startValidators,
    map_votingPower_setPriority]

theorem map_proposerPriority_expectedValidators :
    (expectedValidators vals changes).map (·.proposerPriority) =
      ((startValidators vals changes).map (·.proposerPriority)).map
        (scaleAndCentre (2 * sumVotingPower (changedValidators vals changes))
          ((startValidators vals changes).map (·.proposerPriority))) := by
  rw [expectedValidators, map_proposerPriority_scaleAndCentrePriorities, startValidators, sumVotingPower_setPriority]

theorem sumVotingPower_expectedSet :
    sumVotingPower (expectedSet vals changes).validators = sumVotingPower (changedValidators vals changes) := by
  rw [expectedSet, sumVotingPower_eq_of_perm (sortByVotingPower_perm _), sumVotingPower]
  unfold sumVotingPower
  rw [map_votingPower_expectedValidators]

theorem nodup_expectedSet (hvals : (vals.validators.map (·.address)).Nodup)
    (hnodup : (changes.map (·.address)).Nodup) : ((expectedSet vals changes).validators.map (·.address)).Nodup := by
  rw [expectedSet, ((sortByVotingPower_perm _).map _).nodup_iff, map_address_expectedValidators]
  exact nodup_changedValidators hvals hnodup

theorem PriorityValidatorSet.Updatable.valid_expectedSet (hinv : vals.Updatable) (hnodup : (changes.map (·.address)).Nodup)
    (hnonempty : changedValidators vals changes ≠ [])
    (htotal : sumVotingPower (changedValidators vals changes) ≤ maxTotalVotingPower) :
    (expectedSet vals changes).Valid := by
  have hperm : (expectedSet vals changes).validators.Perm (expectedValidators vals changes) := sortByVotingPower_perm _
  have hsum : sumVotingPower (expectedSet vals changes).validators = sumVotingPower (changedValidators vals changes) :=
    sumVotingPower_expectedSet
  have hpriorities : ((expectedSet vals changes).validators.map (·.proposerPriority)).Perm
      (((startValidators vals changes).map (·.proposerPriority)).map
        (scaleAndCentre (2 * sumVotingPower (changedValidators vals changes))
          ((startValidators vals changes).map (·.proposerPriority)))) := by
    rw [← map_proposerPriority_expectedValidators]
    exact hperm.map _
  have hstart : (startValidators vals changes).map (·.proposerPriority) ≠ [] := by
    simpa [startValidators] using hnonempty
  have hpos := sumVotingPower_pos (power_pos_changedValidators hinv.power_pos) hnonempty
  constructor
  case nonempty =>
    intro hnil
    have hlen := hperm.length_eq
    rw [hnil] at hlen
    apply hnonempty
    simpa [expectedValidators, scaleAndCentrePriorities, startValidators] using hlen.symm
  case nodup => exact nodup_expectedSet hinv.nodup hnodup
  case power_pos =>
    intro v hv
    have hmem : v.votingPower ∈ (changedValidators vals changes).map (·.votingPower) := by
      rw [← map_votingPower_expectedValidators]
      exact List.mem_map_of_mem (hperm.mem_iff.mp hv)
    obtain ⟨w, hw, hwv⟩ := List.mem_map.mp hmem
    rw [← hwv]
    exact power_pos_changedValidators hinv.power_pos w hw
  case total_le => rw [hsum]; exact htotal
  case cache => exact hsum.symm
  case sorted =>
    apply pairwise_lt_sortByVotingPower
    rw [map_address_expectedValidators]
    exact nodup_changedValidators hinv.nodup hnodup
  case priority_sum =>
    rw [hpriorities.sum_eq, hperm.length_eq]
    have hlen : (expectedValidators vals changes).length = ((startValidators vals changes).map (·.proposerPriority)).length := by
      simp [expectedValidators, scaleAndCentrePriorities]
    rw [hlen]
    exact sum_scaleAndCentre hstart _
  case priority_spread =>
    rw [hsum]
    exact (spread_scaleAndCentre (by omega) _).of_perm hpriorities.symm

theorem valid_expectedSet (hinv : vals.Inv) (hnodup : (changes.map (·.address)).Nodup)
    (hnonempty : changedValidators vals changes ≠ [])
    (htotal : sumVotingPower (changedValidators vals changes) ≤ maxTotalVotingPower) :
    (expectedSet vals changes).Valid :=
  hinv.updatable.valid_expectedSet hnodup hnonempty htotal

theorem getByAddress_expectedSet (hvals : (vals.validators.map (·.address)).Nodup)
    (hnodup : (changes.map (·.address)).Nodup) (hnonneg : ∀ c ∈ changes, 0 ≤ c.votingPower) (address : Bytes) :
    ((expectedSet vals changes).getByAddress address).map (·.votingPower) = changedPower vals changes address := by
  have hperm : (expectedSet vals changes).validators.Perm (expectedValidators vals changes) := sortByVotingPower_perm _
  -- the lookup reads through the sort and the two maps of the priorities
  have hlookup : ((expectedSet vals changes).getByAddress address).map (·.votingPower) =
      (lookup (·.address) address (changedValidators vals changes)).map (·.votingPower) := by
    unfold getByAddress
    rw [lookup_eq_of_perm hperm (nodup_expectedSet hvals hnodup), expectedValidators, scaleAndCentrePriorities,
      lookup_setPriority, startValidators, lookup_setPriority, Option.map_map, Option.map_map]
    rfl
  rw [hlookup, changedValidators, lookup_append, lookup_filter hnodup]
  unfold changedPower
  cases hc : lookup (·.address) address changes with
  | some c =>
    have hmem : address ∈ changes.map (·.address) := by
      rw [← key_of_lookup_eq_some hc]
      exact List.mem_map_of_mem (mem_of_lookup_eq_some hc)
    have hc0 := hnonneg c (mem_of_lookup_eq_some hc)
    rw [lookup_filter_of_not fun v hv => by simp [hv, hmem]]
    by_cases h0 : c.votingPower = 0
    · simp [h0]
    · have hpos : 0 < c.votingPower := by omega
      simp [h0, hpos]
  | none =>
    have hmem : address ∉ changes.map (·.address) := lookup_eq_none_iff.mp hc
    rw [lookup_filter_of_pos fun v hv => by simp [hv, hmem]]
    simp [getByAddress]

theorem address_mem_of_mem_expectedSet {v : PriorityValidator K} (hv : v ∈ (expectedSet vals changes).validators) :
    v.address ∈ vals.validators.map (·.address) ∨ v.address ∈ changes.map (·.address) := by
  have hmem : v.address ∈ (changedValidators vals changes).map (·.address) := by
    rw [← map_address_expectedValidators]
    exact List.mem_map_of_mem ((sortByVotingPower_perm _).mem_iff.mp hv)
  obtain ⟨w, hw, hwv⟩ := List.mem_map.mp hmem
  rw [← hwv]
  rcases List.mem_append.mp hw with hw | hw
  · exact .inl (List.mem_map_of_mem (List.mem_filter.mp hw).1)
  · exact .inr (List.mem_map_of_mem (List.mem_filter.mp hw).1)

theorem changedValidators_nil : changedValidators vals [] = vals.validators := by
  simp [changedValidators]

theorem not_updateFails_nil (hvalid : vals.Valid) : ¬UpdateFails vals [] := by
  rw [not_updateFails_iff, changedValidators_nil]
  exact ⟨List.nodup_nil, by simp, by simp, hvalid.nonempty, hvalid.total_le⟩

theorem expectedSet_nil (hvalid : vals.Valid) : expectedSet vals [] = vals := by
  have hstart : startValidators vals [] = vals.validators := by
    rw [startValidators, changedValidators_nil]
    refine (List.map_congr_left fun v hv => ?_).trans (List.map_id' _)
    rw [startPriority, getByAddress_of_mem hvalid.nodup hv]
  have hcentred : scaleAndCentrePriorities vals.validators = vals.validators := by
    unfold scaleAndCentrePriorities
    refine (List.map_congr_left fun v _ => ?_).trans (List.map_id' _)
    rw [scaleAndCentre_of_spread hvalid.priority_spread (by rw [List.length_map]; exact hvalid.priority_sum)]
  have hsorted : sortByVotingPower vals.validators = vals.validators :=
    List.Pairwise.insertionSort_eq (hvalid.sorted.imp validatorsByVotingPowerLess_asymm)
  obtain ⟨validators, cache⟩ := vals
  have hcache : cache = sumVotingPower validators := hvalid.cache
  subst hcache
  simp only [expectedSet, expectedValidators, hstart, hcentred, hsorted, changedValidators_nil]

end Result

/-! ## `updateWithChangeSet` -/

section Update

variable {vals : PriorityValidatorSet K} {changes : List (PriorityValidator K)} {allowDeletes : Bool}

/-- A non-empty change set that passes the checks returns the expected set:
every check before the first change of the set passes, no step panics, and no
priority arithmetic wraps or clips. -/
theorem updateWithChangeSet_of_ne_nil (hinv : vals.Updatable) (hnil : changes ≠ [])
    (haddr : ∀ c ∈ changes, c.address ≠ [])
    (hok : ¬UpdateFails vals changes) (hdeletes : allowDeletes = true ∨ ∀ c ∈ changes, c.votingPower ≠ 0) :
    vals.updateWithChangeSet changes allowDeletes = some (.ok (), expectedSet vals changes) := by
  obtain ⟨hnodup, hpower, hfound, hnonempty, htotal⟩ := not_updateFails_iff.mp hok
  have hnonneg : ∀ c ∈ changes, 0 ≤ c.votingPower := fun c hc => (hpower c hc).1
  have hfound' : ∀ d ∈ changeDeletes changes, d.address ∈ vals.validators.map (·.address) :=
    fun d hd => hfound d (mem_changeDeletes.mp hd).1 (mem_changeDeletes.mp hd).2
  have hzero : ¬((!allowDeletes) = true ∧ (changeDeletes changes).length ≠ 0) := by
    rintro ⟨hallow, hlen⟩
    obtain ⟨d, hd⟩ := List.exists_mem_of_ne_nil _ (List.ne_nil_of_length_pos (Nat.pos_of_ne_zero hlen))
    rcases hdeletes with h | h
    · simp [h] at hallow
    · exact h d (mem_changeDeletes.mp hd).1 (mem_changeDeletes.mp hd).2
  have hempty : ¬(numNewValidators (changeUpdates changes) vals = 0 ∧
      vals.validators.length = (changeDeletes changes).length) :=
    fun h => hnonempty ((emptySetCheck_iff hinv.nodup hnodup hnonneg hfound').mp h)
  have hremove := verifyRemovals_eq_ok hfound' (nodup_changeDeletes hnodup) hinv.nodup
    (fun v hv => (hinv.power_mem_Icc v hv).1)
    (by have := hinv.total_le; rw [maxTotalVotingPower_eq] at this; unfold maxInt64; omega)
  rw [← removedPower_eq] at hremove
  have hsum := sum_changedValidators hinv.nodup hnodup hnonneg
  have hupdate := verifyUpdates_eq hinv.power_mem_Icc hinv.total_le hinv.cache
    (fun u hu => hpower u (mem_changeUpdates.mp hu).1) (removedPower_mem_Icc hinv)
    (fun P hP => floor_changeUpdates hinv.nodup hnodup hnonneg (fun v hv => (hinv.power_pos v hv).le) hP)
  -- the total after the updates and before the removals
  have hT : sumVotingPower vals.validators + ((changeUpdates changes).map vals.powerChange).sum =
      sumVotingPower (changedValidators vals changes) + removedPower vals changes := by
    omega
  rw [← hsum, if_neg (Int.not_lt.mpr htotal), hinv.cache_eq, hT] at hupdate
  unfold updateWithChangeSet
  rw [if_neg (by simpa using hnil), processChanges_eq_ok hnodup haddr hpower]
  simp only
  rw [if_neg hzero, if_neg hempty, hremove]
  simp only
  rw [hupdate]
  simp only
  rw [applyChanges_changeSet hinv hpower hnodup hfound' hnonempty htotal]
  rfl

theorem updateWithChangeSet_of_not_fails (hinv : vals.Inv) (haddr : ∀ c ∈ changes, c.address ≠ [])
    (hok : ¬UpdateFails vals changes) (hdeletes : allowDeletes = true ∨ ∀ c ∈ changes, c.votingPower ≠ 0) :
    vals.updateWithChangeSet changes allowDeletes = some (.ok (), expectedSet vals changes) := by
  by_cases hnil : changes = []
  · -- no changes: the set is returned as it is, and it is valid
    subst hnil
    have hnonempty := (not_updateFails_iff.mp hok).2.2.2.1
    have hvalid : vals.Valid := hinv.resolve_left fun h => hnonempty (by simp [h, changedValidators, empty])
    rw [expectedSet_nil hvalid]
    rfl
  exact updateWithChangeSet_of_ne_nil hinv.updatable hnil haddr hok hdeletes

theorem updateWithChangeSet_of_fails (hinv : vals.Updatable) (hne : changes ≠ [])
    (hfails : (∃ c ∈ changes, c.address = []) ∨ UpdateFails vals changes ∨
      (allowDeletes = false ∧ ∃ c ∈ changes, c.votingPower = 0)) :
    ∃ err, vals.updateWithChangeSet changes allowDeletes = some (.error err, vals) := by
  unfold updateWithChangeSet
  rw [if_neg (by simpa using hne)]
  cases hprocess : processChanges changes with
  | error err => exact ⟨err, rfl⟩
  | ok result =>
    obtain ⟨updates, deletes⟩ := result
    obtain ⟨hnodup, haddr, hpower, hupdates, hdeletes⟩ := processChanges_eq_ok_iff.mp hprocess
    have hU : updates = changeUpdates changes := hupdates
    have hD : deletes = changeDeletes changes := hdeletes
    subst hU hD
    have hnonneg : ∀ c ∈ changes, 0 ≤ c.votingPower := fun c hc => (hpower c hc).1
    simp only
    by_cases hzero : (!allowDeletes) = true ∧ (changeDeletes changes).length ≠ 0
    · exact ⟨_, if_pos hzero⟩
    rw [if_neg hzero]
    by_cases hempty : numNewValidators (changeUpdates changes) vals = 0 ∧
        vals.validators.length = (changeDeletes changes).length
    · exact ⟨_, if_pos hempty⟩
    rw [if_neg hempty]
    by_cases hfound : ∀ d ∈ changeDeletes changes, d.address ∈ vals.validators.map (·.address)
    · -- every other check passed, so the total is past the bound
      have htotal : maxTotalVotingPower < sumVotingPower (changedValidators vals changes) := by
        rcases hfails with ⟨c, hc, hc0⟩ | hfails | ⟨hallow, c, hc, hc0⟩
        · exact absurd hc0 (haddr c hc)
        · rcases hfails with h | ⟨c, hc, hc'⟩ | ⟨c, hc, hc0, hcv⟩ | h | h
          · exact absurd hnodup h
          · have := hpower c hc
            omega
          · exact absurd (hfound c (mem_changeDeletes.mpr ⟨hc, hc0⟩)) hcv
          · exact absurd ((emptySetCheck_iff hinv.nodup hnodup hnonneg hfound).mpr h) hempty
          · exact h
        · refine absurd ⟨by simp [hallow], ?_⟩ hzero
          exact Nat.pos_iff_ne_zero.mp (List.length_pos_of_mem (mem_changeDeletes.mpr ⟨hc, hc0⟩))
      have hremove := verifyRemovals_eq_ok hfound (nodup_changeDeletes hnodup) hinv.nodup
        (fun v hv => (hinv.power_mem_Icc v hv).1)
        (by have := hinv.total_le; rw [maxTotalVotingPower_eq] at this; unfold maxInt64; omega)
      rw [← removedPower_eq] at hremove
      have hupdate := verifyUpdates_eq hinv.power_mem_Icc hinv.total_le hinv.cache
        (fun u hu => hpower u (mem_changeUpdates.mp hu).1) (removedPower_mem_Icc hinv)
        (fun P hP => floor_changeUpdates hinv.nodup hnodup hnonneg (fun v hv => (hinv.power_pos v hv).le) hP)
      rw [← sum_changedValidators hinv.nodup hnodup hnonneg, if_pos htotal, hinv.cache_eq] at hupdate
      rw [hremove]
      simp only
      rw [hupdate]
      exact ⟨_, rfl⟩
    · obtain ⟨d, hd, hnot⟩ : ∃ d ∈ changeDeletes changes, d.address ∉ vals.validators.map (·.address) := by
        simpa using hfound
      obtain ⟨err, herr⟩ := verifyRemovals_eq_error ⟨d, hd, hnot⟩
      rw [herr]
      exact ⟨err, rfl⟩

theorem PriorityValidatorSet.Updatable.updateWithChangeSet_cases (h : vals.Updatable) (hne : changes ≠ [])
    (allowDeletes : Bool) :
    (∃ err, vals.updateWithChangeSet changes allowDeletes = some (.error err, vals)) ∨
      (vals.updateWithChangeSet changes allowDeletes = some (.ok (), expectedSet vals changes) ∧
        (expectedSet vals changes).Valid) := by
  by_cases hfails : (∃ c ∈ changes, c.address = []) ∨ UpdateFails vals changes ∨
      (allowDeletes = false ∧ ∃ c ∈ changes, c.votingPower = 0)
  · exact .inl (updateWithChangeSet_of_fails h hne hfails)
  · have haddr : ∀ c ∈ changes, c.address ≠ [] := fun c hc h0 => hfails (.inl ⟨c, hc, h0⟩)
    have hok : ¬UpdateFails vals changes := fun h => hfails (.inr (.inl h))
    have hdeletes : allowDeletes = true ∨ ∀ c ∈ changes, c.votingPower ≠ 0 := by
      cases allowDeletes
      · exact .inr fun c hc h0 => hfails (.inr (.inr ⟨rfl, c, hc, h0⟩))
      · exact .inl rfl
    obtain ⟨hnodup, -, -, hnonempty, htotal⟩ := not_updateFails_iff.mp hok
    exact .inr ⟨updateWithChangeSet_of_ne_nil h hne haddr hok hdeletes,
      h.valid_expectedSet hnodup hnonempty htotal⟩

theorem PriorityValidatorSet.Inv.updateWithChangeSet (hinv : vals.Inv) {r : Except (ChangeSetError K) Unit}
    {vals' : PriorityValidatorSet K} (h : vals.updateWithChangeSet changes allowDeletes = some (r, vals')) :
    vals'.Inv := by
  by_cases hnil : changes = []
  · subst hnil
    have hsame : vals.updateWithChangeSet [] allowDeletes = some (.ok (), vals) := rfl
    rw [hsame] at h
    cases h
    exact hinv
  by_cases hfails : (∃ c ∈ changes, c.address = []) ∨ UpdateFails vals changes ∨
      (allowDeletes = false ∧ ∃ c ∈ changes, c.votingPower = 0)
  · obtain ⟨err, herr⟩ := updateWithChangeSet_of_fails hinv.updatable hnil hfails
    rw [herr] at h
    cases h
    exact hinv
  · have haddr : ∀ c ∈ changes, c.address ≠ [] := fun c hc h0 => hfails (.inl ⟨c, hc, h0⟩)
    have hok : ¬UpdateFails vals changes := fun h => hfails (.inr (.inl h))
    have hdeletes : allowDeletes = true ∨ ∀ c ∈ changes, c.votingPower ≠ 0 := by
      cases allowDeletes
      · exact .inr fun c hc h0 => hfails (.inr (.inr ⟨rfl, c, hc, h0⟩))
      · exact .inl rfl
    obtain ⟨hnodup, -, -, hnonempty, htotal⟩ := not_updateFails_iff.mp hok
    rw [updateWithChangeSet_of_not_fails hinv haddr hok hdeletes] at h
    cases h
    exact .inr (valid_expectedSet hinv hnodup hnonempty htotal)

end Update

namespace PriorityValidatorSet

/-- The sets `NewValidatorSet` and successful `UpdateWithChangeSet` calls
reach. -/
inductive Reachable : PriorityValidatorSet K → Prop
  | new {valz : List (PriorityValidator K)} {vals : PriorityValidatorSet K} :
      newValidatorSet valz = some vals → Reachable vals
  | update {vals vals' : PriorityValidatorSet K} {changes : List (PriorityValidator K)} :
      Reachable vals → vals.UpdateWithChangeSet changes = some (.ok (), vals') → Reachable vals'

theorem inv_newValidatorSet {valz : List (PriorityValidator K)} {vals : PriorityValidatorSet K}
    (h : newValidatorSet valz = some vals) : vals.Inv := by
  unfold newValidatorSet at h
  split at h
  · rename_i vals' hupdate
    cases h
    exact Inv.updateWithChangeSet (.inl rfl) hupdate
  · cases h

theorem Reachable.inv {vals : PriorityValidatorSet K} (h : vals.Reachable) : vals.Inv := by
  induction h with
  | new hnew => exact inv_newValidatorSet hnew
  | update _ hupdate ih => exact ih.updateWithChangeSet hupdate

theorem newValidatorSet_eq {valz : List (PriorityValidator K)} {vals : PriorityValidatorSet K} (hne : valz ≠ [])
    (h : newValidatorSet valz = some vals) : vals = expectedSet empty valz ∧ (expectedSet empty valz).Valid := by
  unfold newValidatorSet at h
  rcases (Inv.updatable (.inl rfl) : (empty : PriorityValidatorSet K).Updatable).updateWithChangeSet_cases hne false
    with ⟨err, herr⟩ | ⟨hok, hvalid⟩
  · rw [herr] at h
    cases h
  rw [hok] at h
  cases h
  exact ⟨rfl, hvalid⟩

/-- `NewValidatorSet` of validators returns a valid set whose priorities are
all zero: every validator is new, so all start at one priority, which the
centring takes to zero. -/
theorem valid_newValidatorSet {valz : List (PriorityValidator K)} {vals : PriorityValidatorSet K} (hne : valz ≠ [])
    (h : newValidatorSet valz = some vals) :
    vals.Valid ∧ ∀ v ∈ vals.validators, v.proposerPriority = 0 := by
  obtain ⟨rfl, hvalid⟩ := newValidatorSet_eq hne h
  refine ⟨hvalid, fun v hv => ?_⟩
  set T := sumVotingPower (changedValidators empty valz) + removedPower empty valz
  -- on the empty set every start priority is that of a new validator
  have hstart : ∀ x ∈ (startValidators empty valz).map (·.proposerPriority), x = -(T + T / 8) := by
    intro x hx
    obtain ⟨w, hw, rfl⟩ := List.mem_map.mp hx
    obtain ⟨u, -, rfl⟩ := List.mem_map.mp hw
    rfl
  have hmem := (sortByVotingPower_perm _).mem_iff.mp hv
  simp only [expectedValidators, scaleAndCentrePriorities, List.mem_map] at hmem
  obtain ⟨w, hw, rfl⟩ := hmem
  have hD : 0 ≤ 2 * sumVotingPower (startValidators empty valz) := by
    have hnonneg : ∀ u ∈ startValidators empty valz, 0 ≤ u.votingPower := by
      intro u hu
      obtain ⟨x, hx, rfl⟩ := List.mem_map.mp hu
      exact (power_pos_changedValidators (fun v hv => by simp [empty] at hv) x hx).le
    have := sumVotingPower_nonneg hnonneg
    omega
  rw [hstart w.proposerPriority (List.mem_map_of_mem hw)]
  exact scaleAndCentre_of_forall_eq (List.ne_nil_of_mem (List.mem_map_of_mem hw)) hstart hD

end PriorityValidatorSet

/-! ## The order of the changes -/

section Perm

variable {vals : PriorityValidatorSet K} {changes changes' : List (PriorityValidator K)}
  (hp : changes'.Perm changes)
include hp

theorem changedValidators_perm : (changedValidators vals changes').Perm (changedValidators vals changes) := by
  have hold : vals.validators.filter (fun v => v.address ∉ changes'.map (·.address)) =
      vals.validators.filter fun v => v.address ∉ changes.map (·.address) :=
    List.filter_congr fun v _ => by simp only [(hp.map (·.address)).mem_iff]
  rw [changedValidators, changedValidators, hold]
  exact (List.Perm.refl _).append (hp.filter _)

theorem removedPower_eq_of_perm : removedPower vals changes' = removedPower vals changes := by
  unfold removedPower
  congr 1
  exact List.filter_congr fun v _ => by simp only [((hp.filter _).map (·.address)).mem_iff]

theorem expectedValidators_perm : (expectedValidators vals changes').Perm (expectedValidators vals changes) := by
  apply scaleAndCentrePriorities_perm
  unfold startValidators
  rw [sumVotingPower_eq_of_perm (changedValidators_perm hp), removedPower_eq_of_perm hp]
  exact (changedValidators_perm hp).map _

theorem expectedSet_eq_of_perm (hvals : (vals.validators.map (·.address)).Nodup)
    (hnodup : (changes.map (·.address)).Nodup) : expectedSet vals changes' = expectedSet vals changes := by
  have hnodup' : ((expectedValidators vals changes').map (·.address)).Nodup := by
    rw [map_address_expectedValidators]
    exact nodup_changedValidators hvals ((hp.map _).nodup_iff.mpr hnodup)
  unfold expectedSet
  rw [sortByVotingPower_eq_of_perm (expectedValidators_perm hp) hnodup',
    sumVotingPower_eq_of_perm (changedValidators_perm hp)]

theorem updateFails_iff_of_perm : UpdateFails vals changes' ↔ UpdateFails vals changes := by
  have hnil : changedValidators vals changes' = [] ↔ changedValidators vals changes = [] := by
    rw [← List.length_eq_zero_iff, ← List.length_eq_zero_iff, (changedValidators_perm hp).length_eq]
  unfold UpdateFails
  rw [(hp.map _).nodup_iff, hnil, sumVotingPower_eq_of_perm (changedValidators_perm hp)]
  simp only [hp.mem_iff]

end Perm

/-! ## Updates of reachable sets -/

/-- What `UpdateWithChangeSet` does to a reachable set: it returns; it fails
exactly when `UpdateFails`, and then leaves the set as it was; otherwise the
result is valid, holds the expected validators sorted by power, and has at each
address the power the change set gives it; and the resulting set and whether it
fails do not depend on the order of the changes. -/
structure UpdateCorrect (vals : PriorityValidatorSet K) (changes : List (PriorityValidator K)) : Prop where
  returns : ∃ r vals', vals.UpdateWithChangeSet changes = some (r, vals')
  error_iff : ∀ r vals', vals.UpdateWithChangeSet changes = some (r, vals') →
    (r ≠ .ok () ↔ UpdateFails vals changes)
  unchanged : ∀ err vals', vals.UpdateWithChangeSet changes = some (.error err, vals') → vals' = vals
  ok : ∀ vals', vals.UpdateWithChangeSet changes = some (.ok (), vals') →
    vals'.Valid ∧ vals'.validators = sortByVotingPower (expectedValidators vals changes) ∧
      ∀ address, (vals'.getByAddress address).map (·.votingPower) = changedPower vals changes address
  perm : ∀ changes', changes'.Perm changes → ∃ r r' vals',
    vals.UpdateWithChangeSet changes = some (r, vals') ∧ vals.UpdateWithChangeSet changes' = some (r', vals') ∧
      (r = .ok () ↔ r' = .ok ())

section Correct

variable {vals : PriorityValidatorSet K} {changes : List (PriorityValidator K)}

/-- From a reachable set, a change set with non-empty addresses either fails
and leaves the set, or passes and gives the expected set; the empty change set
on the empty set is the one case where a failing change set is accepted. -/
theorem updateWithChangeSet_outcome (hinv : vals.Inv) (haddr : ∀ c ∈ changes, c.address ≠ [])
    (hne : vals.validators ≠ [] ∨ changes ≠ []) :
    (UpdateFails vals changes ∧ ∃ err, vals.UpdateWithChangeSet changes = some (.error err, vals)) ∨
      (¬UpdateFails vals changes ∧ vals.UpdateWithChangeSet changes = some (.ok (), expectedSet vals changes)) := by
  by_cases hfails : UpdateFails vals changes
  · refine .inl ⟨hfails, updateWithChangeSet_of_fails hinv.updatable ?_ (.inr (.inl hfails))⟩
    rintro rfl
    have hvalid : vals.Valid := hinv.resolve_left fun h => by simp [h, empty] at hne
    exact not_updateFails_nil hvalid hfails
  · exact .inr ⟨hfails, updateWithChangeSet_of_not_fails hinv haddr hfails (.inl rfl)⟩

theorem UpdateWithChangeSet_correct (hreach : vals.Reachable) (haddr : ∀ c ∈ changes, c.address ≠ [])
    (hne : vals.validators ≠ [] ∨ changes ≠ []) : UpdateCorrect vals changes := by
  have hinv := hreach.inv
  -- a permutation of the changes meets the same hypotheses
  have hperm : ∀ changes', changes'.Perm changes →
      (∀ c ∈ changes', c.address ≠ []) ∧ (vals.validators ≠ [] ∨ changes' ≠ []) := by
    intro changes' hp
    refine ⟨fun c hc => haddr c (hp.mem_iff.mp hc), ?_⟩
    rcases hne with h | h
    · exact .inl h
    · exact .inr fun h' => h (List.eq_nil_of_length_eq_zero (by rw [← hp.length_eq, h']; rfl))
  rcases updateWithChangeSet_outcome hinv haddr hne with ⟨hfails, err, h⟩ | ⟨hok, h⟩
  · refine ⟨⟨_, _, h⟩, ?_, ?_, ?_, ?_⟩
    · intro r vals' h'
      rw [h] at h'
      cases h'
      simp [hfails]
    · intro err' vals' h'
      rw [h] at h'
      cases h'
      rfl
    · intro vals' h'
      rw [h] at h'
      cases h'
    · intro changes' hp
      obtain ⟨haddr', hne'⟩ := hperm changes' hp
      rcases updateWithChangeSet_outcome hinv haddr' hne' with ⟨-, err', h'⟩ | ⟨hok', -⟩
      · exact ⟨_, _, _, h, h', by simp⟩
      · exact absurd ((updateFails_iff_of_perm hp).mpr hfails) hok'
  · obtain ⟨hnodup, hpower, -, hnonempty, htotal⟩ := not_updateFails_iff.mp hok
    refine ⟨⟨_, _, h⟩, ?_, ?_, ?_, ?_⟩
    · intro r vals' h'
      rw [h] at h'
      cases h'
      simp [hok]
    · intro err vals' h'
      rw [h] at h'
      cases h'
    · intro vals' h'
      rw [h] at h'
      cases h'
      exact ⟨valid_expectedSet hinv hnodup hnonempty htotal, rfl,
        getByAddress_expectedSet hinv.nodup hnodup fun c hc => (hpower c hc).1⟩
    · intro changes' hp
      obtain ⟨haddr', hne'⟩ := hperm changes' hp
      rcases updateWithChangeSet_outcome hinv haddr' hne' with ⟨hfails', -⟩ | ⟨-, h'⟩
      · exact absurd ((updateFails_iff_of_perm hp).mp hfails') hok
      · rw [expectedSet_eq_of_perm hp hinv.nodup hnodup] at h'
        exact ⟨_, _, _, h, h', Iff.rfl⟩

/-- The set `NewValidatorSet` makes of two validators of powers 10 and 5. -/
def tenAndFive : PriorityValidatorSet Nat :=
  ⟨[⟨⟨[1], .leaf .ed25519 1, 10, 0⟩, 0⟩, ⟨⟨[2], .leaf .ed25519 2, 5, 0⟩, 0⟩], 15⟩

/-- Changes that remove the second validator, add a third and raise the
first one's power. -/
def removeAddRaise : List (PriorityValidator Nat) :=
  [⟨⟨[2], .leaf .ed25519 2, 0, 0⟩, 0⟩, ⟨⟨[3], .leaf .ed25519 3, 7, 0⟩, 0⟩,
    ⟨⟨[1], .leaf .ed25519 1, 20, 0⟩, 0⟩]

/-- `UpdateWithChangeSet_correct` at a set of two validators and three
changes, one of them a removal; the update leaves the first and the new
validator, with centred priorities. -/
theorem UpdateWithChangeSet_correct_removeAddRaise :
    tenAndFive.Reachable ∧ (∀ c ∈ removeAddRaise, c.address ≠ []) ∧
      (tenAndFive.validators ≠ [] ∨ removeAddRaise ≠ []) ∧
      UpdateCorrect tenAndFive removeAddRaise ∧
      tenAndFive.UpdateWithChangeSet removeAddRaise =
        some (.ok (), ⟨[⟨⟨[1], .leaf .ed25519 1, 20, 0⟩, 18⟩, ⟨⟨[3], .leaf .ed25519 3, 7, 0⟩, -18⟩], 27⟩) := by
  have hreach : tenAndFive.Reachable :=
    .new (show newValidatorSet [⟨⟨[1], .leaf .ed25519 1, 10, 0⟩, 0⟩, ⟨⟨[2], .leaf .ed25519 2, 5, 0⟩, 0⟩] =
      some tenAndFive by decide)
  exact ⟨hreach, by decide, .inl (by simp [tenAndFive]),
    UpdateWithChangeSet_correct hreach (by decide) (.inl (by simp [tenAndFive])), by decide⟩

/-- Where the update departs from `UpdateFails`: a change at the empty address
is refused as a duplicate of the `nil` address the scan of `processChanges`
starts from, though nothing is repeated; and the empty set, which
`NewValidatorSet []` reaches, takes the empty change set and stays empty, so its
priorities sum to no value of `[0, n)`. -/
theorem UpdateWithChangeSet_edge_cases :
    (∃ vals : PriorityValidatorSet Nat, vals.Reachable ∧
      ¬UpdateFails vals [⟨⟨[], .leaf .ed25519 2, 5, 0⟩, 0⟩] ∧
      ∃ err, vals.UpdateWithChangeSet [⟨⟨[], .leaf .ed25519 2, 5, 0⟩, 0⟩] = some (.error err, vals)) ∧
    ((empty : PriorityValidatorSet Nat).Reachable ∧
      (empty : PriorityValidatorSet Nat).UpdateWithChangeSet [] = some (.ok (), empty) ∧
      ¬(0 ≤ ((empty : PriorityValidatorSet Nat).validators.map (·.proposerPriority)).sum ∧
        ((empty : PriorityValidatorSet Nat).validators.map (·.proposerPriority)).sum <
          (empty : PriorityValidatorSet Nat).validators.length)) := by
  refine ⟨⟨⟨[⟨⟨[1], .leaf .ed25519 1, 10, 0⟩, 0⟩], 10⟩,
    .new (show newValidatorSet [⟨⟨[1], .leaf .ed25519 1, 10, 0⟩, 0⟩] = some ⟨[⟨⟨[1], .leaf .ed25519 1, 10, 0⟩, 0⟩], 10⟩
      by decide), ?_,
    .duplicateEntry ⟨⟨[], .leaf .ed25519 2, 5, 0⟩, 0⟩ [⟨⟨[], .leaf .ed25519 2, 5, 0⟩, 0⟩], by decide⟩,
    .new (show newValidatorSet [] = some empty from rfl), rfl, by simp [empty]⟩
  unfold UpdateFails
  decide

end Correct

end Ostracon.Types
