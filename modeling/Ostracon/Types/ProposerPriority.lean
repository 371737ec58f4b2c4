import Ostracon.Types.ValidatorSetInvariant
/-!
# `IncrementProposerPriority`

`IncrementProposerPriority(times)` rescales the priorities into a window of
twice the total power, centres them on their average, and then runs the step
`incrementProposerPriority` `times` times.  A step raises every priority by the
validator's power (`safeAddClip`) and lowers the validator of most priority by
the total (`safeSubClip`); `getValWithMostPriority` finds that validator by
folding `CompareProposerPriority`, which prefers the higher priority and, on a
tie, the smaller address, and panics on a tie between validators of one
address.  The pointer the fold returns is modelled by the validator's index.

On distinct addresses the fold finds the validator `MostPriority` names
(`getValWithMostPriority_eq`), and a step only rewrites priorities
(`map_toValidator_incrementProposerPriority`).  From a centred set the step
clips nothing and keeps every priority within three times
`MaxTotalVotingPower` of zero, so `IncrementProposerPriority(1)` keeps
`Updatable` sets `Updatable` (`Bounded.incrementProposerPriority_one`): the
validator sets the chain holds never reach the clipping of `int64`.
-/

namespace Ostracon.Types

open GoInt IntWindow KeyedList PriorityValidatorSet

variable {K : Type}

/-! ## The model -/

/-- `CompareProposerPriority` on pointers into the validators, each the index
of a validator and the validator there: the one of higher priority, on a tie
the one of smaller address; a `nil` receiver returns `other`.  `none` where
Go panics, on a tie of one address. -/
def compareProposerPriority :
    Option (Nat × PriorityValidator K) → Nat × PriorityValidator K → Option (Nat × PriorityValidator K)
  | none, other => some other
  | some v, other =>
    if v.2.proposerPriority > other.2.proposerPriority then some v
    else if v.2.proposerPriority < other.2.proposerPriority then some other
    else if compare v.2.address other.2.address = .lt then some v
    else if compare v.2.address other.2.address = .gt then some other
    else none

/-- The loop of `getValWithMostPriority` from the validator at index `i` on,
with the pointer `res` holds. -/
def getValWithMostPriorityLoop :
    Option (Nat × PriorityValidator K) → Nat → List (PriorityValidator K) →
      Option (Option (Nat × PriorityValidator K))
  | res, _, [] => some res
  | res, i, val :: rest =>
    (compareProposerPriority res (i, val)).bind fun res => getValWithMostPriorityLoop (some res) (i + 1) rest

namespace PriorityValidatorSet

/-- `getValWithMostPriority`: the pointer the loop ends with, `nil` on an
empty set; `none` where Go panics. -/
def getValWithMostPriority (vals : PriorityValidatorSet K) : Option (Option (Nat × PriorityValidator K)) :=
  getValWithMostPriorityLoop none 0 vals.validators

/-- The first loop of `incrementProposerPriority`: every priority raised by
the validator's power, clipped to `int64`. -/
def raisePriorities (vals : PriorityValidatorSet K) : PriorityValidatorSet K :=
  { vals with validators := vals.validators.map fun val =>
      { val with proposerPriority := safeAddClip val.proposerPriority val.votingPower } }

/-- `incrementProposerPriority`: the priorities raised, then the validator of
most priority lowered by the total; the validator lowered and the set after,
where `TotalVotingPower` may fill the cache.  `none` where Go panics: on a tie
of one address, and on an empty set, where `mostest` is `nil`. -/
def incrementProposerPriority (vals : PriorityValidatorSet K) :
    Option (PriorityValidator K × PriorityValidatorSet K) := do
  let vals := vals.raisePriorities
  let res ← vals.getValWithMostPriority
  let (i, mostest) ← res
  let (totalVotingPower, vals) ← vals.totalVotingPower
  let mostest := { mostest with proposerPriority := safeSubClip mostest.proposerPriority totalVotingPower }
  pure (mostest, { vals with validators := vals.validators.set i mostest })

/-- The loop of `IncrementProposerPriority`: `incrementProposerPriority` `n`
times, its result dropped. -/
def incrementTimes : Nat → PriorityValidatorSet K → Option (PriorityValidatorSet K)
  | 0, vals => some vals
  | n + 1, vals => vals.incrementProposerPriority.bind fun r => incrementTimes n r.2

/-- `IncrementProposerPriority`; `none` where Go panics: on an empty set, on
a `times` that is not positive, and where a step does. -/
def IncrementProposerPriority (vals : PriorityValidatorSet K) (times : Int) : Option (PriorityValidatorSet K) :=
  if vals.validators.isEmpty then none
  else if times ≤ 0 then none
  else do
    let (totalVotingPower, vals) ← vals.totalVotingPower
    let vals ← vals.rescalePriorities (mul priorityWindowSizeFactor totalVotingPower)
    let vals ← vals.shiftByAvgProposerPriority
    incrementTimes times.toNat vals

end PriorityValidatorSet

/-! ## The validator of most priority -/

/-- `u` is the validator `getValWithMostPriority` should find among `l`: none
has a higher priority, and none of the same priority a smaller address. -/
def MostPriority (l : List (PriorityValidator K)) (u : PriorityValidator K) : Prop :=
  ∀ w ∈ l, w.proposerPriority < u.proposerPriority ∨
    (w.proposerPriority = u.proposerPriority ∧ compare u.address w.address ≠ .gt)

theorem mostPriority_singleton (u : PriorityValidator K) : MostPriority [u] u := by
  intro w hw
  rw [List.mem_singleton.mp hw]
  exact .inr ⟨rfl, by rw [Std.compare_self]; decide⟩

theorem MostPriority.le {l : List (PriorityValidator K)} {u : PriorityValidator K} (h : MostPriority l u)
    {w : PriorityValidator K} (hw : w ∈ l) : w.proposerPriority ≤ u.proposerPriority := by
  rcases h w hw with h | ⟨h, -⟩ <;> omega

theorem MostPriority.compare_snoc {pre : List (PriorityValidator K)} {u val : PriorityValidator K}
    (hu : MostPriority pre u) (hne : u.address ≠ val.address) (j i : Nat) :
    (compareProposerPriority (some (j, u)) (i, val) = some (j, u) ∧ MostPriority (pre ++ [val]) u) ∨
      (compareProposerPriority (some (j, u)) (i, val) = some (i, val) ∧ MostPriority (pre ++ [val]) val) := by
  have hsnoc : ∀ {x : PriorityValidator K}, MostPriority pre x → (val.proposerPriority < x.proposerPriority ∨
      (val.proposerPriority = x.proposerPriority ∧ compare x.address val.address ≠ .gt)) →
      MostPriority (pre ++ [val]) x := by
    intro x hx hval w hw
    rcases List.mem_append.mp hw with hw | hw
    · exact hx w hw
    · rw [List.mem_singleton.mp hw]
      exact hval
  simp only [compareProposerPriority]
  by_cases hgt : u.proposerPriority > val.proposerPriority
  · exact .inl ⟨if_pos hgt, hsnoc hu (.inl hgt)⟩
  rw [if_neg hgt]
  by_cases hlt : u.proposerPriority < val.proposerPriority
  · -- the new validator outranks every earlier one
    refine .inr ⟨if_pos hlt, fun w hw => ?_⟩
    rcases List.mem_append.mp hw with hw | hw
    · exact .inl (lt_of_le_of_lt (hu.le hw) hlt)
    · rw [List.mem_singleton.mp hw]
      exact .inr ⟨rfl, by rw [Std.compare_self]; decide⟩
  rw [if_neg hlt]
  have htie : u.proposerPriority = val.proposerPriority := by omega
  by_cases hcmp : compare u.address val.address = .lt
  · exact .inl ⟨if_pos hcmp, hsnoc hu (.inr ⟨htie.symm, by rw [hcmp]; decide⟩)⟩
  rw [if_neg hcmp]
  by_cases hcmp' : compare u.address val.address = .gt
  · -- a tie won by the smaller address: it is below every earlier address of the tie
    refine .inr ⟨if_pos hcmp', fun w hw => ?_⟩
    rcases List.mem_append.mp hw with hw | hw
    · rcases hu w hw with h | ⟨h, hle⟩
      · exact .inl (htie ▸ h)
      · exact .inr ⟨h.trans htie, by
          rw [Std.TransCmp.lt_of_lt_of_le (Std.OrientedCmp.lt_of_gt hcmp') hle]
          decide⟩
    · rw [List.mem_singleton.mp hw]
      exact .inr ⟨rfl, by rw [Std.compare_self]; decide⟩
  · have heq : compare u.address val.address = .eq := by
      cases h : compare u.address val.address <;> simp_all
    exact absurd (Std.LawfulEqCmp.compare_eq_iff_eq.mp heq) hne

/-- The loop, from a pointer to the validator of most priority among those
before index `pre.length`, ends at a pointer to the validator of most priority
among all. -/
theorem getValWithMostPriorityLoop_some {l : List (PriorityValidator K)} (hnodup : (l.map (·.address)).Nodup) :
    ∀ (rest pre : List (PriorityValidator K)) (j : Nat) (u : PriorityValidator K), l = pre ++ rest →
      pre[j]? = some u → MostPriority pre u →
      ∃ j' u', getValWithMostPriorityLoop (some (j, u)) pre.length rest = some (some (j', u')) ∧
        l[j']? = some u' ∧ MostPriority l u' := by
  intro rest
  induction rest with
  | nil =>
    intro pre j u hl hj hu
    rw [List.append_nil] at hl
    subst hl
    exact ⟨j, u, rfl, hj, hu⟩
  | cons val rest ih =>
    intro pre j u hl hj hu
    have hl' : l = (pre ++ [val]) ++ rest := by rw [hl, List.append_assoc, List.singleton_append]
    -- the new validator's address is not among the earlier ones
    have hne : u.address ≠ val.address := by
      rw [hl, List.map_append, List.map_cons] at hnodup
      have hnot := (List.nodup_middle.mp hnodup |> List.nodup_cons.mp).1
      intro heq
      apply hnot
      rw [← heq]
      exact List.mem_append_left _ (List.mem_map_of_mem (List.mem_of_getElem? hj))
    have hlen : (pre ++ [val]).length = pre.length + 1 := by simp
    rw [getValWithMostPriorityLoop]
    rcases hu.compare_snoc hne j pre.length with ⟨hcmp, hu'⟩ | ⟨hcmp, hval⟩
    · rw [hcmp, Option.bind_some, ← hlen]
      have hj' : j < pre.length := (List.getElem?_eq_some_iff.mp hj).1
      exact ih (pre ++ [val]) j u hl' (by rw [List.getElem?_append_left hj']; exact hj) hu'
    · rw [hcmp, Option.bind_some, ← hlen]
      exact ih (pre ++ [val]) pre.length val hl' (by simp) hval

theorem getValWithMostPriority_eq {vals : PriorityValidatorSet K} (hnodup : (vals.validators.map (·.address)).Nodup)
    (hne : vals.validators ≠ []) :
    ∃ j u, vals.getValWithMostPriority = some (some (j, u)) ∧ vals.validators[j]? = some u ∧
      MostPriority vals.validators u := by
  obtain ⟨v, rest, hvals⟩ := List.exists_cons_of_ne_nil hne
  have hloop := getValWithMostPriorityLoop_some hnodup rest [v] 0 v (by simp [hvals]) rfl (mostPriority_singleton v)
  rw [hvals] at hloop
  unfold getValWithMostPriority
  rw [hvals]
  exact hloop

theorem compareProposerPriority_eq_some {res : Option (Nat × PriorityValidator K)} {other r : Nat × PriorityValidator K}
    (h : compareProposerPriority res other = some r) : r = other ∨ res = some r := by
  cases res with
  | none =>
    cases h
    exact .inl rfl
  | some v =>
    simp only [compareProposerPriority] at h
    split_ifs at h <;> cases h <;> simp

theorem getValWithMostPriorityLoop_pointer {l : List (PriorityValidator K)} :
    ∀ (rest pre : List (PriorityValidator K)) (res : Option (Nat × PriorityValidator K)) (j : Nat)
      (u : PriorityValidator K), l = pre ++ rest → (∀ j u, res = some (j, u) → pre[j]? = some u) →
      getValWithMostPriorityLoop res pre.length rest = some (some (j, u)) → l[j]? = some u := by
  intro rest
  induction rest with
  | nil =>
    intro pre res j u hl hres h
    cases h
    rw [hl, List.append_nil]
    exact hres j u rfl
  | cons val rest ih =>
    intro pre res j u hl hres h
    rw [getValWithMostPriorityLoop] at h
    obtain ⟨r, hr, h⟩ := Option.bind_eq_some_iff.mp h
    have hlen : (pre ++ [val]).length = pre.length + 1 := by simp
    rw [← hlen] at h
    refine ih (pre ++ [val]) (some r) j u (by rw [hl, List.append_assoc, List.singleton_append]) ?_ h
    intro j' u' hr'
    cases hr'
    rcases compareProposerPriority_eq_some hr with hr | hr
    · cases hr
      simp
    · have hj' := hres j' u' hr
      rw [List.getElem?_append_left (List.getElem?_eq_some_iff.mp hj').1]
      exact hj'

/-! ## A step -/

namespace PriorityValidatorSet

variable {vals : PriorityValidatorSet K}

@[simp] theorem map_toValidator_raisePriorities :
    vals.raisePriorities.validators.map (·.toValidator) = vals.validators.map (·.toValidator) := by
  simp [raisePriorities, Function.comp_def]

@[simp] theorem totalVotingPowerCache_raisePriorities :
    vals.raisePriorities.totalVotingPowerCache = vals.totalVotingPowerCache := rfl

@[simp] theorem length_raisePriorities : vals.raisePriorities.validators.length = vals.validators.length := by
  simp [raisePriorities]

theorem map_address_raisePriorities :
    vals.raisePriorities.validators.map (·.address) = vals.validators.map (·.address) := by
  simp [raisePriorities, Function.comp_def]

theorem raisePriorities_eq (h : ∀ v ∈ vals.validators, InInt64 (v.proposerPriority + v.votingPower)) :
    vals.raisePriorities = { vals with validators := vals.validators.map fun v =>
      { v with proposerPriority := v.proposerPriority + v.votingPower } } := by
  unfold raisePriorities
  congr 1
  apply List.map_congr_left
  intro v hv
  rw [safeAddClip_of_inInt64 (h v hv)]

theorem validators_of_totalVotingPower {T : Int} {vals' : PriorityValidatorSet K}
    (h : vals.totalVotingPower = some (T, vals')) :
    vals'.validators = vals.validators ∧ vals'.totalVotingPowerCache = T ∧
      (vals.totalVotingPowerCache ≠ 0 → T = vals.totalVotingPowerCache) := by
  unfold totalVotingPower at h
  split_ifs at h with h0
  · obtain ⟨vals'', hupd, heq⟩ := Option.map_eq_some_iff.mp h
    cases heq
    unfold updateTotalVotingPower at hupd
    obtain ⟨sum, -, rfl⟩ := Option.map_eq_some_iff.mp hupd
    exact ⟨rfl, rfl, fun h => absurd h0 h⟩
  · cases h
    exact ⟨rfl, rfl, fun _ => rfl⟩

theorem totalVotingPower_of_ne_zero (h : vals.totalVotingPowerCache ≠ 0) :
    vals.totalVotingPower = some (vals.totalVotingPowerCache, vals) := by
  unfold totalVotingPower
  rw [if_neg h]

/-- What a step computes: the raised validators, with the one at the index
the pointer names replaced by the validator it returns, which is that one
with its priority lowered. -/
theorem incrementProposerPriority_some {m : PriorityValidator K} {vals' : PriorityValidatorSet K}
    (h : vals.incrementProposerPriority = some (m, vals')) :
    ∃ i u, vals.raisePriorities.validators[i]? = some u ∧ m.toValidator = u.toValidator ∧
      vals'.validators = vals.raisePriorities.validators.set i m ∧
      (vals.totalVotingPowerCache ≠ 0 → vals'.totalVotingPowerCache = vals.totalVotingPowerCache) := by
  unfold incrementProposerPriority at h
  simp only [Option.bind_eq_bind] at h
  obtain ⟨res, hres, h₁⟩ := Option.bind_eq_some_iff.mp h
  obtain ⟨⟨i, mostest⟩, hi, h₂⟩ := Option.bind_eq_some_iff.mp h₁
  subst hi
  obtain ⟨⟨T, vals''⟩, hT, h₃⟩ := Option.bind_eq_some_iff.mp h₂
  obtain ⟨hvals'', hcache, hT'⟩ := validators_of_totalVotingPower hT
  cases h₃
  -- the pointer is into the raised validators
  refine ⟨i, mostest, getValWithMostPriorityLoop_pointer _ [] none i mostest rfl (fun _ _ h => by cases h) hres,
    rfl, by rw [hvals''], fun h0 => by simpa [hcache] using hT' h0⟩

theorem map_toValidator_incrementProposerPriority {m : PriorityValidator K} {vals' : PriorityValidatorSet K}
    (h : vals.incrementProposerPriority = some (m, vals')) :
    vals'.validators.map (·.toValidator) = vals.validators.map (·.toValidator) ∧
      (vals.totalVotingPowerCache ≠ 0 → vals'.totalVotingPowerCache = vals.totalVotingPowerCache) := by
  obtain ⟨i, u, hptr, hm, hvals', hcache⟩ := incrementProposerPriority_some h
  obtain ⟨hi, hget⟩ := List.getElem?_eq_some_iff.mp hptr
  -- the lowered validator keeps the identity of the one it replaces
  have hset : (vals.raisePriorities.validators.map (·.toValidator)).set i u.toValidator =
      vals.raisePriorities.validators.map (·.toValidator) := by
    have hi' : i < (vals.raisePriorities.validators.map (·.toValidator)).length := by simpa using hi
    calc _ = (vals.raisePriorities.validators.map (·.toValidator)).set i
          (vals.raisePriorities.validators.map (·.toValidator))[i] := by rw [List.getElem_map, hget]
      _ = _ := List.set_getElem_self hi'
  refine ⟨?_, hcache⟩
  rw [hvals', List.map_set, hm, hset, map_toValidator_raisePriorities]

theorem incrementProposerPriority_ne_of_zero (hupd : vals.Updatable) (htwo : 2 ≤ vals.validators.length)
    (hzero : ∀ v ∈ vals.validators, v.proposerPriority = 0) {m : PriorityValidator K}
    {vals' : PriorityValidatorSet K} (h : vals.incrementProposerPriority = some (m, vals')) :
    vals'.validators.map (·.proposerPriority) ≠ vals.validators.map (·.proposerPriority) := by
  obtain ⟨i, -, -, -, hvals', -⟩ := incrementProposerPriority_some h
  -- a validator other than the one lowered
  obtain ⟨k, hk, hki⟩ : ∃ k, k < vals.validators.length ∧ i ≠ k :=
    ⟨if i = 0 then 1 else 0, by split <;> omega, by split <;> omega⟩
  have hv := List.getElem_mem hk
  have hraise : safeAddClip vals.validators[k].proposerPriority vals.validators[k].votingPower =
      vals.validators[k].votingPower := by
    have hpow := hupd.power_mem_Icc _ hv
    rw [maxTotalVotingPower_eq] at hpow
    rw [hzero _ hv, safeAddClip_of_inInt64 (by unfold InInt64 minInt64 maxInt64; omega), zero_add]
  intro heq
  have hget := congrArg (·[k]?) heq
  simp only [List.getElem?_map, hvals', List.getElem?_set_ne hki, raisePriorities, List.getElem?_eq_getElem hk,
    Option.map_some, Option.some.injEq, hraise] at hget
  have := hupd.power_pos _ hv
  rw [hzero _ hv] at hget
  omega

theorem incrementProposerPriority_isSome (hnodup : (vals.validators.map (·.address)).Nodup)
    (hne : vals.validators ≠ []) (hcache : vals.totalVotingPowerCache ≠ 0) :
    vals.incrementProposerPriority.isSome := by
  obtain ⟨j, u, hget, -, -⟩ := @getValWithMostPriority_eq K vals.raisePriorities
    (by rw [map_address_raisePriorities]; exact hnodup) (by simpa [← List.length_pos_iff] using hne)
  unfold incrementProposerPriority
  simp [hget, totalVotingPower_of_ne_zero (show vals.raisePriorities.totalVotingPowerCache ≠ 0 from hcache)]

/-- A step on distinct addresses with the total cached and nothing to clip
in the lowering: the validator of most priority among the raised ones, at some
index `j`, lowered by the total. -/
theorem incrementProposerPriority_eq (hnodup : (vals.validators.map (·.address)).Nodup)
    (hne : vals.validators ≠ []) (hcache : vals.totalVotingPowerCache ≠ 0)
    (hlower : ∀ v ∈ vals.raisePriorities.validators,
      InInt64 (v.proposerPriority - vals.totalVotingPowerCache)) :
    ∃ j u, vals.raisePriorities.validators[j]? = some u ∧ MostPriority vals.raisePriorities.validators u ∧
      vals.incrementProposerPriority =
        some ({ u with proposerPriority := u.proposerPriority - vals.totalVotingPowerCache },
          { vals.raisePriorities with
            validators := vals.raisePriorities.validators.set j { u with proposerPriority := u.proposerPriority - vals.totalVotingPowerCache } }) := by
  obtain ⟨j, u, hget, hidx, hmost⟩ := @getValWithMostPriority_eq K vals.raisePriorities
    (by rw [map_address_raisePriorities]; exact hnodup) (by simpa [← List.length_pos_iff] using hne)
  refine ⟨j, u, hidx, hmost, ?_⟩
  have hsub : safeSubClip u.proposerPriority vals.totalVotingPowerCache =
      u.proposerPriority - vals.totalVotingPowerCache :=
    safeSubClip_of_inInt64 (hlower u (List.mem_of_getElem? hidx))
  unfold incrementProposerPriority
  simp [hget, totalVotingPower_of_ne_zero (show vals.raisePriorities.totalVotingPowerCache ≠ 0 from hcache), hsub]

end PriorityValidatorSet

theorem votingPower_le_sumVotingPower {l : List (PriorityValidator K)} (hpos : ∀ v ∈ l, 0 < v.votingPower)
    {v : PriorityValidator K} (hv : v ∈ l) : v.votingPower ≤ sumVotingPower l :=
  List.single_le_sum (by simpa using fun w hw => (hpos w hw).le) _ (List.mem_map_of_mem hv)

theorem MostPriority.priority_pos {l : List (PriorityValidator K)} {u : PriorityValidator K}
    (hmost : MostPriority l u) (hsum : 0 < (l.map (·.proposerPriority)).sum) : 0 < u.proposerPriority := by
  have hle : (l.map (·.proposerPriority)).sum ≤ (l.map (·.proposerPriority)).length • u.proposerPriority := by
    apply List.sum_le_card_nsmul
    intro x hx
    obtain ⟨w, hw, rfl⟩ := List.mem_map.mp hx
    exact hmost.le hw
  rw [nsmul_eq_mul] at hle
  by_contra hnpos
  have : ((l.map (·.proposerPriority)).length : Int) * u.proposerPriority ≤ 0 :=
    Int.mul_nonpos_of_nonneg_of_nonpos (Int.natCast_nonneg _) (by omega)
  omega

namespace PriorityValidatorSet

variable {vals : PriorityValidatorSet K}

/-- A step from priorities centred within twice the total of zero clips
nothing: the raised priorities stay below three times the total, the lowered
one above minus the total, and their sum is kept. -/
theorem incrementProposerPriority_of_centred (hnodup : (vals.validators.map (·.address)).Nodup)
    (hne : vals.validators ≠ []) (hpos : ∀ v ∈ vals.validators, 0 < v.votingPower)
    (hcache : vals.totalVotingPowerCache = sumVotingPower vals.validators)
    (htotal : sumVotingPower vals.validators ≤ maxTotalVotingPower)
    (hbound : ∀ v ∈ vals.validators, -(2 * sumVotingPower vals.validators) ≤ v.proposerPriority ∧
      v.proposerPriority ≤ 2 * sumVotingPower vals.validators)
    (hsum : 0 ≤ (vals.validators.map (·.proposerPriority)).sum) :
    ∃ m vals', vals.incrementProposerPriority = some (m, vals') ∧
      (∀ v ∈ vals'.validators, -(2 * sumVotingPower vals.validators) ≤ v.proposerPriority ∧
        v.proposerPriority ≤ 3 * sumVotingPower vals.validators) ∧
      (vals'.validators.map (·.proposerPriority)).sum = (vals.validators.map (·.proposerPriority)).sum := by
  set T := sumVotingPower vals.validators with hTdef
  have hT : 0 < T := sumVotingPower_pos hpos hne
  have hTmax := maxTotalVotingPower_eq ▸ htotal
  have hpowle : ∀ v ∈ vals.validators, v.votingPower ≤ T := fun v hv => votingPower_le_sumVotingPower hpos hv
  -- raising adds each power exactly
  have hraised := raisePriorities_eq fun v hv => by
    have := hbound v hv
    have := hpos v hv
    have := hpowle v hv
    unfold InInt64 minInt64 maxInt64
    omega
  have hraisedBound : ∀ v ∈ vals.raisePriorities.validators,
      -(2 * T) < v.proposerPriority ∧ v.proposerPriority ≤ 3 * T := by
    rw [hraised]
    intro v hv
    obtain ⟨w, hw, rfl⟩ := List.mem_map.mp hv
    have := hbound w hw
    have := hpos w hw
    have := hpowle w hw
    simp only
    omega
  have hraisedSum : (vals.raisePriorities.validators.map (·.proposerPriority)).sum =
      (vals.validators.map (·.proposerPriority)).sum + T := by
    rw [hraised, hTdef, sumVotingPower]
    simp only [List.map_map, Function.comp_def, List.sum_map_add]
  obtain ⟨j, u, hidx, hmost, hstep⟩ := incrementProposerPriority_eq hnodup hne (by omega) (fun v hv => by
    have := hraisedBound v hv
    rw [hcache]
    unfold InInt64 minInt64 maxInt64
    omega)
  -- the one lowered had the most priority, so more than zero
  have hupos : 0 < u.proposerPriority := hmost.priority_pos (by omega)
  have hubound := hraisedBound u (List.mem_of_getElem? hidx)
  refine ⟨_, _, hstep, ?_, ?_⟩
  · intro v hv
    rcases List.mem_or_eq_of_mem_set hv with hv | rfl
    · have := hraisedBound v hv
      omega
    · simp only
      omega
  · have hj : j < (vals.raisePriorities.validators.map (·.proposerPriority)).length := by
      simpa using (List.getElem?_eq_some_iff.mp hidx).1
    have huj : (vals.raisePriorities.validators.map (·.proposerPriority))[j] = u.proposerPriority := by
      rw [List.getElem_map, (List.getElem?_eq_some_iff.mp hidx).2]
    simp only [List.map_set]
    rw [List.sum_set', dif_pos hj, huj, hraisedSum, hcache]
    omega

/-- The loop of `IncrementProposerPriority` on distinct addresses with the
total cached never panics, and leaves the validators, their powers, their
order and the cache as they were. -/
theorem incrementTimes_frame (hnodup : (vals.validators.map (·.address)).Nodup)
    (hne : vals.validators ≠ []) (hcache : vals.totalVotingPowerCache ≠ 0) (n : Nat) :
    ∃ vals', incrementTimes n vals = some vals' ∧
      vals'.validators.map (·.toValidator) = vals.validators.map (·.toValidator) ∧
      vals'.totalVotingPowerCache = vals.totalVotingPowerCache := by
  induction n generalizing vals with
  | zero => exact ⟨vals, rfl, rfl, rfl⟩
  | succ n ih =>
    obtain ⟨⟨m, vals₁⟩, hstep⟩ := Option.isSome_iff_exists.mp (incrementProposerPriority_isSome hnodup hne hcache)
    obtain ⟨hframe, hcache₁⟩ := map_toValidator_incrementProposerPriority hstep
    have hcache₁ := hcache₁ hcache
    -- the step keeps what the next one needs
    have hnodup₁ : (vals₁.validators.map (·.address)).Nodup := by
      have := congrArg (List.map (·.address)) hframe
      simp only [List.map_map, Function.comp_def] at this
      rw [this]
      exact hnodup
    have hne₁ : vals₁.validators ≠ [] := by
      intro h
      apply hne
      simpa [h] using hframe.symm
    obtain ⟨vals', hrun, hframe', hcache'⟩ := ih hnodup₁ hne₁ (by rw [hcache₁]; exact hcache)
    refine ⟨vals', ?_, hframe'.trans hframe, hcache'.trans hcache₁⟩
    rw [incrementTimes, hstep, Option.bind_some]
    exact hrun

/-- The sets the chain holds between blocks: `Updatable`, non-empty, and
sorted by power. -/
structure Bounded (vals : PriorityValidatorSet K) : Prop extends vals.Updatable where
  nonempty : vals.validators ≠ []
  sorted : vals.validators.Pairwise fun a b => validatorsByVotingPowerLess a.toValidator b.toValidator = true

theorem Valid.bounded (hvalid : vals.Valid) : vals.Bounded :=
  { hvalid.updatable with nonempty := hvalid.nonempty, sorted := hvalid.sorted }

theorem Bounded.of_frame {vals' : PriorityValidatorSet K} (h : vals.Bounded)
    (hframe : vals'.validators.map (·.toValidator) = vals.validators.map (·.toValidator))
    (hcache : vals'.totalVotingPowerCache = vals.totalVotingPowerCache)
    (hbound : ∀ v ∈ vals'.validators,
      -(3 * maxTotalVotingPower) ≤ v.proposerPriority ∧ v.proposerPriority ≤ 3 * maxTotalVotingPower) :
    vals'.Bounded := by
  have hmap : ∀ {β : Type} (f : Validator K → β),
      vals'.validators.map (fun v => f v.toValidator) = vals.validators.map (fun v => f v.toValidator) := by
    intro β f
    have := congrArg (List.map f) hframe
    simpa [List.map_map, Function.comp_def] using this
  have hsum : sumVotingPower vals'.validators = sumVotingPower vals.validators := by
    unfold sumVotingPower
    exact congrArg List.sum (hmap (·.votingPower))
  refine
    { nodup := ?nodup
      power_pos := ?power_pos
      total_le := ?total_le
      cache_eq_sum := ?cache_eq_sum
      priority_mem_Icc := hbound
      nonempty := ?nonempty
      sorted := ?sorted }
  case nodup => rw [hmap (·.address)]; exact h.nodup
  case power_pos =>
    intro v hv
    have hmem : v.votingPower ∈ vals.validators.map (·.votingPower) := by
      rw [← hmap (·.votingPower)]
      exact List.mem_map_of_mem hv
    obtain ⟨w, hw, hwv⟩ := List.mem_map.mp hmem
    rw [← hwv]
    exact h.power_pos w hw
  case total_le => rw [hsum]; exact h.total_le
  case cache_eq_sum => rw [hcache, hsum]; exact h.cache_eq_sum
  case nonempty =>
    intro hnil
    apply h.nonempty
    simpa [hnil] using hframe.symm
  case sorted =>
    have hpair : (vals.validators.map (·.toValidator)).Pairwise
        (fun a b => validatorsByVotingPowerLess a b = true) := List.pairwise_map.mpr h.sorted
    rw [← hframe] at hpair
    exact List.pairwise_map.mp hpair

theorem Updatable.incrementProposerPriority_eq (hupd : vals.Updatable) (hne : vals.validators ≠ [])
    {times : Int} (htimes : 0 < times) :
    vals.IncrementProposerPriority times = incrementTimes times.toNat
      (vals.mapPriorities (scaleAndCentre (2 * sumVotingPower vals.validators) (vals.validators.map (·.proposerPriority)))) := by
  have hT : 0 < sumVotingPower vals.validators := sumVotingPower_pos hupd.power_pos hne
  have hTmax := maxTotalVotingPower_eq ▸ hupd.total_le
  have hmul : mul priorityWindowSizeFactor (sumVotingPower vals.validators) = 2 * sumVotingPower vals.validators := by
    unfold priorityWindowSizeFactor
    exact mul_of_inInt64 (by unfold InInt64 minInt64 maxInt64; omega)
  have hscale := rescale_shift_eq hne (show 0 < 2 * sumVotingPower vals.validators by omega) hupd.priority_mem_Icc
    (by rw [maxTotalVotingPower_eq]; unfold minInt64; omega) (by rw [maxTotalVotingPower_eq]; unfold maxInt64; omega)
    (by rw [maxTotalVotingPower_eq]; unfold maxInt64; omega)
  have hcache : vals.totalVotingPowerCache ≠ 0 := by rw [hupd.cache_eq_sum]; omega
  unfold IncrementProposerPriority
  rw [if_neg (by simpa using hne), if_neg (by omega), totalVotingPower_of_ne_zero hcache]
  simp only [Option.bind_eq_bind, Option.bind_some, hupd.cache_eq_sum, hmul]
  rw [← Option.bind_assoc, hscale, Option.bind_some]

theorem Valid.incrementProposerPriority_eq (hvalid : vals.Valid) {times : Int} (htimes : 0 < times) :
    vals.IncrementProposerPriority times = incrementTimes times.toNat vals := by
  rw [hvalid.updatable.incrementProposerPriority_eq hvalid.nonempty htimes]
  have hsum : 0 ≤ (vals.validators.map (·.proposerPriority)).sum ∧
      (vals.validators.map (·.proposerPriority)).sum < (vals.validators.map (·.proposerPriority)).length := by
    rw [List.length_map]
    exact hvalid.priority_sum
  calc incrementTimes times.toNat (vals.mapPriorities
          (scaleAndCentre (2 * sumVotingPower vals.validators) (vals.validators.map (·.proposerPriority))))
      _ = incrementTimes times.toNat (vals.mapPriorities fun p => p) := by
        rw [mapPriorities_congr (g := fun p => p) fun v _ =>
          scaleAndCentre_of_spread hvalid.priority_spread hsum v.proposerPriority]
      _ = incrementTimes times.toNat vals := by rw [mapPriorities_id]

/-- `IncrementProposerPriority(1)` keeps a bounded set bounded: the rescaled
and centred priorities lie within twice the total of zero, and a step from
there clips nothing and stays within three times the total. -/
theorem Bounded.incrementProposerPriority_one (h : vals.Bounded) :
    ∃ vals', vals.IncrementProposerPriority 1 = some vals' ∧ vals'.Bounded ∧
      vals'.validators.map (·.toValidator) = vals.validators.map (·.toValidator) ∧
      vals'.totalVotingPowerCache = vals.totalVotingPowerCache := by
  set T := sumVotingPower vals.validators with hTdef
  set X := vals.mapPriorities (scaleAndCentre (2 * T) (vals.validators.map (·.proposerPriority))) with hXdef
  have hT : 0 < T := sumVotingPower_pos h.power_pos h.nonempty
  have hXframe : X.validators.map (·.toValidator) = vals.validators.map (·.toValidator) := by
    simp [hXdef, Function.comp_def]
  have hXaddr : X.validators.map (·.address) = vals.validators.map (·.address) := by
    simp [hXdef, Function.comp_def]
  have hXsum : sumVotingPower X.validators = T := by
    simp [hXdef, hTdef, sumVotingPower, Function.comp_def]
  have hXprio : X.validators.map (·.proposerPriority) =
      (vals.validators.map (·.proposerPriority)).map (scaleAndCentre (2 * T) (vals.validators.map (·.proposerPriority))) := by
    simp [hXdef, Function.comp_def]
  have hne' : vals.validators.map (·.proposerPriority) ≠ [] := by simpa using h.nonempty
  -- the scaled and centred priorities: within twice the total of each other, summing to `[0, n)`
  have hXspread := spread_scaleAndCentre (show 0 < 2 * T by omega) (vals.validators.map (·.proposerPriority))
  have hXcentred := sum_scaleAndCentre hne' (2 * T)
  rw [← hXprio] at hXspread hXcentred
  have hXcentred' : 0 ≤ (X.validators.map (·.proposerPriority)).sum ∧
      (X.validators.map (·.proposerPriority)).sum < (X.validators.map (·.proposerPriority)).length := by
    have hlen : (vals.validators.map (·.proposerPriority)).length = (X.validators.map (·.proposerPriority)).length := by
      simp [hXdef]
    rw [← hlen]
    exact hXcentred
  have hXbound : ∀ v ∈ X.validators, -(2 * sumVotingPower X.validators) ≤ v.proposerPriority ∧
      v.proposerPriority ≤ 2 * sumVotingPower X.validators := fun v hv => by
    rw [hXsum]
    exact abs_le_of_spread hXspread hXcentred' (List.mem_map_of_mem hv)
  obtain ⟨m, X', hstep, hX'bound, -⟩ := incrementProposerPriority_of_centred (by rw [hXaddr]; exact h.nodup)
    (by simpa [hXdef] using h.nonempty)
    (fun v hv => by
      obtain ⟨w, hw, rfl⟩ := List.mem_map.mp hv
      exact h.power_pos w hw)
    (by rw [hXsum]; exact h.cache_eq_sum) (by rw [hXsum]; exact h.total_le) hXbound hXcentred'.1
  obtain ⟨hX'frame, hX'cache⟩ := map_toValidator_incrementProposerPriority hstep
  have hX'cache := hX'cache (by simp [hXdef, h.cache_eq_sum]; omega)
  refine ⟨X', ?_, ?_, hX'frame.trans hXframe, hX'cache⟩
  · rw [h.incrementProposerPriority_eq h.nonempty (by omega : (0 : Int) < 1), ← hTdef, ← hXdef]
    simp [incrementTimes, hstep]
  · apply h.of_frame (hX'frame.trans hXframe) hX'cache
    intro v hv
    have hv' := hX'bound v hv
    rw [hXsum] at hv'
    have := h.total_le
    omega

/-- `IncrementProposerPriority(times)` for any positive `times` never panics
on a bounded set and leaves its validators, their powers, their order and the
cache as they were. -/
theorem Bounded.incrementProposerPriority (h : vals.Bounded) {times : Int} (htimes : 0 < times) :
    ∃ vals', vals.IncrementProposerPriority times = some vals' ∧
      vals'.validators.map (·.toValidator) = vals.validators.map (·.toValidator) ∧
      vals'.totalVotingPowerCache = vals.totalVotingPowerCache := by
  rw [h.incrementProposerPriority_eq h.nonempty htimes]
  have hT : 0 < sumVotingPower vals.validators := sumVotingPower_pos h.power_pos h.nonempty
  obtain ⟨vals', hrun, hframe, hcache⟩ := @incrementTimes_frame K
    (vals.mapPriorities (scaleAndCentre (2 * sumVotingPower vals.validators) (vals.validators.map (·.proposerPriority))))
    (by simpa [Function.comp_def] using h.nodup) (by simpa using h.nonempty)
    (by simp [h.cache_eq_sum]; omega) times.toNat
  exact ⟨vals', hrun, by simpa [Function.comp_def] using hframe, by simpa using hcache⟩

end PriorityValidatorSet

end Ostracon.Types
