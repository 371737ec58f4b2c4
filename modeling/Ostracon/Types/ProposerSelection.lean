import Ostracon.Types.VoterElection
import Ostracon.Lib.WeightedPick
/-!
# `libs/rand/sampling.go` and `SelectProposer`: sampling by priority

`RandomSamplingWithPriority` draws `sampleSize` thresholds below the total
priority with `RandomThreshold`, sorts them, and walks the candidates once
with the cumulative priority.  Each threshold below the cumulative priority
through a candidate draws that candidate, so the thresholds split the line
`[0, totalPriority)` into the candidates' intervals.  `SelectProposer` takes
the one sample of the validators, with their powers as priorities.

The `k`-th sample is the owner of the `k`-th threshold: the candidate whose
interval holds it (`OwnsThreshold`), which is `WeightedPick.pick` at one past
the threshold (`ownsThreshold_iff_pick`).  When the priorities add up to the
total without wrapping, the walk never reaches its final panic
(`randomSamplingWithPriority_eq_some`); a candidate of priority zero owns no
threshold, and `SelectProposer` returns a validator with power.
-/

namespace Ostracon.Types

open WeightedPick GoInt

variable {C K : Type}

/-! ## The model -/

/-- The errors of `checkInvalidPriority`. -/
inductive PriorityError
  /-- "candidates is empty; totalPriority=%d, actualTotalPriority=%d, len(candidates)=%d" -/
  | emptyCandidates
  /-- "either total priority or actual priority is zero; ..." -/
  | zeroPriority
  /-- "total priority not equal to actual priority; ..." -/
  | priorityMismatch
  deriving DecidableEq, Repr

section Sampling

variable (priority : C → UInt64)

/-- `checkInvalidPriority`: the `uint64` sum of the priorities against the
total given. -/
def checkInvalidPriority (candidates : List C) (totalPriority : UInt64) : Option PriorityError :=
  let actualTotalPriority := candidates.foldl (fun actual c => actual + priority c) 0
  if candidates.length = 0 then some .emptyCandidates
  else if totalPriority = 0 ∨ actualTotalPriority = 0 then some .zeroPriority
  else if actualTotalPriority ≠ totalPriority then some .priorityMismatch
  else none

/-- The loop that fills `thresholds`, one `RandomThreshold` each, advancing
the seed. -/
def thresholdsLoop (totalPriority : UInt64) : Nat → UInt64 → List UInt64
  | 0, _ => []
  | n + 1, seed =>
    let drawn := randomThreshold seed totalPriority
    drawn.2 :: thresholdsLoop totalPriority n drawn.1

/-- `sort.Slice(thresholds, thresholds[i] < thresholds[j])`. -/
def sortThresholds (thresholds : List UInt64) : List UInt64 :=
  thresholds.insertionSort fun a b => decide (b < a) = false

/-- The inner loop for one candidate: every threshold left below `bound`, in
order, draws it.  The sampling returns once the last threshold is drawn
(`.inl`); otherwise the thresholds not drawn are left (`.inr`).  With no
threshold left to read, `thresholds[undrawn]` panics. -/
def drawCandidate (candidate : C) (bound : UInt64) :
    List UInt64 → List C → Option (List C ⊕ (List UInt64 × List C))
  | [], _ => none
  | threshold :: thresholds, samples =>
    if threshold < bound then
      let samples := samples ++ [candidate]
      if thresholds.isEmpty then some (.inl samples) else drawCandidate candidate bound thresholds samples
    else some (.inr (threshold :: thresholds, samples))

/-- The outer loop over the candidates, with `cumulativePriority` before
them; past the last candidate the sampling panics ("Cannot select
samples"). -/
def sampleLoop : List C → UInt64 → List UInt64 → List C → Option (List C)
  | [], _, _, _ => none
  | candidate :: rest, cumulativePriority, thresholds, samples =>
    match drawCandidate candidate (cumulativePriority + priority candidate) thresholds samples with
    | none => none
    | some (.inl samples) => some samples
    | some (.inr (thresholds, samples)) =>
      sampleLoop rest (cumulativePriority + priority candidate) thresholds samples

/-- `RandomSamplingWithPriority`: `none` where it panics, on an invalid
priority, on a negative `sampleSize` in `make`, or in the loops. -/
def randomSamplingWithPriority (seed : UInt64) (candidates : List C) (sampleSize : Int)
    (totalPriority : UInt64) : Option (List C) :=
  if (checkInvalidPriority priority candidates totalPriority).isSome then none
  else if sampleSize < 0 then none
  else
    let thresholds := sortThresholds (thresholdsLoop totalPriority sampleSize.toNat seed)
    sampleLoop priority candidates 0 thresholds []

end Sampling

/-- `ValidatorSet`: the validators and the cached total voting power, `0`
when not yet computed. -/
structure ValidatorSet (K : Type) where
  validators : List (Validator K)
  totalVotingPowerCache : Int

/-- The loop of `updateTotalVotingPower`: the clipped running sum, `none`
where Go panics because it passed `MaxTotalVotingPower`. -/
def updateTotalVotingPower : Int → List (Validator K) → Option Int
  | sum, [] => some sum
  | sum, val :: rest =>
    let sum := safeAddClip sum val.votingPower
    if sum > maxTotalVotingPower then none else updateTotalVotingPower sum rest

/-- `ValidatorSet.TotalVotingPower`: the cached total, recomputed while it
is `0`. -/
def ValidatorSet.totalVotingPower (vals : ValidatorSet K) : Option Int :=
  if vals.totalVotingPowerCache = 0 then updateTotalVotingPower 0 vals.validators
  else some vals.totalVotingPowerCache

/-- `SelectProposer`, with `seed` the value of
`hashToSeed(MakeRoundHash(proofHash, height, round))`: the one sample of the
validators by power.  An empty set panics. -/
def ValidatorSet.selectProposer (vals : ValidatorSet K) (seed : UInt64) : Option (Validator K) := do
  if vals.validators.isEmpty then none
  let totalVotingPower ← vals.totalVotingPower
  let samples ← randomSamplingWithPriority (fun val => UInt64.ofInt val.votingPower) seed
    vals.validators 1 (UInt64.ofInt totalVotingPower)
  samples.head?

/-! ## Which candidate owns a threshold -/

section Owner

variable (priority : C → UInt64)

/-- The priority of some candidates, in `ℕ`, where it does not wrap. -/
def sumPriority (candidates : List C) : Nat := (candidates.map fun c => (priority c).toNat).sum

@[simp] theorem sumPriority_nil : sumPriority priority ([] : List C) = 0 := rfl

@[simp] theorem sumPriority_cons (c : C) (cs : List C) :
    sumPriority priority (c :: cs) = (priority c).toNat + sumPriority priority cs := by
  simp [sumPriority]

@[simp] theorem sumPriority_append (cs cs' : List C) :
    sumPriority priority (cs ++ cs') = sumPriority priority cs + sumPriority priority cs' := by
  simp [sumPriority]

/-- The weight of a candidate for `WeightedPick.pick`. -/
def priorityWeight (c : C) : Int := (priority c).toNat

theorem priorityWeight_nonneg (c : C) : 0 ≤ priorityWeight priority c := Int.natCast_nonneg _

theorem cast_sumPriority (cs : List C) :
    (sumPriority priority cs : Int) = (cs.map (priorityWeight priority)).sum := by
  induction cs with
  | nil => rfl
  | cons c cs ih => simp [ih, priorityWeight]

/-- The candidate after `pre` has an interval of cumulative priority that
holds `t`. -/
def InInterval (pre : List C) (c : C) (t : Nat) : Prop :=
  sumPriority priority pre ≤ t ∧ t < sumPriority priority pre + (priority c).toNat

/-- `c` owns the threshold `t`: the candidates split at `c` with `t` in its
interval, and at no other place. -/
def OwnsThreshold (candidates : List C) (t : Nat) (c : C) : Prop :=
  ∃ pre post, candidates = pre ++ c :: post ∧ InInterval priority pre c t ∧
    ∀ pre' c' post', candidates = pre' ++ c' :: post' → InInterval priority pre' c' t → pre' = pre

theorem inInterval_unique {pre pre' post post' : List C} {c c' : C} {t : Nat}
    (hsplit : pre ++ c :: post = pre' ++ c' :: post')
    (h : InInterval priority pre c t) (h' : InInterval priority pre' c' t) : pre' = pre := by
  unfold InInterval at h h'
  rcases List.append_eq_append_iff.mp hsplit with ⟨mid, hpre', hrest⟩ | ⟨mid, hpre, hrest⟩
  · cases mid with
    | nil => simpa using hpre'
    | cons x mid =>
      -- `pre'` runs through `c`, so it starts past `t`
      obtain ⟨rfl, -⟩ := List.cons.inj hrest
      rw [hpre'] at h'
      simp only [sumPriority_append, sumPriority_cons] at h'
      omega
  · cases mid with
    | nil => simpa using hpre.symm
    | cons x mid =>
      obtain ⟨rfl, -⟩ := List.cons.inj hrest
      rw [hpre] at h
      simp only [sumPriority_append, sumPriority_cons] at h
      omega

theorem ownsThreshold_of_split {candidates pre post : List C} {c : C} {t : Nat}
    (hsplit : candidates = pre ++ c :: post) (h : InInterval priority pre c t) :
    OwnsThreshold priority candidates t c :=
  ⟨pre, post, hsplit, h, fun _ _ _ hsplit' h' => inInterval_unique priority (hsplit ▸ hsplit') h h'⟩

theorem ownsThreshold_iff_pick {candidates : List C} {t : Nat} {c : C} :
    OwnsThreshold priority candidates t c ↔ pick (priorityWeight priority) (t + 1) candidates = some c := by
  rw [pick_eq_some_iff (fun a _ => priorityWeight_nonneg priority a) (by omega)]
  constructor
  · rintro ⟨pre, post, hsplit, ⟨hle, hlt⟩, -⟩
    refine ⟨pre, post, hsplit, ?_, ?_⟩
    · rw [← cast_sumPriority]
      omega
    · rw [← cast_sumPriority]
      unfold priorityWeight
      omega
  · rintro ⟨pre, post, hsplit, hlt, hle⟩
    rw [← cast_sumPriority] at hlt hle
    unfold priorityWeight at hle
    exact ownsThreshold_of_split priority hsplit ⟨by omega, by omega⟩

theorem mem_of_ownsThreshold {candidates : List C} {t : Nat} {c : C}
    (h : OwnsThreshold priority candidates t c) : c ∈ candidates := by
  obtain ⟨pre, post, rfl, -⟩ := h
  simp

theorem priority_pos_of_ownsThreshold {candidates : List C} {t : Nat} {c : C}
    (h : OwnsThreshold priority candidates t c) : 0 < (priority c).toNat := by
  obtain ⟨pre, post, -, hinterval, -⟩ := h
  unfold InInterval at hinterval
  omega

end Owner

/-! ## The thresholds -/

theorem length_thresholdsLoop (totalPriority : UInt64) :
    ∀ (n : Nat) (seed : UInt64), (thresholdsLoop totalPriority n seed).length = n
  | 0, _ => rfl
  | n + 1, seed => by simp [thresholdsLoop, length_thresholdsLoop totalPriority n]

theorem lt_of_mem_thresholdsLoop {totalPriority : UInt64} (htotal : 0 < totalPriority.toNat) :
    ∀ {n : Nat} {seed t : UInt64}, t ∈ thresholdsLoop totalPriority n seed → t.toNat < totalPriority.toNat
  | 0, _, _, h => absurd h List.not_mem_nil
  | n + 1, seed, t, h => by
    rcases List.mem_cons.mp h with rfl | h
    · exact randomThreshold_lt seed totalPriority htotal
    · exact lt_of_mem_thresholdsLoop htotal h

theorem sortThresholds_perm (thresholds : List UInt64) : (sortThresholds thresholds).Perm thresholds :=
  List.perm_insertionSort _ thresholds

theorem sortThresholds_sorted (thresholds : List UInt64) :
    (sortThresholds thresholds).Pairwise fun a b => a.toNat ≤ b.toNat := by
  have hsorted := Knapsack.pairwise_insertionSort_of_mem (fun a b : UInt64 => decide (b < a) = false)
    (l := thresholds)
    (fun a _ b _ => by simp only [decide_eq_false_iff_not, UInt64.lt_iff_toNat_lt]; omega)
    (fun a _ b _ c _ => by simp only [decide_eq_false_iff_not, UInt64.lt_iff_toNat_lt]; omega)
  refine hsorted.imp fun {a b} hab => ?_
  simp only [decide_eq_false_iff_not, UInt64.lt_iff_toNat_lt] at hab
  omega

/-! ## The check of the priorities -/

section Check

variable (priority : C → UInt64)

theorem toNat_foldl_add (cs : List C) : ∀ (s : UInt64),
    (cs.foldl (fun actual c => actual + priority c) s).toNat = (s.toNat + sumPriority priority cs) % 2 ^ 64 := by
  induction cs with
  | nil => intro s; simp [Nat.mod_eq_of_lt (UInt64.toNat_lt s)]
  | cons c cs ih =>
    intro s
    rw [List.foldl_cons, ih, UInt64.toNat_add, Nat.mod_add_mod, sumPriority_cons, Nat.add_assoc]

theorem checkInvalidPriority_eq_none {candidates : List C} {totalPriority : UInt64}
    (hne : candidates ≠ []) (hsum : sumPriority priority candidates = totalPriority.toNat)
    (htotal : 0 < totalPriority.toNat) :
    checkInvalidPriority priority candidates totalPriority = none := by
  have hactual : candidates.foldl (fun actual c => actual + priority c) 0 = totalPriority := by
    rw [← UInt64.toNat_inj, toNat_foldl_add, hsum, UInt64.toNat_zero, Nat.zero_add,
      Nat.mod_eq_of_lt (UInt64.toNat_lt _)]
  have hzero : totalPriority ≠ 0 := by
    rintro rfl
    simp at htotal
  unfold checkInvalidPriority
  dsimp only
  rw [hactual, if_neg (by simpa using hne), if_neg (by simp [hzero]), if_neg (by simp)]

end Check

/-! ## The loops -/

section Loops

variable (priority : C → UInt64)

/-- One candidate's inner loop draws the thresholds before the first that
reaches `bound`; it returns the samples if it drew them all, and otherwise
leaves the rest. -/
theorem drawCandidate_spec (c : C) (bound : UInt64) :
    ∀ {thresholds : List UInt64} (samples : List C), thresholds ≠ [] →
      ∃ drawn rest, thresholds = drawn ++ rest ∧ (∀ t ∈ drawn, t < bound) ∧
        ((rest = [] ∧ drawCandidate c bound thresholds samples = some (.inl (samples ++ drawn.map fun _ => c))) ∨
          (∃ t rest', rest = t :: rest' ∧ bound ≤ t ∧
            drawCandidate c bound thresholds samples = some (.inr (rest, samples ++ drawn.map fun _ => c))))
  | [], _, h => absurd rfl h
  | t :: thresholds, samples, _ => by
    by_cases ht : t < bound
    · cases thresholds with
      | nil =>
        refine ⟨[t], [], rfl, by simpa using ht, .inl ⟨rfl, ?_⟩⟩
        simp [drawCandidate, ht]
      | cons t' thresholds =>
        -- `t` is drawn and the loop goes on with the next threshold
        obtain ⟨drawn, rest, hsplit, hdrawn, hcase⟩ :=
          drawCandidate_spec c bound (samples ++ [c]) (List.cons_ne_nil t' thresholds)
        have hstep : drawCandidate c bound (t :: t' :: thresholds) samples =
            drawCandidate c bound (t' :: thresholds) (samples ++ [c]) := by
          simp [drawCandidate, ht]
        refine ⟨t :: drawn, rest, by rw [hsplit]; rfl, ?_, ?_⟩
        · simpa [ht] using hdrawn
        · rw [hstep]
          simpa using hcase
    · refine ⟨[], t :: thresholds, rfl, by simp, .inr ⟨t, thresholds, rfl, UInt64.not_lt.mp ht, ?_⟩⟩
      simp [drawCandidate, ht]

/-- The outer loop, from `cumulativePriority` before the candidates `cs`:
thresholds sorted and in `[cumulativePriority, cumulativePriority + Σ cs)`
are all drawn, each by the pick of `cs` at one past its offset.  The loop
never runs past the last candidate. -/
theorem sampleLoop_spec (cs : List C) :
    ∀ (cumulativePriority : UInt64) (thresholds : List UInt64) (samples : List C),
      thresholds ≠ [] → thresholds.Pairwise (fun a b => a.toNat ≤ b.toNat) →
      cumulativePriority.toNat + sumPriority priority cs < 2 ^ 64 →
      (∀ t ∈ thresholds, cumulativePriority.toNat ≤ t.toNat ∧
        t.toNat < cumulativePriority.toNat + sumPriority priority cs) →
      ∃ drawn, sampleLoop priority cs cumulativePriority thresholds samples = some (samples ++ drawn) ∧
        List.Forall₂ (fun t c => pick (priorityWeight priority) ((t.toNat : Int) - cumulativePriority.toNat + 1) cs = some c)
          thresholds drawn := by
  induction cs with
  | nil =>
    -- no threshold fits in an empty interval
    intro cum thresholds samples hne _ _ hrange
    obtain ⟨t, ht⟩ := List.exists_mem_of_ne_nil thresholds hne
    have := hrange t ht
    simp only [sumPriority_nil] at this
    omega
  | cons x rest ih =>
    intro cum thresholds samples hne hsorted hfit hrange
    simp only [sumPriority_cons] at hfit hrange
    have hbound : (cum + priority x).toNat = cum.toNat + (priority x).toNat := by
      rw [UInt64.toNat_add, Nat.mod_eq_of_lt (by omega)]
    obtain ⟨drawn, left, rfl, hdrawn, hcase⟩ := drawCandidate_spec x (cum + priority x) samples hne
    -- the thresholds drawn lie in `x`'s interval
    have hdrawnRel : List.Forall₂
        (fun t c => pick (priorityWeight priority) ((t.toNat : Int) - cum.toNat + 1) (x :: rest) = some c)
        drawn (drawn.map fun _ => x) := by
      refine List.forall₂_map_right_iff.mpr (List.forall₂_same.mpr fun t ht => ?_)
      have hlt := UInt64.lt_iff_toNat_lt.mp (hdrawn t ht)
      have hge := (hrange t (List.mem_append_left _ ht)).1
      exact pick_cons_of_le (by unfold priorityWeight; omega)
    rcases hcase with ⟨rfl, hres⟩ | ⟨t, left', rfl, hle, hres⟩
    · refine ⟨drawn.map fun _ => x, ?_, by simpa using hdrawnRel⟩
      simp only [sampleLoop, hres]
    · -- the thresholds left go on to the rest of the candidates, past `x`'s interval
      have hleft : ∀ u ∈ t :: left', (cum + priority x).toNat ≤ u.toNat ∧
          u.toNat < (cum + priority x).toNat + sumPriority priority rest := by
        intro u hu
        have hlow : t.toNat ≤ u.toNat := by
          rcases List.mem_cons.mp hu with rfl | hu
          · exact Nat.le_refl _
          · exact List.rel_of_pairwise_cons (List.pairwise_append.mp hsorted).2.1 hu
        have hup := (hrange u (List.mem_append_right _ hu)).2
        rw [UInt64.le_iff_toNat_le] at hle
        omega
      obtain ⟨drawn', hloop, hrel⟩ := ih (cum + priority x) (t :: left') (samples ++ drawn.map fun _ => x)
        (List.cons_ne_nil t left') (List.pairwise_append.mp hsorted).2.1 (by omega) hleft
      refine ⟨drawn.map (fun _ => x) ++ drawn', ?_, List.rel_append hdrawnRel ?_⟩
      · simp only [sampleLoop, hres, hloop, List.append_assoc]
      · refine ((List.forall₂_and_left _ _).mpr ⟨fun u hu => (hleft u hu).1, hrel⟩).imp ?_
        rintro u c ⟨hu, hpick⟩
        rw [pick_cons_of_lt (by unfold priorityWeight; omega)]
        have hoffset : (u.toNat : Int) - cum.toNat + 1 - priorityWeight priority x =
            (u.toNat : Int) - (cum + priority x).toNat + 1 := by
          unfold priorityWeight
          omega
        rw [hoffset]
        exact hpick

/-- `RandomSamplingWithPriority` on candidates whose priorities add up to the
total without wrapping: it returns, and the sample drawn by each sorted
threshold is its owner. -/
theorem randomSamplingWithPriority_eq_some (seed : UInt64) {candidates : List C} (sampleSize : Int)
    {totalPriority : UInt64} (hne : candidates ≠ [])
    (hsum : sumPriority priority candidates = totalPriority.toNat) (htotal : 0 < totalPriority.toNat)
    (hsize : 1 ≤ sampleSize) :
    ∃ samples, randomSamplingWithPriority priority seed candidates sampleSize totalPriority = some samples ∧
      List.Forall₂ (fun t c => OwnsThreshold priority candidates t.toNat c)
        (sortThresholds (thresholdsLoop totalPriority sampleSize.toNat seed)) samples := by
  have hperm := sortThresholds_perm (thresholdsLoop totalPriority sampleSize.toNat seed)
  have hthresholds : sortThresholds (thresholdsLoop totalPriority sampleSize.toNat seed) ≠ [] := by
    intro h
    have hlen := hperm.length_eq
    rw [h, length_thresholdsLoop] at hlen
    simp only [List.length_nil] at hlen
    omega
  have hrange : ∀ t ∈ sortThresholds (thresholdsLoop totalPriority sampleSize.toNat seed),
      (0 : UInt64).toNat ≤ t.toNat ∧ t.toNat < (0 : UInt64).toNat + sumPriority priority candidates := by
    intro t ht
    have hlt := lt_of_mem_thresholdsLoop htotal (hperm.mem_iff.mp ht)
    simp only [UInt64.toNat_zero]
    omega
  obtain ⟨samples, hloop, hrel⟩ := sampleLoop_spec priority candidates 0 _ [] hthresholds
    (sortThresholds_sorted _) (by simpa [hsum] using UInt64.toNat_lt totalPriority) hrange
  refine ⟨samples, ?_, hrel.imp fun t c h => (ownsThreshold_iff_pick priority).mpr ?_⟩
  · unfold randomSamplingWithPriority
    rw [checkInvalidPriority_eq_none priority hne hsum htotal, if_neg (by simp), if_neg (by omega)]
    simpa using hloop
  · simpa using h

end Loops

/-! ## `SelectProposer` -/

/-- What `NewValidatorSet` and `UpdateWithChangeSet` keep of a validator set
and `SelectProposer` relies on: no power is negative, the total is positive
and at most `MaxTotalVotingPower`, and the cache is either not filled or the
total. -/
structure ValidatorSet.Valid (vals : ValidatorSet K) : Prop where
  nonneg : ∀ v ∈ vals.validators, 0 ≤ v.votingPower
  total_pos : 0 < (vals.validators.map (·.votingPower)).sum
  total_le : (vals.validators.map (·.votingPower)).sum ≤ maxTotalVotingPower
  cache : vals.totalVotingPowerCache = 0 ∨
    vals.totalVotingPowerCache = (vals.validators.map (·.votingPower)).sum

theorem updateTotalVotingPower_of_le {s : Int} (hs : 0 ≤ s) (vals : List (Validator K))
    (hpower : ∀ v ∈ vals, 0 ≤ v.votingPower)
    (hmax : s + (vals.map (·.votingPower)).sum ≤ maxTotalVotingPower) :
    updateTotalVotingPower s vals = some (s + (vals.map (·.votingPower)).sum) := by
  -- induction on the validators, with the sum so far
  induction vals generalizing s with
  | nil => simp [updateTotalVotingPower]
  | cons v rest ih =>
    have hv := hpower v List.mem_cons_self
    have hrest : 0 ≤ (rest.map (·.votingPower)).sum :=
      List.sum_nonneg fun x hx => by
        obtain ⟨u, hu, rfl⟩ := List.mem_map.mp hx
        exact hpower u (List.mem_cons_of_mem _ hu)
    simp only [List.map_cons, List.sum_cons] at hmax ⊢
    have hclip : safeAddClip s v.votingPower = s + v.votingPower :=
      safeAddClip_of_nonneg hs hv (by
        unfold maxTotalVotingPower at hmax
        unfold maxInt64 at hmax ⊢
        omega)
    simp only [updateTotalVotingPower, hclip]
    rw [if_neg (by omega), ih (by omega) (fun u hu => hpower u (List.mem_cons_of_mem _ hu)) (by omega)]
    congr 1
    omega

theorem ValidatorSet.totalVotingPower_of_valid {vals : ValidatorSet K} (hvalid : vals.Valid) :
    vals.totalVotingPower = some (vals.validators.map (·.votingPower)).sum := by
  unfold ValidatorSet.totalVotingPower
  rcases hvalid.cache with hcache | hcache
  · rw [if_pos hcache, updateTotalVotingPower_of_le le_rfl _ hvalid.nonneg (by simpa using hvalid.total_le),
      Int.zero_add]
  · have hpos := hvalid.total_pos
    rw [if_neg (by omega), hcache]

theorem toNat_ofInt_of_nonneg {x : Int} (h0 : 0 ≤ x) (h : x < 2 ^ 64) : (UInt64.ofInt x).toNat = x.toNat := by
  unfold UInt64.ofInt
  rw [UInt64.toNat_ofNat', Int.emod_eq_of_lt h0 h]
  omega

theorem sumPriority_votingPower {vals : List (Validator K)} (hpower : ∀ v ∈ vals, 0 ≤ v.votingPower)
    (hmax : (vals.map (·.votingPower)).sum < 2 ^ 64) :
    sumPriority (fun val : Validator K => UInt64.ofInt val.votingPower) vals =
      Int.toNat (vals.map (·.votingPower)).sum := by
  induction vals with
  | nil => rfl
  | cons v rest ih =>
    have hv := hpower v List.mem_cons_self
    have hrest : 0 ≤ (rest.map (·.votingPower)).sum :=
      List.sum_nonneg fun x hx => by
        obtain ⟨u, hu, rfl⟩ := List.mem_map.mp hx
        exact hpower u (List.mem_cons_of_mem _ hu)
    simp only [List.map_cons, List.sum_cons] at hmax ⊢
    rw [sumPriority_cons, toNat_ofInt_of_nonneg hv (by omega),
      ih (fun u hu => hpower u (List.mem_cons_of_mem _ hu)) (by omega)]
    omega

theorem ValidatorSet.selectProposer_spec {vals : ValidatorSet K} (hvalid : vals.Valid) (seed : UInt64) :
    ∃ v, vals.selectProposer seed = some v ∧ v ∈ vals.validators ∧ 0 < v.votingPower := by
  have hpos := hvalid.total_pos
  have hlt : (vals.validators.map (·.votingPower)).sum < 2 ^ 64 := by
    have hle := hvalid.total_le
    unfold maxTotalVotingPower maxInt64 at hle
    omega
  have hne : vals.validators ≠ [] := by
    rintro h
    simp [h] at hpos
  have hsum : sumPriority (fun val => UInt64.ofInt val.votingPower) vals.validators =
      (UInt64.ofInt (vals.validators.map (·.votingPower)).sum).toNat := by
    rw [sumPriority_votingPower hvalid.nonneg hlt, toNat_ofInt_of_nonneg (by omega) hlt]
  have htotal : 0 < (UInt64.ofInt (vals.validators.map (·.votingPower)).sum).toNat := by
    rw [toNat_ofInt_of_nonneg (by omega) hlt]
    omega
  obtain ⟨samples, hsample, hrel⟩ :=
    randomSamplingWithPriority_eq_some (fun val => UInt64.ofInt val.votingPower) seed 1 hne hsum htotal le_rfl
  -- one threshold is drawn, so there is one sample
  have hone : (sortThresholds (thresholdsLoop
      (UInt64.ofInt (vals.validators.map (·.votingPower)).sum) (Int.toNat 1) seed)).length = 1 := by
    rw [(sortThresholds_perm _).length_eq, length_thresholdsLoop]
    rfl
  obtain ⟨t, ht⟩ := List.length_eq_one_iff.mp hone
  rw [ht] at hrel
  obtain ⟨v, hown, rfl⟩ : ∃ v, OwnsThreshold (fun val => UInt64.ofInt val.votingPower) vals.validators t.toNat v ∧
      samples = [v] := by
    cases hrel with
    | cons hown hnil =>
      cases hnil
      exact ⟨_, hown, rfl⟩
  have hmem := mem_of_ownsThreshold _ hown
  refine ⟨v, ?_, hmem, ?_⟩
  · simp [ValidatorSet.selectProposer, hne, ValidatorSet.totalVotingPower_of_valid hvalid, hsample]
  · have hv := priority_pos_of_ownsThreshold _ hown
    have hle : v.votingPower ≤ (vals.validators.map (·.votingPower)).sum :=
      List.single_le_sum (fun x hx => by
        obtain ⟨u, hu, rfl⟩ := List.mem_map.mp hx
        exact hvalid.nonneg u hu) _ (List.mem_map_of_mem hmem)
    rw [toNat_ofInt_of_nonneg (hvalid.nonneg v hmem) (by omega)] at hv
    omega

theorem forall_mem_right_of_forall₂ {α β : Type} {R : α → β → Prop} {p : β → Prop}
    (hp : ∀ a b, R a b → p b) : ∀ {l : List α} {u : List β}, List.Forall₂ R l u → ∀ b ∈ u, p b
  | _, _, .nil => fun _ hb => absurd hb List.not_mem_nil
  | _, _, .cons hab h => fun b hb => by
    rcases List.mem_cons.mp hb with rfl | hb
    · exact hp _ _ hab
    · exact forall_mem_right_of_forall₂ hp h b hb

/-- Sampling by priority follows the cumulative priority: on candidates
whose priorities add up to the total without wrapping, every threshold, in
sorted order, draws the one candidate whose interval holds it, so that no
candidate of priority zero is drawn; and the proposer of a valid validator
set is one of its validators with power. -/
theorem sampling_follows_cumulative_priority :
    (∀ (priority : C → UInt64) (seed : UInt64) (candidates : List C) (sampleSize : Int)
        (totalPriority : UInt64),
      candidates ≠ [] → sumPriority priority candidates = totalPriority.toNat → 0 < totalPriority.toNat →
      1 ≤ sampleSize →
      ∃ samples, randomSamplingWithPriority priority seed candidates sampleSize totalPriority = some samples ∧
        samples.length = sampleSize.toNat ∧
        (sortThresholds (thresholdsLoop totalPriority sampleSize.toNat seed)).Pairwise
          (fun a b => a.toNat ≤ b.toNat) ∧
        List.Forall₂ (fun t c => OwnsThreshold priority candidates t.toNat c)
          (sortThresholds (thresholdsLoop totalPriority sampleSize.toNat seed)) samples ∧
        ∀ c ∈ samples, 0 < (priority c).toNat) ∧
    ∀ (vals : ValidatorSet K) (seed : UInt64), vals.Valid →
      ∃ v, vals.selectProposer seed = some v ∧ v ∈ vals.validators ∧ 0 < v.votingPower := by
  refine ⟨fun priority seed candidates sampleSize totalPriority hne hsum htotal hsize => ?_,
    fun vals seed hvalid => ValidatorSet.selectProposer_spec hvalid seed⟩
  obtain ⟨samples, hsample, hrel⟩ :=
    randomSamplingWithPriority_eq_some priority seed sampleSize hne hsum htotal hsize
  have hlen : samples.length = sampleSize.toNat := by
    rw [← hrel.length_eq, (sortThresholds_perm _).length_eq, length_thresholdsLoop]
  refine ⟨samples, hsample, hlen, sortThresholds_sorted _, hrel, fun c hc => ?_⟩
  exact forall_mem_right_of_forall₂ (fun _ _ hown => priority_pos_of_ownsThreshold priority hown) hrel c hc

/-- Two validators, of powers 2 and 3, with the total not cached yet. -/
def twoValidators : ValidatorSet Nat :=
  ⟨[⟨[1], .leaf .ed25519 1, 2, 2⟩, ⟨[2], .leaf .ed25519 2, 3, 3⟩], 0⟩

theorem sampling_follows_cumulative_priority_twoValidators :
    (∃ samples, randomSamplingWithPriority (fun val : Validator Nat => UInt64.ofInt val.votingPower) 7
        twoValidators.validators 2 5 = some samples ∧
      ∀ c ∈ samples, 0 < (UInt64.ofInt c.votingPower).toNat) ∧
    ∃ v, twoValidators.selectProposer 7 = some v ∧ v ∈ twoValidators.validators ∧ 0 < v.votingPower := by
  obtain ⟨hsampling, hproposer⟩ := @sampling_follows_cumulative_priority (Validator Nat) Nat
  refine ⟨?_, hproposer twoValidators 7 ⟨by decide, by decide, by decide, by decide⟩⟩
  obtain ⟨samples, hsample, -, -, -, hpos⟩ :=
    hsampling (fun val => UInt64.ofInt val.votingPower) 7 twoValidators.validators 2 5
      (by simp [twoValidators]) (by decide) (by decide) (by decide)
  exact ⟨samples, hsample, hpos⟩

end Ostracon.Types
