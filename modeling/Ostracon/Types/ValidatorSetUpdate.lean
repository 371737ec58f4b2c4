import Ostracon.Types.ProposerSelection
import Ostracon.Lib.KeyedList
import Ostracon.Lib.IntWindow
/-!
# `types/validator_set.go`: `UpdateWithChangeSet`

`updateWithChangeSet` first checks a change set against the validator set and
then applies it.  The checks: `processChanges` sorts the changes by address,
refuses a repeated address and a power that is negative or above
`MaxTotalVotingPower`, and splits them into updates (power) and removals
(power `0`); the result must not be empty; `verifyRemovals` finds every
validator to remove and adds up its power; `verifyUpdates` adds the changes of
power in ascending order and refuses a partial total above
`MaxTotalVotingPower`.  Then `computeNewPriorities` places a new validator at
`-1.125` times the total before the removals, `applyUpdates` merges the
updates into the validators sorted by address, `applyRemovals` drops the
removed ones, the total is recomputed, the priorities are scaled into a window
of twice the total and centred on their average, and the validators are
sorted by power.

The validators here carry the `ProposerPriority` that the rest of the model
leaves out.  Powers and priorities are `int64`: the arithmetic wraps and clips
as Go's does (`GoInt`, `safeSubClip`), the average is a `big.Int`.  A Go panic
is `none`; `TotalVotingPower` may fill the cache, so the checks return the set
they leave.  Each function has its spec lemma below, under the bounds that
keep its arithmetic exact.
-/

namespace Ostracon.Types

open Ostracon.Crypto.Merkle GoInt KeyedList IntWindow

variable {K : Type}

/-! ## The model -/

/-- `safeSub`: the difference, and whether it overflows. -/
def safeSub (a b : Int) : Int × Bool :=
  if b > 0 ∧ a < minInt64 + b then (-1, true)
  else if b < 0 ∧ a > maxInt64 + b then (-1, true)
  else (sub a b, false)

/-- `safeSubClip`: the difference, clipped to the `int64` range. -/
def safeSubClip (a b : Int) : Int :=
  match safeSub a b with
  | (_, true) => if b > 0 then minInt64 else maxInt64
  | (c, false) => c

/-- `PriorityWindowSizeFactor`. -/
def priorityWindowSizeFactor : Int := 2

/-- `Validator` with its `ProposerPriority`. -/
structure PriorityValidator (K : Type) extends Validator K where
  proposerPriority : Int
  deriving DecidableEq, Repr

/-- `ValidatorSet` with the priorities of its validators: the validators and
the cached total voting power, `0` when not yet computed. -/
structure PriorityValidatorSet (K : Type) where
  validators : List (PriorityValidator K)
  totalVotingPowerCache : Int
  deriving DecidableEq, Repr

namespace PriorityValidatorSet

/-- `&ValidatorSet{}`, the set `NewValidatorSet` starts from. -/
def empty : PriorityValidatorSet K := ⟨[], 0⟩

/-- The set without the priorities, as `SelectProposer` reads it. -/
def toValidatorSet (vals : PriorityValidatorSet K) : ValidatorSet K :=
  ⟨vals.validators.map (·.toValidator), vals.totalVotingPowerCache⟩

/-- `GetByAddress`, without the index: the first validator with the address. -/
def getByAddress (vals : PriorityValidatorSet K) (address : Bytes) : Option (PriorityValidator K) :=
  lookup (·.address) address vals.validators

/-- `HasAddress`. -/
def hasAddress (vals : PriorityValidatorSet K) (address : Bytes) : Bool :=
  vals.validators.any fun val => val.address = address

/-- `updateTotalVotingPower`: the set with the recomputed total cached; `none`
where the loop panics. -/
def updateTotalVotingPower (vals : PriorityValidatorSet K) : Option (PriorityValidatorSet K) :=
  (Ostracon.Types.updateTotalVotingPower 0 (vals.validators.map (·.toValidator))).map
    fun sum => { vals with totalVotingPowerCache := sum }

/-- `TotalVotingPower`: the total, and the set with the total cached where the
cache was `0`. -/
def totalVotingPower (vals : PriorityValidatorSet K) : Option (Int × PriorityValidatorSet K) :=
  if vals.totalVotingPowerCache = 0 then
    vals.updateTotalVotingPower.map fun vals => (vals.totalVotingPowerCache, vals)
  else some (vals.totalVotingPowerCache, vals)

/-- The power of the validator with the address, `0` where there is none. -/
def powerOf (vals : PriorityValidatorSet K) (address : Bytes) : Int :=
  ((vals.getByAddress address).map (·.votingPower)).getD 0

/-- Every priority replaced by its image under `f`. -/
def mapPriorities (f : Int → Int) (vals : PriorityValidatorSet K) : PriorityValidatorSet K :=
  { vals with validators := vals.validators.map fun val => { val with proposerPriority := f val.proposerPriority } }

end PriorityValidatorSet

open PriorityValidatorSet

/-- The errors of `updateWithChangeSet`. -/
inductive ChangeSetError (K : Type)
  /-- "duplicate entry %v in %v", with the sorted changes -/
  | duplicateEntry (valUpdate : PriorityValidator K) (changes : List (PriorityValidator K))
  /-- "voting power can't be negative: %d" -/
  | negativeVotingPower (votingPower : Int)
  /-- "to prevent clipping/overflow, voting power can't be higher than %d, got %d" -/
  | votingPowerTooHigh (votingPower : Int)
  /-- "cannot process validators with voting power 0: %v" -/
  | zeroVotingPower (deletes : List (PriorityValidator K))
  /-- "applying the validator changes would result in empty set" -/
  | emptySet
  /-- "failed to find validator %X to remove" -/
  | removalNotFound (address : Bytes)
  /-- `ErrTotalVotingPowerOverflow` -/
  | totalVotingPowerOverflow
  deriving DecidableEq, Repr

/-- `sort.Sort(ValidatorsByAddress(vals))`, as an insertion sort. -/
def sortByAddress (vals : List (PriorityValidator K)) : List (PriorityValidator K) :=
  sortByKey (·.address) vals

/-- `sort.Sort(ValidatorsByVotingPower(vals))`, as an insertion sort. -/
def sortByVotingPower (vals : List (PriorityValidator K)) : List (PriorityValidator K) :=
  vals.insertionSort fun a b => validatorsByVotingPowerLess b.toValidator a.toValidator = false

/-- The scan of `processChanges` over the sorted changes, with the address
before: the updates and the removals in the order met.  `prevAddr` starts as
`nil`, which `bytes.Equal` takes for the empty address. -/
def processChangesLoop (changes : List (PriorityValidator K)) :
    Bytes → List (PriorityValidator K) → List (PriorityValidator K) → List (PriorityValidator K) →
      Except (ChangeSetError K) (List (PriorityValidator K) × List (PriorityValidator K))
  | _, [], updates, removals => .ok (updates, removals)
  | prevAddr, valUpdate :: rest, updates, removals =>
    if valUpdate.address = prevAddr then .error (.duplicateEntry valUpdate changes)
    else if valUpdate.votingPower < 0 then .error (.negativeVotingPower valUpdate.votingPower)
    else if valUpdate.votingPower > maxTotalVotingPower then
      .error (.votingPowerTooHigh valUpdate.votingPower)
    else if valUpdate.votingPower = 0 then
      processChangesLoop changes valUpdate.address rest updates (removals ++ [valUpdate])
    else processChangesLoop changes valUpdate.address rest (updates ++ [valUpdate]) removals

/-- `processChanges`: the updates and the removals, each sorted by address. -/
def processChanges (origChanges : List (PriorityValidator K)) :
    Except (ChangeSetError K) (List (PriorityValidator K) × List (PriorityValidator K)) :=
  let changes := sortByAddress origChanges
  processChangesLoop changes [] changes [] []

namespace PriorityValidatorSet

/-- The `delta` of `verifyUpdates`: the change of power an update makes. -/
def delta (vals : PriorityValidatorSet K) (update : PriorityValidator K) : Int :=
  match vals.getByAddress update.address with
  | some val => sub update.votingPower val.votingPower
  | none => update.votingPower

/-- The loop of `verifyUpdates` over the updates sorted by `delta`. -/
def verifyUpdatesLoop (vals : PriorityValidatorSet K) :
    Int → List (PriorityValidator K) → Except (ChangeSetError K) Int
  | tvpAfterRemovals, [] => .ok tvpAfterRemovals
  | tvpAfterRemovals, upd :: rest =>
    let tvpAfterRemovals := add tvpAfterRemovals (vals.delta upd)
    if tvpAfterRemovals > maxTotalVotingPower then .error .totalVotingPowerOverflow
    else vals.verifyUpdatesLoop tvpAfterRemovals rest

/-- The loop of `verifyRemovals`, with the power found so far. -/
def verifyRemovalsLoop (vals : PriorityValidatorSet K) :
    List (PriorityValidator K) → Int → Except (ChangeSetError K) Int
  | [], removedVotingPower => .ok removedVotingPower
  | valUpdate :: rest, removedVotingPower =>
    match vals.getByAddress valUpdate.address with
    | none => .error (.removalNotFound valUpdate.address)
    | some val => vals.verifyRemovalsLoop rest (add removedVotingPower val.votingPower)

/-- `applyUpdates`: the validators sorted by address, merged with the
updates. -/
def applyUpdates (vals : PriorityValidatorSet K) (updates : List (PriorityValidator K)) :
    PriorityValidatorSet K :=
  { vals with validators := merge (·.address) (sortByAddress vals.validators) updates }

/-- `applyRemovals`; `none` where the walk runs past the validators, on which
Go panics (a removal it never meets would also overrun `merged`). -/
def applyRemovals (vals : PriorityValidatorSet K) (deletes : List (PriorityValidator K)) :
    Option (PriorityValidatorSet K) :=
  (remove (·.address) vals.validators deletes).map fun validators => { vals with validators }

end PriorityValidatorSet

/-- `sort.Slice(updatesCopy, delta(i) < delta(j))`, as an insertion sort. -/
def sortByDelta (vals : PriorityValidatorSet K) (updates : List (PriorityValidator K)) :
    List (PriorityValidator K) :=
  updates.insertionSort fun a b => ¬vals.delta b < vals.delta a

/-- `verifyUpdates`: the total after the updates and before the removals, and
the set with the total `TotalVotingPower` may have cached; `none` where that
panics. -/
def verifyUpdates (updates : List (PriorityValidator K)) (vals : PriorityValidatorSet K)
    (removedPower : Int) : Option (Except (ChangeSetError K) Int × PriorityValidatorSet K) :=
  vals.totalVotingPower.map fun (totalVotingPower, vals') =>
    ((vals.verifyUpdatesLoop (sub totalVotingPower removedPower) (sortByDelta vals updates)).map
      fun tvpAfterRemovals => add tvpAfterRemovals removedPower, vals')

/-- `numNewValidators`. -/
def numNewValidators (updates : List (PriorityValidator K)) (vals : PriorityValidatorSet K) : Nat :=
  updates.countP fun valUpdate => !vals.hasAddress valUpdate.address

/-- `computeNewPriorities`: a new validator starts at
`-(total + total >> 3)`, a changed one keeps its priority. -/
def computeNewPriorities (updates : List (PriorityValidator K)) (vals : PriorityValidatorSet K)
    (updatedTotalVotingPower : Int) : List (PriorityValidator K) :=
  updates.map fun valUpdate =>
    match vals.getByAddress valUpdate.address with
    | none => { valUpdate with
        proposerPriority := neg (add updatedTotalVotingPower (updatedTotalVotingPower >>> (3 : Nat))) }
    | some val => { valUpdate with proposerPriority := val.proposerPriority }

/-- `verifyRemovals`: the power the removals take away; `none` where there are
more removals than validators, on which Go panics. -/
def verifyRemovals (deletes : List (PriorityValidator K)) (vals : PriorityValidatorSet K) :
    Option (Except (ChangeSetError K) Int) :=
  match vals.verifyRemovalsLoop deletes 0 with
  | .error err => some (.error err)
  | .ok removedVotingPower =>
    if deletes.length > vals.validators.length then none else some (.ok removedVotingPower)

/-- The loop of `computeMaxMinPriorityDiff`: the greatest and the least
priority. -/
def maxMinPriority : Int × Int → List (PriorityValidator K) → Int × Int
  | acc, [] => acc
  | (max, min), v :: rest =>
    let min := if v.proposerPriority < min then v.proposerPriority else min
    let max := if v.proposerPriority > max then v.proposerPriority else max
    maxMinPriority (max, min) rest

/-- `computeMaxMinPriorityDiff`; `none` on an empty set, where Go panics. -/
def computeMaxMinPriorityDiff (vals : PriorityValidatorSet K) : Option Int :=
  if vals.validators.isEmpty then none
  else
    let (max, min) := maxMinPriority (minInt64, maxInt64) vals.validators
    let diff := sub max min
    some (if diff < 0 then mul (-1) diff else diff)

/-- `computeAvgProposerPriority`: the `big.Int` sum of the priorities, divided
(Euclidean) by the size; `none` where Go panics, on a division by zero or an
average beyond `int64`. -/
def computeAvgProposerPriority (vals : PriorityValidatorSet K) : Option Int :=
  let n : Int := vals.validators.length
  let sum := (vals.validators.map (·.proposerPriority)).sum
  if n = 0 then none
  else
    let avg := sum / n
    if InInt64 avg then some avg else none

namespace PriorityValidatorSet

/-- `RescalePriorities`: where the priorities spread more than `diffMax`, each
is divided by `⌈diff / diffMax⌉`; `none` where Go panics, on an empty set or a
division by zero. -/
def rescalePriorities (vals : PriorityValidatorSet K) (diffMax : Int) : Option (PriorityValidatorSet K) :=
  if vals.validators.isEmpty then none
  else if diffMax ≤ 0 then some vals
  else
    match computeMaxMinPriorityDiff vals with
    | none => none
    | some diff =>
      let ratio := div (sub (add diff diffMax) 1) diffMax
      if diff > diffMax then
        if ratio = 0 then none else some (vals.mapPriorities fun p => div p ratio)
      else some vals

/-- `shiftByAvgProposerPriority`; `none` on an empty set, where Go panics. -/
def shiftByAvgProposerPriority (vals : PriorityValidatorSet K) : Option (PriorityValidatorSet K) :=
  if vals.validators.isEmpty then none
  else (computeAvgProposerPriority vals).map fun avg => vals.mapPriorities fun p => safeSubClip p avg

/-- The steps of `updateWithChangeSet` after its checks: apply the updates and
the removals, recompute the total, scale and centre the priorities, and sort
by power. -/
def applyChanges (vals : PriorityValidatorSet K) (updates deletes : List (PriorityValidator K)) :
    Option (PriorityValidatorSet K) := do
  let vals ← (vals.applyUpdates updates).applyRemovals deletes
  let vals ← vals.updateTotalVotingPower
  let (totalVotingPower, vals) ← vals.totalVotingPower
  let vals ← vals.rescalePriorities (mul priorityWindowSizeFactor totalVotingPower)
  let vals ← vals.shiftByAvgProposerPriority
  pure { vals with validators := sortByVotingPower vals.validators }

/-- `updateWithChangeSet`: the error, if any, and the set afterwards; `none`
where Go panics. -/
def updateWithChangeSet (vals : PriorityValidatorSet K) (changes : List (PriorityValidator K))
    (allowDeletes : Bool) : Option (Except (ChangeSetError K) Unit × PriorityValidatorSet K) :=
  if changes.length = 0 then some (.ok (), vals)
  else
    match processChanges changes with
    | .error err => some (.error err, vals)
    | .ok (updates, deletes) =>
      if !allowDeletes ∧ deletes.length ≠ 0 then some (.error (.zeroVotingPower deletes), vals)
      else if numNewValidators updates vals = 0 ∧ vals.validators.length = deletes.length then
        some (.error .emptySet, vals)
      else
        match verifyRemovals deletes vals with
        | none => none
        | some (.error err) => some (.error err, vals)
        | some (.ok removedVotingPower) =>
          match verifyUpdates updates vals removedVotingPower with
          | none => none
          | some (.error err, vals) => some (.error err, vals)
          | some (.ok tvpAfterUpdatesBeforeRemovals, vals) =>
            (vals.applyChanges (computeNewPriorities updates vals tvpAfterUpdatesBeforeRemovals)
              deletes).map fun vals => (.ok (), vals)

/-- `UpdateWithChangeSet`: removals allowed. -/
def UpdateWithChangeSet (vals : PriorityValidatorSet K) (changes : List (PriorityValidator K)) :
    Option (Except (ChangeSetError K) Unit × PriorityValidatorSet K) :=
  vals.updateWithChangeSet changes true

end PriorityValidatorSet

/-- `NewValidatorSet`: the empty set updated with `valz`, no removals allowed;
`none` where Go panics, on an error. -/
def newValidatorSet (valz : List (PriorityValidator K)) : Option (PriorityValidatorSet K) :=
  match empty.updateWithChangeSet valz false with
  | some (.ok (), vals) => some vals
  | _ => none

/-! ## Arithmetic without clipping -/

theorem safeSubClip_of_inInt64 {a b : Int} (h : InInt64 (a - b)) : safeSubClip a b = a - b := by
  unfold InInt64 minInt64 maxInt64 at h
  unfold safeSubClip safeSub
  rw [if_neg (by unfold minInt64; omega), if_neg (by unfold maxInt64; omega), sub_of_inInt64]
  unfold InInt64 minInt64 maxInt64
  omega

theorem safeAddClip_of_inInt64 {a b : Int} (h : InInt64 (a + b)) : safeAddClip a b = a + b := by
  unfold InInt64 minInt64 maxInt64 at h
  unfold safeAddClip safeAdd
  rw [if_neg (by unfold maxInt64; omega), if_neg (by unfold minInt64; omega), add_of_inInt64]
  unfold InInt64 minInt64 maxInt64
  omega

theorem maxTotalVotingPower_eq : maxTotalVotingPower = 1152921504606846975 := by
  unfold maxTotalVotingPower maxInt64
  rfl

/-! ## Lookups by address -/

namespace PriorityValidatorSet

variable {vals : PriorityValidatorSet K} {address : Bytes}

theorem getByAddress_eq_none_iff : vals.getByAddress address = none ↔ address ∉ vals.validators.map (·.address) :=
  lookup_eq_none_iff

theorem hasAddress_eq : vals.hasAddress address = decide (address ∈ vals.validators.map (·.address)) := by
  simp [hasAddress, List.any_eq]

end PriorityValidatorSet

/-! ## `processChanges` -/

section ProcessChanges

theorem compare_nil_ne_gt (x : Bytes) : compare ([] : Bytes) x ≠ .gt := by
  cases x with
  | nil => simp
  | cons a x => simp [compare, List.compareLex]

theorem compare_nil_eq_lt_iff (x : Bytes) : compare ([] : Bytes) x = .lt ↔ x ≠ [] := by
  cases x with
  | nil => simp
  | cons a x => simp [compare, List.compareLex]

/-- The scan over changes sorted by address, after `prevAddr`, succeeds exactly
when the addresses after `prevAddr` ascend strictly and every power is in
range; it then splits the changes by power. -/
theorem processChangesLoop_eq_ok_iff {changes : List (PriorityValidator K)} :
    ∀ {prevAddr : Bytes} {l us rs us' rs' : List (PriorityValidator K)},
      (prevAddr :: l.map (·.address)).Pairwise (fun a b => compare b a ≠ .lt) →
      (processChangesLoop changes prevAddr l us rs = .ok (us', rs') ↔
        (prevAddr :: l.map (·.address)).Pairwise (fun a b => compare a b = .lt) ∧
        (∀ v ∈ l, 0 ≤ v.votingPower ∧ v.votingPower ≤ maxTotalVotingPower) ∧
        us' = us ++ l.filter (fun v => v.votingPower ≠ 0) ∧ rs' = rs ++ l.filter (fun v => v.votingPower = 0))
  | prevAddr, [], us, rs, us', rs', _ => by
    simp only [processChangesLoop, Except.ok.injEq, Prod.mk.injEq, List.map_nil, List.pairwise_singleton,
      List.not_mem_nil, false_implies, implies_true, List.filter_nil, List.append_nil, true_and]
    exact ⟨fun ⟨h, h'⟩ => ⟨h.symm, h'.symm⟩, fun ⟨h, h'⟩ => ⟨h.symm, h'.symm⟩⟩
  | prevAddr, v :: l, us, rs, us', rs', hsorted => by
    rw [List.map_cons] at hsorted ⊢
    have hrest : (v.address :: l.map (·.address)).Pairwise (fun a b => compare b a ≠ .lt) :=
      (List.pairwise_cons.mp hsorted).2
    -- after `prevAddr`, the scan goes on from `v`, which is above it when it differs
    have hstep : (prevAddr :: v.address :: l.map (·.address)).Pairwise (fun a b => compare a b = .lt) ↔
        prevAddr ≠ v.address ∧ (v.address :: l.map (·.address)).Pairwise (fun a b => compare a b = .lt) := by
      constructor
      · intro h
        obtain ⟨hhead, htail⟩ := List.pairwise_cons.mp h
        exact ⟨ne_of_compare_eq_lt (hhead v.address List.mem_cons_self), htail⟩
      · rintro ⟨hne, htail⟩
        have hle : ∀ b ∈ v.address :: l.map (·.address), compare prevAddr b ≠ .gt := fun b hb h =>
          (List.pairwise_cons.mp hsorted).1 b hb (Std.OrientedCmp.gt_iff_lt.mp h)
        have hlt : compare prevAddr v.address = .lt := by
          rcases h : compare prevAddr v.address with _ | _ | _
          · rfl
          · exact absurd (Std.LawfulEqCmp.compare_eq_iff_eq.mp h) hne
          · exact absurd h (hle v.address List.mem_cons_self)
        refine List.pairwise_cons.mpr ⟨fun b hb => ?_, htail⟩
        rcases List.mem_cons.mp hb with rfl | hb
        · exact hlt
        · exact Std.TransCmp.lt_of_lt_of_le hlt fun h =>
            (List.pairwise_cons.mp hrest).1 b hb (Std.OrientedCmp.gt_iff_lt.mp h)
    rw [hstep]
    unfold processChangesLoop
    by_cases hdup : v.address = prevAddr
    · rw [if_pos hdup]
      simp [hdup]
    rw [if_neg hdup]
    by_cases hneg : v.votingPower < 0
    · rw [if_pos hneg]
      simp only [reduceCtorEq, false_iff]
      intro h
      have := (h.2.1 v List.mem_cons_self).1
      omega
    rw [if_neg hneg]
    by_cases hhigh : v.votingPower > maxTotalVotingPower
    · rw [if_pos hhigh]
      simp only [reduceCtorEq, false_iff]
      intro h
      have := (h.2.1 v List.mem_cons_self).2
      omega
    rw [if_neg hhigh]
    have hpow : (∀ w ∈ v :: l, 0 ≤ w.votingPower ∧ w.votingPower ≤ maxTotalVotingPower) ↔
        ∀ w ∈ l, 0 ≤ w.votingPower ∧ w.votingPower ≤ maxTotalVotingPower := by
      simp only [List.mem_cons, forall_eq_or_imp]
      exact ⟨fun h => h.2, fun h => ⟨⟨by omega, by omega⟩, h⟩⟩
    rw [hpow]
    split_ifs with hzero
    · -- a removal
      rw [processChangesLoop_eq_ok_iff hrest, List.filter_cons_of_neg (by simpa using hzero),
        List.filter_cons_of_pos (by simpa using hzero), List.append_assoc, List.singleton_append]
      exact ⟨fun h => ⟨⟨Ne.symm hdup, h.1⟩, h.2⟩, fun h => ⟨h.1.2, h.2⟩⟩
    · -- an update
      rw [processChangesLoop_eq_ok_iff hrest, List.filter_cons_of_pos (by simpa using hzero),
        List.filter_cons_of_neg (by simpa using hzero), List.append_assoc, List.singleton_append]
      exact ⟨fun h => ⟨⟨Ne.symm hdup, h.1⟩, h.2⟩, fun h => ⟨h.1.2, h.2⟩⟩

/-- `processChanges` succeeds exactly on distinct, non-empty addresses with
powers in range, and splits the changes sorted by address into the changes of
power and the removals. -/
theorem processChanges_eq_ok_iff {changes updates deletes : List (PriorityValidator K)} :
    processChanges changes = .ok (updates, deletes) ↔
      (changes.map (·.address)).Nodup ∧ (∀ c ∈ changes, c.address ≠ []) ∧
      (∀ c ∈ changes, 0 ≤ c.votingPower ∧ c.votingPower ≤ maxTotalVotingPower) ∧
      updates = (sortByAddress changes).filter (fun v => v.votingPower ≠ 0) ∧
      deletes = (sortByAddress changes).filter (fun v => v.votingPower = 0) := by
  have hperm : (sortByAddress changes).Perm changes := sortByKey_perm changes
  have hsorted : (([] : Bytes) :: (sortByAddress changes).map (·.address)).Pairwise
      (fun a b => compare b a ≠ .lt) := by
    refine List.pairwise_cons.mpr ⟨fun b _ h => compare_nil_ne_gt b (Std.OrientedCmp.gt_iff_lt.mpr h), ?_⟩
    exact List.pairwise_map.mpr (pairwise_sortByKey changes)
  unfold processChanges
  rw [processChangesLoop_eq_ok_iff hsorted, List.pairwise_cons, List.nil_append, List.nil_append]
  have hmem : ∀ {p : PriorityValidator K → Prop}, (∀ v ∈ sortByAddress changes, p v) ↔ ∀ c ∈ changes, p c :=
    fun {_} => ⟨fun h c hc => h c (hperm.mem_iff.mpr hc), fun h c hc => h c (hperm.mem_iff.mp hc)⟩
  have hnodup : (sortByAddress changes).Pairwise (fun a b => compare a.address b.address = .lt) ↔
      (changes.map (·.address)).Nodup := by
    constructor
    · intro h
      exact (hperm.map _).nodup_iff.mp (Ascending.nodup_keys h)
    · intro h
      exact ascending_sortByKey h
  simp only [List.mem_map, forall_exists_index, and_imp, forall_apply_eq_imp_iff₂, compare_nil_eq_lt_iff,
    List.pairwise_map, hnodup, hmem]
  tauto

end ProcessChanges

/-! ## The sums of power -/

/-- The total power of some validators. -/
def sumVotingPower (l : List (PriorityValidator K)) : Int := (l.map (·.votingPower)).sum

@[simp] theorem sumVotingPower_nil : sumVotingPower ([] : List (PriorityValidator K)) = 0 := rfl

@[simp] theorem sumVotingPower_cons (v : PriorityValidator K) (l : List (PriorityValidator K)) :
    sumVotingPower (v :: l) = v.votingPower + sumVotingPower l := by
  simp [sumVotingPower]

@[simp] theorem sumVotingPower_append (l l' : List (PriorityValidator K)) :
    sumVotingPower (l ++ l') = sumVotingPower l + sumVotingPower l' := by
  simp [sumVotingPower]

theorem sumVotingPower_eq_of_perm {l l' : List (PriorityValidator K)} (hp : l.Perm l') :
    sumVotingPower l = sumVotingPower l' :=
  (hp.map _).sum_eq

theorem sumVotingPower_nonneg {l : List (PriorityValidator K)} (h : ∀ v ∈ l, 0 ≤ v.votingPower) :
    0 ≤ sumVotingPower l :=
  List.sum_nonneg fun x hx => by
    obtain ⟨v, hv, rfl⟩ := List.mem_map.mp hx
    exact h v hv

theorem sumVotingPower_le_of_sublist {l l' : List (PriorityValidator K)} (hs : l.Sublist l')
    (h : ∀ v ∈ l', 0 ≤ v.votingPower) : sumVotingPower l ≤ sumVotingPower l' :=
  Knapsack.sum_map_le_of_subperm _ hs.subperm h

/-! ## `verifyRemovals` -/

namespace PriorityValidatorSet

variable {vals : PriorityValidatorSet K}

theorem powerOf_nonneg (hnonneg : ∀ v ∈ vals.validators, 0 ≤ v.votingPower) (address : Bytes) :
    0 ≤ vals.powerOf address := by
  unfold powerOf
  cases h : vals.getByAddress address with
  | none => exact Int.le_refl 0
  | some v => exact hnonneg v (mem_of_lookup_eq_some h)

theorem powerOf_le (hle : ∀ v ∈ vals.validators, v.votingPower ≤ maxTotalVotingPower) (address : Bytes) :
    vals.powerOf address ≤ maxTotalVotingPower := by
  unfold powerOf
  cases h : vals.getByAddress address with
  | none => simp [maxTotalVotingPower_eq]
  | some v => exact hle v (mem_of_lookup_eq_some h)

theorem sum_powerOf {ds : List (PriorityValidator K)} (hds : (ds.map (·.address)).Nodup)
    (hvals : (vals.validators.map (·.address)).Nodup) :
    (ds.map fun d => vals.powerOf d.address).sum =
      sumVotingPower (vals.validators.filter fun v => v.address ∈ ds.map (·.address)) := by
  have h := sum_getD_lookup (·.votingPower) hds hvals
  rw [List.map_map] at h
  exact h

theorem verifyRemovalsLoop_eq_ok (hnonneg : ∀ v ∈ vals.validators, 0 ≤ v.votingPower) :
    ∀ {ds : List (PriorityValidator K)} {acc : Int}, (∀ d ∈ ds, d.address ∈ vals.validators.map (·.address)) →
      0 ≤ acc → acc + (ds.map fun d => vals.powerOf d.address).sum ≤ maxInt64 →
      vals.verifyRemovalsLoop ds acc = .ok (acc + (ds.map fun d => vals.powerOf d.address).sum)
  | [], acc, _, _, _ => by simp [verifyRemovalsLoop]
  | d :: ds, acc, hfound, hacc, hsum => by
    obtain ⟨val, hval⟩ : ∃ val, vals.getByAddress d.address = some val :=
      Option.ne_none_iff_exists'.mp fun h => getByAddress_eq_none_iff.mp h (hfound d List.mem_cons_self)
    have hpower : vals.powerOf d.address = val.votingPower := by
      rw [powerOf, hval]
      rfl
    have hrest : 0 ≤ (ds.map fun d => vals.powerOf d.address).sum :=
      List.sum_nonneg fun x hx => by
        obtain ⟨d', _, rfl⟩ := List.mem_map.mp hx
        exact powerOf_nonneg hnonneg _
    have hv := hnonneg val (mem_of_lookup_eq_some hval)
    rw [List.map_cons, List.sum_cons, hpower] at hsum ⊢
    have hadd : add acc val.votingPower = acc + val.votingPower :=
      add_of_inInt64 (by unfold InInt64 minInt64; omega)
    rw [verifyRemovalsLoop, hval]
    simp only
    rw [hadd, verifyRemovalsLoop_eq_ok hnonneg (fun d' hd' => hfound d' (List.mem_cons_of_mem d hd'))
      (by omega) (by omega), Int.add_assoc]

theorem verifyRemovalsLoop_eq_error :
    ∀ {ds : List (PriorityValidator K)} {acc : Int}, (∃ d ∈ ds, d.address ∉ vals.validators.map (·.address)) →
      ∃ err, vals.verifyRemovalsLoop ds acc = .error err
  | [], _, ⟨_, hd, _⟩ => nomatch hd
  | d :: ds, acc, ⟨d', hd', hmissing⟩ => by
    rw [verifyRemovalsLoop]
    cases hval : vals.getByAddress d.address with
    | none => exact ⟨_, rfl⟩
    | some val =>
      simp only
      apply verifyRemovalsLoop_eq_error
      rcases List.mem_cons.mp hd' with rfl | hd'
      · exact absurd (getByAddress_eq_none_iff.mpr hmissing) (by simp [hval])
      · exact ⟨d', hd', hmissing⟩

end PriorityValidatorSet

open PriorityValidatorSet in
theorem verifyRemovals_eq_ok {deletes : List (PriorityValidator K)} {vals : PriorityValidatorSet K}
    (hfound : ∀ d ∈ deletes, d.address ∈ vals.validators.map (·.address))
    (hdeletes : (deletes.map (·.address)).Nodup) (hvals : (vals.validators.map (·.address)).Nodup)
    (hnonneg : ∀ v ∈ vals.validators, 0 ≤ v.votingPower) (htotal : sumVotingPower vals.validators ≤ maxInt64) :
    verifyRemovals deletes vals =
      some (.ok (sumVotingPower (vals.validators.filter fun v => v.address ∈ deletes.map (·.address)))) := by
  have hsub : sumVotingPower (vals.validators.filter fun v => v.address ∈ deletes.map (·.address)) ≤
      sumVotingPower vals.validators :=
    sumVotingPower_le_of_sublist List.filter_sublist hnonneg
  have hlen : deletes.length ≤ vals.validators.length := by
    have := (List.subperm_of_subset hdeletes fun a ha => by
      obtain ⟨d, hd, rfl⟩ := List.mem_map.mp ha
      exact hfound d hd).length_le
    simpa using this
  unfold verifyRemovals
  rw [verifyRemovalsLoop_eq_ok hnonneg hfound (Int.le_refl 0) (by rw [sum_powerOf hdeletes hvals]; omega),
    sum_powerOf hdeletes hvals, Int.zero_add]
  simp only
  rw [if_neg (by omega)]

open PriorityValidatorSet in
theorem verifyRemovals_eq_error {deletes : List (PriorityValidator K)} {vals : PriorityValidatorSet K}
    (h : ∃ d ∈ deletes, d.address ∉ vals.validators.map (·.address)) :
    ∃ err, verifyRemovals deletes vals = some (.error err) := by
  obtain ⟨err, herr⟩ := @verifyRemovalsLoop_eq_error K vals deletes 0 h
  exact ⟨err, by rw [verifyRemovals, herr]⟩

/-! ## `verifyUpdates` -/

section VerifyUpdates

variable {vals : PriorityValidatorSet K}

/-- The change of power of an update, in exact arithmetic. -/
def PriorityValidatorSet.powerChange (vals : PriorityValidatorSet K) (update : PriorityValidator K) : Int :=
  update.votingPower - vals.powerOf update.address

theorem delta_eq {update : PriorityValidator K}
    (hupdate : 0 ≤ update.votingPower ∧ update.votingPower ≤ maxTotalVotingPower)
    (hvals : ∀ v ∈ vals.validators, 0 ≤ v.votingPower ∧ v.votingPower ≤ maxTotalVotingPower) :
    vals.delta update = vals.powerChange update := by
  unfold PriorityValidatorSet.delta PriorityValidatorSet.powerChange PriorityValidatorSet.powerOf
  cases h : vals.getByAddress update.address with
  | none => simp
  | some val =>
    have hval := hvals val (mem_of_lookup_eq_some h)
    simp only [Option.map_some, Option.getD_some]
    apply sub_of_inInt64
    unfold InInt64 minInt64 maxInt64
    rw [maxTotalVotingPower_eq] at hupdate hval
    omega

theorem powerChange_mem_Icc {update : PriorityValidator K}
    (hupdate : 0 ≤ update.votingPower ∧ update.votingPower ≤ maxTotalVotingPower)
    (hvals : ∀ v ∈ vals.validators, 0 ≤ v.votingPower ∧ v.votingPower ≤ maxTotalVotingPower) :
    -maxTotalVotingPower ≤ vals.powerChange update ∧ vals.powerChange update ≤ maxTotalVotingPower := by
  have h0 := powerOf_nonneg (fun v hv => (hvals v hv).1) update.address
  have h1 := powerOf_le (fun v hv => (hvals v hv).2) update.address
  unfold PriorityValidatorSet.powerChange
  omega

theorem verifyUpdatesLoop_eq
    (hvals : ∀ v ∈ vals.validators, 0 ≤ v.votingPower ∧ v.votingPower ≤ maxTotalVotingPower) :
    ∀ {s : Int} {l : List (PriorityValidator K)}, 0 ≤ s → s ≤ maxTotalVotingPower →
      (∀ u ∈ l, 0 ≤ u.votingPower ∧ u.votingPower ≤ maxTotalVotingPower) →
      (∀ n, 0 ≤ s + ((l.take n).map vals.powerChange).sum) →
      vals.verifyUpdatesLoop s l =
        (addUpTo maxTotalVotingPower s (l.map vals.powerChange)).elim (.error .totalVotingPowerOverflow) .ok
  | s, [], _, _, _, _ => rfl
  | s, u :: l, hs0, hs, hl, hprefix => by
    have hu := hl u List.mem_cons_self
    have hchange := powerChange_mem_Icc hu hvals
    have hadd : add s (vals.delta u) = s + vals.powerChange u := by
      rw [delta_eq hu hvals]
      apply add_of_inInt64
      unfold InInt64 minInt64 maxInt64
      rw [maxTotalVotingPower_eq] at hs hchange
      omega
    rw [verifyUpdatesLoop, List.map_cons, addUpTo]
    simp only [hadd]
    by_cases hpass : s + vals.powerChange u > maxTotalVotingPower
    · rw [if_pos hpass, if_pos hpass]
      rfl
    · rw [if_neg hpass, if_neg hpass]
      -- the next partial totals are those of `u :: l` past `u`
      have h1 := hprefix 1
      simp only [List.take_succ_cons, List.take_zero, List.map_cons, List.map_nil, List.sum_cons,
        List.sum_nil, Int.add_zero] at h1
      refine verifyUpdatesLoop_eq hvals h1 (by omega) (fun v hv => hl v (List.mem_cons_of_mem u hv)) ?_
      intro n
      have := hprefix (n + 1)
      simp only [List.take_succ_cons, List.map_cons, List.sum_cons] at this
      omega

theorem pairwise_sortByDelta (updates : List (PriorityValidator K)) :
    (sortByDelta vals updates).Pairwise fun a b => vals.delta a ≤ vals.delta b := by
  have h : (sortByDelta vals updates).Pairwise fun a b => ¬vals.delta b < vals.delta a :=
    Knapsack.pairwise_insertionSort_of_mem _ (fun a _ b _ => by omega) (fun a _ b _ c _ hab hbc => by omega)
  exact h.imp fun hab => by omega

theorem PriorityValidatorSet.updateTotalVotingPower_eq
    (hnonneg : ∀ v ∈ vals.validators, 0 ≤ v.votingPower) (htotal : sumVotingPower vals.validators ≤ maxTotalVotingPower) :
    vals.updateTotalVotingPower = some { vals with totalVotingPowerCache := sumVotingPower vals.validators } := by
  have hsum : ((vals.validators.map (·.toValidator)).map (·.votingPower)).sum = sumVotingPower vals.validators := by
    rw [List.map_map]
    rfl
  unfold PriorityValidatorSet.updateTotalVotingPower
  rw [updateTotalVotingPower_of_le (Int.le_refl 0) _ (by simpa using hnonneg) (by rw [hsum]; omega), hsum,
    Int.zero_add]
  rfl

theorem PriorityValidatorSet.totalVotingPower_eq
    (hcache : vals.totalVotingPowerCache = 0 ∨ vals.totalVotingPowerCache = sumVotingPower vals.validators)
    (hnonneg : ∀ v ∈ vals.validators, 0 ≤ v.votingPower) (htotal : sumVotingPower vals.validators ≤ maxTotalVotingPower) :
    vals.totalVotingPower =
      some (sumVotingPower vals.validators, { vals with totalVotingPowerCache := sumVotingPower vals.validators }) := by
  unfold PriorityValidatorSet.totalVotingPower
  by_cases h0 : vals.totalVotingPowerCache = 0
  · rw [if_pos h0, updateTotalVotingPower_eq hnonneg htotal]
    rfl
  · -- the cache holds the total already
    obtain ⟨validators, cache⟩ := vals
    have hsum : cache = sumVotingPower validators := hcache.resolve_left h0
    subst hsum
    rw [if_neg h0]

/-- `verifyUpdates` refuses exactly a total after the changes beyond
`MaxTotalVotingPower`, provided no set of the updates takes away more than
what the removals leave. -/
theorem verifyUpdates_eq {updates : List (PriorityValidator K)} {removedPower : Int}
    (hvals : ∀ v ∈ vals.validators, 0 ≤ v.votingPower ∧ v.votingPower ≤ maxTotalVotingPower)
    (htotal : sumVotingPower vals.validators ≤ maxTotalVotingPower)
    (hcache : vals.totalVotingPowerCache = 0 ∨ vals.totalVotingPowerCache = sumVotingPower vals.validators)
    (hupdates : ∀ u ∈ updates, 0 ≤ u.votingPower ∧ u.votingPower ≤ maxTotalVotingPower)
    (hremoved : 0 ≤ removedPower ∧ removedPower ≤ sumVotingPower vals.validators)
    (hfloor : ∀ P : List (PriorityValidator K), P.Subperm updates →
      0 ≤ sumVotingPower vals.validators - removedPower + (P.map vals.powerChange).sum) :
    verifyUpdates updates vals removedPower =
      some (if maxTotalVotingPower < sumVotingPower vals.validators - removedPower + (updates.map vals.powerChange).sum
        then .error .totalVotingPowerOverflow
        else .ok (sumVotingPower vals.validators + (updates.map vals.powerChange).sum),
        { vals with totalVotingPowerCache := sumVotingPower vals.validators }) := by
  have hperm : (sortByDelta vals updates).Perm updates := List.perm_insertionSort _ _
  have hsorted_mem : ∀ u ∈ sortByDelta vals updates, 0 ≤ u.votingPower ∧ u.votingPower ≤ maxTotalVotingPower :=
    fun u hu => hupdates u (hperm.mem_iff.mp hu)
  -- in exact arithmetic the sorted changes ascend
  have hsorted : ((sortByDelta vals updates).map vals.powerChange).Pairwise (· ≤ ·) := by
    rw [List.pairwise_map]
    apply List.Pairwise.imp_of_mem _ (pairwise_sortByDelta updates)
    intro a b ha hb hab
    rwa [delta_eq (hsorted_mem a ha) hvals, delta_eq (hsorted_mem b hb) hvals] at hab
  have hsum : ((sortByDelta vals updates).map vals.powerChange).sum = (updates.map vals.powerChange).sum :=
    (hperm.map _).sum_eq
  have hsub : sub (sumVotingPower vals.validators) removedPower = sumVotingPower vals.validators - removedPower := by
    apply sub_of_inInt64
    unfold InInt64 minInt64 maxInt64
    rw [maxTotalVotingPower_eq] at htotal
    omega
  have hloop := @verifyUpdatesLoop_eq K vals hvals (sumVotingPower vals.validators - removedPower)
    (sortByDelta vals updates) (by omega) (by omega) hsorted_mem
    fun n => hfloor _ ((List.take_sublist n _).subperm.trans hperm.subperm)
  unfold verifyUpdates
  rw [PriorityValidatorSet.totalVotingPower_eq hcache (fun v hv => (hvals v hv).1) htotal]
  simp only [Option.map_some, Option.some.injEq, Prod.mk.injEq, and_true]
  rw [hsub, hloop, addUpTo_of_sorted hsorted (by omega), hsum]
  split_ifs with hpass
  · rfl
  · -- the total after the updates is within the bound, so adding the removals back does not wrap
    simp only [Option.elim, Except.map]
    congr 1
    have hlow := hfloor updates (List.Subperm.refl _)
    rw [maxTotalVotingPower_eq] at hpass htotal
    rw [add_of_inInt64 (by unfold InInt64 minInt64 maxInt64; omega)]
    omega

end VerifyUpdates

/-! ## `computeNewPriorities` -/

namespace PriorityValidatorSet

/-- The priority `computeNewPriorities` gives the validator with the address,
in exact arithmetic: its old one where it is in the set, otherwise
`-(T + ⌊T / 8⌋)` for the total `T` after the updates and before the
removals. -/
def startPriority (vals : PriorityValidatorSet K) (updatedTotalVotingPower : Int) (address : Bytes) : Int :=
  match vals.getByAddress address with
  | some val => val.proposerPriority
  | none => -(updatedTotalVotingPower + updatedTotalVotingPower / 8)

end PriorityValidatorSet

theorem computeNewPriorities_eq {updates : List (PriorityValidator K)} {vals : PriorityValidatorSet K} {T : Int}
    (hT : 0 ≤ T ∧ T ≤ 2 * maxTotalVotingPower) :
    computeNewPriorities updates vals T =
      updates.map fun u => { u with proposerPriority := vals.startPriority T u.address } := by
  unfold computeNewPriorities
  apply List.map_congr_left
  intro u _
  unfold PriorityValidatorSet.startPriority
  cases vals.getByAddress u.address with
  | some val => rfl
  | none =>
    have hshift : T >>> (3 : Nat) = T / 8 := by
      rw [Int.shiftRight_eq_div_pow]
      rfl
    rw [maxTotalVotingPower_eq] at hT
    simp only [hshift]
    rw [add_of_inInt64 (by unfold InInt64 minInt64 maxInt64; omega),
      neg_of_inInt64 (by unfold InInt64 minInt64 maxInt64; omega)]

/-! ## Priorities mapped pointwise -/

namespace PriorityValidatorSet

variable {vals : PriorityValidatorSet K}

@[simp] theorem validators_mapPriorities (f : Int → Int) :
    (vals.mapPriorities f).validators = vals.validators.map fun v => { v with proposerPriority := f v.proposerPriority } :=
  rfl

@[simp] theorem totalVotingPowerCache_mapPriorities (f : Int → Int) :
    (vals.mapPriorities f).totalVotingPowerCache = vals.totalVotingPowerCache := rfl

theorem mapPriorities_congr {f g : Int → Int} (h : ∀ v ∈ vals.validators, f v.proposerPriority = g v.proposerPriority) :
    vals.mapPriorities f = vals.mapPriorities g := by
  unfold mapPriorities
  congr 1
  apply List.map_congr_left
  intro v hv
  rw [h v hv]

theorem mapPriorities_id : vals.mapPriorities (fun p => p) = vals := by
  unfold mapPriorities
  simp

theorem mapPriorities_mapPriorities (f g : Int → Int) :
    (vals.mapPriorities f).mapPriorities g = vals.mapPriorities (g ∘ f) := by
  simp [mapPriorities]

end PriorityValidatorSet

/-! ## Scaling and centring -/

section Rescale

variable {vals : PriorityValidatorSet K}

theorem maxMinPriority_eq_foldl :
    ∀ (l : List (PriorityValidator K)) (mx mn : Int),
      maxMinPriority (mx, mn) l =
        ((l.map (·.proposerPriority)).foldl max mx, (l.map (·.proposerPriority)).foldl min mn)
  | [], _, _ => rfl
  | v :: l, mx, mn => by
    have hmax : (if v.proposerPriority > mx then v.proposerPriority else mx) = max mx v.proposerPriority := by
      split_ifs <;> omega
    have hmin : (if v.proposerPriority < mn then v.proposerPriority else mn) = min mn v.proposerPriority := by
      split_ifs <;> omega
    rw [maxMinPriority]
    simp only [hmax, hmin]
    rw [maxMinPriority_eq_foldl l]
    rfl

theorem computeMaxMinPriorityDiff_eq (hne : vals.validators ≠ [])
    (hin : ∀ v ∈ vals.validators, InInt64 v.proposerPriority)
    (hspread : spread (vals.validators.map (·.proposerPriority)) ≤ maxInt64) :
    computeMaxMinPriorityDiff vals = some (spread (vals.validators.map (·.proposerPriority))) := by
  obtain ⟨v, l, hvl⟩ := List.exists_cons_of_ne_nil hne
  have hv := hin v (hvl ▸ List.mem_cons_self)
  unfold InInt64 at hv
  -- the folds start from the extremes of `int64`, which the first priority replaces
  have hfolds : maxMinPriority (minInt64, maxInt64) vals.validators =
      ((vals.validators.map (·.proposerPriority)).max?.getD 0,
        (vals.validators.map (·.proposerPriority)).min?.getD 0) := by
    rw [maxMinPriority_eq_foldl, hvl, List.map_cons, List.foldl_cons, List.foldl_cons,
      max_eq_right hv.1, min_eq_right hv.2]
    rfl
  have hnonneg := spread_nonneg (vals.validators.map (·.proposerPriority))
  unfold computeMaxMinPriorityDiff
  rw [if_neg (by simp [hne]), hfolds]
  simp only
  unfold spread at hnonneg hspread ⊢
  rw [sub_of_inInt64 (by unfold InInt64 minInt64 maxInt64 at *; omega), if_neg (by omega)]

theorem rescalePriorities_eq {D lo hi : Int} (hne : vals.validators ≠ []) (hD : 0 < D)
    (hbound : ∀ v ∈ vals.validators, lo ≤ v.proposerPriority ∧ v.proposerPriority ≤ hi)
    (hlo : minInt64 ≤ lo) (hhi : hi ≤ maxInt64) (hwidth : hi - lo + D ≤ maxInt64) :
    vals.rescalePriorities D =
      some (vals.mapPriorities (·.tdiv (scaleFactor D (vals.validators.map (·.proposerPriority))))) := by
  have hspread : spread (vals.validators.map (·.proposerPriority)) ≤ hi - lo := by
    apply spread_le (by simpa using hne)
    intro a ha b hb
    obtain ⟨va, hva, rfl⟩ := List.mem_map.mp ha
    obtain ⟨vb, hvb, rfl⟩ := List.mem_map.mp hb
    have := hbound va hva
    have := hbound vb hvb
    omega
  have hnonneg := spread_nonneg (vals.validators.map (·.proposerPriority))
  have hin : ∀ v ∈ vals.validators, InInt64 v.proposerPriority := fun v hv => by
    have := hbound v hv
    unfold InInt64
    omega
  generalize hd : spread (vals.validators.map (·.proposerPriority)) = d at hspread hnonneg
  -- the ratio `⌈d / D⌉` is computed without wrapping
  have hratio : div (sub (add d D) 1) D = (d + D - 1) / D := by
    unfold minInt64 at hlo
    unfold maxInt64 at hhi hwidth
    rw [add_of_inInt64 (by unfold InInt64 minInt64 maxInt64; omega),
      sub_of_inInt64 (by unfold InInt64 minInt64 maxInt64; omega),
      div_of_inInt64 (by unfold InInt64 minInt64 maxInt64; omega) hD, Int.tdiv_eq_ediv_of_nonneg (by omega)]
  unfold PriorityValidatorSet.rescalePriorities
  rw [if_neg (by simp [hne]), if_neg (by omega), computeMaxMinPriorityDiff_eq hne hin (by rw [hd]; omega)]
  simp only
  rw [hd, hratio, scaleFactor, hd]
  by_cases hwide : D < d
  · have hpos := (ceilDiv_ceilDiv_le hD hwide).1
    rw [if_pos hwide, if_pos hwide, if_neg (by omega)]
    congr 1
    apply mapPriorities_congr
    intro v hv
    exact div_of_inInt64 (hin v hv) hpos
  · rw [if_neg (by omega), if_neg hwide]
    congr 1
    have hid : vals.mapPriorities (·.tdiv 1) = vals.mapPriorities fun p => p :=
      mapPriorities_congr fun v _ => Int.tdiv_one _
    rw [hid, mapPriorities_id]

theorem shiftByAvgProposerPriority_eq {lo hi : Int} (hne : vals.validators ≠ [])
    (hbound : ∀ v ∈ vals.validators, lo ≤ v.proposerPriority ∧ v.proposerPriority ≤ hi)
    (hlo : minInt64 ≤ lo) (hhi : hi ≤ maxInt64) (hwidth : hi - lo ≤ maxInt64) :
    vals.shiftByAvgProposerPriority =
      some (vals.mapPriorities (· - mean (vals.validators.map (·.proposerPriority)))) := by
  have hmean : lo ≤ mean (vals.validators.map (·.proposerPriority)) ∧
      mean (vals.validators.map (·.proposerPriority)) ≤ hi := mean_mem_Icc (by simpa using hne)
    (fun x hx => by
      obtain ⟨v, hv, rfl⟩ := List.mem_map.mp hx
      exact hbound v hv)
  have havg : computeAvgProposerPriority vals = some (mean (vals.validators.map (·.proposerPriority))) := by
    unfold computeAvgProposerPriority
    have hlen : (vals.validators.length : Int) ≠ 0 := by
      have := List.length_pos_iff.mpr hne
      omega
    rw [if_neg hlen]
    simp only
    rw [if_pos (by unfold InInt64; unfold mean at hmean; rw [List.length_map] at hmean; omega)]
    unfold mean
    rw [List.length_map]
  unfold PriorityValidatorSet.shiftByAvgProposerPriority
  rw [if_neg (by simp [hne]), havg]
  simp only [Option.map_some, Option.some.injEq]
  apply mapPriorities_congr
  intro v hv
  have := hbound v hv
  exact safeSubClip_of_inInt64 (by unfold InInt64 minInt64 maxInt64 at *; omega)

/-- Rescaling into a window `D` and then centring, on priorities within
`[lo, hi]` around zero that leave room for `D`: each priority goes to where
`scaleAndCentre` puts it. -/
theorem rescale_shift_eq {D lo hi : Int} (hne : vals.validators ≠ []) (hD : 0 < D)
    (hbound : ∀ v ∈ vals.validators, lo ≤ v.proposerPriority ∧ v.proposerPriority ≤ hi)
    (hlo : minInt64 ≤ lo ∧ lo ≤ 0) (hhi : 0 ≤ hi ∧ hi ≤ maxInt64) (hwidth : hi - lo + D ≤ maxInt64) :
    (vals.rescalePriorities D).bind shiftByAvgProposerPriority =
      some (vals.mapPriorities (scaleAndCentre D (vals.validators.map (·.proposerPriority)))) := by
  have hrescale := rescalePriorities_eq hne hD hbound hlo.1 hhi.2 hwidth
  -- dividing keeps the priorities within the window around zero
  have hscaled : ∀ v ∈ (vals.mapPriorities (·.tdiv (scaleFactor D (vals.validators.map (·.proposerPriority))))).validators,
      lo ≤ v.proposerPriority ∧ v.proposerPriority ≤ hi := by
    intro v hv
    simp only [validators_mapPriorities, List.mem_map] at hv
    obtain ⟨w, hw, rfl⟩ := hv
    exact tdiv_mem_Icc (scaleFactor_pos hD _) hlo.2 hhi.1 (hbound w hw)
  have hshift := shiftByAvgProposerPriority_eq (by simpa using hne) hscaled hlo.1 hhi.2
    (by unfold minInt64 at hlo; unfold maxInt64 at hhi hwidth ⊢; omega)
  rw [hrescale, Option.bind_some, hshift, mapPriorities_mapPriorities]
  congr 2
  funext x
  simp only [validators_mapPriorities, List.map_map, Function.comp_def, scaleAndCentre]

end Rescale

/-! ## Sorting by power -/

section SortByVotingPower

theorem sortByVotingPower_perm (l : List (PriorityValidator K)) : (sortByVotingPower l).Perm l :=
  List.perm_insertionSort _ _

theorem pairwise_sortByVotingPower (l : List (PriorityValidator K)) :
    (sortByVotingPower l).Pairwise fun a b => validatorsByVotingPowerLess b.toValidator a.toValidator = false :=
  Knapsack.pairwise_insertionSort_of_mem _ (fun _ _ _ _ => validatorsByVotingPowerLess_total _ _)
    (fun _ _ _ _ _ _ => validatorsByVotingPowerLess_trans)

theorem validatorsByVotingPowerLess_of_ne {a b : Validator K} (h : validatorsByVotingPowerLess b a = false)
    (hne : a.address ≠ b.address) : validatorsByVotingPowerLess a b = true := by
  rcases validatorsByVotingPowerLess_eq_false_iff.mp h with hlt | ⟨heq, hba⟩
  · unfold validatorsByVotingPowerLess
    rw [if_neg (by omega)]
    simpa using hlt
  · unfold validatorsByVotingPowerLess
    rw [if_pos heq.symm]
    have hab : compare a.address b.address ≠ .gt := fun h' => hba (Std.OrientedCmp.gt_iff_lt.mp h')
    rcases hc : compare a.address b.address with _ | _ | _
    · rfl
    · exact absurd (Std.LawfulEqCmp.compare_eq_iff_eq.mp hc) hne
    · exact absurd hc hab

theorem validatorsByVotingPowerLess_asymm {a b : Validator K} (h : validatorsByVotingPowerLess a b = true) :
    validatorsByVotingPowerLess b a = false := by
  unfold validatorsByVotingPowerLess at h ⊢
  by_cases heq : a.votingPower = b.votingPower
  · rw [if_pos heq] at h
    rw [if_pos heq.symm]
    have hlt : compare a.address b.address = .lt := by simpa using h
    have hgt : compare b.address a.address = .gt := Std.OrientedCmp.gt_iff_lt.mpr hlt
    simp [hgt]
  · rw [if_neg heq] at h
    rw [if_neg (Ne.symm heq)]
    simp only [decide_eq_true_eq] at h
    simp only [decide_eq_false_iff_not]
    omega

theorem pairwise_lt_sortByVotingPower {l : List (PriorityValidator K)} (hnodup : (l.map (·.address)).Nodup) :
    (sortByVotingPower l).Pairwise fun a b => validatorsByVotingPowerLess a.toValidator b.toValidator = true := by
  have hnodup' : ((sortByVotingPower l).map (·.address)).Nodup :=
    ((sortByVotingPower_perm l).map _).nodup_iff.mpr hnodup
  apply ((pairwise_sortByVotingPower l).and (List.pairwise_map.mp hnodup')).imp
  rintro a b ⟨hba, hne⟩
  exact validatorsByVotingPowerLess_of_ne hba hne

theorem sortByVotingPower_eq_of_perm {l l' : List (PriorityValidator K)} (hp : l.Perm l')
    (hnodup : (l.map (·.address)).Nodup) : sortByVotingPower l = sortByVotingPower l' := by
  apply List.Perm.eq_of_pairwise _ (pairwise_lt_sortByVotingPower hnodup)
    (pairwise_lt_sortByVotingPower ((hp.map _).nodup_iff.mp hnodup))
    (((sortByVotingPower_perm l).trans hp).trans (sortByVotingPower_perm l').symm)
  intro a b _ _ hab hba
  rw [validatorsByVotingPowerLess_asymm hab] at hba
  cases hba

end SortByVotingPower

/-! ## The steps after the checks -/

namespace PriorityValidatorSet

/-- The validators after `applyUpdates` and `applyRemovals`: the old ones by
address with the updates written in, without the removed ones. -/
def appliedValidators (vals : PriorityValidatorSet K) (updates deletes : List (PriorityValidator K)) :
    List (PriorityValidator K) :=
  (merge (·.address) (sortByAddress vals.validators) updates).filter fun v => v.address ∉ deletes.map (·.address)

end PriorityValidatorSet

/-- Validators with their priorities scaled into a window of twice their
total power and centred, in exact arithmetic. -/
def scaleAndCentrePriorities (l : List (PriorityValidator K)) : List (PriorityValidator K) :=
  l.map fun v => { v with
    proposerPriority := scaleAndCentre (2 * sumVotingPower l) (l.map (·.proposerPriority)) v.proposerPriority }

section ApplyChanges

variable {vals : PriorityValidatorSet K} {updates deletes : List (PriorityValidator K)}

theorem applyRemovals_applyUpdates (hvals : (vals.validators.map (·.address)).Nodup)
    (hupdates : Ascending (·.address) updates) (hdeletes : Ascending (·.address) deletes)
    (hfound : ∀ d ∈ deletes, d.address ∈ vals.validators.map (·.address))
    (hdisjoint : ∀ d ∈ deletes, d.address ∉ updates.map (·.address)) :
    (vals.applyUpdates updates).applyRemovals deletes =
      some { vals with validators := vals.appliedValidators updates deletes } := by
  have hsorted : Ascending (·.address) (sortByAddress vals.validators) := ascending_sortByKey hvals
  have hperm := merge_perm hsorted hupdates
  have hsub : ∀ d ∈ deletes, d.address ∈ (merge (·.address) (sortByAddress vals.validators) updates).map (·.address) := by
    intro d hd
    obtain ⟨v, hv, hvd⟩ := List.mem_map.mp (hfound d hd)
    have hv' : v ∈ sortByAddress vals.validators := (sortByKey_perm vals.validators).mem_iff.mpr hv
    -- the validator is not updated, so the merge keeps it
    have hkeep : v ∈ (sortByAddress vals.validators).filter (fun x => x.address ∉ updates.map (·.address)) :=
      List.mem_filter.mpr ⟨hv', by simpa [hvd] using hdisjoint d hd⟩
    exact List.mem_map.mpr ⟨v, hperm.mem_iff.mpr (List.mem_append_left _ hkeep), hvd⟩
  unfold PriorityValidatorSet.applyRemovals PriorityValidatorSet.appliedValidators
  rw [PriorityValidatorSet.applyUpdates, remove_eq_some (ascending_merge hsorted hupdates) hdeletes hsub]
  rfl

/-- After the checks, with priorities in a window around zero that leaves room
for twice the total, the steps scale and centre the priorities exactly and
sort by power. -/
theorem applyChanges_eq {lo hi : Int} (hvals : (vals.validators.map (·.address)).Nodup)
    (hupdates : Ascending (·.address) updates) (hdeletes : Ascending (·.address) deletes)
    (hfound : ∀ d ∈ deletes, d.address ∈ vals.validators.map (·.address))
    (hdisjoint : ∀ d ∈ deletes, d.address ∉ updates.map (·.address))
    (hpower : ∀ v ∈ vals.appliedValidators updates deletes, 0 ≤ v.votingPower)
    (htotal : 0 < sumVotingPower (vals.appliedValidators updates deletes) ∧
      sumVotingPower (vals.appliedValidators updates deletes) ≤ maxTotalVotingPower)
    (hbound : ∀ v ∈ vals.appliedValidators updates deletes, lo ≤ v.proposerPriority ∧ v.proposerPriority ≤ hi)
    (hlo : minInt64 ≤ lo ∧ lo ≤ 0) (hhi : 0 ≤ hi ∧ hi ≤ maxInt64)
    (hwidth : hi - lo + 2 * maxTotalVotingPower ≤ maxInt64) :
    vals.applyChanges updates deletes =
      some ⟨sortByVotingPower (scaleAndCentrePriorities (vals.appliedValidators updates deletes)),
        sumVotingPower (vals.appliedValidators updates deletes)⟩ := by
  generalize happlied : vals.appliedValidators updates deletes = applied at hpower htotal hbound
  have hne : applied ≠ [] := by
    rintro rfl
    simp at htotal
  have hD : 0 < 2 * sumVotingPower applied := by omega
  -- the set after the removals, then with its total cached
  have hremove := applyRemovals_applyUpdates hvals hupdates hdeletes hfound hdisjoint
  rw [happlied] at hremove
  have hcached : ({ vals with validators := applied } : PriorityValidatorSet K).updateTotalVotingPower =
      some ⟨applied, sumVotingPower applied⟩ :=
    PriorityValidatorSet.updateTotalVotingPower_eq hpower htotal.2
  have htvp : (⟨applied, sumVotingPower applied⟩ : PriorityValidatorSet K).totalVotingPower =
      some (sumVotingPower applied, ⟨applied, sumVotingPower applied⟩) :=
    PriorityValidatorSet.totalVotingPower_eq (.inr rfl) hpower htotal.2
  have hmul : mul priorityWindowSizeFactor (sumVotingPower applied) = 2 * sumVotingPower applied := by
    unfold priorityWindowSizeFactor
    rw [maxTotalVotingPower_eq] at htotal
    exact mul_of_inInt64 (by unfold InInt64 minInt64 maxInt64; omega)
  have hscale := @rescale_shift_eq K ⟨applied, sumVotingPower applied⟩ _ lo hi
    hne hD hbound hlo hhi (by rw [maxTotalVotingPower_eq] at htotal hwidth; omega)
  unfold PriorityValidatorSet.applyChanges
  rw [hremove]
  simp only [Option.bind_eq_bind, Option.bind_some, hcached, htvp, hmul]
  rw [← Option.bind_assoc, hscale]
  simp only [Option.bind_some, Option.pure_def, Option.some.injEq, PriorityValidatorSet.mk.injEq]
  simp only [PriorityValidatorSet.validators_mapPriorities, PriorityValidatorSet.totalVotingPowerCache_mapPriorities,
    scaleAndCentrePriorities, true_and]

end ApplyChanges

/-! ## What a change set should do -/

section Spec

variable (vals : PriorityValidatorSet K) (changes : List (PriorityValidator K))

/-- The validators a change set should leave: the old ones whose address no
change names, and the changes of positive power. -/
def changedValidators : List (PriorityValidator K) :=
  vals.validators.filter (fun v => v.address ∉ changes.map (·.address)) ++
    changes.filter fun c => 0 < c.votingPower

/-- The power the removals take away: that of the old validators a change of
power `0` names. -/
def removedPower : Int :=
  sumVotingPower (vals.validators.filter fun v =>
    v.address ∈ (changes.filter fun c => c.votingPower = 0).map (·.address))

/-- The validators left, each with the priority it starts from, for the total
after the changes and before the removals. -/
def startValidators : List (PriorityValidator K) :=
  (changedValidators vals changes).map fun v => { v with
    proposerPriority :=
      vals.startPriority (sumVotingPower (changedValidators vals changes) + removedPower vals changes) v.address }

/-- The validators the update should produce, in any order: the start
priorities scaled into a window of twice the total and centred, in exact
arithmetic. -/
def expectedValidators : List (PriorityValidator K) := scaleAndCentrePriorities (startValidators vals changes)

/-- The set the update should return: the expected validators sorted by
power, with their total cached. -/
def expectedSet : PriorityValidatorSet K :=
  ⟨sortByVotingPower (expectedValidators vals changes), sumVotingPower (changedValidators vals changes)⟩

/-- The power at an address after the change set: that of its change unless
the change removes it, that of the old set where no change names it. -/
def changedPower (address : Bytes) : Option Int :=
  match lookup (·.address) address changes with
  | some c => if c.votingPower = 0 then none else some c.votingPower
  | none => (vals.getByAddress address).map (·.votingPower)

/-- When `UpdateWithChangeSet` should refuse the change set. -/
def UpdateFails : Prop :=
  ¬(changes.map (·.address)).Nodup ∨
    (∃ c ∈ changes, c.votingPower < 0 ∨ maxTotalVotingPower < c.votingPower) ∨
    (∃ c ∈ changes, c.votingPower = 0 ∧ c.address ∉ vals.validators.map (·.address)) ∨
    changedValidators vals changes = [] ∨
    maxTotalVotingPower < sumVotingPower (changedValidators vals changes)

end Spec

end Ostracon.Types
