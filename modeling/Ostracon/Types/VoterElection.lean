import Ostracon.Types.VoterSet
import Ostracon.Lib.Knapsack
import Mathlib.Tactic.Linarith
/-!
# `types/voter_set.go`: the voter election

`SelectVoter` chooses, from the validators of a height, the voters that sign
its blocks.  Without a proof hash, with few validators, or with a tolerable
Byzantine percentage of 33 or more, every validator with power votes, with
its power as weight (`ToVoterAll`).  Otherwise `electVotersNonDup` draws
voters one at a time without replacement, each with probability proportional
to its power among the candidates not drawn yet (`electVoter`, with the
generator of `libs/rand/sampling.go` seeded by the proof hash).  After each
draw every voter's weight is recomputed from its win points, and the loop
stops once the heaviest voters per unit of power whose power reaches the
tolerable Byzantine power hold less than a third of the weight.  If every
candidate with power has been drawn first, all candidates vote with their
power as weight.

The loop is followed pass by pass: `electStep` is one pass of its body and
`electLoop` runs passes with fuel.  Go panics are `none`.  `int64`
arithmetic wraps (`GoInt`); `big.Int` arithmetic is exact, and its `Int64()`
keeps the low bits.  The in-place sorts are insertion sorts by the source's
comparators; `sort.Slice` may order differently only candidates that compare
equal, that is, of the same power and address.
-/

namespace Ostracon.Types

open Ostracon.Crypto.Merkle GoInt

variable {K : Type}

/-! ## Random sampling, `libs/rand/sampling.go` -/

/-- `uint64Mask`: the low 63 bits. -/
def uint64Mask : UInt64 := 0x7FFFFFFFFFFFFFFF

/-- `nextRandom`, SplitMix64: the advanced seed and the random value. -/
def nextRandom (rand : UInt64) : UInt64 × UInt64 :=
  let rand := rand + 0x9e3779b97f4a7c15
  let z := rand
  let z := (z ^^^ (z >>> 30)) * 0xbf58476d1ce4e5b9
  let z := (z ^^^ (z >>> 27)) * 0x94d049bb133111eb
  (rand, z ^^^ (z >>> 31))

/-- `RandomThreshold`: the advanced seed, and the masked random value times
`total` divided by `divider = uint64Mask + 1`, in `big.Int`. -/
def randomThreshold (seed total : UInt64) : UInt64 × UInt64 :=
  let (seed, random) := nextRandom seed
  (seed, UInt64.ofNat ((random &&& uint64Mask).toNat * total.toNat / (uint64Mask.toNat + 1)))

/-! ## The parts of `electVotersNonDup` -/

/-- `precisionForSelection`. -/
def precisionForSelection : Int := 1000

/-- `precisionCorrectionForSelection`. -/
def precisionCorrectionForSelection : Int := 1000

/-- `BftMaxTolerableByzantinePercentage`. -/
def bftMaxTolerableByzantinePercentage : Int := 33

/-- `getTotalVotingPower`: the `int64` sum of the powers. -/
def getTotalVotingPower (validators : List (Validator K)) : Int :=
  validators.foldl (fun totalVoting v => add totalVoting v.votingPower) 0

/-- `getTolerableByzantinePower`: `totalVotingPower * tolerableByzantinePercent
/ 100` rounded up, in `big.Int`, then `Int64()`. -/
def getTolerableByzantinePower (totalVotingPower tolerableByzantinePercent : Int) : Int :=
  let bigMultiplied := totalVotingPower * tolerableByzantinePercent
  let tolerableByzantinePower := bigMultiplied / 100
  let tolerableByzantinePower :=
    if tolerableByzantinePower * 100 < bigMultiplied then tolerableByzantinePower + 1
    else tolerableByzantinePower
  wrap tolerableByzantinePower

/-- `ValidatorsByVotingPower.Less`, which is also the comparator of
`sortValidators`: the larger power first, then the smaller address. -/
def validatorsByVotingPowerLess (a b : Validator K) : Bool :=
  if a.votingPower = b.votingPower then compare a.address b.address == .lt
  else a.votingPower > b.votingPower

/-- `sortValidators`. -/
def sortValidators (validators : List (Validator K)) : List (Validator K) :=
  validators.insertionSort fun a b => validatorsByVotingPowerLess b a = false

/-- The loop that counts `zeroValidators`, given the sorted candidates from
the last one back: how many have power zero before one has power.  Walking
past the first candidate reads `candidates[-1]`, on which Go panics. -/
def countZeroValidators : List (Validator K) → Option Nat
  | [] => none
  | candidate :: rest =>
    if candidate.votingPower = 0 then (countZeroValidators rest).map (· + 1) else some 0

/-- The loop of `electVoter` over `candidates[:len(candidates)-voterNum]`,
from index `i` with `cumulativePriority` before it: the first candidate with
which the cumulative priority passes the threshold, and its index. -/
def electVoterLoop (threshold : UInt64) :
    Nat → Int → List (Validator K) → Option (Nat × Validator K)
  | _, _, [] => none
  | i, cumulativePriority, candidate :: rest =>
    if threshold < UInt64.ofInt (add cumulativePriority candidate.votingPower) then
      some (i, candidate)
    else electVoterLoop threshold (i + 1) (add cumulativePriority candidate.votingPower) rest

/-- `electVoter`: the advanced seed, and the winner with its index; `none`
where Go panics ("Cannot find random sample").  A `voterNum` beyond the
candidates leaves nothing to draw from, and Go panics on the slice. -/
def electVoter (seed : UInt64) (candidates : List (Validator K)) (voterNum : Nat)
    (totalPriority : Int) : Option (UInt64 × Nat × Validator K) :=
  let (seed, threshold) := randomThreshold seed (UInt64.ofInt totalPriority)
  (electVoterLoop threshold 0 0 (candidates.take (candidates.length - voterNum))).map
    fun (winnerIdx, winner) => (seed, winnerIdx, winner)

/-- `moveWinnerToLast`: the winner goes to the end and the candidates after it
one place forward; `none` where the index is out of range, on which Go
panics. -/
def moveWinnerToLast (candidates : List (Validator K)) (winner : Nat) :
    Option (List (Validator K)) :=
  candidates[winner]?.map fun winnerCandidate => candidates.eraseIdx winner ++ [winnerCandidate]

/-- `voter`: an elected candidate and its win point, a `big.Int`.  In Go
`val` points into the candidates; the weights set through it matter only
for the returned voters, and the fallback overwrites them on every
candidate. -/
structure Voter (K : Type) where
  val : Validator K
  winPoint : Int
  deriving DecidableEq, Repr

/-- The loop that accumulates win points: each voter gains
`votingPower * 1000 / (losersVotingPower + votingPower)`, in `big.Int`. -/
def accumulateWinPoints (losersVotingPower : Int) (voters : List (Voter K)) : List (Voter K) :=
  voters.map fun voter =>
    { voter with
      winPoint := voter.winPoint +
        voter.val.votingPower * precisionForSelection / (losersVotingPower + voter.val.votingPower) }

/-- The weight of a voter with `winPoint` out of `totalWinPoint`: its share of
the total power, in `big.Int` with three more digits, then `Int64()`. -/
def votingWeightOf (totalVotingPower totalWinPoint winPoint : Int) : Int :=
  wrap (winPoint * precisionForSelection * totalVotingPower / totalWinPoint /
    precisionCorrectionForSelection)

/-- The loop that sets every voter's weight from its share of the win points. -/
def setVotingWeights (totalVotingPower : Int) (voters : List (Voter K)) : List (Voter K) :=
  let totalWinPoint := (voters.map (·.winPoint)).sum
  voters.map fun voter =>
    { voter with
      val := { voter.val with
        votingWeight := votingWeightOf totalVotingPower totalWinPoint voter.winPoint } }

/-- `totalVotingWeight`, summed in `int64` by the same loop. -/
def totalVotingWeightOf (voters : List (Voter K)) : Int :=
  voters.foldl (fun totalVotingWeight voter => add totalVotingWeight voter.val.votingWeight) 0

/-- The comparator of `sortVoters`: the larger weight per power first,
compared by cross-multiplying in `big.Int`, then the smaller address. -/
def voterLess (a b : Voter K) : Bool :=
  let bigA := a.val.votingWeight * b.val.votingPower
  let bigB := b.val.votingWeight * a.val.votingPower
  if bigA = bigB then compare a.val.address b.val.address == .lt else bigA > bigB

/-- `sortVoters`. -/
def sortVoters (voters : List (Voter K)) : List (Voter K) :=
  voters.insertionSort fun a b => voterLess b a = false

/-- The loop of `getTopByzantineVotingWeight` from the running power and
weight: it adds voters until the power first reaches
`tolerableByzantinePower`. -/
def getTopByzantineVotingWeightLoop (tolerableByzantinePower : Int) :
    Int → Int → List (Voter K) → Int
  | _, topFVotersVotingWeight, [] => topFVotersVotingWeight
  | topFVotersVotingPower, topFVotersVotingWeight, voter :: rest =>
    let prev := topFVotersVotingPower
    let topFVotersVotingPower := add topFVotersVotingPower voter.val.votingPower
    let topFVotersVotingWeight := add topFVotersVotingWeight voter.val.votingWeight
    if prev < tolerableByzantinePower ∧ topFVotersVotingPower ≥ tolerableByzantinePower then
      topFVotersVotingWeight
    else
      getTopByzantineVotingWeightLoop tolerableByzantinePower topFVotersVotingPower
        topFVotersVotingWeight rest

/-- `getTopByzantineVotingWeight`. -/
def getTopByzantineVotingWeight (voters : List (Voter K)) (tolerableByzantinePower : Int) : Int :=
  getTopByzantineVotingWeightLoop tolerableByzantinePower 0 0 voters

/-! ## The loop of `electVotersNonDup` -/

/-- The variables of the loop at the top of a pass. -/
structure ElectionState (K : Type) where
  seed : UInt64
  candidates : List (Validator K)
  voters : List (Voter K)
  losersVotingPower : Int
  deriving DecidableEq, Repr

/-- How a pass of the loop ends. -/
inductive PassResult (K : Type)
  /-- the loop goes on from this state -/
  | next (st : ElectionState K)
  /-- `electVotersNonDup` returns these validators -/
  | done (validators : List (Validator K))
  deriving DecidableEq, Repr

/-- The end of a pass that did not break: once every candidate with power is
a voter ("there is no voter group satisfying the finality"), all candidates
with their power as weight; otherwise the next pass. -/
def fallbackOrNext (zeroValidators : Nat) (st : ElectionState K) : PassResult K :=
  if st.voters.length + zeroValidators = st.candidates.length then
    .done (st.candidates.map fun c => { c with votingWeight := c.votingPower })
  else .next st

/-- One pass of the loop: accumulate win points, draw a winner, move it last,
recompute the weights, and break once enough voters hold the tolerable
power with less than a third of the weight. -/
def electStep (totalVotingPower tolerableByzantinePower minVoters : Int) (zeroValidators : Nat)
    (st : ElectionState K) : Option (PassResult K) :=
  let voters := accumulateWinPoints st.losersVotingPower st.voters
  match electVoter st.seed st.candidates (voters.length + zeroValidators) st.losersVotingPower with
  | none => none
  | some (seed, winnerIdx, winner) =>
    match moveWinnerToLast st.candidates winnerIdx with
    | none => none
    | some candidates =>
      let losersVotingPower := sub st.losersVotingPower winner.votingPower
      let voters := setVotingWeights totalVotingPower (voters ++ [⟨winner, precisionForSelection⟩])
      let totalVotingWeight := totalVotingWeightOf voters
      if minVoters ≤ voters.length then
        let voters := sortVoters voters
        if getTopByzantineVotingWeight voters tolerableByzantinePower < div totalVotingWeight 3 then
          some (.done (voters.map (·.val)))
        else some (fallbackOrNext zeroValidators ⟨seed, candidates, voters, losersVotingPower⟩)
      else some (fallbackOrNext zeroValidators ⟨seed, candidates, voters, losersVotingPower⟩)

/-- The `for` loop, with fuel.  Each pass elects a candidate with power, so
`len(candidates)` passes are enough (`electLoop_spec`). -/
def electLoop (totalVotingPower tolerableByzantinePower minVoters : Int) (zeroValidators : Nat) :
    Nat → ElectionState K → Option (List (Validator K))
  | 0, _ => none
  | fuel + 1, st =>
    match electStep totalVotingPower tolerableByzantinePower minVoters zeroValidators st with
    | none => none
    | some (.done validators) => some validators
    | some (.next st) =>
      electLoop totalVotingPower tolerableByzantinePower minVoters zeroValidators fuel st

/-- `electVotersNonDup`; `none` where Go panics.  `validatorListCopy` is the
identity on values. -/
def electVotersNonDup (validators : List (Validator K)) (seed : UInt64)
    (tolerableByzantinePercent minVoters : Int) : Option (List (Validator K)) :=
  if tolerableByzantinePercent ≥ bftMaxTolerableByzantinePercentage then none
  else
    let totalVotingPower := getTotalVotingPower validators
    let tolerableByzantinePower :=
      getTolerableByzantinePower totalVotingPower tolerableByzantinePercent
    let candidates := sortValidators validators
    match countZeroValidators candidates.reverse with
    | none => none
    | some zeroValidators =>
      electLoop totalVotingPower tolerableByzantinePower minVoters zeroValidators
        candidates.length ⟨seed, candidates, [], totalVotingPower⟩

/-! ## `SelectVoter` -/

/-- `VoterParams`; both fields are `int32`. -/
structure VoterParams where
  voterElectionThreshold : Int
  maxTolerableByzantinePercentage : Int
  deriving DecidableEq, Repr

/-- The errors of `VoterParams.Validate`. -/
inductive VoterParamsError
  /-- "the VoterElectionThreshold must be greater than or equal to 0. Got %d" -/
  | voterElectionThresholdNegative (got : Int)
  /-- "the MaxTolerableByzantinePercentage must be in between 1 and 33. Got %d" -/
  | maxTolerableByzantinePercentageOutOfRange (got : Int)
  deriving DecidableEq, Repr

/-- `VoterParams.Validate`. -/
def VoterParams.validate (vp : VoterParams) : Except VoterParamsError Unit :=
  if vp.voterElectionThreshold < 0 then .error (.voterElectionThresholdNegative vp.voterElectionThreshold)
  else if vp.maxTolerableByzantinePercentage ≤ 0 ∨ vp.maxTolerableByzantinePercentage ≥ 34 then
    .error (.maxTolerableByzantinePercentageOutOfRange vp.maxTolerableByzantinePercentage)
  else .ok ()

theorem VoterParams.percentage_pos_of_validate {vp : VoterParams} (h : vp.validate = .ok ()) :
    0 < vp.maxTolerableByzantinePercentage := by
  unfold VoterParams.validate at h
  split_ifs at h with hneg hrange
  omega

/-- `WrapValidatorsToVoterSet`: the validators sorted by
`ValidatorsByVotingPower`, with their total weight; `none` where
`updateTotalVotingWeight` panics. -/
def wrapValidatorsToVoterSet (vals : List (Validator K)) : Option (VoterSet K) :=
  let vals := vals.insertionSort fun a b => validatorsByVotingPowerLess b a = false
  (updateTotalVotingWeight 0 vals).map fun totalVotingWeight => ⟨vals, totalVotingWeight⟩

/-- `ToVoterAll`: every validator with power, its power as weight. -/
def toVoterAll (validators : List (Validator K)) : Option (VoterSet K) :=
  wrapValidatorsToVoterSet <| (validators.filter fun val => val.votingPower != 0).map
    fun val => { val with votingWeight := val.votingPower }

/-- `hashToSeed`: the first eight bytes of the hash, padded with zeros, read
little-endian. -/
def hashToSeed (hash : Bytes) : UInt64 :=
  let hash := hash ++ List.replicate (8 - hash.length) 0
  (hash.take 8).foldr (fun b seed => b.toUInt64 + seed * 256) 0

/-- `SelectVoter`, given the validators of the validator set. -/
def selectVoter (validators : List (Validator K)) (proofHash : Bytes) (voterParams : VoterParams) :
    Option (VoterSet K) :=
  if proofHash.length = 0 ∨ (validators.length : Int) ≤ voterParams.voterElectionThreshold ∨
      voterParams.maxTolerableByzantinePercentage ≥ bftMaxTolerableByzantinePercentage then
    toVoterAll validators
  else
    let seed := hashToSeed proofHash
    (electVotersNonDup validators seed voterParams.maxTolerableByzantinePercentage
      voterParams.voterElectionThreshold).bind wrapValidatorsToVoterSet

/-! ## What the parts compute -/

theorem three_mul_lt_of_lt_getTolerableByzantinePower {totalVotingPower p s : Int}
    (hT : 0 ≤ totalVotingPower) (hTmax : totalVotingPower ≤ maxTotalVotingPower) (hp : 0 ≤ p)
    (hp33 : p < bftMaxTolerableByzantinePercentage)
    (hs : s < getTolerableByzantinePower totalVotingPower p) : 3 * s < totalVotingPower := by
  unfold getTolerableByzantinePower at hs
  unfold bftMaxTolerableByzantinePercentage at hp33
  unfold maxTotalVotingPower maxInt64 at hTmax
  simp only at hs
  have hm0 : 0 ≤ totalVotingPower * p := Int.mul_nonneg hT hp
  have hm32 : totalVotingPower * p ≤ totalVotingPower * 32 :=
    Int.mul_le_mul_of_nonneg_left (by omega) hT
  generalize totalVotingPower * p = m at hs hm0 hm32
  -- the rounded-up quotient is small, so `Int64()` keeps it
  split_ifs at hs <;>
    rw [wrap_of_inInt64 (by unfold InInt64 minInt64 maxInt64; omega)] at hs <;> omega

theorem getTotalVotingPower_eq_sum {validators : List (Validator K)}
    (hnonneg : ∀ v ∈ validators, 0 ≤ v.votingPower)
    (hmax : (validators.map (·.votingPower)).sum ≤ maxInt64) :
    getTotalVotingPower validators = (validators.map (·.votingPower)).sum := by
  rw [getTotalVotingPower, foldl_add_of_nonneg (·.votingPower) validators le_rfl hnonneg
    (by omega), Int.zero_add]

section Addresses

/-! `bytes.Compare` is `compare` on byte lists, a total order. -/

variable {x y z : Bytes}

theorem compare_ne_lt_trans (h₁ : compare x y ≠ .lt) (h₂ : compare y z ≠ .lt) :
    compare x z ≠ .lt := by
  have h₁' : compare y x ≠ .gt := fun h => h₁ (Std.OrientedCmp.gt_iff_lt.mp h)
  have h₂' : compare z y ≠ .gt := fun h => h₂ (Std.OrientedCmp.gt_iff_lt.mp h)
  exact fun h => Std.TransCmp.le_trans h₂' h₁' (Std.OrientedCmp.gt_iff_lt.mpr h)

theorem compare_ne_lt_or (x y : Bytes) : compare x y ≠ .lt ∨ compare y x ≠ .lt := by
  by_cases h : compare x y = .lt
  · right
    rw [← Std.OrientedCmp.gt_iff_lt] at h
    rw [h]
    decide
  · exact .inl h

end Addresses

section SortValidators

variable {a b c : Validator K}

theorem validatorsByVotingPowerLess_eq_false_iff :
    validatorsByVotingPowerLess b a = false ↔
      b.votingPower < a.votingPower ∨
        (b.votingPower = a.votingPower ∧ compare b.address a.address ≠ .lt) := by
  unfold validatorsByVotingPowerLess
  by_cases heq : b.votingPower = a.votingPower
  · simp [heq]
  · rw [if_neg heq]
    simp only [heq, false_and, or_false, decide_eq_false_iff_not]
    omega

theorem votingPower_le_of_validatorsByVotingPowerLess (h : validatorsByVotingPowerLess b a = false) :
    b.votingPower ≤ a.votingPower := by
  rcases validatorsByVotingPowerLess_eq_false_iff.mp h with h | ⟨h, -⟩ <;> omega

theorem validatorsByVotingPowerLess_total (a b : Validator K) :
    validatorsByVotingPowerLess b a = false ∨ validatorsByVotingPowerLess a b = false := by
  simp only [validatorsByVotingPowerLess_eq_false_iff]
  rcases lt_trichotomy b.votingPower a.votingPower with hlt | heq | hgt
  · exact .inl (.inl hlt)
  · -- equal powers: one address is not before the other
    rcases compare_ne_lt_or b.address a.address with h | h
    · exact .inl (.inr ⟨heq, h⟩)
    · exact .inr (.inr ⟨heq.symm, h⟩)
  · exact .inr (.inl hgt)

theorem validatorsByVotingPowerLess_trans (h₁ : validatorsByVotingPowerLess b a = false)
    (h₂ : validatorsByVotingPowerLess c b = false) : validatorsByVotingPowerLess c a = false := by
  rw [validatorsByVotingPowerLess_eq_false_iff] at h₁ h₂ ⊢
  rcases h₁ with h₁ | ⟨h₁, hab⟩
  · omega
  · rcases h₂ with h₂ | ⟨h₂, hbc⟩
    · omega
    · exact .inr ⟨by omega, compare_ne_lt_trans hbc hab⟩

theorem sortValidators_pairwise (validators : List (Validator K)) :
    (sortValidators validators).Pairwise fun a b => b.votingPower ≤ a.votingPower :=
  (Knapsack.pairwise_insertionSort_of_mem _ (fun a _ b _ => validatorsByVotingPowerLess_total a b)
    (fun _ _ _ _ _ _ => validatorsByVotingPowerLess_trans)).imp
    votingPower_le_of_validatorsByVotingPowerLess

theorem sortValidators_perm (validators : List (Validator K)) :
    (sortValidators validators).Perm validators :=
  List.perm_insertionSort _ _

end SortValidators

theorem countZeroValidators_eq_some :
    ∀ {l : List (Validator K)} {zeroValidators : Nat}, countZeroValidators l = some zeroValidators →
      ∃ zeros y rest, l = zeros ++ y :: rest ∧ zeros.length = zeroValidators ∧
        (∀ a ∈ zeros, a.votingPower = 0) ∧ y.votingPower ≠ 0
  | [], _, h => nomatch h
  | candidate :: rest, zeroValidators, h => by
    unfold countZeroValidators at h
    split_ifs at h with hzero
    · obtain ⟨n, hn, rfl⟩ := Option.map_eq_some_iff.mp h
      obtain ⟨zeros, y, rest', rfl, rfl, hzeros, hy⟩ := countZeroValidators_eq_some hn
      refine ⟨candidate :: zeros, y, rest', rfl, rfl, ?_, hy⟩
      intro a ha
      rcases List.mem_cons.mp ha with rfl | ha
      · exact hzero
      · exact hzeros a ha
    · cases h
      exact ⟨[], candidate, rest, rfl, rfl, by simp, hzero⟩

theorem countZeroValidators_isSome :
    ∀ {l : List (Validator K)}, (∃ a ∈ l, a.votingPower ≠ 0) →
      ∃ zeroValidators, countZeroValidators l = some zeroValidators
  | [], ⟨_, ha, _⟩ => nomatch ha
  | candidate :: rest, ⟨a, ha, hpos⟩ => by
    unfold countZeroValidators
    split_ifs with hzero
    · -- the candidate with power lies further on
      have hrest : a ∈ rest := by
        rcases List.mem_cons.mp ha with rfl | ha
        · exact absurd hzero hpos
        · exact ha
      obtain ⟨n, hn⟩ := countZeroValidators_isSome ⟨a, hrest, hpos⟩
      exact ⟨n + 1, by rw [hn]; rfl⟩
    · exact ⟨0, rfl⟩

theorem randomThreshold_lt (seed total : UInt64) (htotal : 0 < total.toNat) :
    (randomThreshold seed total).2.toNat < total.toNat := by
  unfold randomThreshold
  generalize nextRandom seed = r
  obtain ⟨seed', random⟩ := r
  have hmaskv : uint64Mask.toNat = 9223372036854775807 := rfl
  have hmask : (random &&& uint64Mask).toNat ≤ uint64Mask.toNat := by
    rw [UInt64.toNat_and]
    exact Nat.and_le_right
  have hlt : (random &&& uint64Mask).toNat * total.toNat / (uint64Mask.toNat + 1) < total.toNat := by
    rw [Nat.div_lt_iff_lt_mul (by omega)]
    calc (random &&& uint64Mask).toNat * total.toNat
        ≤ uint64Mask.toNat * total.toNat := Nat.mul_le_mul_right _ hmask
      _ < (uint64Mask.toNat + 1) * total.toNat := Nat.mul_lt_mul_of_pos_right (by omega) htotal
      _ = total.toNat * (uint64Mask.toNat + 1) := Nat.mul_comm _ _
  have hsize := total.toNat_lt
  simp only [UInt64.toNat_ofNat']
  rw [Nat.mod_eq_of_lt (by omega)]
  exact hlt

theorem electVoterLoop_eq_some (threshold : UInt64) :
    ∀ (l : List (Validator K)) (i : Nat) (cumulativePriority : Int), 0 ≤ cumulativePriority →
      (∀ a ∈ l, 0 ≤ a.votingPower) →
      cumulativePriority + (l.map (·.votingPower)).sum ≤ maxInt64 →
      cumulativePriority ≤ threshold.toNat →
      threshold.toNat < cumulativePriority + (l.map (·.votingPower)).sum →
      ∃ j, ∃ hj : j < l.length,
        electVoterLoop threshold i cumulativePriority l = some (i + j, l[j]) ∧ 0 < l[j].votingPower
  | [], _, _, _, _, _, hle, hlt => by simp only [List.map_nil, List.sum_nil] at hlt; omega
  | candidate :: rest, i, cumulativePriority, hcum, hnonneg, hmax, hle, hlt => by
    have hc : 0 ≤ candidate.votingPower := hnonneg candidate List.mem_cons_self
    have hrest : 0 ≤ (rest.map (·.votingPower)).sum :=
      List.sum_nonneg (by simpa using fun a ha => hnonneg a (List.mem_cons_of_mem _ ha))
    simp only [List.map_cons, List.sum_cons] at hmax hlt
    have hadd : add cumulativePriority candidate.votingPower = cumulativePriority + candidate.votingPower :=
      add_of_inInt64 (by unfold InInt64 minInt64; omega)
    have hconv := toNat_uint64OfInt (x := cumulativePriority + candidate.votingPower) (by omega)
      (by omega)
    rw [electVoterLoop, hadd]
    by_cases hwin : threshold < UInt64.ofInt (cumulativePriority + candidate.votingPower)
    · -- the winner: the threshold was not passed before it, so it has power
      rw [if_pos hwin]
      rw [UInt64.lt_iff_toNat_lt, hconv] at hwin
      exact ⟨0, by simp, rfl, by simp only [List.getElem_cons_zero]; omega⟩
    · rw [if_neg hwin]
      rw [UInt64.lt_iff_toNat_lt, hconv] at hwin
      obtain ⟨j, hj, heq, hpos⟩ := electVoterLoop_eq_some threshold rest (i + 1)
        (cumulativePriority + candidate.votingPower) (by omega)
        (fun a ha => hnonneg a (List.mem_cons_of_mem _ ha)) (by omega) (by omega) (by omega)
      refine ⟨j + 1, by simp only [List.length_cons]; omega, ?_, hpos⟩
      rw [heq, List.getElem_cons_succ, Nat.add_right_comm, Nat.add_assoc]

theorem electVoter_eq_some (seed : UInt64) {rest tail : List (Validator K)}
    {losersVotingPower : Int} (hnonneg : ∀ a ∈ rest, 0 ≤ a.votingPower)
    (hlosers : losersVotingPower = (rest.map (·.votingPower)).sum) (hpos : 0 < losersVotingPower)
    (hmax : losersVotingPower ≤ maxInt64) :
    ∃ seed' j, ∃ hj : j < rest.length,
      electVoter seed (rest ++ tail) tail.length losersVotingPower = some (seed', j, rest[j]) ∧
        0 < rest[j].votingPower := by
  have hconv := toNat_uint64OfInt (x := losersVotingPower) (by omega) hmax
  have hthreshold := randomThreshold_lt seed (UInt64.ofInt losersVotingPower) (by omega)
  unfold electVoter
  generalize randomThreshold seed (UInt64.ofInt losersVotingPower) = r at hthreshold
  obtain ⟨seed', threshold⟩ := r
  rw [hconv] at hthreshold
  have htake : (rest ++ tail).take ((rest ++ tail).length - tail.length) = rest :=
    List.take_left' (by simp)
  obtain ⟨j, hj, heq, hj0⟩ := electVoterLoop_eq_some threshold rest 0 0 le_rfl hnonneg
    (by omega) (by omega) (by simp only at hthreshold; omega)
  refine ⟨seed', j, hj, ?_, hj0⟩
  simp only [htake, heq, Nat.zero_add, Option.map_some]

theorem moveWinnerToLast_eq {rest tail : List (Validator K)} {j : Nat} (hj : j < rest.length) :
    moveWinnerToLast (rest ++ tail) j = some (rest.eraseIdx j ++ tail ++ [rest[j]]) := by
  rw [moveWinnerToLast, List.getElem?_append_left hj, List.getElem?_eq_getElem hj, Option.map_some,
    List.eraseIdx_append_of_lt_length hj]

section WinPoints

variable {losersVotingPower totalVotingPower : Int} {voters : List (Voter K)}

@[simp] theorem length_accumulateWinPoints :
    (accumulateWinPoints losersVotingPower voters).length = voters.length := by
  simp [accumulateWinPoints]

theorem winPoint_accumulateWinPoints (hlosers : 0 ≤ losersVotingPower)
    (hvoters : ∀ v ∈ voters, 0 ≤ v.winPoint ∧ 0 ≤ v.val.votingPower) :
    ∀ v ∈ accumulateWinPoints losersVotingPower voters, 0 ≤ v.winPoint := by
  simp only [accumulateWinPoints, List.mem_map]
  rintro _ ⟨v, hv, rfl⟩
  obtain ⟨hwin, hpower⟩ := hvoters v hv
  have hgain : 0 ≤ v.val.votingPower * precisionForSelection / (losersVotingPower + v.val.votingPower) :=
    Int.ediv_nonneg (Int.mul_nonneg hpower (by decide)) (by omega)
  exact Int.add_nonneg hwin hgain

theorem mem_accumulateWinPoints {v : Voter K}
    (h : v ∈ accumulateWinPoints losersVotingPower voters) : ∃ u ∈ voters, v.val = u.val := by
  simp only [accumulateWinPoints, List.mem_map] at h
  obtain ⟨u, hu, rfl⟩ := h
  exact ⟨u, hu, rfl⟩

theorem mem_setVotingWeights {v : Voter K} (h : v ∈ setVotingWeights totalVotingPower voters) :
    ∃ u ∈ voters, v.winPoint = u.winPoint ∧ v.val.address = u.val.address ∧
      v.val.votingPower = u.val.votingPower := by
  simp only [setVotingWeights, List.mem_map] at h
  obtain ⟨u, hu, rfl⟩ := h
  exact ⟨u, hu, rfl, rfl, rfl⟩

theorem votingWeightOf_bounds {totalWinPoint winPoint : Int} (hT : 0 ≤ totalVotingPower)
    (hTmax : totalVotingPower ≤ maxInt64) (hwin : 0 ≤ winPoint) (hle : winPoint ≤ totalWinPoint)
    (htot : 0 < totalWinPoint) :
    0 ≤ votingWeightOf totalVotingPower totalWinPoint winPoint ∧
      votingWeightOf totalVotingPower totalWinPoint winPoint * totalWinPoint ≤
        totalVotingPower * winPoint := by
  unfold votingWeightOf precisionForSelection precisionCorrectionForSelection
  have hx : 0 ≤ winPoint * 1000 * totalVotingPower := Int.mul_nonneg (by omega) hT
  generalize hx' : winPoint * 1000 * totalVotingPower = x at hx
  have h1 : x / totalWinPoint * totalWinPoint ≤ x := Int.ediv_mul_le x (by omega)
  have h2 : x / totalWinPoint / 1000 * 1000 ≤ x / totalWinPoint := Int.ediv_mul_le _ (by decide)
  have hq : 0 ≤ x / totalWinPoint / 1000 := Int.ediv_nonneg (Int.ediv_nonneg hx htot.le) (by decide)
  -- the share, times the win points, is at most the power times the voter's win points
  have hshare : x / totalWinPoint / 1000 * totalWinPoint ≤ totalVotingPower * winPoint := by
    have h3 := Int.mul_le_mul_of_nonneg_right h2 htot.le
    have h4 : x / totalWinPoint / 1000 * totalWinPoint * 1000 ≤ totalVotingPower * winPoint * 1000 := by
      calc x / totalWinPoint / 1000 * totalWinPoint * 1000
          = x / totalWinPoint / 1000 * 1000 * totalWinPoint := by ring
        _ ≤ x := h3.trans h1
        _ = totalVotingPower * winPoint * 1000 := by rw [← hx']; ring
    exact Int.le_of_mul_le_mul_right h4 (by decide)
  have hbound : x / totalWinPoint / 1000 ≤ totalVotingPower := by
    have h5 : totalVotingPower * winPoint ≤ totalVotingPower * totalWinPoint :=
      Int.mul_le_mul_of_nonneg_left hle hT
    exact Int.le_of_mul_le_mul_right (by linarith) htot
  rw [wrap_of_inInt64 (by unfold InInt64 minInt64 maxInt64 at *; omega)]
  exact ⟨hq, hshare⟩

theorem votingWeight_setVotingWeights (hT : 0 ≤ totalVotingPower)
    (hTmax : totalVotingPower ≤ maxInt64) (hwin : ∀ v ∈ voters, 0 ≤ v.winPoint)
    (htot : 0 < (voters.map (·.winPoint)).sum) :
    (∀ v ∈ setVotingWeights totalVotingPower voters, 0 ≤ v.val.votingWeight) ∧
      ((setVotingWeights totalVotingPower voters).map (·.val.votingWeight)).sum ≤ totalVotingPower := by
  have hle : ∀ v ∈ voters, v.winPoint ≤ (voters.map (·.winPoint)).sum := fun v hv =>
    List.single_le_sum (by simpa using hwin) _ (List.mem_map_of_mem hv)
  have hbounds := fun v hv => votingWeightOf_bounds hT hTmax (hwin v hv) (hle v hv) htot
  have hweights : (setVotingWeights totalVotingPower voters).map (·.val.votingWeight) =
      voters.map fun v => votingWeightOf totalVotingPower (voters.map (·.winPoint)).sum v.winPoint := by
    simp [setVotingWeights]
  constructor
  · simp only [setVotingWeights, List.mem_map]
    rintro _ ⟨v, hv, rfl⟩
    exact (hbounds v hv).1
  · -- the shares add up to at most one: sum them times the total win points
    rw [hweights]
    have hsum : (voters.map fun v =>
          votingWeightOf totalVotingPower (voters.map (·.winPoint)).sum v.winPoint).sum *
          (voters.map (·.winPoint)).sum ≤ totalVotingPower * (voters.map (·.winPoint)).sum :=
      Knapsack.sum_mul_le_mul_sum _ _ fun v hv => (hbounds v hv).2
    exact Int.le_of_mul_le_mul_right hsum htot

theorem totalVotingWeightOf_eq_sum (hnonneg : ∀ v ∈ voters, 0 ≤ v.val.votingWeight)
    (hmax : (voters.map (·.val.votingWeight)).sum ≤ maxInt64) :
    totalVotingWeightOf voters = (voters.map (·.val.votingWeight)).sum := by
  rw [totalVotingWeightOf, foldl_add_of_nonneg (·.val.votingWeight) voters le_rfl hnonneg
    (by omega), Int.zero_add]

end WinPoints

section SortVoters

variable {a b c : Voter K}

theorem voterLess_eq_false_iff :
    voterLess b a = false ↔
      b.val.votingWeight * a.val.votingPower < a.val.votingWeight * b.val.votingPower ∨
        (b.val.votingWeight * a.val.votingPower = a.val.votingWeight * b.val.votingPower ∧
          compare b.val.address a.val.address ≠ .lt) := by
  unfold voterLess
  by_cases heq : b.val.votingWeight * a.val.votingPower = a.val.votingWeight * b.val.votingPower
  · simp [heq]
  · simp only
    rw [if_neg heq]
    simp only [heq, false_and, or_false, decide_eq_false_iff_not]
    omega

theorem ratioGe_of_voterLess (h : voterLess b a = false) :
    Knapsack.RatioGe (fun v : Voter K => v.val.votingWeight) (fun v => v.val.votingPower) a b := by
  show b.val.votingWeight * a.val.votingPower ≤ a.val.votingWeight * b.val.votingPower
  rcases voterLess_eq_false_iff.mp h with h | ⟨h, -⟩ <;> omega

theorem voterLess_total (a b : Voter K) : voterLess b a = false ∨ voterLess a b = false := by
  simp only [voterLess_eq_false_iff]
  rcases lt_trichotomy (b.val.votingWeight * a.val.votingPower)
    (a.val.votingWeight * b.val.votingPower) with hlt | heq | hgt
  · exact .inl (.inl hlt)
  · -- equal ratios: one address is not before the other
    rcases compare_ne_lt_or b.val.address a.val.address with h | h
    · exact .inl (.inr ⟨heq, h⟩)
    · exact .inr (.inr ⟨heq.symm, h⟩)
  · exact .inr (.inl hgt)

theorem voterLess_trans (ha : 0 < a.val.votingPower) (hb : 0 < b.val.votingPower)
    (hc : 0 < c.val.votingPower) (h₁ : voterLess b a = false) (h₂ : voterLess c b = false) :
    voterLess c a = false := by
  rw [voterLess_eq_false_iff] at h₁ h₂ ⊢
  -- scale both comparisons to the common denominator of the three powers
  have hab : b.val.votingWeight * a.val.votingPower * c.val.votingPower ≤
      a.val.votingWeight * b.val.votingPower * c.val.votingPower :=
    Int.mul_le_mul_of_nonneg_right (by rcases h₁ with h | ⟨h, -⟩ <;> omega) hc.le
  have hbc : c.val.votingWeight * b.val.votingPower * a.val.votingPower ≤
      b.val.votingWeight * c.val.votingPower * a.val.votingPower :=
    Int.mul_le_mul_of_nonneg_right (by rcases h₂ with h | ⟨h, -⟩ <;> omega) ha.le
  rcases h₁ with h₁ | ⟨h₁, hba⟩
  · left
    have hab' : b.val.votingWeight * a.val.votingPower * c.val.votingPower <
        a.val.votingWeight * b.val.votingPower * c.val.votingPower :=
      Int.mul_lt_mul_of_pos_right h₁ hc
    nlinarith
  · rcases h₂ with h₂ | ⟨h₂, hcb⟩
    · left
      have hbc' : c.val.votingWeight * b.val.votingPower * a.val.votingPower <
          b.val.votingWeight * c.val.votingPower * a.val.votingPower :=
        Int.mul_lt_mul_of_pos_right h₂ ha
      nlinarith
    · right
      refine ⟨?_, compare_ne_lt_trans hcb hba⟩
      have heq : c.val.votingWeight * a.val.votingPower * b.val.votingPower =
          a.val.votingWeight * c.val.votingPower * b.val.votingPower := by
        calc c.val.votingWeight * a.val.votingPower * b.val.votingPower
            = (c.val.votingWeight * b.val.votingPower) * a.val.votingPower := by ring
          _ = (b.val.votingWeight * c.val.votingPower) * a.val.votingPower := by rw [h₂]
          _ = (b.val.votingWeight * a.val.votingPower) * c.val.votingPower := by ring
          _ = (a.val.votingWeight * b.val.votingPower) * c.val.votingPower := by rw [h₁]
          _ = a.val.votingWeight * c.val.votingPower * b.val.votingPower := by ring
      exact Int.eq_of_mul_eq_mul_right hb.ne' heq

theorem sortVoters_pairwise {voters : List (Voter K)} (hpos : ∀ v ∈ voters, 0 < v.val.votingPower) :
    (sortVoters voters).Pairwise
      (Knapsack.RatioGe (fun v : Voter K => v.val.votingWeight) (fun v => v.val.votingPower)) :=
  (Knapsack.pairwise_insertionSort_of_mem _ (fun a _ b _ => voterLess_total a b)
    (fun a ha b hb c hc => voterLess_trans (hpos a ha) (hpos b hb) (hpos c hc))).imp
    ratioGe_of_voterLess

theorem sortVoters_perm (voters : List (Voter K)) : (sortVoters voters).Perm voters :=
  List.perm_insertionSort _ _

end SortVoters

/-- `getTopByzantineVotingWeight` from running totals `P` and `Q`: either it
stops at the first voter `x` with which the power reaches the tolerable
power, returning the weight up to and including `x`, or it adds all the
weight. -/
theorem getTopByzantineVotingWeightLoop_cases (tol : Int) :
    ∀ (l : List (Voter K)) (P Q : Int), 0 ≤ P → 0 ≤ Q →
      (∀ v ∈ l, 0 ≤ v.val.votingPower ∧ 0 ≤ v.val.votingWeight) →
      P + (l.map (·.val.votingPower)).sum ≤ maxInt64 →
      Q + (l.map (·.val.votingWeight)).sum ≤ maxInt64 →
      (∃ G x H, l = G ++ x :: H ∧ P + (G.map (·.val.votingPower)).sum < tol ∧
          tol ≤ P + (G.map (·.val.votingPower)).sum + x.val.votingPower ∧
          getTopByzantineVotingWeightLoop tol P Q l =
            Q + (G.map (·.val.votingWeight)).sum + x.val.votingWeight) ∨
        getTopByzantineVotingWeightLoop tol P Q l = Q + (l.map (·.val.votingWeight)).sum
  | [], _, _, _, _, _, _, _ => .inr (by simp [getTopByzantineVotingWeightLoop])
  | v :: rest, P, Q, hP, hQ, hnonneg, hPmax, hQmax => by
    obtain ⟨hp, hw⟩ := hnonneg v List.mem_cons_self
    have hrest : ∀ u ∈ rest, 0 ≤ u.val.votingPower ∧ 0 ≤ u.val.votingWeight :=
      fun u hu => hnonneg u (List.mem_cons_of_mem _ hu)
    have hpr : 0 ≤ (rest.map (·.val.votingPower)).sum :=
      List.sum_nonneg (by simpa using fun u hu => (hrest u hu).1)
    have hwr : 0 ≤ (rest.map (·.val.votingWeight)).sum :=
      List.sum_nonneg (by simpa using fun u hu => (hrest u hu).2)
    simp only [List.map_cons, List.sum_cons] at hPmax hQmax ⊢
    have haddP : add P v.val.votingPower = P + v.val.votingPower :=
      add_of_inInt64 (by unfold InInt64 minInt64; omega)
    have haddQ : add Q v.val.votingWeight = Q + v.val.votingWeight :=
      add_of_inInt64 (by unfold InInt64 minInt64; omega)
    rw [getTopByzantineVotingWeightLoop, haddP, haddQ]
    by_cases hcross : P < tol ∧ P + v.val.votingPower ≥ tol
    · -- the power reaches the tolerable power at `v`
      rw [if_pos hcross]
      exact .inl ⟨[], v, rest, rfl, by simpa using hcross.1, by simpa using hcross.2, by simp⟩
    · rw [if_neg hcross]
      rcases getTopByzantineVotingWeightLoop_cases tol rest (P + v.val.votingPower)
          (Q + v.val.votingWeight) (by omega) (by omega) hrest
          (by omega) (by omega) with ⟨G, x, H, rfl, hlt, hge, heq⟩ | heq
      · refine .inl ⟨v :: G, x, H, rfl, ?_, ?_, ?_⟩ <;> simp only [List.map_cons, List.sum_cons]
        · omega
        · omega
        · rw [heq]; omega
      · exact .inr (by rw [heq]; omega)

end Ostracon.Types
