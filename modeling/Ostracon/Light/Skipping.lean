import Ostracon.Light.Verifier
import Mathlib.Data.List.Chain
/-!
# `light/client.go`: skipping verification

`verifySkipping` verifies a new light block from a trusted one through
pivots.  It keeps a cache of blocks with the new block at its bottom and a
cursor `depth` into it.  When the block under the cursor verifies against the
last verified block, that block is verified and the cache is cut below it;
when it cannot be trusted yet, the cursor moves up the cache, and at its top
the provider is asked for a pivot `9/16` of the way up.  The pivot goes into
the cache twice: the `nil` case of the provider's `switch` appends it and so
does the line after the `switch`.

The loop is `skipStep`, run with fuel by `skipLoop`; the provider answers a
height given the heights it was asked before, so that it may be any party.

* `skipLoop_trace`: a trace returned starts at the trusted block, ends at the
  new one, and each block in it verifies against the one before.
* `skipLoop_returns`: from a trusted block of height at least `0` the loop
  returns within `(2D + 3) D` passes and `D` requests, `D` the difference of
  the heights.  It rests on `skipMeasure`, which every pass lowers, and on
  `Verify` failing to trust only blocks two above (`verify_cantTrust_height`),
  so that each pivot lies strictly between the last verified block and the
  top of the cache (`pivotHeight_lt`) — or, where the `int64` product wraps,
  at or below the verified block, where the next pass fails.
-/

namespace Ostracon.Light

open GoInt

variable {B : Type}

/-! ## The model -/

/-- `verifySkippingNumerator`. -/
def verifySkippingNumerator : Int := 9

/-- `verifySkippingDenominator`. -/
def verifySkippingDenominator : Int := 16

/-- The errors of `provider.Provider.LightBlock`. -/
inductive ProviderError
  /-- `ErrHeightTooHigh` -/
  | heightTooHigh
  /-- `ErrLightBlockNotFound` -/
  | lightBlockNotFound
  /-- `ErrNoResponse` -/
  | noResponse
  /-- `ErrBadLightBlock` -/
  | badLightBlock (reason : String)
  /-- `ErrUnreliableProvider` and every other error -/
  | other (reason : String)
  deriving DecidableEq, Repr

/-- The errors after which the client keeps its primary. -/
def ProviderError.isBenign : ProviderError → Bool
  | .lightBlockNotFound | .noResponse | .heightTooHigh => true
  | _ => false

/-- The errors of `verifySkipping`. -/
inductive SkippingError
  /-- `return nil, err`, with the error of `Verify`, after a benign provider error -/
  | verify (err : VerifyError)
  /-- `ErrVerificationFailed{From, To, Reason}` -/
  | verificationFailed (fromHeight toHeight : Int) (reason : VerifyError ⊕ ProviderError)
  deriving DecidableEq, Repr

/-- The variables of the loop of `verifySkipping`, and the heights asked of
the provider so far. -/
structure SkipState (B : Type) where
  blockCache : List (LightBlock B)
  depth : Nat
  verifiedBlock : LightBlock B
  trace : List (LightBlock B)
  requests : List Int

/-- How one pass of the loop ends. -/
inductive SkipOutcome (B : Type)
  | next (st : SkipState B)
  | done (result : Except SkippingError (List (LightBlock B))) (requests : List Int)
  /-- `blockCache[depth]` out of range -/
  | panic

/-- `pivotHeight`, in `int64`. -/
def pivotHeight (verifiedHeight height : Int) : Int :=
  add verifiedHeight
    (div (mul (sub height verifiedHeight) verifySkippingNumerator) verifySkippingDenominator)

section Loop

variable (checks : VerifyChecks B) (source : List Int → Int → Except ProviderError (LightBlock B))

/-- One pass of the `for` loop of `verifySkipping`. -/
def skipStep (newLightBlock : LightBlock B) (st : SkipState B) : SkipOutcome B :=
  match st.blockCache[st.depth]? with
  | none => .panic
  | some block =>
    match verify checks st.verifiedBlock block with
    | .ok () =>
      if st.depth = 0 then .done (.ok (st.trace ++ [newLightBlock])) st.requests
      else
        .next { st with verifiedBlock := block, blockCache := st.blockCache.take st.depth, depth := 0,
                        trace := st.trace ++ [block] }
    | .error .newValSetCantBeTrusted =>
      if st.depth = st.blockCache.length - 1 then
        let pivot := pivotHeight st.verifiedBlock.height block.height
        match source st.requests pivot with
        | .ok interimBlock =>
          .next { st with blockCache := st.blockCache ++ [interimBlock, interimBlock],
                          depth := st.depth + 1, requests := st.requests ++ [pivot] }
        | .error err =>
          if err.isBenign then .done (.error (.verify .newValSetCantBeTrusted)) (st.requests ++ [pivot])
          else .done (.error (.verificationFailed st.verifiedBlock.height pivot (.inr err)))
            (st.requests ++ [pivot])
      else .next { st with depth := st.depth + 1 }
    | .error err =>
      .done (.error (.verificationFailed st.verifiedBlock.height block.height (.inl err))) st.requests

/-- The loop, with fuel; `none` where the fuel runs out or Go panics. -/
def skipLoop (newLightBlock : LightBlock B) : Nat → SkipState B →
    Option (Except SkippingError (List (LightBlock B)) × List Int)
  | 0, _ => none
  | fuel + 1, st =>
    match skipStep checks source newLightBlock st with
    | .next st => skipLoop newLightBlock fuel st
    | .done result requests => some (result, requests)
    | .panic => none

/-- The variables as `verifySkipping` declares them. -/
def initState (trustedBlock newLightBlock : LightBlock B) : SkipState B :=
  ⟨[newLightBlock], 0, trustedBlock, [trustedBlock], []⟩

/-- `verifySkipping`: the trace or the error, and the heights asked of the
provider. -/
def verifySkipping (trustedBlock newLightBlock : LightBlock B) (fuel : Nat) :
    Option (Except SkippingError (List (LightBlock B)) × List Int) :=
  skipLoop checks source newLightBlock fuel (initState trustedBlock newLightBlock)

end Loop

/-! ## The pivot -/

theorem tdiv_sixteen (m : Int) :
    m / 16 ≤ m.tdiv 16 ∧ m.tdiv 16 ≤ m / 16 + 1 ∧ (0 ≤ m → m.tdiv 16 = m / 16) := by
  rw [Int.tdiv_eq_ediv, Int.sign_eq_one_of_pos (by decide : (0 : Int) < 16)]
  refine ⟨?_, ?_, fun hm => ?_⟩ <;> split_ifs <;> omega

theorem pivotHeight_lt {v b : Int} (hv : 0 ≤ v) (hvb : v + 2 ≤ b) (hb : b ≤ maxInt64) :
    pivotHeight v b < b := by
  have hs : sub b v = b - v := sub_of_inInt64 (by unfold InInt64 minInt64; omega)
  have hm : InInt64 (mul (b - v) 9) := wrap_inInt64 _
  unfold pivotHeight verifySkippingNumerator verifySkippingDenominator
  rw [hs, div_of_inInt64 hm (by decide)]
  -- the quotient stays below `b - v`: exactly `9/16` of it, or at most a
  -- sixteenth of `MaxInt64` where the product wraps
  have hq : (mul (b - v) 9).tdiv 16 < b - v := by
    obtain ⟨-, hhi, hnn⟩ := tdiv_sixteen (mul (b - v) 9)
    by_cases hfit : (b - v) * 9 ≤ maxInt64
    · rw [mul_of_inInt64 (by unfold InInt64 minInt64; omega)] at hhi hnn ⊢
      omega
    · unfold InInt64 minInt64 at hm
      unfold maxInt64 at hm hfit
      omega
  have hq' : -(2 ^ 59) ≤ (mul (b - v) 9).tdiv 16 := by
    obtain ⟨hlo, -, -⟩ := tdiv_sixteen (mul (b - v) 9)
    unfold InInt64 minInt64 maxInt64 at hm
    omega
  rw [add_of_inInt64 (by unfold InInt64 minInt64 maxInt64 at *; omega)]
  omega

/-! ## What one pass can do -/

section Steps

variable (checks : VerifyChecks B) (source : List Int → Int → Except ProviderError (LightBlock B))

theorem skipStep_cases {newLightBlock : LightBlock B} {st : SkipState B} {o : SkipOutcome B}
    (h : skipStep checks source newLightBlock st = o) :
    st.blockCache[st.depth]? = none ∧ o = .panic ∨
    ∃ block, st.blockCache[st.depth]? = some block ∧
      (verify checks st.verifiedBlock block = .ok () ∧ st.depth = 0 ∧
          o = .done (.ok (st.trace ++ [newLightBlock])) st.requests ∨
        verify checks st.verifiedBlock block = .ok () ∧ st.depth ≠ 0 ∧
          o = .next { st with verifiedBlock := block, blockCache := st.blockCache.take st.depth,
                              depth := 0, trace := st.trace ++ [block] } ∨
        verify checks st.verifiedBlock block = .error .newValSetCantBeTrusted ∧
          st.depth = st.blockCache.length - 1 ∧
          ((∃ interimBlock,
              source st.requests (pivotHeight st.verifiedBlock.height block.height) = .ok interimBlock ∧
              o = .next { st with blockCache := st.blockCache ++ [interimBlock, interimBlock],
                                  depth := st.depth + 1,
                                  requests := st.requests ++ [pivotHeight st.verifiedBlock.height block.height] }) ∨
            ∃ err, o = .done (.error err) (st.requests ++ [pivotHeight st.verifiedBlock.height block.height])) ∨
        verify checks st.verifiedBlock block = .error .newValSetCantBeTrusted ∧
          st.depth ≠ st.blockCache.length - 1 ∧ o = .next { st with depth := st.depth + 1 } ∨
        (∃ err, verify checks st.verifiedBlock block = .error err ∧ err ≠ .newValSetCantBeTrusted) ∧
          ∃ err, o = .done (.error err) st.requests) := by
  cases hblock : st.blockCache[st.depth]? with
  | none =>
    refine .inl ⟨rfl, ?_⟩
    rw [← h]
    simp [skipStep, hblock]
  | some block =>
    refine .inr ⟨block, rfl, ?_⟩
    cases hverify : verify checks st.verifiedBlock block with
    | ok u =>
      cases u
      by_cases hdepth : st.depth = 0
      · exact .inl ⟨rfl, hdepth, by rw [← h]; simp only [skipStep, hblock, hverify]; simp [hdepth]⟩
      · exact .inr (.inl ⟨rfl, hdepth, by rw [← h]; simp only [skipStep, hblock, hverify]; simp [hdepth]⟩)
    | error err =>
      by_cases herr : err = .newValSetCantBeTrusted
      · subst herr
        by_cases htop : st.depth = st.blockCache.length - 1
        · refine .inr (.inr (.inl ⟨rfl, htop, ?_⟩))
          cases hsource : source st.requests (pivotHeight st.verifiedBlock.height block.height) with
          | ok interimBlock =>
            exact .inl ⟨interimBlock, rfl, by rw [← h]; simp only [skipStep, hblock, hverify]; simp [htop, hsource]⟩
          | error perr =>
            refine .inr ?_
            rw [← h]
            simp only [skipStep, hblock, hverify]
            by_cases hbenign : perr.isBenign <;> simp [htop, hsource, hbenign]
        · exact .inr (.inr (.inr (.inl ⟨rfl, htop, by rw [← h]; simp only [skipStep, hblock, hverify]; simp [htop]⟩)))
      · -- every other error of `Verify` ends the loop
        refine .inr (.inr (.inr (.inr ⟨⟨err, rfl, herr⟩, ?_⟩)))
        rw [← h]
        simp only [skipStep, hblock, hverify]
        cases err <;> first | exact absurd rfl herr | exact ⟨_, rfl⟩

end Steps

/-! ## The trace -/

section Trace

variable (checks : VerifyChecks B) (source : List Int → Int → Except ProviderError (LightBlock B))
  {trustedBlock newLightBlock : LightBlock B}

/-- What the loop keeps of its trace: it runs from the trusted block to the
last verified one, each block verified against the one before, and the new
block stays at the bottom of the cache. -/
structure TraceInv (trustedBlock newLightBlock : LightBlock B) (st : SkipState B) : Prop where
  head_cache : st.blockCache.head? = some newLightBlock
  head_trace : st.trace.head? = some trustedBlock
  last_trace : st.trace.getLast? = some st.verifiedBlock
  chain : st.trace.IsChain fun a b => verify checks a b = .ok ()

theorem TraceInv.init : TraceInv checks trustedBlock newLightBlock (initState trustedBlock newLightBlock) :=
  ⟨rfl, rfl, rfl, List.IsChain.singleton _⟩

theorem TraceInv.chain_append {st : SkipState B} {block : LightBlock B}
    (hinv : TraceInv checks trustedBlock newLightBlock st) (hok : verify checks st.verifiedBlock block = .ok ()) :
    (st.trace ++ [block]).IsChain fun a b => verify checks a b = .ok () := by
  refine hinv.chain.append (List.IsChain.singleton _) fun x hx y hy => ?_
  rw [hinv.last_trace, Option.mem_some_iff] at hx
  rw [List.head?_cons, Option.mem_some_iff] at hy
  rw [← hx, ← hy]
  exact hok

theorem TraceInv.step {st st' : SkipState B} (hinv : TraceInv checks trustedBlock newLightBlock st)
    (h : skipStep checks source newLightBlock st = .next st') : TraceInv checks trustedBlock newLightBlock st' := by
  have hhead : ∀ l, (st.trace ++ l).head? = some trustedBlock := fun l => by
    rw [List.head?_append, hinv.head_trace]
    rfl
  rcases skipStep_cases checks source h with ⟨-, h⟩ | ⟨block, -, ⟨-, -, h⟩ | ⟨hok, hdepth, h⟩ |
      ⟨-, -, ⟨interimBlock, -, h⟩ | ⟨err, h⟩⟩ | ⟨-, -, h⟩ | ⟨-, err, h⟩⟩
  · cases h
  · cases h
  · -- the block verified becomes the lower bound, and the cache is cut below it
    cases h
    refine ⟨?_, hhead _, List.getLast?_concat, hinv.chain_append checks hok⟩
    rw [List.head?_take, if_neg hdepth, hinv.head_cache]
  · -- a pivot goes on top of the cache
    cases h
    refine ⟨?_, hinv.head_trace, hinv.last_trace, hinv.chain⟩
    rw [List.head?_append, hinv.head_cache]
    rfl
  · cases h
  · cases h
    exact ⟨hinv.head_cache, hinv.head_trace, hinv.last_trace, hinv.chain⟩
  · cases h

theorem TraceInv.done {st : SkipState B} {trace : List (LightBlock B)} {requests : List Int}
    (hinv : TraceInv checks trustedBlock newLightBlock st)
    (h : skipStep checks source newLightBlock st = .done (.ok trace) requests) :
    trace.head? = some trustedBlock ∧ trace.getLast? = some newLightBlock ∧
      trace.IsChain fun a b => verify checks a b = .ok () := by
  rcases skipStep_cases checks source h with ⟨-, h⟩ | ⟨block, hblock, ⟨hok, hdepth, h⟩ | ⟨-, -, h⟩ |
      ⟨-, -, ⟨interimBlock, -, h⟩ | ⟨err, h⟩⟩ | ⟨-, -, h⟩ | ⟨-, err, h⟩⟩
  · cases h
  · cases h
    -- the cursor is at the bottom, where the new block lies
    have hnew : block = newLightBlock := by
      rw [hdepth, ← List.head?_eq_getElem?, hinv.head_cache] at hblock
      exact (Option.some.inj hblock).symm
    subst hnew
    refine ⟨?_, List.getLast?_concat, hinv.chain_append checks hok⟩
    rw [List.head?_append, hinv.head_trace]
    rfl
  all_goals cases h

/-- A trace that the loop returns runs from the trusted block to the new one
through blocks each verified against the one before, so at increasing
heights. -/
theorem skipLoop_trace : ∀ (fuel : Nat) {st : SkipState B} {trace : List (LightBlock B)} {requests : List Int},
    TraceInv checks trustedBlock newLightBlock st →
    skipLoop checks source newLightBlock fuel st = some (.ok trace, requests) →
    trace.head? = some trustedBlock ∧ trace.getLast? = some newLightBlock ∧
      trace.IsChain fun a b => verify checks a b = .ok ()
  | 0, _, _, _, _, h => by simp [skipLoop] at h
  | fuel + 1, st, trace, requests, hinv, h => by
    unfold skipLoop at h
    cases hstep : skipStep checks source newLightBlock st with
    | next st' =>
      rw [hstep] at h
      exact skipLoop_trace fuel (hinv.step checks source hstep) h
    | done result requests' =>
      rw [hstep] at h
      obtain ⟨rfl, rfl⟩ := Prod.mk.inj (Option.some.inj h)
      exact hinv.done checks source hstep
    | panic =>
      rw [hstep] at h
      cases h

end Trace

/-! ## The cache -/

/-- Each pivot twice, as the cache holds the pivots above the new block. -/
def doubled {α : Type} : List α → List α
  | [] => []
  | a :: l => a :: a :: doubled l

section Doubled

variable {α : Type}

@[simp] theorem length_doubled (l : List α) : (doubled l).length = 2 * l.length := by
  induction l with
  | nil => rfl
  | cons a l ih =>
    simp only [doubled, List.length_cons, ih]
    omega

theorem doubled_append_singleton (l : List α) (a : α) : doubled (l ++ [a]) = doubled l ++ [a, a] := by
  induction l with
  | nil => rfl
  | cons b l ih => simp [doubled, ih]

theorem getElem?_doubled_two_mul : ∀ (l : List α) (i : Nat), (doubled l)[2 * i]? = l[i]?
  | [], _ => rfl
  | _ :: _, 0 => rfl
  | _ :: l, i + 1 => by
    rw [show 2 * (i + 1) = 2 * i + 1 + 1 by omega]
    simp only [doubled, List.getElem?_cons_succ]
    exact getElem?_doubled_two_mul l i

theorem getElem?_doubled_two_mul_add_one : ∀ (l : List α) (i : Nat), (doubled l)[2 * i + 1]? = l[i]?
  | [], _ => rfl
  | _ :: _, 0 => rfl
  | _ :: l, i + 1 => by
    rw [show 2 * (i + 1) + 1 = 2 * i + 1 + 1 + 1 by omega]
    simp only [doubled, List.getElem?_cons_succ]
    exact getElem?_doubled_two_mul_add_one l i

theorem take_doubled : ∀ (l : List α) (i : Nat), (doubled l).take (2 * i) = doubled (l.take i)
  | [], _ => by simp [doubled]
  | _ :: _, 0 => rfl
  | _ :: l, i + 1 => by
    rw [show 2 * (i + 1) = 2 * i + 1 + 1 by omega]
    simp [doubled, take_doubled l i]

theorem getElem?_top : ∀ (a : α) (l : List α),
    (a :: doubled l)[2 * l.length]? = some ((a :: l).getLast (List.cons_ne_nil _ _))
  | _, [] => rfl
  | _, b :: l => by
    rw [List.length_cons, show 2 * (l.length + 1) = 2 * l.length + 1 + 1 by omega]
    simp only [doubled, List.getElem?_cons_succ]
    rw [getElem?_top b l, List.getLast_cons (List.cons_ne_nil _ _)]

end Doubled

theorem length_le_of_pairwise {l : List (LightBlock B)} {lo hi : Int}
    (hl : l.Pairwise fun a b => b.height < a.height) (hbound : ∀ p ∈ l, lo < p.height ∧ p.height < hi)
    (hlohi : lo < hi) : (l.length : Int) ≤ hi - lo - 1 := by
  induction l generalizing hi with
  | nil =>
    simp only [List.length_nil, Nat.cast_zero]
    omega
  | cons p l ih =>
    -- the rest lies below the head
    obtain ⟨hp, hl⟩ := List.pairwise_cons.mp hl
    have hpb := hbound p List.mem_cons_self
    have hrest := ih hl (fun q hq => ⟨(hbound q (List.mem_cons_of_mem _ hq)).1, hp q hq⟩) hpb.1
    simp only [List.length_cons, Nat.cast_add, Nat.cast_one]
    omega

theorem getLast_le_of_pairwise {l : List (LightBlock B)} (hl : l.Pairwise fun a b => b.height < a.height)
    (hne : l ≠ []) : ∀ a ∈ l, (l.getLast hne).height ≤ a.height := by
  intro a ha
  rw [← List.dropLast_append_getLast hne] at hl ha
  rcases List.mem_append.mp ha with ha | ha
  · exact Int.le_of_lt ((List.pairwise_append.mp hl).2.2 a ha _ (List.mem_singleton_self _))
  · rw [List.mem_singleton.mp ha]

/-! ## Termination -/

/-- The measure of a pass: the gap to the new block, weighted above every
other part, the heights between the verified block and the new one that no
pivot holds, and the places the cursor can still move up. -/
def skipMeasure (trustedBlock newLightBlock : LightBlock B) (pivots : List (LightBlock B))
    (st : SkipState B) : Int :=
  (2 * (newLightBlock.height - trustedBlock.height) + 1) * (newLightBlock.height - st.verifiedBlock.height) +
    2 * (newLightBlock.height - st.verifiedBlock.height - 1 - pivots.length) + (2 * pivots.length - st.depth)

/-- The passes the loop needs from a gap of `gap` heights. -/
def skippingFuel (gap : Nat) : Nat := (2 * gap + 3) * gap

section Termination

variable (checks : VerifyChecks B) (source : List Int → Int → Except ProviderError (LightBlock B))
  {trustedBlock newLightBlock : LightBlock B}

/-- What the loop keeps for its termination, with `pivots` the pivots in the
cache: the cache holds the new block and each pivot twice, at heights
decreasing from the new block and above the verified block; every block
below the cursor failed to be trusted from the verified block; and each
request filled a height that no pivot holds. -/
structure SkipInv (trustedBlock newLightBlock : LightBlock B) (pivots : List (LightBlock B))
    (st : SkipState B) : Prop where
  cache : st.blockCache = newLightBlock :: doubled pivots
  decreasing : (newLightBlock :: pivots).Pairwise fun a b => b.height < a.height
  above : ∀ p ∈ newLightBlock :: pivots, st.verifiedBlock.height < p.height
  start : trustedBlock.height ≤ st.verifiedBlock.height
  depth_le : st.depth ≤ 2 * pivots.length
  tried : ∀ j < st.depth, ∀ b, st.blockCache[j]? = some b →
    verify checks st.verifiedBlock b = .error .newValSetCantBeTrusted
  requests : (st.requests.length : Int) +
      (newLightBlock.height - st.verifiedBlock.height - 1 - pivots.length) ≤
    newLightBlock.height - trustedBlock.height - 1

theorem SkipInv.init (hlt : trustedBlock.height < newLightBlock.height) :
    SkipInv checks trustedBlock newLightBlock [] (initState trustedBlock newLightBlock) where
  cache := rfl
  decreasing := List.pairwise_singleton _ _
  above := fun p hp => by
    rw [List.mem_singleton.mp hp]
    exact hlt
  start := Int.le_refl _
  depth_le := Nat.le_refl _
  tried := fun _ hj => absurd hj (Nat.not_lt_zero _)
  requests := by simp [initState]

variable {checks}

theorem SkipInv.length_le {pivots : List (LightBlock B)} {st : SkipState B}
    (hinv : SkipInv checks trustedBlock newLightBlock pivots st) :
    (pivots.length : Int) ≤ newLightBlock.height - st.verifiedBlock.height - 1 :=
  length_le_of_pairwise (List.pairwise_cons.mp hinv.decreasing).2
    (fun p hp => ⟨hinv.above p (List.mem_cons_of_mem _ hp), (List.pairwise_cons.mp hinv.decreasing).1 p hp⟩)
    (hinv.above _ List.mem_cons_self)

theorem SkipInv.requests_lt {pivots : List (LightBlock B)} {st : SkipState B}
    (hinv : SkipInv checks trustedBlock newLightBlock pivots st) :
    (st.requests.length : Int) < newLightBlock.height - trustedBlock.height := by
  have hlen := hinv.length_le
  have hreq := hinv.requests
  omega

theorem SkipInv.measure_nonneg {pivots : List (LightBlock B)} {st : SkipState B}
    (hinv : SkipInv checks trustedBlock newLightBlock pivots st) :
    0 ≤ skipMeasure trustedBlock newLightBlock pivots st := by
  have hlen := hinv.length_le
  have hstart := hinv.start
  have hdepth := hinv.depth_le
  have hprod : 0 ≤ (2 * (newLightBlock.height - trustedBlock.height) + 1) *
      (newLightBlock.height - st.verifiedBlock.height) :=
    Int.mul_nonneg (by omega) (by omega)
  unfold skipMeasure
  omega

theorem SkipInv.getElem?_depth {pivots : List (LightBlock B)} {st : SkipState B}
    (hinv : SkipInv checks trustedBlock newLightBlock pivots st) : st.blockCache[st.depth]?.isSome := by
  have hdepth := hinv.depth_le
  rw [Option.isSome_iff_exists, hinv.cache]
  exact ⟨_, List.getElem?_eq_getElem (by simp; omega)⟩

/-- A verified block under the cursor is the first copy of a pivot, since
its second copy is tried only after the first failed from the same block.
It becomes the verified block, the pivots above it stay, and the gap to the
new block shrinks. -/
theorem SkipInv.success {pivots : List (LightBlock B)} {st : SkipState B} {block : LightBlock B}
    (hinv : SkipInv checks trustedBlock newLightBlock pivots st)
    (hblock : st.blockCache[st.depth]? = some block) (hok : verify checks st.verifiedBlock block = .ok ())
    (hdepth : st.depth ≠ 0) :
    ∃ pivots', SkipInv checks trustedBlock newLightBlock pivots'
        { st with verifiedBlock := block, blockCache := st.blockCache.take st.depth, depth := 0,
                  trace := st.trace ++ [block] } ∧
      skipMeasure trustedBlock newLightBlock pivots'
          { st with verifiedBlock := block, blockCache := st.blockCache.take st.depth, depth := 0,
                    trace := st.trace ++ [block] } <
        skipMeasure trustedBlock newLightBlock pivots st := by
  obtain ⟨i, hi⟩ : ∃ i, st.depth = 2 * i + 1 ∨ st.depth = 2 * i + 2 := ⟨(st.depth - 1) / 2, by omega⟩
  rcases hi with hodd | heven
  · have hget : pivots[i]? = some block := by
      rw [hinv.cache, hodd, List.getElem?_cons_succ, getElem?_doubled_two_mul] at hblock
      exact hblock
    obtain ⟨hilt, hblk⟩ := List.getElem?_eq_some_iff.mp hget
    have hsplit : pivots = pivots.take i ++ block :: pivots.drop (i + 1) := by
      rw [← hblk, ← List.drop_eq_getElem_cons hilt, List.take_append_drop]
    -- the pivots above the block are higher, and those below lie between it and the verified block
    have hdec := hinv.decreasing
    rw [hsplit, List.pairwise_cons, List.pairwise_append, List.pairwise_cons] at hdec
    obtain ⟨hnew, -, ⟨hbelow, hrest⟩, hcross⟩ := hdec
    have hv := verify_ok_height checks hok
    have hlen : ((pivots.drop (i + 1)).length : Int) ≤ block.height - st.verifiedBlock.height - 1 :=
      length_le_of_pairwise hrest
        (fun q hq => ⟨hinv.above q (List.mem_cons_of_mem _ (List.mem_of_mem_drop hq)), hbelow q hq⟩) hv
    have hlenTake : (pivots.take i).length = i := List.length_take_of_le (Nat.le_of_lt hilt)
    have hlenDrop : (pivots.drop (i + 1)).length = pivots.length - (i + 1) := List.length_drop
    have hk := hinv.length_le
    have hreq := hinv.requests
    have hstart := hinv.start
    have hdepthLe := hinv.depth_le
    refine ⟨pivots.take i, ⟨?_, ?_, ?_, ?_, Nat.zero_le _, fun _ hj => absurd hj (Nat.not_lt_zero _), ?_⟩, ?_⟩
    · show st.blockCache.take st.depth = _
      rw [hinv.cache, hodd, List.take_succ_cons, take_doubled]
    · exact hinv.decreasing.sublist ((List.take_sublist _ _).cons_cons _)
    · intro p hp
      rcases List.mem_cons.mp hp with rfl | hp
      · exact hnew block (List.mem_append_right _ List.mem_cons_self)
      · exact hcross p hp block List.mem_cons_self
    · show trustedBlock.height ≤ block.height
      omega
    · show ((st.requests.length : Nat) : Int) + (newLightBlock.height - block.height - 1 - ((pivots.take i).length : Nat)) ≤ _
      omega
    · -- the gap shrinks by at least one, which outweighs the cursor's room
      have hgap : (2 * (newLightBlock.height - trustedBlock.height) + 1) * (newLightBlock.height - block.height) +
          (2 * (newLightBlock.height - trustedBlock.height) + 1) ≤
          (2 * (newLightBlock.height - trustedBlock.height) + 1) * (newLightBlock.height - st.verifiedBlock.height) := by
        have := Int.mul_le_mul_of_nonneg_left
          (show newLightBlock.height - block.height + 1 ≤ newLightBlock.height - st.verifiedBlock.height by omega)
          (show 0 ≤ 2 * (newLightBlock.height - trustedBlock.height) + 1 by omega)
        rw [Int.mul_add, Int.mul_one] at this
        exact this
      dsimp only [skipMeasure]
      omega
  · -- the first copy of the same pivot failed from the same verified block
    have hfirst : st.blockCache[2 * i + 1]? = some block := by
      rw [hinv.cache, heven, show 2 * i + 2 = 2 * i + 1 + 1 by omega, List.getElem?_cons_succ,
        getElem?_doubled_two_mul_add_one] at hblock
      rw [hinv.cache, List.getElem?_cons_succ, getElem?_doubled_two_mul]
      exact hblock
    have hcant := hinv.tried (2 * i + 1) (by omega) block hfirst
    rw [hok] at hcant
    cases hcant

theorem SkipInv.deeper {pivots : List (LightBlock B)} {st : SkipState B} {block : LightBlock B}
    (hinv : SkipInv checks trustedBlock newLightBlock pivots st)
    (hblock : st.blockCache[st.depth]? = some block)
    (hcant : verify checks st.verifiedBlock block = .error .newValSetCantBeTrusted)
    (htop : st.depth ≠ st.blockCache.length - 1) :
    SkipInv checks trustedBlock newLightBlock pivots { st with depth := st.depth + 1 } ∧
      skipMeasure trustedBlock newLightBlock pivots { st with depth := st.depth + 1 } <
        skipMeasure trustedBlock newLightBlock pivots st := by
  have hlen : st.blockCache.length = 2 * pivots.length + 1 := by simp [hinv.cache]
  have hdepth := hinv.depth_le
  refine ⟨⟨hinv.cache, hinv.decreasing, hinv.above, hinv.start, ?_, ?_, hinv.requests⟩, ?_⟩
  · show st.depth + 1 ≤ _
    omega
  · intro j hj b hb
    rcases Nat.lt_succ_iff_lt_or_eq.mp hj with hj | rfl
    · exact hinv.tried j hj b hb
    · rw [hblock] at hb
      cases hb
      exact hcant
  · dsimp only [skipMeasure]
    omega

theorem SkipInv.fetch (hT : 0 ≤ trustedBlock.height) {pivots : List (LightBlock B)} {st : SkipState B}
    {block interimBlock : LightBlock B} (hinv : SkipInv checks trustedBlock newLightBlock pivots st)
    (hblock : st.blockCache[st.depth]? = some block)
    (hcant : verify checks st.verifiedBlock block = .error .newValSetCantBeTrusted)
    (htop : st.depth = st.blockCache.length - 1)
    (hheight : interimBlock.height = pivotHeight st.verifiedBlock.height block.height)
    (habove : st.verifiedBlock.height < interimBlock.height) :
    SkipInv checks trustedBlock newLightBlock (pivots ++ [interimBlock])
        { st with blockCache := st.blockCache ++ [interimBlock, interimBlock], depth := st.depth + 1,
                  requests := st.requests ++ [pivotHeight st.verifiedBlock.height block.height] } ∧
      skipMeasure trustedBlock newLightBlock (pivots ++ [interimBlock])
          { st with blockCache := st.blockCache ++ [interimBlock, interimBlock], depth := st.depth + 1,
                    requests := st.requests ++ [pivotHeight st.verifiedBlock.height block.height] } <
        skipMeasure trustedBlock newLightBlock pivots st := by
  have hlen : st.blockCache.length = 2 * pivots.length + 1 := by simp [hinv.cache]
  have hdepth : st.depth = 2 * pivots.length := by omega
  -- the block under the cursor is the lowest of the cache
  have hlast : block = (newLightBlock :: pivots).getLast (List.cons_ne_nil _ _) := by
    rw [hinv.cache, hdepth, getElem?_top] at hblock
    exact (Option.some.inj hblock).symm
  have hlow := getLast_le_of_pairwise hinv.decreasing (List.cons_ne_nil _ _)
  rw [← hlast] at hlow
  have hgap := verify_cantTrust_height checks hcant
  have hstart := hinv.start
  have hpivot := pivotHeight_lt (by omega) hgap block.height_inInt64.2
  have hk := hinv.length_le
  have hreq := hinv.requests
  refine ⟨⟨?_, ?_, ?_, hinv.start, ?_, ?_, ?_⟩, ?_⟩
  · show st.blockCache ++ _ = _
    rw [hinv.cache, doubled_append_singleton, List.cons_append]
  · rw [← List.cons_append]
    refine List.pairwise_append.mpr ⟨hinv.decreasing, List.pairwise_singleton _ _, fun a ha b hb => ?_⟩
    rw [List.mem_singleton.mp hb]
    have := hlow a ha
    omega
  · intro p hp
    rw [← List.cons_append] at hp
    rcases List.mem_append.mp hp with hp | hp
    · exact hinv.above p hp
    · rw [List.mem_singleton.mp hp]
      exact habove
  · show st.depth + 1 ≤ 2 * (pivots ++ [interimBlock]).length
    simp only [List.length_append, List.length_singleton]
    omega
  · intro j hj b hb
    dsimp only at hj
    have hjlt : j < st.blockCache.length := by omega
    show verify checks st.verifiedBlock b = _
    rw [show (st.blockCache ++ [interimBlock, interimBlock])[j]? = st.blockCache[j]? from
      List.getElem?_append_left hjlt] at hb
    rcases Nat.lt_succ_iff_lt_or_eq.mp hj with hj | rfl
    · exact hinv.tried j hj b hb
    · rw [hblock] at hb
      cases hb
      exact hcant
  · show (((st.requests ++ _).length : Nat) : Int) + (_ - st.verifiedBlock.height - 1 - ((pivots ++ [interimBlock]).length : Nat)) ≤ _
    simp only [List.length_append, List.length_singleton, Nat.cast_add, Nat.cast_one]
    omega
  · dsimp only [skipMeasure]
    simp only [List.length_append, List.length_singleton, Nat.cast_add, Nat.cast_one]
    omega

variable (checks)

theorem skipStep_of_le {st : SkipState B} {block : LightBlock B}
    (hblock : st.blockCache[st.depth]? = some block) (hle : block.height ≤ st.verifiedBlock.height) :
    ∃ err, skipStep checks source newLightBlock st = .done (.error err) st.requests := by
  rcases skipStep_cases checks source (rfl : skipStep checks source newLightBlock st = _) with
    ⟨hnone, -⟩ | ⟨block', hblock', ⟨hok, -⟩ | ⟨hok, -⟩ | ⟨hcant, -⟩ | ⟨hcant, -⟩ | ⟨-, h⟩⟩
  · rw [hblock] at hnone
    cases hnone
  all_goals rw [hblock] at hblock'; cases hblock'
  · have := verify_ok_height checks hok
    omega
  · have := verify_ok_height checks hok
    omega
  · have := verify_cantTrust_height checks hcant
    omega
  · have := verify_cantTrust_height checks hcant
    omega
  · exact h

/-- One pass from a state of the invariant either ends the loop, within
`D` requests, or keeps the invariant and lowers the measure, or fetches a
pivot at or below the verified block, after which the next pass ends the
loop. -/
theorem skipStep_progress (hT : 0 ≤ trustedBlock.height)
    (hsource : ∀ requests height block, source requests height = .ok block → block.height = height)
    {pivots : List (LightBlock B)} {st : SkipState B}
    (hinv : SkipInv checks trustedBlock newLightBlock pivots st) :
    (∃ result requests, skipStep checks source newLightBlock st = .done result requests ∧
        requests.length ≤ (newLightBlock.height - trustedBlock.height).toNat) ∨
      (∃ st' pivots', skipStep checks source newLightBlock st = .next st' ∧
        SkipInv checks trustedBlock newLightBlock pivots' st' ∧
        skipMeasure trustedBlock newLightBlock pivots' st' < skipMeasure trustedBlock newLightBlock pivots st) ∨
      (∃ st', skipStep checks source newLightBlock st = .next st' ∧
        ∃ result requests, skipStep checks source newLightBlock st' = .done result requests ∧
          requests.length ≤ (newLightBlock.height - trustedBlock.height).toNat) := by
  have hreq := hinv.requests_lt
  rcases skipStep_cases checks source (rfl : skipStep checks source newLightBlock st = _) with
    ⟨hnone, -⟩ | ⟨block, hblock, ⟨-, -, h⟩ | ⟨hok, hdepth, h⟩ | ⟨hcant, htop, ⟨interimBlock, hsrc, h⟩ | ⟨err, h⟩⟩ |
      ⟨hcant, htop, h⟩ | ⟨-, err, h⟩⟩
  · have := hinv.getElem?_depth
    rw [hnone] at this
    cases this
  · exact .inl ⟨_, _, h, by omega⟩
  · obtain ⟨pivots', hinv', hlt⟩ := hinv.success hblock hok hdepth
    exact .inr (.inl ⟨_, pivots', h, hinv', hlt⟩)
  · have hheight := hsource _ _ _ hsrc
    by_cases habove : st.verifiedBlock.height < interimBlock.height
    · obtain ⟨hinv', hlt⟩ := hinv.fetch hT hblock hcant htop hheight habove
      exact .inr (.inl ⟨_, _, h, hinv', hlt⟩)
    · -- the wrapped pivot: the next pass reads it and fails
      refine .inr (.inr ⟨_, h, ?_⟩)
      have hlen : st.blockCache.length = 2 * pivots.length + 1 := by simp [hinv.cache]
      have hcache : (st.blockCache ++ [interimBlock, interimBlock])[st.depth + 1]? = some interimBlock := by
        rw [List.getElem?_append_right (by omega), show st.depth + 1 - st.blockCache.length = 0 by omega]
        rfl
      have hle : interimBlock.height ≤ st.verifiedBlock.height := by omega
      obtain ⟨err, herr⟩ : ∃ err, skipStep checks source newLightBlock
          { st with blockCache := st.blockCache ++ [interimBlock, interimBlock], depth := st.depth + 1,
                    requests := st.requests ++ [pivotHeight st.verifiedBlock.height block.height] } =
            .done (.error err) (st.requests ++ [pivotHeight st.verifiedBlock.height block.height]) :=
        skipStep_of_le checks source hcache hle
      refine ⟨_, _, herr, ?_⟩
      simp only [List.length_append, List.length_singleton]
      omega
  · refine .inl ⟨_, _, h, ?_⟩
    simp only [List.length_append, List.length_singleton]
    omega
  · obtain ⟨hinv', hlt⟩ := hinv.deeper hblock hcant htop
    exact .inr (.inl ⟨_, _, h, hinv', hlt⟩)
  · exact .inl ⟨_, _, h, by omega⟩

theorem skipLoop_returns (hT : 0 ≤ trustedBlock.height)
    (hsource : ∀ requests height block, source requests height = .ok block → block.height = height) :
    ∀ (fuel : Nat) {pivots : List (LightBlock B)} {st : SkipState B},
      SkipInv checks trustedBlock newLightBlock pivots st →
      skipMeasure trustedBlock newLightBlock pivots st + 2 ≤ fuel →
      ∃ result requests, skipLoop checks source newLightBlock fuel st = some (result, requests) ∧
        requests.length ≤ (newLightBlock.height - trustedBlock.height).toNat
  | 0, _, _, hinv, hfuel => by
    have := hinv.measure_nonneg
    omega
  | fuel + 1, _, st, hinv, hfuel => by
    have hnonneg := hinv.measure_nonneg
    rcases skipStep_progress checks source hT hsource hinv with
      ⟨result, requests, h, hlen⟩ | ⟨st', pivots', h, hinv', hlt⟩ | ⟨st', h, result, requests, h', hlen⟩
    · exact ⟨result, requests, by simp [skipLoop, h], hlen⟩
    · obtain ⟨result, requests, hloop, hlen⟩ := skipLoop_returns hT hsource fuel hinv' (by omega)
      exact ⟨result, requests, by simp [skipLoop, h, hloop], hlen⟩
    · -- two passes: the fetch, then the failure on the wrapped pivot
      obtain ⟨fuel, rfl⟩ : ∃ f, fuel = f + 1 := ⟨fuel - 1, by omega⟩
      exact ⟨result, requests, by simp [skipLoop, h, h'], hlen⟩

end Termination

/-- Skipping verification is sound and returns.  A trace it returns starts
at the trusted block and ends at the new one, at increasing heights, each
block verified against the one before.  From a trusted block of height at
least `0` and a provider that answers each height with a block of that
height, it returns within `skippingFuel D` passes, having asked the provider
at most `D` times, for `D` the difference of the heights. -/
theorem verifySkipping_sound_and_bounded (checks : VerifyChecks B)
    (source : List Int → Int → Except ProviderError (LightBlock B)) (trustedBlock newLightBlock : LightBlock B)
    (hlt : trustedBlock.height < newLightBlock.height) :
    (∀ fuel trace requests,
      verifySkipping checks source trustedBlock newLightBlock fuel = some (.ok trace, requests) →
      trace.head? = some trustedBlock ∧ trace.getLast? = some newLightBlock ∧
        trace.IsChain (fun a b => a.height < b.height) ∧ trace.IsChain fun a b => verify checks a b = .ok ()) ∧
    (0 ≤ trustedBlock.height →
      (∀ requests height block, source requests height = .ok block → block.height = height) →
      ∀ fuel, skippingFuel (newLightBlock.height - trustedBlock.height).toNat ≤ fuel →
        ∃ result requests, verifySkipping checks source trustedBlock newLightBlock fuel = some (result, requests) ∧
          requests.length ≤ (newLightBlock.height - trustedBlock.height).toNat) := by
  refine ⟨fun fuel trace requests h => ?_, fun hT hsource fuel hfuel => ?_⟩
  · obtain ⟨hhead, hlast, hchain⟩ := skipLoop_trace checks source fuel (TraceInv.init checks) h
    exact ⟨hhead, hlast, hchain.imp fun _ _ hok => verify_ok_height checks hok, hchain⟩
  · refine skipLoop_returns checks source hT hsource fuel (SkipInv.init checks hlt) ?_
    -- the measure at the start is `(2D + 1) D + 2 (D - 1)`, two below the fuel
    have hD : ((newLightBlock.height - trustedBlock.height).toNat : Int) =
        newLightBlock.height - trustedBlock.height := Int.toNat_of_nonneg (by omega)
    have hfuel' := Int.ofNat_le.mpr hfuel
    unfold skippingFuel at hfuel'
    push_cast [hD] at hfuel'
    have hring : (2 * (newLightBlock.height - trustedBlock.height) + 3) * (newLightBlock.height - trustedBlock.height) =
        (2 * (newLightBlock.height - trustedBlock.height) + 1) * (newLightBlock.height - trustedBlock.height) +
          2 * (newLightBlock.height - trustedBlock.height) := by ring
    dsimp only [skipMeasure, initState]
    simp only [List.length_nil, Nat.cast_zero]
    omega

/-- Checks under which a block more than four above the trusted one cannot be
trusted yet. -/
def nearChecks : VerifyChecks Unit :=
  ⟨fun _ => false, fun _ _ => none, fun _ _ => none, fun _ _ => true,
    fun trusted untrusted => if trusted.height + 4 < untrusted.height then some .notEnoughVotingWeightSigned else none,
    fun _ => none⟩

/-- A provider that answers every height in `int64` with a block of it. -/
def honestProvider : List Int → Int → Except ProviderError (LightBlock Unit) := fun _ height =>
  if h : InInt64 height then .ok ⟨height, (), h⟩ else .error .lightBlockNotFound

theorem honestProvider_height (requests : List Int) (height : Int) (block : LightBlock Unit)
    (h : honestProvider requests height = .ok block) : block.height = height := by
  unfold honestProvider at h
  split at h
  · cases h
    rfl
  · cases h

/-- `verifySkipping_sound_and_bounded` from 1 to 9 under `nearChecks`: the
returned trace `[1, 5, 9]` is a chain of verified steps, and the run returns
within `skippingFuel 8` passes. -/
theorem verifySkipping_sound_and_bounded_nearChecks :
    (1 : Int) < 9 ∧ (0 : Int) ≤ 1 ∧
      (∀ requests height block, honestProvider requests height = .ok block → block.height = height) ∧
      verifySkipping nearChecks honestProvider ⟨1, (), by decide⟩ ⟨9, (), by decide⟩ 10 =
        some (.ok [⟨1, (), by decide⟩, ⟨5, (), by decide⟩, ⟨9, (), by decide⟩], [5]) ∧
      [(⟨1, (), by decide⟩ : LightBlock Unit), ⟨5, (), by decide⟩, ⟨9, (), by decide⟩].IsChain
        (fun a b => verify nearChecks a b = .ok ()) ∧
      ∃ result requests, verifySkipping nearChecks honestProvider ⟨1, (), by decide⟩ ⟨9, (), by decide⟩
        (skippingFuel 8) = some (result, requests) ∧ requests.length ≤ 8 := by
  have hrun : verifySkipping nearChecks honestProvider ⟨1, (), by decide⟩ ⟨9, (), by decide⟩ 10 =
      some (.ok [⟨1, (), by decide⟩, ⟨5, (), by decide⟩, ⟨9, (), by decide⟩], [5]) := by
    -- through the pivot 1 + 8 * 9 / 16 = 5, asked once though cached twice
    decide
  have hsb := verifySkipping_sound_and_bounded nearChecks honestProvider ⟨1, (), by decide⟩
    ⟨9, (), by decide⟩ (by decide)
  exact ⟨by decide, by decide, honestProvider_height, hrun, (hsb.1 10 _ _ hrun).2.2.2,
    hsb.2 (by decide) honestProvider_height _ (Nat.le_refl _)⟩

end Ostracon.Light
