import Mathlib
/-!
# Integers kept in a window

Three arguments about lists of integers, each used where a list of
priorities or of power changes is bounded:

* a running sum over terms in ascending order peaks at one of its ends, so
  that stopping at the first partial sum past a bound (`addUpTo`) stops exactly
  when the whole sum passes it (`addUpTo_of_sorted`);
* dividing every term by `r`, rounding toward zero, shrinks the largest
  distance `d` between two terms to at most `⌈d / r⌉` (`spread_map_tdiv`), and
  with `r = ⌈d / D⌉` to at most `D` (`ceilDiv_ceilDiv_le`);
* subtracting the floor of the mean leaves a sum in `[0, n)`
  (`sum_map_sub_mean`), and the mean lies between the least and the greatest
  term (`mean_mem_Icc`).

`scaleAndCentre D l` puts these together: divide by `⌈spread / D⌉` where the
terms of `l` spread wider than `D`, then subtract the mean.  The terms it gives
are within `D` of each other and sum to `[0, n)` (`spread_scaleAndCentre`,
`sum_scaleAndCentre`), so each lies within `D` of zero (`abs_le_of_spread`).
-/

namespace IntWindow

/-! ## Stopping a running sum at a bound -/

/-- Add the terms one at a time, stopping with `none` as soon as the running
sum passes `bound`. -/
def addUpTo (bound : Int) : Int → List Int → Option Int
  | s, [] => some s
  | s, d :: ds => if bound < s + d then none else addUpTo bound (s + d) ds

/-- Over ascending terms, from a start within the bound, some partial sum
passes the bound exactly when the whole sum does: once a term is positive,
all later ones are. -/
theorem addUpTo_of_sorted {bound : Int} :
    ∀ {s : Int} {ds : List Int}, ds.Pairwise (· ≤ ·) → s ≤ bound →
      addUpTo bound s ds = if bound < s + ds.sum then none else some (s + ds.sum)
  | s, [], _, hs => by simp [addUpTo, hs]
  | s, d :: ds, hsorted, hs => by
    obtain ⟨hge, hsorted'⟩ := List.pairwise_cons.mp hsorted
    rw [addUpTo, List.sum_cons]
    by_cases hpass : bound < s + d
    · -- `d` is positive, so is every later term, and the whole sum passes too
      have hrest : 0 ≤ ds.sum := List.sum_nonneg fun e he => by
        have := hge e he
        omega
      rw [if_pos hpass, if_pos (by omega)]
    · rw [if_neg hpass, addUpTo_of_sorted hsorted' (by omega), Int.add_assoc]

/-! ## Dividing into a window -/

/-- Every two of the integers are at most `d` apart. -/
def Spread (d : Int) (l : List Int) : Prop := ∀ a ∈ l, ∀ b ∈ l, a - b ≤ d

theorem tdiv_sub_tdiv_le {a b d r : Int} (hr : 0 < r) (hab : a - b ≤ d) (hd : 0 ≤ d) :
    a.tdiv r - b.tdiv r ≤ (d + r - 1) / r := by
  -- the floor quotients of two integers `e` apart are at most `⌈e / r⌉` apart
  have hfloor : ∀ x y : Int, y ≤ x → x - y ≤ d → x / r - y / r ≤ (d + r - 1) / r := by
    intro x y _ hxy
    apply Int.le_ediv_of_mul_le hr
    have hx := Int.ediv_mul_le x (Int.ne_of_gt hr)
    have hy := Int.lt_ediv_add_one_mul_self y hr
    rw [Int.sub_mul]
    rw [Int.add_mul, Int.one_mul] at hy
    omega
  -- quotients by a positive divisor are the floors of the absolute values, signed
  rcases le_or_gt b a with hba | hab'
  · rcases le_or_gt 0 b with hb | hb
    · rw [Int.tdiv_eq_ediv_of_nonneg hb, @Int.tdiv_eq_ediv_of_nonneg a r (by omega)]
      exact hfloor a b hba hab
    · rcases le_or_gt 0 a with ha | ha
      · -- across zero the two quotients shrink toward each other
        have hb' : b.tdiv r = -((-b) / r) := by
          rw [← @Int.tdiv_eq_ediv_of_nonneg (-b) r (by omega), Int.neg_tdiv, Int.neg_neg]
        rw [Int.tdiv_eq_ediv_of_nonneg ha, hb']
        apply Int.le_ediv_of_mul_le hr
        have hx := Int.ediv_mul_le a (Int.ne_of_gt hr)
        have hy := Int.ediv_mul_le (-b) (Int.ne_of_gt hr)
        rw [Int.sub_mul, Int.neg_mul]
        omega
      · have ha' : a.tdiv r = -((-a) / r) := by
          rw [← @Int.tdiv_eq_ediv_of_nonneg (-a) r (by omega), Int.neg_tdiv, Int.neg_neg]
        have hb' : b.tdiv r = -((-b) / r) := by
          rw [← @Int.tdiv_eq_ediv_of_nonneg (-b) r (by omega), Int.neg_tdiv, Int.neg_neg]
        rw [ha', hb']
        have := hfloor (-b) (-a) (by omega) (by omega)
        omega
  · -- `a` is below `b`, and so is its quotient
    have hle : a.tdiv r ≤ b.tdiv r := Int.tdiv_le_tdiv hr hab'.le
    have hnonneg : 0 ≤ (d + r - 1) / r := Int.ediv_nonneg (by omega) hr.le
    omega

theorem tdiv_mem_Icc {lo hi x r : Int} (hr : 0 < r) (hlo : lo ≤ 0) (hhi : 0 ≤ hi) (hx : lo ≤ x ∧ x ≤ hi) :
    lo ≤ x.tdiv r ∧ x.tdiv r ≤ hi := by
  rcases le_or_gt 0 x with h0 | h0
  · have hle : x.tdiv r ≤ x := Int.tdiv_le_self r h0
    have hnn : 0 ≤ x.tdiv r := Int.tdiv_nonneg h0 hr.le
    omega
  · have hle : (-x).tdiv r ≤ -x := Int.tdiv_le_self r (by omega)
    have hnn : 0 ≤ (-x).tdiv r := Int.tdiv_nonneg (by omega) hr.le
    rw [Int.neg_tdiv] at hle hnn
    omega

theorem spread_map_tdiv {d r : Int} {l : List Int} (hr : 0 < r) (hd : 0 ≤ d) (h : Spread d l) :
    Spread ((d + r - 1) / r) (l.map (·.tdiv r)) := by
  intro a' ha' b' hb'
  obtain ⟨a, ha, rfl⟩ := List.mem_map.mp ha'
  obtain ⟨b, hb, rfl⟩ := List.mem_map.mp hb'
  exact tdiv_sub_tdiv_le hr (h a ha b hb) hd

theorem ceilDiv_ceilDiv_le {d D : Int} (hD : 0 < D) (hd : D < d) :
    0 < (d + D - 1) / D ∧ (d + (d + D - 1) / D - 1) / ((d + D - 1) / D) ≤ D := by
  have hr : 1 ≤ (d + D - 1) / D := Int.le_ediv_of_mul_le hD (by omega)
  have hceil := Int.lt_ediv_add_one_mul_self (d + D - 1) hD
  generalize (d + D - 1) / D = r at hr hceil ⊢
  -- `d ≤ D * ⌈d / D⌉`, read off the floor of `(d + D - 1) / D`
  have hdr : d ≤ r * D := by
    rw [Int.add_mul, Int.one_mul] at hceil
    omega
  refine ⟨by omega, ?_⟩
  have hlt : (d + r - 1) / r < D + 1 := by
    apply (Int.ediv_lt_iff_lt_mul (by omega)).mpr
    rw [Int.add_mul, Int.one_mul, Int.mul_comm]
    omega
  omega

/-- The distance from the least to the greatest term, `0` for no terms. -/
def spread (l : List Int) : Int := l.max?.getD 0 - l.min?.getD 0

/-- The divisor that brings terms spread wider than `D` within `D`,
`⌈spread / D⌉`; `1` where they are within `D` already. -/
def scaleFactor (D : Int) (l : List Int) : Int := if D < spread l then (spread l + D - 1) / D else 1

theorem spread_spread (l : List Int) : Spread (spread l) l := by
  intro a ha b hb
  obtain ⟨mx, hmx⟩ : ∃ mx, l.max? = some mx := Option.isSome_iff_exists.mp (List.isSome_max?_of_mem ha)
  obtain ⟨mn, hmn⟩ : ∃ mn, l.min? = some mn := Option.isSome_iff_exists.mp (List.isSome_min?_of_mem ha)
  have hamx := (List.max?_eq_some_iff.mp hmx).2 a ha
  have hmnb := (List.min?_eq_some_iff.mp hmn).2 b hb
  rw [spread, hmx, hmn]
  simp only [Option.getD_some]
  omega

theorem spread_nonneg (l : List Int) : 0 ≤ spread l := by
  cases l with
  | nil => rfl
  | cons a l =>
    have := spread_spread (a :: l) a List.mem_cons_self a List.mem_cons_self
    omega

theorem spread_le {d : Int} {l : List Int} (hl : l ≠ []) (h : Spread d l) : spread l ≤ d := by
  obtain ⟨mx, hmx⟩ : ∃ mx, l.max? = some mx := Option.ne_none_iff_exists'.mp (by simpa using hl)
  obtain ⟨mn, hmn⟩ : ∃ mn, l.min? = some mn := Option.ne_none_iff_exists'.mp (by simpa using hl)
  rw [spread, hmx, hmn]
  exact h mx (List.max?_mem hmx) mn (List.min?_mem hmn)

theorem scaleFactor_pos {D : Int} (hD : 0 < D) (l : List Int) : 0 < scaleFactor D l := by
  unfold scaleFactor
  split_ifs with h
  · exact (ceilDiv_ceilDiv_le hD h).1
  · omega

theorem spread_map_tdiv_scaleFactor {D : Int} (hD : 0 < D) (l : List Int) :
    Spread D (l.map (·.tdiv (scaleFactor D l))) := by
  have hspread := spread_map_tdiv (scaleFactor_pos hD l) (spread_nonneg l) (spread_spread l)
  unfold scaleFactor at hspread ⊢
  split_ifs at hspread ⊢ with h
  · intro a ha b hb
    exact (hspread a ha b hb).trans (ceilDiv_ceilDiv_le hD h).2
  · intro a ha b hb
    have hle := hspread a ha b hb
    rw [Int.ediv_one] at hle
    omega

theorem max?_eq_of_perm {l l' : List Int} (hp : l.Perm l') : l.max? = l'.max? := by
  cases h : l'.max? with
  | none =>
    rw [List.max?_eq_none_iff.mp h] at hp
    exact List.max?_eq_none_iff.mpr hp.eq_nil
  | some a =>
    obtain ⟨ha, hle⟩ := List.max?_eq_some_iff.mp h
    exact List.max?_eq_some_iff.mpr ⟨hp.mem_iff.mpr ha, fun b hb => hle b (hp.mem_iff.mp hb)⟩

theorem min?_eq_of_perm {l l' : List Int} (hp : l.Perm l') : l.min? = l'.min? := by
  cases h : l'.min? with
  | none =>
    rw [List.min?_eq_none_iff.mp h] at hp
    exact List.min?_eq_none_iff.mpr hp.eq_nil
  | some a =>
    obtain ⟨ha, hle⟩ := List.min?_eq_some_iff.mp h
    exact List.min?_eq_some_iff.mpr ⟨hp.mem_iff.mpr ha, fun b hb => hle b (hp.mem_iff.mp hb)⟩

theorem scaleFactor_eq_of_perm {D : Int} {l l' : List Int} (hp : l.Perm l') :
    scaleFactor D l = scaleFactor D l' := by
  rw [scaleFactor, scaleFactor, spread, spread, max?_eq_of_perm hp, min?_eq_of_perm hp]

/-! ## Centring on the mean -/

/-- The floor of the mean, `0` for no terms. -/
def mean (l : List Int) : Int := l.sum / l.length

theorem mean_eq_of_perm {l l' : List Int} (hp : l.Perm l') : mean l = mean l' := by
  rw [mean, mean, hp.sum_eq, hp.length_eq]

theorem sum_map_sub (l : List Int) (c : Int) : (l.map (· - c)).sum = l.sum - l.length * c := by
  induction l with
  | nil => simp
  | cons a l ih =>
    rw [List.map_cons, List.sum_cons, ih, List.sum_cons, List.length_cons, Int.natCast_add,
      Int.add_mul, Int.natCast_one, Int.one_mul]
    omega

theorem sum_map_sub_mean {l : List Int} (hl : l ≠ []) :
    0 ≤ (l.map (· - mean l)).sum ∧ (l.map (· - mean l)).sum < l.length := by
  have hn : (0 : Int) < l.length := by
    have := List.length_pos_iff.mpr hl
    omega
  rw [sum_map_sub, mean, ← Int.emod_def]
  exact ⟨Int.emod_nonneg _ (by omega), Int.emod_lt_of_pos _ hn⟩

theorem mean_mem_Icc {l : List Int} {lo hi : Int} (hl : l ≠ []) (h : ∀ x ∈ l, lo ≤ x ∧ x ≤ hi) :
    lo ≤ mean l ∧ mean l ≤ hi := by
  unfold mean
  have hn : (0 : Int) < l.length := by
    have := List.length_pos_iff.mpr hl
    omega
  have hlo : (l.map fun _ => lo).sum ≤ (l.map id).sum := List.sum_le_sum fun x hx => (h x hx).1
  have hhi : (l.map id).sum ≤ (l.map fun _ => hi).sum := List.sum_le_sum fun x hx => (h x hx).2
  simp only [List.map_const', List.sum_replicate, nsmul_eq_mul, List.map_id] at hlo hhi
  constructor
  · exact Int.le_ediv_of_mul_le hn (by rw [Int.mul_comm]; exact hlo)
  · exact Int.ediv_le_of_le_mul hn (by rw [Int.mul_comm]; exact hhi)

theorem abs_le_of_spread {d : Int} {l : List Int} (h : Spread d l) (hsum : 0 ≤ l.sum ∧ l.sum < l.length)
    {x : Int} (hx : x ∈ l) : -d ≤ x ∧ x ≤ d := by
  have hn : 0 < l.length := List.length_pos_iff.mpr (List.ne_nil_of_mem hx)
  have hpos : ∃ a ∈ l, 0 ≤ a := by
    by_contra hneg
    have hlt : ∀ a ∈ l, id a ≤ -1 := fun a ha => by
      have : ¬0 ≤ a := fun h => hneg ⟨a, ha, h⟩
      simp only [id]
      omega
    have : (l.map id).sum ≤ (l.map fun _ => (-1 : Int)).sum := List.sum_le_sum hlt
    simp only [List.map_const', List.sum_replicate, nsmul_eq_mul, List.map_id] at this
    omega
  have hnonpos : ∃ b ∈ l, b ≤ 0 := by
    by_contra hpos'
    have hgt : ∀ b ∈ l, (1 : Int) ≤ id b := fun b hb => by
      have : ¬b ≤ 0 := fun h => hpos' ⟨b, hb, h⟩
      simp only [id]
      omega
    have : (l.map fun _ => (1 : Int)).sum ≤ (l.map id).sum := List.sum_le_sum hgt
    simp only [List.map_const', List.sum_replicate, nsmul_eq_mul, Int.mul_one, List.map_id] at this
    omega
  obtain ⟨a, ha, ha0⟩ := hpos
  obtain ⟨b, hb, hb0⟩ := hnonpos
  have h1 := h a ha x hx
  have h2 := h x hx b hb
  omega

/-! ## Scaling and centring -/

/-- Where `x` goes among `l` when `l` is scaled into a window of `D` and
centred on its mean. -/
def scaleAndCentre (D : Int) (l : List Int) (x : Int) : Int :=
  x.tdiv (scaleFactor D l) - mean (l.map (·.tdiv (scaleFactor D l)))

theorem map_scaleAndCentre (D : Int) (l : List Int) :
    l.map (scaleAndCentre D l) = (l.map (·.tdiv (scaleFactor D l))).map
      (· - mean (l.map (·.tdiv (scaleFactor D l)))) := by
  rw [List.map_map]
  rfl

theorem spread_scaleAndCentre {D : Int} (hD : 0 < D) (l : List Int) :
    Spread D (l.map (scaleAndCentre D l)) := by
  rw [map_scaleAndCentre]
  intro a' ha' b' hb'
  obtain ⟨a, ha, rfl⟩ := List.mem_map.mp ha'
  obtain ⟨b, hb, rfl⟩ := List.mem_map.mp hb'
  have := spread_map_tdiv_scaleFactor hD l a ha b hb
  omega

theorem sum_scaleAndCentre {l : List Int} (hl : l ≠ []) (D : Int) :
    0 ≤ (l.map (scaleAndCentre D l)).sum ∧ (l.map (scaleAndCentre D l)).sum < l.length := by
  have hne : l.map (·.tdiv (scaleFactor D l)) ≠ [] := by simpa using hl
  rw [map_scaleAndCentre]
  simpa using sum_map_sub_mean hne

theorem scaleAndCentre_eq_of_perm {D : Int} {l l' : List Int} (hp : l.Perm l') :
    scaleAndCentre D l = scaleAndCentre D l' := by
  funext x
  rw [scaleAndCentre, scaleAndCentre, scaleFactor_eq_of_perm hp,
    mean_eq_of_perm (hp.map (·.tdiv (scaleFactor D l')))]

theorem Spread.of_perm {d : Int} {l l' : List Int} (h : Spread d l) (hp : l.Perm l') : Spread d l' :=
  fun a ha b hb => h a (hp.mem_iff.mpr ha) b (hp.mem_iff.mpr hb)

theorem scaleAndCentre_of_spread {D : Int} {l : List Int} (hspread : Spread D l)
    (hsum : 0 ≤ l.sum ∧ l.sum < l.length) (x : Int) : scaleAndCentre D l x = x := by
  have hne : l ≠ [] := by
    rintro rfl
    simp at hsum
  have hfactor : scaleFactor D l = 1 := by
    rw [scaleFactor, if_neg (Int.not_lt.mpr (spread_le hne hspread))]
  have hmean : mean l = 0 := Int.ediv_eq_zero_of_lt hsum.1 hsum.2
  have hmap : l.map (·.tdiv 1) = l := by simp
  rw [scaleAndCentre, hfactor, hmap, hmean, Int.tdiv_one, Int.sub_zero]

theorem scaleAndCentre_of_forall_eq {D c : Int} {l : List Int} (hl : l ≠ []) (hc : ∀ x ∈ l, x = c) (hD : 0 ≤ D) :
    scaleAndCentre D l c = 0 := by
  have hspread : spread l ≤ 0 := spread_le hl fun a ha b hb => by rw [hc a ha, hc b hb]; omega
  have hfactor : scaleFactor D l = 1 := by
    rw [scaleFactor, if_neg (by omega)]
  have hmap : l.map (·.tdiv 1) = l := by simp
  have hmean := mean_mem_Icc hl (show ∀ x ∈ l, c ≤ x ∧ x ≤ c from fun x hx => by rw [hc x hx]; omega)
  rw [scaleAndCentre, hfactor, hmap, Int.tdiv_one]
  omega

end IntWindow
