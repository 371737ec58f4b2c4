import Mathlib
/-!
# Go's `int64` arithmetic

An `int64` is an integer in `[-2^63, 2^63)`; Go's `+`, `-` and `*` on it are
the exact operation followed by the two's-complement wrap, and `/` truncates
toward zero, wrapping only `MinInt64 / -1`.  The conversion `int64(u)` of a
`uint64` reinterprets its bits, that is, wraps its value.

The constants are written as numerals so that `omega` reasons about `wrap`
directly.
-/

namespace GoInt

/-- `math.MinInt64`. -/
def minInt64 : Int := -9223372036854775808

/-- `math.MaxInt64`. -/
def maxInt64 : Int := 9223372036854775807

/-- `x` is the value of some `int64`. -/
def InInt64 (x : Int) : Prop := minInt64 ≤ x ∧ x ≤ maxInt64

instance : DecidablePred InInt64 := fun _ => inferInstanceAs (Decidable (_ ∧ _))

/-- The two's-complement wrap onto `int64`. -/
def wrap (x : Int) : Int := (x + 9223372036854775808) % 18446744073709551616 - 9223372036854775808

/-- `a + b` on `int64`. -/
def add (a b : Int) : Int := wrap (a + b)

/-- `a - b` on `int64`. -/
def sub (a b : Int) : Int := wrap (a - b)

/-- `a * b` on `int64`. -/
def mul (a b : Int) : Int := wrap (a * b)

/-- `-a` on `int64`; `-MinInt64 = MinInt64`. -/
def neg (a : Int) : Int := wrap (-a)

/-- `a / b` on `int64`, for `b ≠ 0`. -/
def div (a b : Int) : Int := wrap (a.tdiv b)

/-- `int64(u)` for a `uint64` `u`. -/
def ofUInt64 (u : UInt64) : Int := wrap u.toNat

theorem wrap_inInt64 (x : Int) : InInt64 (wrap x) := by
  unfold InInt64 wrap minInt64 maxInt64
  omega

theorem wrap_of_inInt64 {x : Int} (h : InInt64 x) : wrap x = x := by
  unfold InInt64 minInt64 maxInt64 at h
  unfold wrap
  omega

theorem add_of_inInt64 {a b : Int} (h : InInt64 (a + b)) : add a b = a + b :=
  wrap_of_inInt64 h

theorem sub_of_inInt64 {a b : Int} (h : InInt64 (a - b)) : sub a b = a - b :=
  wrap_of_inInt64 h

theorem mul_of_inInt64 {a b : Int} (h : InInt64 (a * b)) : mul a b = a * b :=
  wrap_of_inInt64 h

theorem neg_of_inInt64 {a : Int} (h : InInt64 (-a)) : neg a = -a :=
  wrap_of_inInt64 h

theorem div_of_inInt64 {a b : Int} (ha : InInt64 a) (hb : 0 < b) : div a b = a.tdiv b := by
  apply wrap_of_inInt64
  unfold InInt64 minInt64 maxInt64 at ha ⊢
  rcases Int.le_total 0 a with h0 | h0
  · have hle : a.tdiv b ≤ a := Int.tdiv_le_self b h0
    have hnn : 0 ≤ a.tdiv b := Int.tdiv_nonneg h0 hb.le
    omega
  · -- the quotient of `-a` bounds the quotient of `a` from the other side
    have hle : (-a).tdiv b ≤ -a := Int.tdiv_le_self b (by omega)
    have hnn : 0 ≤ (-a).tdiv b := Int.tdiv_nonneg (by omega) hb.le
    rw [Int.neg_tdiv] at hle hnn
    omega

theorem toNat_uint64OfInt {x : Int} (h0 : 0 ≤ x) (h : x ≤ maxInt64) :
    (UInt64.ofInt x).toNat = x.toNat := by
  unfold maxInt64 at h
  rw [UInt64.ofInt, UInt64.toNat_ofNat', Int.emod_eq_of_lt h0 (by omega)]
  omega

theorem foldl_add_of_nonneg {α : Type*} (f : α → Int) :
    ∀ (l : List α) {acc : Int}, 0 ≤ acc → (∀ a ∈ l, 0 ≤ f a) → acc + (l.map f).sum ≤ maxInt64 →
      l.foldl (fun s a => add s (f a)) acc = acc + (l.map f).sum
  | [], _, _, _, _ => by simp
  | a :: l, acc, hacc, hf, hsum => by
    have ha : 0 ≤ f a := hf a List.mem_cons_self
    have hl : 0 ≤ (l.map f).sum :=
      List.sum_nonneg (by simpa using fun b hb => hf b (List.mem_cons_of_mem a hb))
    rw [List.map_cons, List.sum_cons] at hsum
    have hadd : add acc (f a) = acc + f a := by
      apply add_of_inInt64
      unfold InInt64 minInt64
      omega
    rw [List.foldl_cons, hadd, foldl_add_of_nonneg f l (by omega)
      (fun b hb => hf b (List.mem_cons_of_mem a hb)) (by omega), List.map_cons, List.sum_cons]
    omega

end GoInt
