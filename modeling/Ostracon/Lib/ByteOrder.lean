import Mathlib
/-!
# Fixed-width unsigned integers as bytes

The byte orders of Go's `encoding/binary`.  `putLE w n` is the `w` bytes of
`n`, least significant first, as `binary.LittleEndian.PutUint32` (`w = 4`)
and `PutUint64` (`w = 8`) write them; `getLE` reads them back.  `putBE` and
`getBE` are `binary.BigEndian`'s.

A read inverts a write modulo `256 ^ w` (`getLE_putLE`), so a write is
injective below `256 ^ w` (`putLE_inj`).
-/

namespace ByteOrder

/-- The `w` bytes of `n`, least significant first. -/
def putLE : Nat → Nat → List UInt8
  | 0, _ => []
  | w + 1, n => (n % 256).toUInt8 :: putLE w (n / 256)

/-- The value of bytes read least significant first. -/
def getLE : List UInt8 → Nat
  | [] => 0
  | b :: bs => b.toNat + 256 * getLE bs

/-- The `w` bytes of `n`, most significant first. -/
def putBE (w n : Nat) : List UInt8 := (putLE w n).reverse

/-- The value of bytes read most significant first. -/
def getBE (bs : List UInt8) : Nat := getLE bs.reverse

@[simp] theorem length_putLE (w n : Nat) : (putLE w n).length = w := by
  induction w generalizing n with
  | zero => rfl
  | succ w ih => simp [putLE, ih]

@[simp] theorem length_putBE (w n : Nat) : (putBE w n).length = w := by
  simp [putBE]

theorem getLE_putLE (w n : Nat) : getLE (putLE w n) = n % 256 ^ w := by
  induction w generalizing n with
  | zero => rw [putLE, getLE, Nat.pow_zero, Nat.mod_one]
  | succ w ih =>
    have hpow : 256 ^ (w + 1) = 256 * 256 ^ w := by
      rw [Nat.pow_succ, Nat.mul_comm]
    rw [putLE, getLE, ih, hpow, Nat.mod_mul]
    simp

theorem getBE_putBE (w n : Nat) : getBE (putBE w n) = n % 256 ^ w := by
  rw [getBE, putBE, List.reverse_reverse, getLE_putLE]

theorem putLE_inj {w m n : Nat} (hm : m < 256 ^ w) (hn : n < 256 ^ w)
    (h : putLE w m = putLE w n) : m = n := by
  have hget := congrArg getLE h
  rwa [getLE_putLE, getLE_putLE, Nat.mod_eq_of_lt hm, Nat.mod_eq_of_lt hn] at hget

end ByteOrder
