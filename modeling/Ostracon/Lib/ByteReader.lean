import Ostracon.Lib.ByteOrder
/-!
# Records on a byte reader

What a record stream needs of Go's `io` and `encoding/binary` when it is
written to memory and read back.  A `Codec` is a serializer whose writer may
fail; it is lawful when reading back what it wrote gives the value, and what
it wrote is never empty.  `read k` is `Read` of a `bytes.Reader` into a buffer
of `k` bytes: at the end of the bytes it returns `io.EOF`, and otherwise it
copies as many bytes as there are, up to `k`, and leaves the rest of the
buffer zero.

A read of exactly the bytes of a nonempty record returns them
(`read_append`, and `read_putBE` for a big-endian word), and a read that is
no `io.EOF` of a buffer with room consumes at least one byte
(`length_read_lt`).
-/

namespace ByteReader

/-- A serializer: `Marshal` and `Unmarshal`. -/
structure Codec (α : Type) where
  marshal : α → Except String (List UInt8)
  unmarshal : List UInt8 → Except String α

/-- What is assumed of a serializer: reading what it wrote gives the value
back, and what it wrote is not empty. -/
structure Codec.Lawful {α : Type} (codec : Codec α) : Prop where
  unmarshal_marshal : ∀ {x d}, codec.marshal x = .ok d → codec.unmarshal d = .ok x
  ne_nil : ∀ {x d}, codec.marshal x = .ok d → d ≠ []

/-- `Read` of a `bytes.Reader` into a buffer of `k` bytes: the buffer, or
`none` for `io.EOF`, and the bytes left. -/
def read (k : Nat) (rd : List UInt8) : Option (List UInt8) × List UInt8 :=
  if rd = [] then (none, []) else (some (rd.take k ++ List.replicate (k - rd.length) 0), rd.drop k)

@[simp] theorem read_nil (k : Nat) : read k [] = (none, []) := rfl

theorem read_of_ne_nil {rd : List UInt8} (h : rd ≠ []) (k : Nat) :
    read k rd = (some (rd.take k ++ List.replicate (k - rd.length) 0), rd.drop k) := by
  rw [read, if_neg h]

theorem read_append {xs : List UInt8} (hxs : xs ≠ []) (rest : List UInt8) :
    read xs.length (xs ++ rest) = (some xs, rest) := by
  have hne : xs ++ rest ≠ [] := fun h => hxs (List.append_eq_nil_iff.mp h).1
  have hpad : xs.length - (xs ++ rest).length = 0 := by
    rw [List.length_append]
    omega
  rw [read_of_ne_nil hne, List.take_left' rfl, List.drop_left' rfl, hpad, List.replicate_zero, List.append_nil]

theorem read_putBE {w : Nat} (hw : 0 < w) (n : Nat) (rest : List UInt8) :
    read w (ByteOrder.putBE w n ++ rest) = (some (ByteOrder.putBE w n), rest) := by
  have hlen := ByteOrder.length_putBE w n
  have hne : ByteOrder.putBE w n ≠ [] := fun h => by
    rw [h, List.length_nil] at hlen
    omega
  have hread := read_append hne rest
  rwa [hlen] at hread

theorem length_read_le (k : Nat) (rd : List UInt8) : (read k rd).2.length ≤ rd.length := by
  by_cases h : rd = []
  · simp [h]
  · rw [read_of_ne_nil h, List.length_drop]
    omega

theorem length_read_lt {k : Nat} (hk : 0 < k) {rd : List UInt8} (h : rd ≠ []) :
    (read k rd).2.length < rd.length := by
  have hpos : 0 < rd.length := List.length_pos_iff.mpr h
  rw [read_of_ne_nil h, List.length_drop]
  omega

end ByteReader
