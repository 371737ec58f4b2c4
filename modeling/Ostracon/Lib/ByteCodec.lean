import Mathlib
/-!
# Hex and percent encodings of byte strings

Two textual encodings of byte strings as Go's `encoding/hex` and `net/url`
write and read them: two upper-case hex digits per byte (`encodeHex`,
`decodeHex`), and percent-escaping of the bytes a predicate selects
(`escape`, `unescape`).  Both readers accept either case of hex digit.
-/

namespace ByteCodec

/-! ## Hex digits -/

/-- The upper-case hex digit of a nibble. -/
def hexDigit (n : UInt8) : UInt8 := if n < 10 then 48 + n else 55 + n

/-- The value of a hex digit of either case, `none` for a byte that is no
digit: `unhex` of `net/url`, and `reverseHexTable` of `encoding/hex`. -/
def hexValue (c : UInt8) : Option UInt8 :=
  if 48 ≤ c ∧ c ≤ 57 then some (c - 48)
  else if 97 ≤ c ∧ c ≤ 102 then some (c - 97 + 10)
  else if 65 ≤ c ∧ c ≤ 70 then some (c - 65 + 10)
  else none

/-- The two digits of a byte, high nibble first. -/
def hexPair (b : UInt8) : List UInt8 := [hexDigit (b >>> 4), hexDigit (b &&& 15)]

/-! ## Hex strings -/

/-- `fmt.Sprintf("%X", bz)`: two upper-case digits per byte. -/
def encodeHex (bz : List UInt8) : List UInt8 := bz.flatMap hexPair

/-- The errors of `hex.DecodeString`. -/
inductive HexError
  /-- `InvalidByteError`: "encoding/hex: invalid byte". -/
  | invalidByte (b : UInt8)
  /-- `ErrLength`: "encoding/hex: odd length hex string". -/
  | length
  deriving DecidableEq, Repr

/-- `hex.DecodeString`: two digits make one byte, and a bad digit is
reported before an odd length. -/
def decodeHex : List UInt8 → Except HexError (List UInt8)
  | [] => .ok []
  | [p] => if hexValue p = none then .error (.invalidByte p) else .error .length
  | p :: q :: rest =>
    match hexValue p, hexValue q with
    | none, _ => .error (.invalidByte p)
    | some _, none => .error (.invalidByte q)
    | some a, some b => (decodeHex rest).map ((a <<< 4 ||| b) :: ·)

@[simp] theorem encodeHex_nil : encodeHex [] = [] := rfl

/-! ## Percent escapes -/

section Escape

variable (shouldEscape : UInt8 → Bool)

/-- One byte escaped: `%` and its two hex digits, or the byte itself. -/
def escapeByte (c : UInt8) : List UInt8 := if shouldEscape c then 37 :: hexPair c else [c]

/-- `escape` of `net/url` for a mode that writes no `+` for a space.  Go
returns its input unchanged when no byte needs escaping, which is what the
byte-wise rewrite gives then too. -/
def escape (s : List UInt8) : List UInt8 := s.flatMap (escapeByte shouldEscape)

@[simp] theorem escape_nil : escape shouldEscape [] = [] := rfl

end Escape

/-- `EscapeError`: the malformed escape, from its `%` and at most three
bytes long. -/
structure EscapeError where
  s : List UInt8
  deriving DecidableEq, Repr

/-- `unescape` of `net/url` in a path mode, where `+` is an ordinary byte.
Go first checks every `%` and then decodes; the two loops visit the same
positions, so one pass that fails at the first malformed escape gives the
same result. -/
def unescape : List UInt8 → Except EscapeError (List UInt8)
  | [] => .ok []
  | c :: rest =>
    if c = 37 then
      match rest with
      | a :: b :: rest' =>
        if (hexValue a).isSome ∧ (hexValue b).isSome then
          (unescape rest').map (((hexValue a).getD 0 <<< 4 ||| (hexValue b).getD 0) :: ·)
        else .error ⟨[c, a, b]⟩
      -- fewer than two bytes follow the `%`
      | _ => .error ⟨c :: rest⟩
    else (unescape rest).map (c :: ·)

end ByteCodec
