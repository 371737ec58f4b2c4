import Ostracon.Crypto.Merkle
import Ostracon.Lib.ByteCodec
/-!
# Key paths of chained proofs

The model of `crypto/merkle/proof_key_path.go`.  A key path is a list of
keys, each written as `/` and its path escape (`url.PathEscape`) or as `/x:`
and its upper-case hex digits; `KeyPathToKeys` cuts a path at its slashes and
reads a part as hex when it starts with `x:`, as a path escape otherwise.

The package requires every encoding to decode to the same keys.  It fails
for a URL key that starts with `x:`, since the path escape keeps both bytes:
`keyPathToKeys_url_key_read_as_hex`.
-/

namespace Ostracon.Crypto.Merkle

open ByteCodec

/-! ## The path-segment escape of `net/url` -/

/-- `shouldEscape(c, encodePathSegment)`: letters, digits and `-_.~` are
kept, and of the reserved bytes all but `/;,?`. -/
def shouldEscapePathSegment (c : UInt8) : Bool :=
  if (97 ≤ c ∧ c ≤ 122) ∨ (65 ≤ c ∧ c ≤ 90) ∨ (48 ≤ c ∧ c ≤ 57) then false
  -- `-` `_` `.` `~`
  else if c ∈ [45, 95, 46, 126] then false
  -- `$` `&` `+` `,` `/` `:` `;` `=` `?` `@`
  else if c ∈ [36, 38, 43, 44, 47, 58, 59, 61, 63, 64] then c ∈ [47, 59, 44, 63]
  else true

/-- `url.PathEscape`. -/
def pathEscape (s : Bytes) : Bytes := escape shouldEscapePathSegment s

/-- `url.PathUnescape`. -/
def pathUnescape (s : Bytes) : Except EscapeError Bytes := unescape s

/-! ## Key paths -/

/-- `keyEncoding`: `KeyEncodingURL`, `KeyEncodingHex`, and `KeyEncodingMax`,
the count of known encodings, which `String` refuses. -/
inductive KeyEncoding
  | url
  | hex
  | max
  deriving DecidableEq, Repr

/-- `Key`. -/
structure Key where
  name : Bytes
  enc : KeyEncoding
  deriving DecidableEq, Repr

/-- `KeyPath`. -/
abbrev KeyPath := List Key

/-- `KeyPath.AppendKey`. -/
def KeyPath.appendKey (pth : KeyPath) (key : Bytes) (enc : KeyEncoding) : KeyPath :=
  pth ++ [⟨key, enc⟩]

/-- `/`. -/
def slash : UInt8 := 47

/-- `x:`, the mark of a hex part. -/
def hexPrefix : Bytes := [120, 58]

/-- One key as `String` appends it; `none` is the panic on an unknown
encoding. -/
def Key.string (key : Key) : Option Bytes :=
  match key.enc with
  | .url => some (slash :: pathEscape key.name)
  | .hex => some (slash :: (hexPrefix ++ encodeHex key.name))
  | .max => none

/-- `KeyPath.String`. -/
def KeyPath.string (pth : KeyPath) : Option Bytes := (pth.mapM Key.string).map List.flatten

/-- The errors of `KeyPathToKeys`. -/
inductive KeyPathError
  /-- "key path string must start with a forward slash '/'" -/
  | noSlash
  /-- "decoding hex-encoded part #%d: /%s: %w" -/
  | hexPart (i : Nat) (part : Bytes) (err : HexError)
  /-- "decoding url-encoded part #%d: /%s: %w" -/
  | urlPart (i : Nat) (part : Bytes) (err : EscapeError)
  deriving DecidableEq, Repr

/-- The loop body of `KeyPathToKeys` for part number `i`. -/
def decodePart (i : Nat) (part : Bytes) : Except KeyPathError Bytes :=
  if hexPrefix.isPrefixOf part then (decodeHex (part.drop 2)).mapError (.hexPart i part)
  else (pathUnescape part).mapError (.urlPart i part)

/-- The loop of `KeyPathToKeys` over the parts from number `i` on; it stops
at the first part that does not decode. -/
def decodeParts : Nat → List Bytes → Except KeyPathError (List Bytes)
  | _, [] => .ok []
  | i, part :: parts => do
    let key ← decodePart i part
    let keys ← decodeParts (i + 1) parts
    pure (key :: keys)

/-- `KeyPathToKeys`: `strings.Split(path[1:], "/")` is `splitOn`. -/
def keyPathToKeys (path : Bytes) : Except KeyPathError (List Bytes) :=
  match path with
  | c :: rest => if c = slash then decodeParts 0 (rest.splitOn slash) else .error .noSlash
  | [] => .error .noSlash

/-! ## Reading a path back -/

theorem keyPathToKeys_ne_nil {path : Bytes} {keys : List Bytes}
    (h : keyPathToKeys path = .ok keys) : keys ≠ [] := by
  have hlength : ∀ {i : Nat} {parts keys : List Bytes}, decodeParts i parts = .ok keys →
      keys.length = parts.length := by
    intro i parts
    induction parts generalizing i with
    | nil => intro keys h; cases h; rfl
    | cons part parts ih =>
      intro keys h
      cases hpart : decodePart i part with
      | error e => simp [decodeParts, hpart] at h; cases h
      | ok key =>
        cases hrest : decodeParts (i + 1) parts with
        | error e => simp [decodeParts, hpart, hrest] at h; cases h
        | ok keys₁ =>
          simp only [decodeParts, hpart, hrest] at h
          cases h
          simp [ih hrest]
  match path, h with
  | c :: rest, h =>
    rw [keyPathToKeys] at h
    split at h
    · intro hnil
      have := hlength h
      rw [hnil] at this
      exact List.splitOn_ne_nil slash rest (List.length_eq_zero_iff.mp this.symm)
    · cases h

/-- A URL key that starts with `x:` is read back as hex: the key `x:` comes
back as the empty key, while written as hex it comes back as itself, and the
URL key `x:z` does not decode at all. -/
theorem keyPathToKeys_url_key_read_as_hex :
    (KeyPath.appendKey [] hexPrefix .url).string = some [47, 120, 58] ∧
      keyPathToKeys [47, 120, 58] = .ok [[]] ∧
      (KeyPath.appendKey [] hexPrefix .hex).string = some [47, 120, 58, 55, 56, 51, 65] ∧
      keyPathToKeys [47, 120, 58, 55, 56, 51, 65] = .ok [hexPrefix] ∧
      (KeyPath.appendKey [] [120, 58, 122] .url).string = some [47, 120, 58, 122] ∧
      keyPathToKeys [47, 120, 58, 122] = .error (.hexPart 0 [120, 58, 122] (.invalidByte 122)) := by
  refine ⟨by decide, by decide, by decide, by decide, by decide, by decide⟩

end Ostracon.Crypto.Merkle
