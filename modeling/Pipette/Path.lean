import Mathlib

/-!
# Texts, counts and path components

A text is the list of its characters, a 64-bit count a natural number. `components` reads a Unix path as `std::path::Path::components` does.
-/

namespace Pipette

/-- A text of the source, as its characters. -/
abbrev Text := List Char

instance : LawfulBEq Text := inferInstance

instance : Coe String Text := ⟨String.toList⟩

/-- `char::is_whitespace`: the characters with the Unicode property `White_Space`. -/
def isWhiteSpace (c : Char) : Bool :=
  let n := c.toNat
  (9 ≤ n && n ≤ 13) || n == 0x20 || n == 0x85 || n == 0xA0 || n == 0x1680 || (0x2000 ≤ n && n ≤ 0x200A) || n == 0x2028 ||
    n == 0x2029 || n == 0x202F || n == 0x205F || n == 0x3000

/-- `str::trim`, over all the white space of Unicode. -/
def trimText (text : Text) : Text := ((text.dropWhile isWhiteSpace).reverse.dropWhile isWhiteSpace).reverse

/-- `str::split_once`: the texts before and after the first `sep`. -/
def splitOnce (sep : Char) (text : Text) : Option (Text × Text) :=
  match text.dropWhile (· ≠ sep) with
  | [] => none
  | _ :: rest => some (text.takeWhile (· ≠ sep), rest)

/-- The largest 64-bit count. -/
def u64Max : Nat := 2 ^ 64 - 1

/-- Addition that stays at the largest 64-bit count. -/
def satAdd (a b : Nat) : Nat := min (a + b) u64Max

/-- The decimal value of some digits, none if a character is not one. -/
def digitsValue (text : Text) : Option Nat :=
  text.foldlM (fun n c => if c.isDigit then some (10 * n + (c.toNat - '0'.toNat)) else none) 0

/-- `str::parse::<u64>`: one digit or more after an optional `+`, within 64 bits. -/
def parseU64 (text : Text) : Option Nat :=
  let digits := match text with
    | '+' :: rest => rest
    | _ => text
  if digits = [] then none else (digitsValue digits).filter (· ≤ u64Max)

/-- One component of a path. -/
inductive Component where
  | rootDir
  | curDir
  | parentDir
  | normal (name : Text)
  deriving DecidableEq

/-- The component a segment between two separators names, if it names one. -/
def Component.ofSegment (seg : Text) : Option Component :=
  if seg = [] ∨ seg = ['.'] then none
  else if seg = ['.', '.'] then some .parentDir
  else some (.normal seg)

/-- The components of a Unix path. -/
def components (path : Text) : List Component :=
  match path.splitOn '/' with
  | ['.'] :: rest => .curDir :: rest.filterMap Component.ofSegment
  | segs =>
    if path.head? = some '/' then .rootDir :: segs.filterMap Component.ofSegment
    else segs.filterMap Component.ofSegment

example : components "./a//b/../." = [.curDir, .normal ['a'], .normal ['b'], .parentDir] := by decide

end Pipette
