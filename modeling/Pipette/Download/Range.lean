import Pipette.Path

/-!
# The headers of a range answer

`strong_etag` and `ContentRange::from_headers`. A header that is absent or holds no text is `none`.
-/

namespace Pipette

/-- `str::strip_prefix`. -/
def stripPrefix : Text → Text → Option Text
  | [], t => some t
  | _ :: _, [] => none
  | p :: ps, c :: cs => if p = c then stripPrefix ps cs else none

/-- The `ETag`, quotes included, if it is strong. -/
def strongEtag (header : Option Text) : Option Text :=
  header.bind fun value =>
    if (stripPrefix "W/" (trimText value)).isSome then none else some (trimText value)

/-- A `Content-Range` of the form `bytes first-last/total`. -/
structure ContentRange where
  first : Nat
  last : Nat
  total : Option Nat
  deriving DecidableEq

/-- The `Content-Range` of a response, if it names a range of one byte or more. -/
def ContentRange.fromHeader (header : Option Text) : Option ContentRange := do
  let value ← header
  let rest ← stripPrefix "bytes " value
  let (range, total) ← splitOnce '/' rest
  let (first, last) ← splitOnce '-' range
  let first ← parseU64 (trimText first)
  let last ← parseU64 (trimText last)
  if first ≤ last then some { first, last, total := parseU64 (trimText total) } else none

example : ContentRange.fromHeader (some "bytes 5-9/*") = some ⟨5, 9, none⟩ := by decide

theorem parseU64_le {t : Text} {n : Nat} (h : parseU64 t = some n) : n ≤ u64Max := by
  simp only [parseU64] at h
  split_ifs at h
  exact of_decide_eq_true (Option.filter_eq_some_iff.1 h).2

/-- A `Content-Range` names at least one byte, and a size that 64 bits hold. -/
theorem ContentRange.fromHeader_le {header : Option Text} {range : ContentRange} (h : fromHeader header = some range) :
    range.first ≤ range.last ∧ ∀ t, range.total = some t → t ≤ u64Max := by
  simp only [fromHeader, bind, Option.bind_eq_some_iff] at h
  obtain ⟨_, _, _, _, ⟨_, _⟩, _, ⟨_, _⟩, _, _, _, _, _, h⟩ := h
  split at h
  · cases h
    exact ⟨‹_›, fun t => parseU64_le⟩
  · simp at h

end Pipette
