import Pipette.Lemmas.Key

/-!
# The detail of a failure

A detail over the cap is cut twice where a character starts. What is before the first cut and after the second is kept, and a
line between them says how many bytes are left out. A cut is given by the number of characters before it.
-/

namespace Pipette.Worker

open List

/-- `MAX_DETAIL_BYTES`. -/
def maxDetailBytes : Nat := 8 * 1024

/-- `floor_char_boundary`: the last cut with at most `i` bytes before it. -/
def floorCharBoundary (s : Text) (i : Nat) : Nat := (takeBytes i s).length

/-- `ceil_char_boundary`: the first cut with at least `i` bytes before it, so at most the others after it. -/
def ceilCharBoundary (s : Text) (i : Nat) : Nat := s.length - (takeBytes (utf8Len s - i) s.reverse).length

def elisionLine (dropped : Nat) : Text := "\n[... " ++ (toString dropped).toList ++ " bytes elided ...]\n"

/-- Keep both ends of a detail over the cap. -/
def elideMiddle (detail : Text) : Text :=
  if utf8Len detail ≤ maxDetailBytes then detail
  else
    let headBudget := maxDetailBytes / 2
    let tailBudget := maxDetailBytes - headBudget
    let head := floorCharBoundary detail headBudget
    let tail := ceilCharBoundary detail (utf8Len detail - tailBudget)
    let dropped := utf8Len (detail.take tail) - utf8Len (detail.take head)
    detail.take head ++ elisionLine dropped ++ detail.drop tail

/-- The text is the two ends of the detail, each within three bytes of half the cap, and between them a line that names the
number of bytes left out. -/
def KeepsEnds (detail text : Text) : Prop :=
  ∃ head middle tail, detail = head ++ middle ++ tail ∧ text = head ++ elisionLine (utf8Len middle) ++ tail ∧
    utf8Len head + utf8Len middle + utf8Len tail = utf8Len detail ∧
    (4093 ≤ utf8Len head ∧ utf8Len head ≤ 4096) ∧ 4093 ≤ utf8Len tail ∧ utf8Len tail ≤ 4096

/-- The longest part of a long text that fits is within three bytes of the size. -/
theorem takeBytes_near {n : Nat} {s : Text} (h : n ≤ utf8Len s) : takeBytes n s <+: s ∧ n ≤ utf8Len (takeBytes n s) + 3 := by
  induction s generalizing n with
  | nil => exact ⟨prefix_rfl, Nat.le_add_right_of_le h⟩
  | cons c s ih =>
    have hfour := c.utf8Size_le_four
    have hcons : ∀ t, utf8Len (c :: t) = c.utf8Size + utf8Len t := fun _ => sum_cons
    rw [hcons] at h
    unfold takeBytes
    split
    · obtain ⟨hpart, hnear⟩ := @ih (n - c.utf8Size) (by omega)
      rw [hcons]
      exact ⟨cons_prefix_cons.2 ⟨rfl, hpart⟩, by omega⟩
    · exact ⟨ nil_prefix, by omega⟩

theorem utf8Len_reverse (s : Text) : utf8Len s.reverse = utf8Len s := by rw [utf8Len, map_reverse, sum_reverse, utf8Len]

end Pipette.Worker
