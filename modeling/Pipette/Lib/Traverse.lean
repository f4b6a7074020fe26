import Mathlib

/-!
# A list whose elements are all read

`mapM` in `Option` gives the list that each element gives its part of, or nothing.
-/

namespace List

variable {α β : Type} {f : α → Option β} {l : List α}

/-- A list is read exactly if each element is. -/
theorem mapM_eq_some_iff {l' : List β} : l.mapM f = some l' ↔ l.map f = l'.map some := by
  induction l generalizing l' with
  | nil => cases l' <;> simp
  | cons a l ih => cases l' <;> simp [Option.bind_eq_some_iff, ih]

/-- One element that is not read is enough for nothing. -/
theorem mapM_eq_none_of_mem (h : none ∈ l.map f) : l.mapM f = none :=
  Option.eq_none_iff_forall_ne_some.2 fun _ hl' => by simp [mapM_eq_some_iff.1 hl'] at h

end List
