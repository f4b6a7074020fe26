import Mathlib

/-!
# Files of lines that are appended to

Over any alphabet with a line end, `complete` are the lines of a file that have their end and `torn` is what stands after the
last (`unlines_complete_append_torn`). A reader that cuts the torn line off leaves the complete ones as they were
(`take_completeLength`).
-/

namespace LineLog

open List

variable {β : Type} [DecidableEq β] (nl : β)

/-- Some lines, each with its end. -/
def unlines (ls : List (List β)) : List β := ls.flatMap fun l => l ++ [nl]

/-- The lines that have their end, without it. -/
def complete (s : List β) : List (List β) := (s.splitOn nl).dropLast

/-- What stands after the last line end. -/
def torn (s : List β) : List β := (s.splitOn nl).getLastD []

/-- How long the file is up to and with its last line end. -/
def completeLength (s : List β) : Nat := s.length - (s.reverse.takeWhile fun b => b ≠ nl).length

variable {nl} {s line : List β}

/-! ## Reading a file from its start -/

theorem complete_of_notMem (h : nl ∉ s) : complete nl s = [] := by simp [complete, splitOn_eq_singleton h]

theorem torn_of_notMem (h : nl ∉ s) : torn nl s = s := by simp [torn, splitOn_eq_singleton h]

/-- A first line, and the lines after it. -/
theorem complete_line_append (h : nl ∉ line) (s : List β) : complete nl (line ++ nl :: s) = line :: complete nl s := by
  rw [complete, splitOn_append_cons_self_of_not_mem h, dropLast_cons_of_ne_nil (splitOn_ne_nil _ _)]
  rfl

theorem torn_line_append (h : nl ∉ line) (s : List β) : torn nl (line ++ nl :: s) = torn nl s := by
  rw [torn, torn, splitOn_append_cons_self_of_not_mem h]
  cases hs : s.splitOn nl with
  | nil => exact absurd hs (splitOn_ne_nil _ _)
  | cons l ls => simp

omit [DecidableEq β] in
theorem unlines_cons (line : List β) (ls : List (List β)) : unlines nl (line :: ls) = line ++ nl :: unlines nl ls := by
  simp [unlines]

omit [DecidableEq β] in
theorem unlines_append (ls ls' : List (List β)) : unlines nl (ls ++ ls') = unlines nl ls ++ unlines nl ls' := by
  simp [unlines]

variable {ls : List (List β)}

variable (h : ∀ l ∈ ls, nl ∉ l)
include h

/-- Lines that are written, and those of what follows. -/
theorem complete_unlines_append (s : List β) :
    complete nl (unlines nl ls ++ s) = ls ++ complete nl s := by
  induction ls with
  | nil => rfl
  | cons l ls ih =>
    rw [unlines_cons, append_assoc, cons_append, complete_line_append (h l (by simp)), ih fun l' hl' => h l' (by simp [hl'])]
    rfl

theorem torn_unlines_append (s : List β) : torn nl (unlines nl ls ++ s) = torn nl s := by
  induction ls with
  | nil => rfl
  | cons l ls ih =>
    rw [unlines_cons, append_assoc, cons_append, torn_line_append (h l (by simp)), ih fun l' hl' => h l' (by simp [hl'])]

/-- Lines that are written are read back. -/
theorem complete_unlines : complete nl (unlines nl ls) = ls := by
  have hall := complete_unlines_append h []
  rwa [complete_of_notMem (not_mem_nil), append_nil, append_nil] at hall

/-- Nothing stands after lines that are written. -/
theorem torn_unlines : torn nl (unlines nl ls) = [] := by
  have hall := torn_unlines_append h []
  rwa [torn_of_notMem not_mem_nil, append_nil] at hall

/-- Lines and what stands after them can be read back. -/
theorem unlines_append_inj {ls' : List (List β)} {t : List β} (h' : ∀ l ∈ ls', nl ∉ l) (hs : nl ∉ s) (ht : nl ∉ t)
    (heq : unlines nl ls ++ s = unlines nl ls' ++ t) : ls = ls' ∧ s = t := by
  have hcomplete := congrArg (complete nl) heq
  rw [complete_unlines_append h, complete_unlines_append h', complete_of_notMem hs, complete_of_notMem ht] at hcomplete
  obtain rfl : ls = ls' := by simpa using hcomplete
  exact ⟨rfl, append_cancel_left heq⟩

omit h

/-! ## A file is its complete lines and its torn one -/

/-- Every file is some lines and what stands after the last. -/
theorem exists_lines (nl : β) (s : List β) : ∃ ls t, (∀ l ∈ ls, nl ∉ l) ∧ nl ∉ t ∧ s = unlines nl ls ++ t := by
  induction hn : s.length using Nat.strongRecOn generalizing s with
  | _ n ih =>
    by_cases h : nl ∈ s
    · obtain ⟨line, s', rfl, hline⟩ := eq_append_cons_of_mem h
      obtain ⟨ls, t, hls, ht, hs'⟩ := ih s'.length (by simp at hn; omega) s' rfl
      refine ⟨line :: ls, t, ?_, ht, ?_⟩
      · rintro l (_ | ⟨_, hl⟩)
        · exact hline
        · exact hls l hl
      · rw [unlines_cons, hs']
        simp
    · exact ⟨[], s, by simp, h, rfl⟩

/-- A line has no line end in it. -/
theorem notMem_of_mem_complete {l : List β} (h : l ∈ complete nl s) : nl ∉ l := by
  obtain ⟨ls, t, hls, ht, rfl⟩ := exists_lines nl s
  rw [complete_unlines_append hls, complete_of_notMem ht, append_nil] at h
  exact hls l h

/-- Cut at its last line end, a file is its complete lines. -/
theorem take_completeLength (nl : β) (s : List β) : s.take (completeLength nl s) = unlines nl (complete nl s) := by
  obtain ⟨ls, t, hls, ht, rfl⟩ := exists_lines nl s
  have hends : ((unlines nl ls).reverse.takeWhile fun b => b ≠ nl) = [] := by
    rcases eq_nil_or_concat ls with rfl | ⟨ls, l, rfl⟩
    · rfl
    · simp [unlines]
  have htorn : ((unlines nl ls ++ t).reverse.takeWhile fun b => b ≠ nl) = t.reverse := by
    rw [reverse_append, takeWhile_append_of_pos, hends, append_nil]
    exact fun b hb => decide_eq_true fun h => ht (h ▸ mem_reverse.1 hb)
  have hlength : completeLength nl (unlines nl ls ++ t) = (unlines nl ls).length := by
    rw [completeLength, htorn, length_append, length_reverse, Nat.add_sub_cancel]
  rw [hlength, take_left' rfl, complete_unlines_append hls, complete_of_notMem ht, append_nil]

/-- The cut loses no line. -/
theorem complete_take_completeLength (nl : β) (s : List β) : complete nl (s.take (completeLength nl s)) = complete nl s := by
  rw [take_completeLength]
  exact complete_unlines fun l hl => notMem_of_mem_complete hl

/-! ## Writing at the end -/

/-- A line written after complete lines is one more. -/
theorem complete_append_line (hs : torn nl s = []) (h : nl ∉ line) : complete nl (s ++ (line ++ [nl])) = complete nl s ++ [line] := by
  obtain ⟨ls, t, hls, ht, rfl⟩ := exists_lines nl s
  obtain rfl : t = [] := by rwa [torn_unlines_append hls, torn_of_notMem ht] at hs
  rw [append_nil, complete_unlines_append hls, complete_unlines hls, complete_line_append h, complete_of_notMem not_mem_nil]

/-- Nothing stands after a line that is written. -/
theorem torn_append_line (h : nl ∉ line) (s : List β) : torn nl (s ++ (line ++ [nl])) = [] := by
  obtain ⟨ls, t, hls, ht, rfl⟩ := exists_lines nl s
  have hline : nl ∉ t ++ line := by simp [ht, h]
  rw [append_assoc, torn_unlines_append hls, ← append_assoc, torn_line_append hline, torn_of_notMem not_mem_nil]

/-- A part of a line makes no line. -/
theorem complete_append_part (h : nl ∉ line) : complete nl (s ++ line) = complete nl s := by
  obtain ⟨ls, t, hls, ht, rfl⟩ := exists_lines nl s
  have hpart : nl ∉ t ++ line := by simp [ht, h]
  rw [append_assoc, complete_unlines_append hls, complete_unlines_append hls, complete_of_notMem hpart, complete_of_notMem ht]

/-- A line cut off anywhere before its end makes no line. -/
theorem complete_append_take (h : nl ∉ line) {n : Nat} (hn : n ≤ line.length) :
    complete nl (s ++ (line ++ [nl]).take n) = complete nl s := by
  rw [take_append_of_le_length hn]
  exact complete_append_part fun hmem => h (mem_of_mem_take hmem)

end LineLog
