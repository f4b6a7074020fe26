import Pipette.Store.Key

/-!
# What is known of a key

A key starts with the first safe character of the identity it is made of, and is empty only when there is none
(`ModelStorageKey.of_head`). Two slugs fold to one key when they are equal or one is what the other folds to, and, if their
hashes tell them apart, only then (`bound_eq_iff`).
-/

namespace Pipette

open List

variable {parts : List Text} {slug s t : Text}

/-- The first part of a joined list that is not empty begins it. -/
theorem head?_intercalate (sep : Text) (h : ∀ part ∈ parts, part ≠ []) :
    (intercalate sep parts).head? = parts.flatten.head? := by
  cases parts with
  | nil => rfl
  | cons part rest =>
    obtain ⟨c, cs, rfl⟩ := exists_cons_of_ne_nil (h part mem_cons_self)
    cases rest with
    | nil => simp [intercalate]
    | cons next rest => simp [intercalate_cons_cons]

/-- What is left of a text's runs begins with its first character that separates nothing. -/
theorem head?_flatten_splitOnP (p : Char → Bool) (t : Text) : (t.splitOnP p).flatten.head? = t.find? fun c => !p c := by
  induction t with
  | nil => simp
  | cons x t ih =>
    rw [splitOnP_cons_eq_if_modifyHead]
    cases hx : p x with
    | true => simpa [hx] using ih
    | false =>
      cases ht : t.splitOnP p with
      | nil => exact absurd ht (splitOnP_ne_nil p t)
      | cons first rest => simp [hx]

theorem flatten_filter_not_isEmpty (parts : List Text) : (parts.filter fun part => !part.isEmpty).flatten = parts.flatten := by
  induction parts with
  | nil => rfl
  | cons part rest ih => cases part <;> simp [ih]

theorem ne_nil_of_mem_filter {part : Text} (h : part ∈ parts.filter fun part => !part.isEmpty) : part ≠ [] := by
  rintro rfl
  simp at h

theorem sanitize_head (segment : Text) : (sanitize segment).head? = segment.find? isSafeChar := by
  unfold sanitize
  rw [head?_intercalate _ fun part => ne_nil_of_mem_filter, flatten_filter_not_isEmpty, head?_flatten_splitOnP]
  simp

theorem slugFrom_head (segments : List Text) : (slugFrom segments).head? = segments.flatten.find? isSafeChar := by
  unfold slugFrom
  rw [head?_intercalate _ fun part => ne_nil_of_mem_filter, flatten_filter_not_isEmpty]
  induction segments with
  | nil => rfl
  | cons segment rest ih => rw [map_cons, flatten_cons, head?_append, ih, sanitize_head, flatten_cons, find?_append]

/-- Trimming the end keeps the beginning, or leaves nothing of a text of underscores. -/
theorem trimEndUnderscores_cons (c : Char) (cs : Text) :
    (trimEndUnderscores (c :: cs)).head? = some c ∨ trimEndUnderscores (c :: cs) = [] ∧ c = '_' := by
  unfold trimEndUnderscores
  rw [reverse_cons, dropWhile_append]
  split
  · by_cases hc : c = '_'
    · exact .inr ⟨by simp [hc], hc⟩
    · exact .inl (by simp [hc])
  · exact .inl (by simp)

/-- Folding a long slug keeps its first character. -/
theorem bound_head (slug : Text) : (bound slug).head? = slug.head? := by
  unfold bound boundTo
  split
  · rfl
  · next hlong =>
    cases slug with
    | nil => exact absurd (by decide : utf8Len [] ≤ maxLen) hlong
    | cons c cs =>
      rw [takeBytes, if_pos (Nat.le_trans c.utf8Size_le_four (by decide))]
      rcases trimEndUnderscores_cons c (takeBytes (maxLen - hashLen - 1 - c.utf8Size) cs) with h | ⟨h, rfl⟩
      · rw [head?_append, h]
        rfl
      · rw [h]
        rfl

/-- The first safe character of a model's identity. -/
def leadingChar (model : Model) : Option Char := ((identitySegments model).getD []).flatten.find? isSafeChar

/-- A key begins with the first safe character of the identity. -/
theorem ModelStorageKey.of_head {model : Model} {key : ModelStorageKey} (h : ModelStorageKey.of model = some key) :
    key.text.head? = leadingChar model := by
  obtain ⟨segments, hsegments, rfl⟩ := Option.map_eq_some_iff.1 h
  rw [leadingChar, hsegments]
  exact (bound_head _).trans (slugFrom_head segments)

/-! ## When two slugs share a key -/

/-- The slugs are equal, or one is what the other folds to. -/
def Clash (s t : Text) : Prop := s = t ∨ s = bound t ∨ t = bound s

instance (s t : Text) : Decidable (Clash s t) := inferInstanceAs (Decidable (_ ∨ _))

theorem utf8Len_append (s t : Text) : utf8Len (s ++ t) = utf8Len s + utf8Len t := by simp [utf8Len]

theorem utf8Len_takeBytes_le (n : Nat) (t : Text) : utf8Len (takeBytes n t) ≤ n := by
  induction t generalizing n with
  | nil => simp [takeBytes, utf8Len]
  | cons c cs ih =>
    unfold takeBytes
    split
    · have hrest := ih (n - c.utf8Size)
      simp only [utf8Len, map_cons, sum_cons] at hrest ⊢
      omega
    · simp [utf8Len]

/-- A text is what trimming leaves of it and underscores. -/
theorem trimEndUnderscores_append (t : Text) : ∃ rest, t = trimEndUnderscores t ++ rest := by
  refine ⟨(t.reverse.takeWhile (· = '_')).reverse, ?_⟩
  rw [trimEndUnderscores, ← reverse_append, takeWhile_append_dropWhile, reverse_reverse]

theorem hashTail_length (slug : Text) : (hashTail slug).length = hashLen := by
  rw [hashTail, length_take, Sha256.hex_length]
  rfl

theorem utf8Len_hashTail (slug : Text) : utf8Len (hashTail slug) = hashLen := by
  have hone : ("0123456789abcdef".toList.all fun d => d.utf8Size = 1) = true := rfl
  have hsizes : (hashTail slug).map Char.utf8Size = replicate hashLen 1 := by
    rw [eq_replicate_iff]
    refine ⟨by rw [length_map, hashTail_length], ?_⟩
    intro n hn
    obtain ⟨c, hc, rfl⟩ := mem_map.1 hn
    simpa using all_eq_true.1 hone c (Sha256.hex_chars (mem_of_mem_take hc))
  rw [utf8Len, hsizes]
  rfl

theorem bound_of_short (h : utf8Len slug ≤ maxLen) : bound slug = slug := if_pos h

theorem utf8Len_bound_le (slug : Text) : utf8Len (bound slug) ≤ maxLen := by
  by_cases h : utf8Len slug ≤ maxLen
  · rwa [bound_of_short h]
  have htaken := utf8Len_takeBytes_le (maxLen - hashLen - 1) slug
  obtain ⟨rest, hrest⟩ := trimEndUnderscores_append (takeBytes (maxLen - hashLen - 1) slug)
  rw [hrest, utf8Len_append] at htaken
  have hcons : utf8Len ('_' :: hashTail slug) = 1 + hashLen := by
    rw [← singleton_append, utf8Len_append, utf8Len_hashTail]
    rfl
  rw [bound, boundTo, if_neg h, utf8Len_append, hcons]
  simp only [maxLen, hashLen] at htaken ⊢
  omega

@[simp] theorem bound_bound (slug : Text) : bound (bound slug) = bound slug := bound_of_short (utf8Len_bound_le slug)

theorem bound_eq_of_clash (h : Clash s t) : bound s = bound t := by
  rcases h with rfl | rfl | rfl
  · rfl
  · exact bound_bound t
  · exact (bound_bound s).symm

/-- Slugs told apart by their hashes share a key exactly when they clash. -/
theorem bound_eq_iff (hhash : hashTail s = hashTail t → s = t) : bound s = bound t ↔ Clash s t := by
  refine ⟨fun h => ?_, bound_eq_of_clash⟩
  by_cases hs : utf8Len s ≤ maxLen
  · exact .inr (.inl ((bound_of_short hs).symm.trans h))
  by_cases ht : utf8Len t ≤ maxLen
  · exact .inr (.inr ((bound_of_short ht).symm.trans h.symm))
  · simp only [bound, boundTo, if_neg hs, if_neg ht] at h
    have htails := (append_inj' h (by simp [hashTail_length])).2
    exact .inl (hhash (cons.inj htails).2)

end Pipette
