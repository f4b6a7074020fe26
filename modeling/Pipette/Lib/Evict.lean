import Mathlib

/-!
# Evicting in order until a pile fits

Items are evicted in a fixed order until what is left of the pile is within a limit. `planned` decides ahead, as if every
eviction succeeded; `tried` one item at a time, an item that stays freeing nothing. Planning again after each batch tries
exactly what deciding one at a time tries (`tried_eq_planned_append`).
-/

namespace Evict

open List

universe u

section Order

variable {α : Type u} (size : α → Nat) (limit : Nat)

/-- What a plan takes from a pile of `b`, in order, until what is left fits. -/
def planned : Nat → List α → List α
  | _, [] => []
  | b, e :: es => if b ≤ limit then [] else e :: planned (b - size e) es

/-- What is tried when each item is tried before the next is chosen. -/
def tried (stays : α → Bool) : Nat → List α → List α
  | _, [] => []
  | b, e :: es => if b ≤ limit then [] else e :: tried stays (if stays e then b else b - size e) es

/-- What trying these items frees. -/
def freed (stays : α → Bool) (es : List α) : Nat := ((es.filter fun e => !stays e).map size).sum

variable {size limit}

variable (stays : α → Bool)

/-- Nothing is tried where all fits. -/
theorem tried_of_le {b : Nat} (h : b ≤ limit) (es : List α) : tried size limit stays b es = [] := by
  cases es <;> simp [tried, h]

@[simp] theorem freed_nil : freed size stays [] = 0 := rfl

theorem freed_cons (e : α) (es : List α) :
    freed size stays (e :: es) = (if stays e then 0 else size e) + freed size stays es := by
  by_cases h : stays e <;> simp [freed, h]

/-- A plan takes the first items. -/
theorem planned_append_drop (b : Nat) (es : List α) :
    planned size limit b es ++ es.drop (planned size limit b es).length = es := by
  induction es generalizing b with
  | nil => rfl
  | cons e es ih =>
    by_cases h : b ≤ limit
    · simp [planned, h]
    · simpa [planned, h] using ih (b - size e)

/-- After a plan either what is left fits, or the plan took everything. -/
theorem planned_done (b : Nat) (es : List α) :
    b - ((planned size limit b es).map size).sum ≤ limit ∨ es.drop (planned size limit b es).length = [] := by
  induction es generalizing b with
  | nil => exact .inr rfl
  | cons e es ih =>
    by_cases h : b ≤ limit
    · left
      simp [planned, h]
    · have hrest := ih (b - size e)
      simp only [planned, h, if_false, map_cons, sum_cons, length_cons, drop_succ_cons]
      rwa [Nat.sub_add_eq]

/-- A plan takes no item before which what was left would fit. -/
theorem planned_least {b k : Nat} {es : List α} (h : k < (planned size limit b es).length) :
    limit < b - ((es.take k).map size).sum := by
  induction es generalizing b k with
  | nil => cases h
  | cons e es ih =>
    by_cases hb : b ≤ limit
    · simp [planned, hb] at h
    cases k with
    | zero => simpa using hb
    | succ k =>
      have hk : k < (planned size limit (b - size e) es).length := by simpa [planned, hb] using h
      simpa [Nat.sub_add_eq] using ih hk

/-- Deciding one at a time begins with what a plan for a smaller pile takes, and goes on from what that freed. -/
theorem tried_eq_planned_append (stays : α → Bool) {p b : Nat} (hp : p ≤ b) (es : List α) :
    tried size limit stays b es = planned size limit p es ++
      tried size limit stays (b - freed size stays (planned size limit p es)) (es.drop (planned size limit p es).length) := by
  induction es generalizing p b with
  | nil => rfl
  | cons e es ih =>
    by_cases h : p ≤ limit
    · simp [planned, h]
    have hb : ¬b ≤ limit := by omega
    have hnext : p - size e ≤ if stays e then b else b - size e := by split <;> omega
    simp only [planned, h, tried, hb, if_false, cons_append, length_cons, drop_succ_cons, freed_cons]
    rw [ih hnext]
    congr 3
    split <;> omega

/-- When the planned items all go, nothing more is tried. -/
theorem tried_after_planned {stays : α → Bool} {b : Nat} {es : List α}
    (hgo : ∀ e ∈ planned size limit b es, stays e = false) :
    tried size limit stays (b - freed size stays (planned size limit b es)) (es.drop (planned size limit b es).length) = [] := by
  have hfreed : freed size stays (planned size limit b es) = ((planned size limit b es).map size).sum := by
    rw [freed, filter_eq_self.2]
    intro e he
    simp [hgo e he]
  have hdone : b - ((planned size limit b es).map size).sum ≤ limit ∨ _ := planned_done b es
  rcases hdone with h | h
  · rw [hfreed]
    exact tried_of_le stays h _
  · rw [h]
    rfl

/-- The first items are tried. -/
theorem tried_append_drop (stays : α → Bool) (b : Nat) (es : List α) :
    tried size limit stays b es ++ es.drop (tried size limit stays b es).length = es := by
  induction es generalizing b with
  | nil => rfl
  | cons e es ih =>
    by_cases h : b ≤ limit
    · simp [tried, h]
    · simpa [tried, h] using ih (if stays e then b else b - size e)

end Order

section Stable

variable {α : Type u} {r : α → α → Prop} [DecidableRel r]

/-- Inserting into a sorted list commutes with taking a part of it. -/
theorem filter_orderedInsert [IsTrans α r] (q : α → Bool) (a : α) {l : List α} (h : l.Pairwise r) :
    (l.orderedInsert r a).filter q = if q a then (l.filter q).orderedInsert r a else l.filter q := by
  induction l with
  | nil => cases hq : q a <;> simp [hq]
  | cons b l ih =>
    obtain ⟨hb, hl⟩ := pairwise_cons.1 h
    by_cases hab : r a b
    · -- everything after `b` is also above `a`
      have hall : ∀ c ∈ (b :: l).filter q, r a c := by
        intro c hc
        rcases mem_cons.1 (mem_of_mem_filter hc) with rfl | hcl
        · exact hab
        · exact IsTrans.trans a b c hab (hb c hcl)
      rw [orderedInsert_cons_of_le r l hab]
      cases hq : q a with
      | false => simp [hq]
      | true =>
        rw [filter_cons_of_pos hq]
        cases hf : (b :: l).filter q with
        | nil => simp
        | cons c cs => simp [hall c (by simp [hf])]
    · rw [orderedInsert_of_not_le r l hab]
      cases hqb : q b with
      | false => simpa [hqb] using ih hl
      | true =>
        rw [filter_cons_of_pos hqb, filter_cons_of_pos hqb, ih hl]
        cases hqa : q a <;> simp [hab]

/-- Sorting commutes with taking a part of the list. -/
theorem filter_insertionSort [IsTrans α r] [Std.Total r] (q : α → Bool) (l : List α) :
    (l.insertionSort r).filter q = (l.filter q).insertionSort r := by
  induction l with
  | nil => rfl
  | cons a l ih =>
    rw [insertionSort_cons, filter_orderedInsert q a (pairwise_insertionSort r l), ih]
    cases hq : q a <;> simp [hq]

end Stable

end Evict
