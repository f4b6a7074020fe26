import Pipette.Lib.Traverse
import Pipette.Path

/-!
# Completions with the same id

`dedupe_completion_ids` walks the completions of a payload from the last to the first and keeps the first it meets of each id.
What is left is the last completion of each id, in the order of the payload.
-/

namespace Pipette.Scores

open List

/-- A `serde_json::Value`; a number, a boolean or null by its text. -/
inductive Value where
  | leaf (text : Text)
  | string (text : Text)
  | array (items : List Value)
  | object (fields : Text → Option Value)

namespace Value

def get (key : String) : Value → Option Value
  | .object fields => fields key.toList
  | _ => none

def asStr : Value → Option Text
  | .string text => some text
  | _ => none

def asArray : Value → Option (List Value)
  | .array items => some items
  | _ => none

/-- The value with what it has under the key replaced. -/
def set (value : Value) (key : String) (new : Value) : Value :=
  match value with
  | .object fields => .object (Function.update fields key.toList (some new))
  | value => value

end Value

/-- The string id of a completion. -/
def idOf (completion : Value) : Option Text := completion.get "id" >>= Value.asStr

structure DedupReport where
  benchmarkId : Text
  before : Nat
  after : Nat
  listedDuplicateIds : List Text
  distinctDuplicates : Nat

/-- A completion without a string id; the benchmark's id. -/
inductive ScoreValidationError where
  | completionMissingId (benchmarkId : Text)

def maxListedDuplicates : Nat := 10

/-- The walk from the last completion to the first: those whose id was not seen yet, the ids seen, and the ids of the others. -/
def keepUnseen : List (Value × Text) → List Value × List Text × List Text
  | [] => ([], [], [])
  | (c, id) :: before =>
    let (kept, seen, duplicates) := keepUnseen before
    if id ∈ seen then (kept, seen, duplicates ++ [id]) else (c :: kept, id :: seen, duplicates)

/-- `Vec::dedup`. -/
def dedupAdjacent : List Text → List Text
  | a :: b :: rest => if a = b then dedupAdjacent (b :: rest) else a :: dedupAdjacent (b :: rest)
  | l => l

def dedupeCompletionIds (payload : Value) : Except ScoreValidationError (Option DedupReport) × Value :=
  let benchmarkId := ((payload.get "benchmark_id" >>= Value.asStr)).getD "<unknown>"
  match payload.get "completions" >>= Value.asArray with
  | none => (.ok none, payload)
  | some completions =>
    match completions.mapM idOf with
    | none => (.error (.completionMissingId benchmarkId), payload)
    | some ids =>
      let (kept, _, duplicates) := keepUnseen (completions.zip ids)
      let payload := payload.set "completions" (.array kept)
      if duplicates = [] then (.ok none, payload)
      else
        let distinct := dedupAdjacent (duplicates.insertionSort (· ≤ ·))
        (.ok (some
          { benchmarkId
            before := completions.length
            after := kept.length
            listedDuplicateIds := distinct.take maxListedDuplicates
            distinctDuplicates := distinct.length }), payload)

/-- The entries whose id does not come again. -/
def lastRows : List Value → List Value
  | [] => []
  | c :: rest => if idOf c ∈ rest.map idOf then lastRows rest else c :: lastRows rest

/-! ## What is kept -/

variable {items : List Value} {ids : List Text}

theorem keepUnseen_eq (h : items.map idOf = ids.map some) :
    (keepUnseen (items.zip ids)).1 = lastRows items ∧ (∀ id, id ∈ (keepUnseen (items.zip ids)).2.1 ↔ id ∈ ids) ∧
      ∀ id, id ∈ (keepUnseen (items.zip ids)).2.2 ↔ 1 < ids.count id := by
  induction items generalizing ids with
  | nil =>
    cases map_eq_nil_iff.1 h.symm
    simp [keepUnseen, lastRows]
  | cons c items ih =>
    obtain ⟨id, ids, rfl, hid, htail⟩ := map_eq_cons_iff.1 h.symm
    obtain ⟨hkept, hseen, hagain⟩ := ih htail.symm
    have hlater : idOf c ∈ items.map idOf ↔ id ∈ ids := by rw [← hid, ← htail, mem_map_of_injective (Option.some_injective _)]
    have hcount (a : Text) : 1 < (id :: ids).count a ↔ 1 < ids.count a ∨ (a = id ∧ id ∈ ids) := by
      by_cases ha : a = id
      · subst ha
        simp only [count_cons_self, ← count_pos_iff, true_and]
        omega
      · simp [ha, count_cons_of_ne (Ne.symm ha)]
    simp only [zip_cons_cons, keepUnseen, hseen, lastRows, hlater, hcount]
    by_cases hmem : id ∈ ids
    · have hold (a : Text) : a = id ∨ a ∈ ids ↔ a ∈ ids := or_iff_right_of_imp (· ▸ hmem)
      simp [hmem, hkept, hseen, hagain, hold]
    · simp [hmem, hkept, hseen, hagain]

theorem lastRows_sublist (items : List Value) : lastRows items <+ items := by
  induction items with
  | nil => exact .refl _
  | cons c items ih =>
    unfold lastRows
    split_ifs
    · exact ih.cons c
    · exact ih.cons_cons c

theorem nodup_lastRows (items : List Value) : ((lastRows items).map idOf).Nodup := by
  induction items with
  | nil => exact nodup_nil
  | cons c items ih =>
    unfold lastRows
    split_ifs with h
    · exact ih
    · exact nodup_cons.2 ⟨fun hmem => h (((lastRows_sublist items).map idOf).subset hmem), ih⟩

theorem lastRows_eq (h : (items.map idOf).Nodup) : lastRows items = items := by
  induction items with
  | nil => rfl
  | cons c items ih =>
    obtain ⟨hc, htail⟩ := nodup_cons.1 h
    rw [lastRows, if_neg hc, ih htail]

theorem dedupAdjacent_eq {l : List Text} (h : l.Pairwise (· ≤ ·)) : dedupAdjacent l = l.dedup := by
  fun_induction dedupAdjacent l with
  | case1 b rest ih => rw [ih h.of_cons, dedup_cons_of_mem mem_cons_self]
  | case2 a b rest hne ih =>
    obtain ⟨ha, hrest⟩ := pairwise_cons.1 h
    have hnot : a ∉ b :: rest := by
      intro hmem
      rcases mem_cons.1 hmem with rfl | hmem
      · exact hne rfl
      · exact hne ((ha b mem_cons_self).antisymm ((pairwise_cons.1 hrest).1 a hmem))
    rw [ih hrest, dedup_cons_of_notMem hnot]
  | case3 l hne =>
    match l with
    | [] | [_] => rfl
    | a :: b :: rest => exact absurd rfl (hne a b rest)

/-! ## The repair -/

/-- The repeated ids, sorted and with each once. -/
theorem distinct_length {dups : List Text} (h : ∀ id, id ∈ dups ↔ 1 < ids.count id) :
    (dedupAdjacent (dups.insertionSort (· ≤ ·))).length = (ids.dedup.filter (1 < ids.count ·)).length := by
  rw [dedupAdjacent_eq (pairwise_insertionSort _ _)]
  refine ((perm_ext_iff_of_nodup (nodup_dedup _) ((nodup_dedup _).filter _)).2 fun id => ?_).length_eq
  rw [mem_dedup, mem_insertionSort, h, mem_filter, mem_dedup, decide_eq_true_eq]
  exact ⟨fun hmany => ⟨count_pos_iff.1 (by omega), hmany⟩, And.right⟩

variable {payload : Value}

theorem get_set {key : String} {old : Value} (new : Value) (h : payload.get key = some old) :
    (payload.set key new).get key = some new := by
  cases payload with
  | object fields => exact Function.update_self ..
  | _ => cases h

theorem set_set (key : String) (new : Value) : (payload.set key new).set key new = payload.set key new := by
  cases payload with
  | object fields => exact congrArg Value.object (Function.update_idem ..)
  | _ => rfl

/-- What the repair leaves and reports. -/
theorem dedupe_eq (hget : payload.get "completions" = some (.array items)) (h : items.map idOf = ids.map some) :
    (dedupeCompletionIds payload).2 = payload.set "completions" (.array (lastRows items)) ∧
      if ids.Nodup then (dedupeCompletionIds payload).1 = .ok none
      else ∃ report, (dedupeCompletionIds payload).1 = .ok (some report) ∧ report.before = items.length ∧
        report.after = (lastRows items).length ∧
        report.distinctDuplicates = (ids.dedup.filter (1 < ids.count ·)).length := by
  obtain ⟨hkept, -, hagain⟩ := keepUnseen_eq h
  have hnodup : (keepUnseen (items.zip ids)).2.2 = [] ↔ ids.Nodup := by
    rw [eq_nil_iff_forall_not_mem, nodup_iff_count_le_one]
    simp only [hagain, not_lt]
  simp only [dedupeCompletionIds, hget, Value.asArray, Option.bind_eq_bind, Option.bind_some, mapM_eq_some_iff.2 h, hkept]
  split_ifs with hd hids hids
  · exact ⟨rfl, rfl⟩
  · exact absurd (hnodup.1 hd) hids
  · exact absurd (hnodup.2 hids) hd
  · exact ⟨rfl, _, rfl, rfl, rfl, distinct_length hagain⟩

/-- Only the last completion of each id is left, and the report counts what was removed and the ids that had more than one;
a payload with a completion without an id is left as it is. -/
theorem dedupe_last_rows {repaired : Value} {reported : Except ScoreValidationError (Option DedupReport)}
    (hget : payload.get "completions" = some (.array items)) (hrun : dedupeCompletionIds payload = (reported, repaired)) :
    (∀ ids : List Text, items.map idOf = ids.map some →
      repaired.get "completions" = some (.array (lastRows items)) ∧ repaired = payload.set "completions" (.array (lastRows items)) ∧
      lastRows items <+ items ∧ ((lastRows items).map idOf).Nodup ∧ (reported = .ok none ↔ ids.Nodup) ∧
      (¬ ids.Nodup → ∃ report, reported = .ok (some report) ∧
        report.before - report.after = items.length - (lastRows items).length ∧
        report.distinctDuplicates = (ids.dedup.filter (1 < ids.count ·)).length) ∧
      dedupeCompletionIds repaired = (.ok none, repaired)) ∧
    (none ∈ items.map idOf → (∃ e, reported = .error e) ∧ repaired = payload) := by
  refine ⟨fun ids h => ?_, fun h => ?_⟩
  · obtain ⟨hpayload, hreport⟩ := dedupe_eq hget h
    have hkept := get_set (.array (lastRows items)) hget
    obtain ⟨ids', -, hids⟩ := sublist_map_iff.1 (h ▸ (lastRows_sublist items).map idOf)
    obtain ⟨hagain, hnone⟩ := dedupe_eq hkept hids
    have hnodup := nodup_lastRows items
    rw [lastRows_eq hnodup, set_set] at hagain
    rw [if_pos (hids ▸ hnodup).of_map] at hnone
    simp only [hrun] at hpayload hreport
    refine ⟨hpayload ▸ hkept, hpayload, lastRows_sublist items, hnodup, ?_, fun hn => ?_, ?_⟩
    · split_ifs at hreport with hn
      · simp [hreport, hn]
      · obtain ⟨report, hreport, -⟩ := hreport
        simp [hreport, hn]
    · rw [if_neg hn] at hreport
      obtain ⟨report, hreport, hbefore, hafter, hdistinct⟩ := hreport
      exact ⟨report, hreport, by rw [hbefore, hafter], hdistinct⟩
    · rw [hpayload]
      exact Prod.ext hnone hagain
  · have hnone := mapM_eq_none_of_mem h
    simp only [dedupeCompletionIds, hget, Value.asArray, Option.bind_eq_bind, Option.bind_some, hnone] at hrun
    cases hrun
    exact ⟨⟨_, rfl⟩, rfl⟩

/-- Three completions, the first and the last with the same id. -/
def rowsOfTwo : List Value :=
  [("a", "1"), ("b", "2"), ("a", "3")].map fun row =>
    .object ([("id".toList, .string row.1.toList), ("score".toList, .leaf row.2.toList)].lookup ·)

def payloadOfTwo : Value := .object ([("completions".toList, .array rowsOfTwo)].lookup ·)

theorem rowsOfTwo_last_rows : payloadOfTwo.get "completions" = some (.array rowsOfTwo) ∧ lastRows rowsOfTwo = rowsOfTwo.tail ∧
    (dedupeCompletionIds payloadOfTwo).2.get "completions" = some (.array (lastRows rowsOfTwo)) :=
  ⟨rfl, rfl, ((@dedupe_last_rows _ payloadOfTwo _ _ rfl rfl).1 (["a", "b", "a"].map String.toList) rfl).1⟩

end Pipette.Scores
