import Pipette.Lemmas.EvalPool
import Pipette.Lemmas.Session

/-!
# Cells

What a cell sends (`pending`), that it closes all of it (`sends_runSamples`), and the rows its session holds after
(`filter_replay`).
-/

namespace Pipette.Measurement

open Evals List Event

variable {k : Codec} {start : Session} (env : Env)

/-! ## Sending -/

variable {cell : Cell k start} {isSettled : Text → Bool} {seen : List Text} {samples : List Sample} {s : Sample} {id : Text}

theorem sends_runSamples (inFlight : InFlight) {pending : List Sample} (hopen : Open cell.log)
    (hnodup : (pending.map (·.id)).Nodup) (hfresh : ∀ s ∈ pending, phase cell.log s.id = some .fresh) :
    Sends pending cell.log (runSamples env inFlight pending cell).2.log (runSamples env inFlight pending cell).1 := by
  cases inFlight with
  | batch size => exact sends_batchesFrom env hopen hnodup hfresh (Nat.le_refl _)
  | parallel workers => exact sends_poolFrom env hopen hnodup hfresh (Nat.le_refl _)

/-! ## What is left to send -/

theorem mem_unsettledFrom_sub
    (h : s ∈ unsettledFrom isSettled seen samples) : s ∈ samples ∧ isSettled s.id = false ∧ s.id ∉ seen := by
  induction samples generalizing seen with
  | nil => cases h
  | cons t samples ih =>
    unfold unsettledFrom at h
    split at h
    · next ht =>
      rcases mem_cons.1 h with rfl | h
      · simpa using ht
      · obtain ⟨hs, hsettled, hseen⟩ := ih h
        exact ⟨by simp [hs], hsettled, fun hmem => hseen (by simp [hmem])⟩
    · obtain ⟨hs, hsettled, hseen⟩ := ih h
      exact ⟨by simp [hs], hsettled, hseen⟩

theorem unsettledFrom_nodup (isSettled : Text → Bool) (seen : List Text) (samples : List Sample) :
    ((unsettledFrom isSettled seen samples).map (·.id)).Nodup := by
  induction samples generalizing seen with
  | nil => exact nodup_nil
  | cons t samples ih =>
    unfold unsettledFrom
    split
    · refine nodup_cons.2 ⟨fun hmem => ?_, ih _⟩
      obtain ⟨s, hs, hid⟩ := mem_map.1 hmem
      exact (mem_unsettledFrom_sub hs).2.2 (by simp [hid])
    · exact ih _

theorem exists_mem_unsettledFrom (hs : s ∈ samples)
    (hsettled : isSettled s.id = false) (hseen : s.id ∉ seen) : ∃ t ∈ unsettledFrom isSettled seen samples, t.id = s.id := by
  induction samples generalizing seen with
  | nil => cases hs
  | cons u samples ih =>
    unfold unsettledFrom
    by_cases hid : u.id = s.id
    · rw [if_pos (by simp [hid, hsettled, hseen])]
      exact ⟨u, by simp, hid⟩
    have hs : s ∈ samples := mem_of_ne_of_mem (fun heq => hid (heq ▸ rfl)) hs
    split
    · obtain ⟨t, ht, htid⟩ := @ih (u.id :: seen) hs (by simpa [hseen] using fun h => hid h.symm)
      exact ⟨t, by simp [ht], htid⟩
    · exact ih hs hseen

theorem mem_pending_ids {checkpoint : Session} {retryFailed : Bool} :
    (∃ s ∈ pending samples checkpoint retryFailed, s.id = id) ↔ id ∈ distinct samples ∧ settled checkpoint retryFailed id = false := by
  constructor
  · rintro ⟨s, hs, rfl⟩
    obtain ⟨hmem, hsettled, -⟩ := mem_unsettledFrom_sub hs
    exact ⟨mem_toFinset.2 (mem_map.2 ⟨s, hmem, rfl⟩), hsettled⟩
  · rintro ⟨hmem, hsettled⟩
    obtain ⟨s, hs, rfl⟩ := mem_map.1 (mem_toFinset.1 hmem)
    exact exists_mem_unsettledFrom hs hsettled not_mem_nil

/-! ## The rows of the session -/

/-- The row an event puts into the session. -/
def Event.held : Event → Option Completion
  | .row c | .unfit c => some c
  | _ => none

theorem Event.completions_apply (e : Event) (s : Session) :
    (e.apply k s).completions = e.held.elim s.completions s.completions.put := by
  cases e <;> rfl

theorem replay_concat (start : Session) (log : List Event) (e : Event) :
    replay k start (log ++ [e]) = e.apply k (replay k start log) := by
  simp [replay]

/-- The row of an id after a log: that of its last event that holds one, or the one before. -/
theorem filter_replay (start : Session) (log : List Event) (id : Text) :
    (replay k start log).completions.list.filter (fun c => c.id = id) = ((about log id).filterMap held).getLast?.elim
        (start.completions.list.filter fun c => c.id = id) fun c => [c] := by
  induction log using reverseRecOn with
  | nil => rfl
  | append_singleton log e ih =>
    rw [replay_concat, completions_apply, about_append, filterMap_append]
    cases hheld : e.held with
    | none =>
      have hnone : (about [e] id).filterMap held = [] := by by_cases he : e.id = some id <;> simp [about, he, hheld]
      rw [hnone, append_nil]
      exact ih
    | some c =>
      have hid : e.id = some c.id := by cases e <;> simp_all [Event.held, Event.id]
      rw [Option.elim_some, Rows.filter_put]
      by_cases he : c.id = id
      · simp [about, hid, he, hheld]
      · simpa [about, hid, he] using ih

/-- The row recorded for an id that was sent is the only one its events hold. -/
theorem SentIn.held {log : List Event} {c : Completion} (h : SentIn log id c) :
    (about log id).filterMap held = [c] := by
  obtain ⟨-, e, he, hshape⟩ := h
  have hheld : e.held = some c := by rcases he with rfl | rfl <;> rfl
  rcases hshape with ⟨alone, hlog⟩ | hlog <;> rw [hlog]
  · exact (filterMap_cons_none rfl).trans (by simp [hheld])
  · exact (filterMap_cons_none rfl).trans ((filterMap_cons_none rfl).trans ((filterMap_cons_none rfl).trans (by simp [hheld])))

/-- The rows a session holds of an id. -/
def rowsWith (s : Session) (id : Text) : List Completion := s.completions.list.filter fun c => c.id = id

/-- A sample no event is about keeps its rows. -/
theorem rowsWith_of_fresh (h : phase cell.log id = some .fresh) : rowsWith cell.session id = rowsWith start id := by
  rw [rowsWith, cell.session_eq, filter_replay, about_eq_nil_iff.2 h]
  rfl

theorem mem_ids_iff {s : Session} : id ∈ s.completions.ids ↔ rowsWith s id ≠ [] := by
  simp [Rows.ids, rowsWith, filter_eq_nil_iff]

theorem contains_iff {s : Session} : s.contains id ↔ rowsWith s id ≠ [] := by
  rw [← mem_ids_iff, ← s.doneIds_eq]
  simp [Session.contains]

end Pipette.Measurement
