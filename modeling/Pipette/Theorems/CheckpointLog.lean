import Pipette.Evals.Json
import Pipette.Lemmas.Session

/-!
# A checkpoint is the log of its rows

Sessions opened under one header, rows appended or held in memory only, and the process killed at any byte of an append: the
file refines the list of the rows whose line was written whole. Reopening it gives the last row of each id and the number of
its failed ones (`reopen_refines`).
-/

namespace Pipette.Evals

open LineLog

/-! ## Histories of a file -/

/-- A session is opened, a row is appended or held as unfit, or the process is killed after `n` bytes of an append. -/
inductive LogOp where
  | opened
  | append (c : Completion)
  | unfit (c : Completion)
  | kill (c : Completion) (n : Nat)
  deriving DecidableEq

/-- The row an operation is about. -/
def LogOp.row : LogOp → Option Completion
  | .opened => none
  | .append c | .unfit c | .kill c _ => some c

/-- The file with no session open, or the session of a process. -/
inductive LogState where
  | closed (file : Option Bytes)
  | live (s : Session)

def LogState.file : LogState → Option Bytes
  | .closed file => file
  | .live s => some s.file

variable (k : Codec) (header : Header)

/-- One operation; a process that is not there does nothing. -/
def LogState.step : LogState → LogOp → LogState
  | st, .opened => .live (openIn k header st.file)
  | .live s, .append c => .live (s.append k c)
  | .live s, .unfit c => .live (s.recordUnfit c)
  | .live s, .kill c n => .closed (some (s.file ++ (Session.line k c).take n))
  | .closed file, _ => .closed file

variable (ops : List LogOp)

/-- A history, from no file on. -/
def LogState.run : LogState := ops.foldl (LogState.step k header) (.closed none)

/-! ## The rows on record -/

/-- Whether a session is open, and the rows whose line was written whole. -/
structure Recorded where
  live : Bool
  rows : List Completion

/-- A row is on record once the last byte of its line is written; an unfit row never is. -/
def Recorded.step : Recorded → LogOp → Recorded
  | a, .opened => { a with live := true }
  | a, .append c => if a.live then { a with rows := a.rows ++ [c] } else a
  | a, .unfit _ => a
  | a, .kill c n =>
    if a.live then { live := false, rows := if (k.rowLine c).length < n then a.rows ++ [c] else a.rows } else a

def Recorded.run : Recorded := ops.foldl (Recorded.step k) ⟨false, []⟩

/-- The file holds the rows on record, and a session writes at the end of a line. -/
structure Refines (st : LogState) (a : Recorded) : Prop where
  live : a.live ↔ ∃ s, st = .live s
  none : st.file = none → a.rows = []
  holds : ∀ file, st.file = some file → Holds k header a.rows file
  torn : ∀ s, st = .live s → torn newline s.file = []

variable {k header}

variable {s : Session} {a : Recorded} {st : LogState} {c : Completion}

theorem Refines.live_iff (h : Refines k header (.live s) a) : a.live := h.live.2 ⟨s, rfl⟩

theorem Refines.closed_iff {file : Option Bytes} (h : Refines k header (.closed file) a) : a.live = false := by
  by_contra hlive
  obtain ⟨s, hs⟩ := h.live.1 (eq_true_of_ne_false hlive)
  cases hs

/-- An open session whose file holds the rows. -/
theorem refines_live {rows : List Completion} (hholds : Holds k header rows s.file) (ht : LineLog.torn newline s.file = []) :
    Refines k header (.live s) ⟨true, rows⟩ where
  live := ⟨fun _ => ⟨s, rfl⟩, fun _ => rfl⟩
  none := nofun
  holds := by
    rintro file ⟨⟩
    exact hholds
  torn := by
    rintro s' ⟨⟩
    exact ht

/-- Opening the file gives the rows on record, as they are read, in a file that ends with the last of them. -/
theorem Refines.openIn (h : Refines k header st a) : Evals.openIn k header st.file =
      .opened (checkpointBody k header a.rows) (byId (a.rows.map sanitizePreGateSuccess))
        (failedAttempts (a.rows.map sanitizePreGateSuccess)) := by
  cases hfile : st.file with
  | none =>
    rw [h.none hfile]
    rfl
  | some file => exact openIn_of_holds (h.holds file hfile)

open Recorded

/-- One operation keeps the file and the record together. -/
theorem Refines.step (h : Refines k header st a) (op : LogOp) : Refines k header (st.step k header op) (a.step k op) := by
  cases op with
  | opened =>
    rw [LogState.step, h.openIn]
    exact refines_live (holds_checkpointBody k header a.rows) (torn_checkpointBody k header a.rows)
  | append c =>
    cases st with
    | closed file => simpa [LogState.step, step, h.closed_iff] using h
    | live s =>
      simp only [LogState.step, step, h.live_iff, if_true]
      have hlive := refines_live (s := s.append k c) ((h.holds s.file rfl).append (h.torn s rfl) c) (torn_append k s.file c)
      simpa [h.live_iff] using hlive
  | unfit c =>
    cases st with
    | closed file => simpa [LogState.step, step] using h
    | live s =>
      have hlive := refines_live (s := s.recordUnfit c) (h.holds s.file rfl) (h.torn s rfl)
      have ha : a = ⟨true, a.rows⟩ := by rw [← h.live_iff]
      rw [LogState.step, step, ha]
      exact hlive
  | kill c n =>
    cases st with
    | closed file => simpa [LogState.step, step, h.closed_iff] using h
    | live s =>
      simp only [LogState.step, step, h.live_iff, if_true]
      have hkilled := (h.holds s.file rfl).killed (h.torn s rfl) c n
      refine ⟨⟨nofun, fun ⟨s, h⟩ => nomatch h⟩, nofun, ?_, fun s h => nomatch h⟩
      rintro file ⟨⟩
      exact hkilled

theorem refines_run : Refines k header (LogState.run k header ops) (run k ops) := by
  have hstart : Refines k header (.closed none) ⟨false, []⟩ :=
    ⟨⟨nofun, fun ⟨s, h⟩ => nomatch h⟩, fun _ => rfl, fun file h => (nomatch h), fun s h => nomatch h⟩
  unfold LogState.run run
  generalize LogState.closed none = st, (⟨false, []⟩ : Recorded) = a at hstart
  induction ops generalizing st a with
  | nil => exact hstart
  | cons op ops ih => exact ih _ _ (hstart.step op)

/-- An operation puts no row on record but its own. -/
theorem Recorded.mem_step {op : LogOp} (h : c ∈ (a.step k op).rows) : c ∈ a.rows ∨ op.row = some c := by
  have hadded : ∀ {c'}, c ∈ a.rows ++ [c'] → c ∈ a.rows ∨ some c' = some c := by
    intro c' hc
    rcases List.mem_append.1 hc with hc | hc
    · exact .inl hc
    · exact .inr (by rw [List.mem_singleton.1 hc])
  cases op with
  | opened | unfit c' => exact .inl h
  | append c' =>
    simp only [step] at h
    split at h
    · exact hadded h
    · exact .inl h
  | kill c' n =>
    simp only [step] at h
    split at h
    · simp only at h
      split at h
      · exact hadded h
      · exact .inl h
    · exact .inl h

theorem Recorded.mem_foldl {ops : List LogOp} (h : c ∈ (ops.foldl (step k) a).rows) :
    c ∈ a.rows ∨ ∃ op ∈ ops, op.row = some c := by
  induction ops generalizing a with
  | nil => exact .inl h
  | cons op ops ih =>
    rcases ih h with h | ⟨op', hop', hrow⟩
    · exact (mem_step h).imp id fun hrow => ⟨op, by simp, hrow⟩
    · exact .inr ⟨op', by simp [hop'], hrow⟩

/-- Of each id the last row on record, and the number of its failed rows. -/
structure Reopened (k : Codec) (header : Header) (rows : List Completion) (file : Option Bytes) : Prop where
  /-- The complete lines of the file are the header and the rows on record. -/
  holds : ∀ body, file = some body → Holds k header rows body
  last : ∀ id, (openIn k header file).completions.list.filter (fun c => c.id = id) =
    (rows.filter fun c => c.id = id).getLast?.toList
  attempts : ∀ id, (openIn k header file).failedAttempts id = rows.countP fun c => c.failed && c.id = id

/-- After any history of opening, appending, holding unfit rows and being killed at any byte of an append, reopening the file
gives the rows whose line was written whole. -/
theorem reopen_refines (k : Codec) (header : Header) (ops : List LogOp) (hrows : ∀ op ∈ ops, ∀ c ∈ op.row, Unmarked c) :
    Reopened k header (Recorded.run k ops).rows (LogState.run k header ops).file := by
  have h : Refines k header (LogState.run k header ops) (run k ops) := refines_run ops
  have hplain : (run k ops).rows.map sanitizePreGateSuccess = (run k ops).rows := by
    refine map_sanitize fun c hc => ?_
    rcases mem_foldl hc with h | ⟨op, hop, hrow⟩
    · cases h
    · exact hrows op hop c hrow
  have hopen := h.openIn
  rw [hplain] at hopen
  refine ⟨h.holds, fun id => ?_, fun id => ?_⟩
  · rw [hopen]
    exact filter_lastRows _ id
  · rw [hopen, List.countP_eq_length_filter]
    rfl

/-- A completed row. -/
def completedRow (id completion : String) : Completion where
  id := id.toList
  completion := completion.toList
  failed := false
  failedReason := none
  stopReason := .eos
  stopDetail := none
  completionTokens := some 1

/-- A failed row. -/
def failedRowOf (id reason : String) : Completion where
  id := id.toList
  completion := []
  failed := true
  failedReason := some reason.toList
  stopReason := .failure
  stopDetail := some reason.toList
  completionTokens := none

/-- A run killed half way through its second row, and one that fails a row, completes it and holds one as unfit. -/
def killedRun : List LogOp :=
  [.opened, .append (completedRow "s1" "yes"), .kill (completedRow "s2" "no") 20, .opened, .append (failedRowOf "s2" "stall"),
    .append (completedRow "s2" "no"), .unfit (failedRowOf "s3" "context")]

theorem killedRun_reopened :
    Reopened json ⟨"00ff", some 600⟩ [completedRow "s1" "yes", failedRowOf "s2" "stall", completedRow "s2" "no"]
      (LogState.run json ⟨"00ff", some 600⟩ killedRun).file := by
  have hrecorded : (run json killedRun).rows =
      [completedRow "s1" "yes", failedRowOf "s2" "stall", completedRow "s2" "no"] := by
    decide
  rw [← hrecorded]
  exact reopen_refines json ⟨"00ff", some 600⟩ killedRun (by decide)

end Pipette.Evals
