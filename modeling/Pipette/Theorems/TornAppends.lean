import Pipette.Evals.Json
import Pipette.Lemmas.EvalHistory

/-!
# Rows recorded beside a failed append

A row whose append succeeded is read back at every later opening of the checkpoint, or a later row of its id is, as long as no
append writes the end of its line after one that failed part way. In a parallel cell one can: the worker whose append failed
stops, another goes on, and its row is glued to the torn line.
-/

namespace Pipette.Measurement

open Evals List

variable {k : Codec} {header : Header}

/-- The file after runs is read as the one before, with the rows they recorded. -/
theorem opened_runs {runs : List CellRun} {file : Option Bytes} {lines : List Line} (h : Opened k header lines (openIn k header file))
    (hglue : NeverGlued k header file (runs.map .run)) :
    Opened k header (lines ++ (recorded k header file runs).map .row) (openIn k header (fileAfter k header file (runs.map .run))) := by
  induction runs generalizing file lines with
  | nil => simpa [recorded, fileAfter] using h
  | cons r runs ih =>
    obtain ⟨body, hbody, hreads⟩ := reads_run h r hglue.1
    have hopened : Opened k header _ (openIn k header ((Op.run r).file k header file)) := hbody ▸ opened_of_reads hreads
    have hrest := ih hopened hglue.2
    simpa [recorded, fileAfter] using hrest

/-- A recorded row is read back, or a later one of its id is, if no append is glued to a torn line. -/
theorem recorded_survives (k : Codec) (header : Header) (file : Option Bytes) (runs : List CellRun)
    (hglue : NeverGlued k header file (runs.map .run)) (before after : List Completion) (c : Completion)
    (hrecorded : recorded k header file runs = before ++ c :: after) :
    ∃ d ∈ c :: after, d.id = c.id ∧
      rowsWith (openIn k header (fileAfter k header file (runs.map .run))) c.id = [sanitizePreGateSuccess d] := by
  obtain ⟨lines, hopened⟩ := exists_opened k header file
  have hafter := opened_runs hopened hglue
  have hrows : (rowsOf (lines ++ (recorded k header file runs).map .row)).filter (fun d => d.id = c.id) =
      (rowsOf lines ++ before.map sanitizePreGateSuccess).filter (fun d => d.id = c.id) ++
        ((c :: after).filter fun d => d.id = c.id).map sanitizePreGateSuccess := by
    have hid : (fun d => decide ((sanitizePreGateSuccess d).id = c.id)) = fun d => decide (d.id = c.id) := by
      funext d
      rw [sanitize_id]
    rw [hrecorded, rowsOf_append, rowsOf_rows, map_append, ← append_assoc, filter_append]
    congr 1
    rw [filter_map]
    congr 1
    exact congrArg (filter · (c :: after)) hid
  have hmem : c ∈ (c :: after).filter fun d => d.id = c.id := mem_filter.2 ⟨by simp, by simp⟩
  obtain ⟨d, hd⟩ : ∃ d, ((c :: after).filter fun d => d.id = c.id).getLast? = some d :=
    ⟨_, getLast?_eq_some_getLast (ne_nil_of_mem hmem)⟩
  obtain ⟨hdmem, hdid⟩ := mem_filter.1 (mem_of_getLast? hd)
  refine ⟨d, hdmem, by simpa using hdid, ?_⟩
  rw [rowsWith, hafter.filter, hrows, getLast?_append, getLast?_map, hd]
  rfl

/-- Two workers: the append of the first fails after one byte, and that of the second succeeds. -/
def tornEnv : Env where
  pick t := [0, 0, 1, 1, 0, 1, 1].getD t 0
  move t := if t < 6 then .record 0 (.completed "yes" .eos none (some 1)) else .finish
  fault t := if t = 4 then some (.fails 1) else none

/-- A cell of two samples in that environment. -/
def tornRun : CellRun := .eval tornEnv (some (.chat ["s0", "s1"])) (.parallel ⟨2, Nat.two_pos⟩)

/-- The row of a sample that the engine answers. -/
def answered (id : String) : Completion := ⟨id.toList, "yes", false, none, .eos, none, some 1⟩

/-- The second row is recorded, and no later opening reads it: the torn line has swallowed it. -/
theorem torn_append_swallows_row : (Op.run tornRun).log json ⟨"00ff", some 600⟩ none =
        [.sent "s0" false, .sent "s1" false, .torn (answered "s0") 1, .row (answered "s1")] ∧
      recorded json ⟨"00ff", some 600⟩ none [tornRun] = [answered "s1"] ∧
      (openIn json ⟨"00ff", some 600⟩ (fileAfter json ⟨"00ff", some 600⟩ none [.run tornRun])).completions.list = [] := by
  decide +kernel

/-- A cell of two samples whose first append fails before its first byte. -/
def refusedRun : CellRun :=
  .eval { tornEnv with fault := fun t => if t = 4 then some (.fails 0) else none } (some (.chat ["s0", "s1"]))
    (.parallel ⟨2, Nat.two_pos⟩)

theorem refused_append_keeps_row : ∃ d ∈ [answered "s1"], d.id = (answered "s1").id ∧
      rowsWith (openIn json ⟨"00ff", some 600⟩ (fileAfter json ⟨"00ff", some 600⟩ none [.run refusedRun]))
        (answered "s1").id = [sanitizePreGateSuccess d] :=
  recorded_survives json ⟨"00ff", some 600⟩ none [refusedRun] ⟨by decide +kernel, trivial⟩ [] [] (answered "s1")
    (by decide +kernel)

end Pipette.Measurement
