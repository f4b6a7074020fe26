import Pipette.Evals.Json
import Pipette.Runner.State

/-!
# The state file of a plan

`run` loads the state file first and stops if it cannot; then it appends an event a line, each as one write, and can be killed
after any number of the line's bytes. What the lines are is an `EventCodec`; `json` is the one of the source, over the fields
that loading reads.
-/

namespace Pipette.Runner

open FlatJson Evals

/-- `seen` is what loading reads of an event, `encode` and `decode` are its JSON text: one line that starts and ends with a
character that is not blank, and nothing but blanks can follow one. -/
structure EventCodec where
  Event : Type
  seen : Event → StateEvent
  encode : Event → Text
  decode : Text → Option Event
  decode_encode : ∀ e, decode (encode e) = some e
  oneLine : ∀ e, '\n' ∉ encode e
  opens : ∀ e, ∃ c rest, encode e = c :: rest ∧ isWhiteSpace c = false
  closes : ∀ e, ∃ init c, encode e = init ++ [c] ∧ isWhiteSpace c = false
  whole : ∀ {text rest e}, decode text = some e → (∃ c ∈ rest, isWhiteSpace c = false) → decode (text ++ rest) = none

variable (k : EventCodec)

/-- `read_local_state`: a file that is not there, a text, or an error if the bytes are not UTF-8. -/
def readLocalState : Option Evals.Bytes → Option (Option Text)
  | none => some none
  | some bytes => (decode bytes).map some

/-- `load_state_index`. -/
def loadStateIndex (file : Option Evals.Bytes) (planId : Text) : Option StateIndex := do
  let raw ← readLocalState file
  StateIndex.load (fun line => (k.decode line).map k.seen) raw planId

/-- `to_json_line`, as the bytes that are written. -/
def jsonLine (e : k.Event) : Evals.Bytes := encode (k.encode e ++ ['\n'])

/-- `append_local_state`: the file is made if it is not there. -/
def appendLocalState (file : Option Evals.Bytes) (bytes : Evals.Bytes) : Option Evals.Bytes := some (file.getD [] ++ bytes)

/-- A run appends some events, and is perhaps killed while it appends one more, after so many bytes of its line. -/
structure PlanRun where
  events : List k.Event
  kill : Option (k.Event × Nat)

variable {k}

namespace PlanRun

variable (r : PlanRun k)

/-- What reaches the file of the line at which the run was killed. -/
def torn : Evals.Bytes := r.kill.elim [] fun x => (jsonLine k x.1).take x.2

/-- The events whose lines are completely written. -/
def written : List k.Event :=
  r.events ++ match r.kill with
    | some (e, n) => if (jsonLine k e).length ≤ n then [e] else []
    | none => []

/-- The run was not killed, or of the line it was at, nothing was written, or all of it. -/
def Whole : Prop := ∀ e n, r.kill = some (e, n) → n = 0 ∨ (jsonLine k e).length ≤ n

/-- The file after the appends. -/
def appended (file : Option Evals.Bytes) : Option Evals.Bytes :=
  let file := r.events.foldl (fun file e => appendLocalState file (jsonLine k e)) file
  if r.kill.isSome then appendLocalState file r.torn else file

end PlanRun

variable (k) in
/-- The state file, and the events whose lines are completely in it. -/
structure StateFile where
  bytes : Option Evals.Bytes
  recorded : List k.Event

/-- One run over the file: it ends at once if the state does not load. -/
def StateFile.run (planId : Text) (file : StateFile k) (r : PlanRun k) : StateFile k :=
  match loadStateIndex k file.bytes planId with
  | none => file
  | some _ => ⟨r.appended file.bytes, file.recorded ++ r.written⟩

/-- The file after some runs, the first of which finds none. -/
def StateFile.after (planId : Text) (runs : List (PlanRun k)) : StateFile k := runs.foldl (StateFile.run planId) ⟨none, []⟩

/-! ## The lines as JSON -/

def AttemptStatus.text : AttemptStatus → Text
  | .started => "started"
  | .success => "success"
  | .failed => "failed"

def AttemptStatus.ofText (text : Text) : Option AttemptStatus := [started, success, failed].find? (·.text = text)

theorem AttemptStatus.ofText_text (status : AttemptStatus) : ofText status.text = some status := by cases status <;> rfl

/-- An event as an object; an empty label is left out. -/
def eventObject (e : StateEvent) : Object :=
  [("plan_id".toList, .str e.planId), ("cell_key".toList, .str e.cellKey), ("status".toList, .str e.status.text)] ++
    if e.transportLabel = [] then [] else [("transport_label".toList, .str e.transportLabel)]

/-- The event an object says; a label that is not there is empty. -/
def readEvent (o : Object) : Option StateEvent := do
  let planId ← (← readStr o "plan_id")
  let cellKey ← (← readStr o "cell_key")
  let status ← (← readStr o "status")
  let label ← readStr o "transport_label"
  return ⟨planId, cellKey, ← AttemptStatus.ofText status, label.getD []⟩

theorem readEvent_eventObject (e : StateEvent) : readEvent (eventObject e) = some e := by
  rcases e with ⟨planId, cellKey, status, label⟩
  cases label <;> simp [readEvent, eventObject, readStr, List.lookup, AttemptStatus.ofText_text]

/-- An object ends with its brace. -/
theorem exists_print_closes (o : Object) : ∃ init c, print o = init ++ [c] ∧ isWhiteSpace c = false := ⟨_, '}', rfl, by decide⟩

/-- The lines of a state file, over the fields that loading reads. -/
def json : EventCodec where
  Event := StateEvent
  seen := id
  encode e := print (eventObject e)
  decode text := (read text).bind readEvent
  decode_encode e := by simp [read_print, readEvent_eventObject]
  oneLine e := notMem_print _
  opens e := ⟨'{', _, rfl, by decide⟩
  closes e := exists_print_closes _
  whole := by
    intro text rest e h hrest
    obtain ⟨o, ho, -⟩ := Option.bind_eq_some_iff.1 h
    obtain ⟨c, hc, -⟩ := hrest
    rw [read_append ho (List.ne_nil_of_mem hc)]
    rfl

instance : DecidableEq json.Event := inferInstanceAs (DecidableEq StateEvent)

end Pipette.Runner
