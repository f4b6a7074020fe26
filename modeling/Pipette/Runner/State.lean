import Pipette.Lib.Sha256
import Pipette.Path

/-!
# The cells of a plan and its run state

The state file of a plan holds one event a line; `StateIndex.load` folds them into what is known of each cell, under the
digest that `buildCellKey` makes of the cell's identity. The descriptors of models, runtimes and flags are those of
`pipette_plan_types`, which this repository only renders (`PlanTypes`).
-/

namespace Pipette.Runner

/-- The descriptor types of a plan, the `Display` of a model and of a runtime, and the canonical string of a set of flags, if
it has one. -/
structure PlanTypes where
  Model : Type
  Runtime : Type
  RuntimeFlags : Type
  ModelFlags : Type
  BenchmarkFlags : Type
  modelText : Model → Text
  runtimeText : Runtime → Text
  runtimeFlagsText : RuntimeFlags → Option Text
  modelFlagsText : ModelFlags → Option Text

variable {T : PlanTypes}

/-- One cell of a plan's matrix. -/
structure RunnableCell (T : PlanTypes) where
  benchmark : Text
  model : T.Model
  runtime : T.Runtime
  allowedClients : List Text
  runtimeFlags : Option T.RuntimeFlags
  modelFlags : Option T.ModelFlags
  benchmarkFlags : Option T.BenchmarkFlags

namespace RunnableCell

/-- `runtime_flags_canonical_string`. -/
def runtimeFlagsCanonicalString (c : RunnableCell T) : Option Text := c.runtimeFlags.bind T.runtimeFlagsText

/-- The canonical string of the model flags, if there are any. -/
def modelFlagsCanonicalString (c : RunnableCell T) : Option Text := c.modelFlags.bind T.modelFlagsText

end RunnableCell

/-- What `build_cell_key` hashes. -/
def cellKeyText (c : RunnableCell T) : Text :=
  c.benchmark ++ ['\t'] ++ T.modelText c.model ++ ['\t'] ++ T.runtimeText c.runtime ++
    (match c.runtimeFlagsCanonicalString with
      | some flags => Char.ofNat 0x1f :: flags
      | none => []) ++
    match c.modelFlagsCanonicalString with
      | some flags => '\t' :: flags
      | none => []

/-- The SHA-256 hex digest of the cell's identity, the key state events match on. -/
def buildCellKey (c : RunnableCell T) : Text :=
  Sha256.hex ((cellKeyText c).flatMap fun ch => (String.utf8EncodeChar ch).map UInt8.toNat)

/-! ## The state file -/

inductive CellState where
  | done
  | failed
  | missing
  deriving DecidableEq

inductive AttemptStatus where
  | started
  | success
  | failed
  deriving DecidableEq

/-- What loading reads of an event. -/
structure StateEvent where
  planId : Text
  cellKey : Text
  status : AttemptStatus
  transportLabel : Text
  deriving DecidableEq

/-- `StateEvent::new`, as far as loading reads it. -/
def StateEvent.new (planId : Text) (cell : RunnableCell T) (status : AttemptStatus) (transportLabel : Text) : StateEvent :=
  ⟨planId, buildCellKey cell, status, transportLabel⟩

/-- What is known of a cell. -/
structure CellEntry where
  hasSuccess : Bool
  hasFailed : Bool
  attempts : Nat
  latestStatus : Option AttemptStatus
  pinnedTransport : Option Text

/-- An entry before any event. -/
def CellEntry.fresh : CellEntry := ⟨false, false, 0, none, none⟩

/-- An entry after one more event. -/
def CellEntry.note (entry : CellEntry) (event : StateEvent) : CellEntry :=
  let entry := { entry with latestStatus := some event.status }
  let entry := if event.transportLabel = [] then entry else { entry with pinnedTransport := some event.transportLabel }
  match event.status with
  | .success => { entry with hasSuccess := true, attempts := entry.attempts + 1 }
  | .failed => { entry with hasFailed := true, attempts := entry.attempts + 1 }
  | .started => entry

/-- The entries, by cell key. -/
structure StateIndex where
  cells : Text → Option CellEntry

namespace StateIndex

def empty : StateIndex := ⟨fun _ => none⟩

/-- The index after one more event; an event of another plan is passed over. -/
def note (planId : Text) (index : StateIndex) (event : StateEvent) : StateIndex :=
  if event.planId ≠ planId then index
  else ⟨Function.update index.cells event.cellKey (some (((index.cells event.cellKey).getD .fresh).note event))⟩

/-- The index some events leave. -/
def replay (planId : Text) (events : List StateEvent) : StateIndex := events.foldl (note planId) empty

/-- `str::lines`: a carriage return before a line end goes with it, and what follows the last line end is a line if not empty. -/
def lines (content : Text) : List Text :=
  let pieces := content.splitOn '\n'
  (pieces.dropLast.map fun line => if line.getLast? = some '\r' then line.dropLast else line) ++
    pieces.getLast?.toList.filter (· ≠ [])

/-- `decode` reads an event off a line; a line that is no event fails the load. -/
def load (decode : Text → Option StateEvent) (raw : Option Text) (planId : Text) : Option StateIndex :=
  match raw with
  | none => some empty
  | some content => do
    let events ← ((lines content).map trimText |>.filter (· ≠ [])).mapM decode
    return events.foldl (note planId) empty

variable (index : StateIndex) (cell : RunnableCell T)

def entryFor : Option CellEntry := index.cells (buildCellKey cell)

def stateFor : CellState :=
  match index.entryFor cell with
  | some entry =>
    if entry.hasSuccess then .done
    else if entry.latestStatus = some .started then .missing
    else if entry.hasFailed then .failed
    else .missing
  | none => .missing

def attemptsFor : Nat := (index.entryFor cell).elim 0 (·.attempts)

/-- The client the cell last ran on, if any of its events recorded one. -/
def pinnedTransportFor : Option Text :=
  (index.entryFor cell).bind (·.pinnedTransport)

end StateIndex

end Pipette.Runner
