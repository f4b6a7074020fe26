import Pipette.Measurement.Eval

/-!
# Histories of a checkpoint

Runs of cells over one checkpoint: each opens the file under its header, goes on to its end or to where it is killed, and
leaves the file; a finished run may be finalized. Beside the file stands, of each id, whether each of its rows failed.
-/

namespace Pipette.Measurement

open Evals

/-- A run of a cell over a checkpoint. -/
inductive CellRun where
  | eval (env : Env) (rows : Option EvalRows) (inFlight : InFlight)
  | complete (env : Env) (rows : Option EvalRows) (inFlight : InFlight) (waived : Bool)
  | chunked (env : Env) (source : ChunkSource) (inFlight : InFlight)

/-- The cell a run leaves over the session it opened. -/
def CellRun.cell (k : Codec) (start : Session) : CellRun → Cell k start
  | .eval env rows inFlight => (Measurement.eval env rows inFlight (Cell.opened k start)).2
  | .complete env rows inFlight waived => (evalComplete env rows inFlight waived (Cell.opened k start)).2
  | .chunked env source inFlight => (evalCompleteChunked env source inFlight (Cell.opened k start)).2

/-- What happens to a checkpoint. -/
inductive Op where
  | run (r : CellRun)
  | finalize

section

variable (k : Codec) (header : Header)

/-- What a run over the file does. -/
def Op.log (file : Option Bytes) : Op → List Event
  | .run r => (r.cell k (openIn k header file)).log
  | .finalize => []

/-- The file after. -/
def Op.file (file : Option Bytes) : Op → Option Bytes
  | .run r => some (r.cell k (openIn k header file)).session.file
  | .finalize => finalizeFile k header.digest file

def fileAfter (file : Option Bytes) (ops : List Op) : Option Bytes := ops.foldl (Op.file k header) file

/-! ## Rows on record -/

/-- The row whose line an event has written to its end. -/
def Event.written : Event → Option Completion
  | .row c => some c
  | .cut c n => if (k.rowLine c).length < n then some c else none
  | _ => none

/-- An append that failed after it wrote a part of its line. -/
def Event.tears : Event → Bool
  | .torn _ n => n ≠ 0
  | _ => false

/-- No append writes the end of its line after one that failed part way. -/
def Unglued (log : List Event) : Prop := log.Pairwise fun e e' => e.tears → e'.written k = none

instance (log : List Event) : Decidable (Unglued k log) := inferInstanceAs (Decidable (List.Pairwise _ _))

/-- In no run does an append write the end of its line after one that failed part way. -/
def NeverGlued : Option Bytes → List Op → Prop
  | _, [] => True
  | file, op :: ops => Unglued k (op.log k header file) ∧ NeverGlued (op.file k header file) ops

/-- The rows whose line the runs of a history wrote to its end, in their order. -/
def recorded : Option Bytes → List CellRun → List Completion
  | _, [] => []
  | file, r :: runs =>
    ((Op.run r).log k header file).filterMap (Event.written k) ++ recorded ((Op.run r).file k header file) runs

/-- Of each id, whether each of its rows on record failed. A row counts as it is read. -/
abbrev Record := Text → List Bool

/-- The rows that a run writes are added, and finalizing keeps the failures of an id whose last row failed. -/
def Op.record (file : Option Bytes) (record : Record) : Op → Record
  | .run r => fun id =>
    record id ++ (((((Op.run r).log k header file).filterMap (Event.written k)).map sanitizePreGateSuccess).filter
      fun c => c.id = id).map (·.failed)
  | .finalize => fun id => if (record id).getLast? = some true then (record id).filter fun failed => failed else []

def recordAfter : Option Bytes → Record → List Op → Record
  | _, record, [] => record
  | file, record, op :: ops => recordAfter (op.file k header file) (op.record k header file record) ops

/-- Three failed attempts are on record, and no completed row after them. -/
def Exhausted (flags : List Bool) : Prop := maxSampleAttempts ≤ flags.count true ∧ flags.getLast? = some true

instance (flags : List Bool) : Decidable (Exhausted flags) := inferInstanceAs (Decidable (_ ∧ _))

end

end Pipette.Measurement
