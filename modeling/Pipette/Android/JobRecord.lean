import Pipette.Phone.JobManifest

/-!
# The record of a job on Android

`JobManifest`, as far as the runner and the submissions use it.
-/

namespace Pipette.Android.Job

open Phone.Job (CellRunStatus JobStatus)

/-- `JobCell`; what it measures is not written. -/
structure JobCell where
  runStatus : CellRunStatus
  serverJobId : Option Text
  errorMessage : Option Text

/-- `CellRunStatus.isRerunnable`. -/
def JobCell.isRerunnable (cell : JobCell) : Bool :=
  cell.runStatus = .completed || cell.runStatus = .failed || cell.runStatus = .cancelled

/-- `JobManifest`. -/
structure JobManifest (Id : Type) where
  ids : List Id
  cells : Id → JobCell
  status : JobStatus

def isBlank (id : Text) : Bool := id.all Char.isWhitespace

variable {Id : Type} [DecidableEq Id]

/-- The record with the id the server gave for a cell. -/
@[simp] def JobManifest.ack (m : JobManifest Id) (i : Id) (serverJobId : Text) : JobManifest Id :=
  { m with cells := Function.update m.cells i { m.cells i with serverJobId := some serverJobId } }

end Pipette.Android.Job
