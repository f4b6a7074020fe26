import Pipette.Path

/-!
# The record of a phone's job

`JobManifest`, as far as the run, the launch recovery and the uploads use it. The cells of a job are fixed, so a cell is known
by its id.
-/

namespace Pipette.Phone.Job

/-- `CellRunStatus`. -/
inductive CellRunStatus where
  | pending
  | running
  | completed
  | failed
  | cancelled
  deriving DecidableEq

/-- `JobStatus`. -/
inductive JobStatus where
  | planned
  | running
  | completed
  | cancelled
  | paused
  deriving DecidableEq

/-- `JobCell`; its model is not written. -/
structure JobCell where
  runStatus : CellRunStatus
  serverJobId : Option Text
  crashCount : Nat

/-- `JobManifest`. -/
structure JobManifest (Id : Type) where
  cells : Id → JobCell
  status : JobStatus

namespace JobManifest

variable {Id : Type}

/-- The outcomes that the run gives. -/
def outcomes (m : JobManifest Id) : (Id → CellRunStatus) × JobStatus := (fun i => (m.cells i).runStatus, m.status)

@[simp] def ack [DecidableEq Id] (m : JobManifest Id) (i : Id) (serverJobId : Text) : JobManifest Id :=
  { m with cells := Function.update m.cells i { m.cells i with serverJobId := some serverJobId } }

/-- The acknowledgements of the latest record, taken over by `saveRunManifest`. -/
@[simp] def adopt (m latest : JobManifest Id) : JobManifest Id :=
  { m with cells := fun i =>
      match (latest.cells i).serverJobId with
      | none => m.cells i
      | some serverJobId => { m.cells i with serverJobId := some serverJobId } }

end JobManifest

end Pipette.Phone.Job
