import Pipette.Android.JobRecord

/-!
# A run and the submissions beside it on Android

`JobRunner.execute` keeps its own copy of the job's record; `saveManifest` takes the ids it lacks from disk and writes its
copy whole. A submission writes the copy it loaded without a look at the disk. A write is in place: the file is empty before
it is full. `told`, `kept`, `log` and `behind` are not part of the source.
-/

namespace Pipette.Android.Job

open Function Phone.Job

variable {Id : Type}

namespace JobManifest

variable (m : JobManifest Id)

def outcomes : (Id → CellRunStatus) × JobStatus := (fun i => (m.cells i).runStatus, m.status)

def serverIds (i : Id) : Option Text := (m.cells i).serverJobId

def setRun [DecidableEq Id] (m : JobManifest Id) (i : Id) (status : CellRunStatus) : JobManifest Id :=
  { m with cells := update m.cells i { m.cells i with runStatus := status } }

/-- The ids that `saveManifest` fills in from the latest record. -/
def fill (m latest : JobManifest Id) : JobManifest Id :=
  { m with cells := fun i =>
      { m.cells i with serverJobId := if (m.serverIds i).all isBlank then latest.serverIds i else m.serverIds i } }

def recoverInterruptedRunState : JobManifest Id :=
  let stop (status : CellRunStatus) (m : JobManifest Id) : JobManifest Id :=
    { m with cells := fun i => if (m.cells i).runStatus = status then { m.cells i with runStatus := .cancelled } else m.cells i }
  let m' := stop .running m
  if m.status = .paused then m'
  else if m.status = .running then
    let m' := stop .pending m'
    { m' with status := if m'.ids.any fun i => (m'.cells i).runStatus = .cancelled then .paused else .completed }
  else m

end JobManifest

/-- Where the run is: its copy may be unsaved, it has read the disk for a save, or it has just saved. -/
inductive Phase where
  | unstarted
  | edited
  | saving
  | saved
  | ended
  deriving DecidableEq

/-- The record as a load gives it, the run with its copy, and the submissions with theirs. `told` are the outcomes the run has
given since its start, `kept` those of the last save of a run, `log` the ids the server gave; `behind`: a submission has
saved since the run last read the record. -/
structure State (Id : Type) where
  disk : Option (JobManifest Id)
  mine : JobManifest Id
  phase : Phase
  passes : List (JobManifest Id)
  behind : Bool
  told : (Id → CellRunStatus) × JobStatus
  kept : (Id → CellRunStatus) × JobStatus
  log : List (Id × Text)

/-- The steps of the run (with its own submission), of the submissions, and of the process. Nothing falls between the two
steps of an atomic write. In a calm run the run reads the record and saves its own acknowledgements only while no
submission is under way, with all they have saved read before; submissions keep clear of one another and of the run's
saves. -/
inductive Step [DecidableEq Id] (atomic calm : Prop) (s : State Id) : State Id → Prop
  | start {m} (h : s.phase = .unstarted) (hm : s.disk = some m) (hcalm : calm → s.passes = []) :
      Step atomic calm s { s with mine := m, phase := .saved, behind := false, told := m.outcomes }
  | edit (i : Id) (status : CellRunStatus) (h : s.phase = .edited ∨ s.phase = .saved) :
      Step atomic calm s { s with mine := s.mine.setRun i status, phase := .edited, told := (update s.told.1 i status, s.told.2) }
  | conclude (status : JobStatus) (h : s.phase = .edited ∨ s.phase = .saved) :
      Step atomic calm s { s with mine := { s.mine with status }, phase := .edited, told := (s.told.1, status) }
  | read (h : s.phase = .edited ∨ s.phase = .saved) (hcalm : calm → s.passes = []) :
      Step atomic calm s { s with mine := s.disk.elim s.mine s.mine.fill, phase := .saving, behind := false }
  | write (h : s.phase = .saving) : Step atomic calm s { s with disk := some s.mine, phase := .saved, kept := s.mine.outcomes }
  | submit (i : Id) (id : Text) (h : s.phase = .saved) (hi : s.mine.serverIds i = none)
      (hcalm : calm → s.passes = [] ∧ s.behind = false) :
      Step atomic calm s { s with mine := s.mine.ack i id, disk := some (s.mine.ack i id), log := (i, id) :: s.log }
  | reread (h : s.phase = .saved) (hcalm : calm → s.passes = []) : Step atomic calm s { s with mine := s.disk.getD s.mine, behind := false }
  | finish (h : s.phase = .saved) : Step atomic calm s { s with phase := .ended }
  | load {m} (hm : s.disk = some m) (hcalm : calm → s.passes = [] ∧ s.phase ≠ .saving) :
      Step atomic calm s { s with passes := m :: s.passes }
  | ack {m others others'} (i : Id) (id : Text) (h : s.passes = others ++ m :: others') (hi : m.serverIds i = none) :
      Step atomic calm s { s with
        passes := others ++ m.ack i id :: others', disk := some (m.ack i id), log := (i, id) :: s.log, behind := true }
  | done {m others others'} (h : s.passes = others ++ m :: others') : Step atomic calm s { s with passes := others ++ others' }
  | empty (hatomic : ¬atomic) (h : s.phase = .saving ∨ s.passes ≠ []) : Step atomic calm s { s with disk := none }
  | kill : Step atomic calm s { s with phase := .unstarted, passes := [] }
  | recover {m} (h : s.phase = .unstarted) (hm : s.disk = some m) (hnone : s.passes = []) :
      Step atomic calm s { s with disk := some m.recoverInterruptedRunState, kept := m.recoverInterruptedRunState.outcomes }

/-- Before the run: a record is on disk, and no submission is under way. -/
def Initial (s : State Id) : Prop :=
  ∃ m, s.disk = some m ∧ s.kept = m.outcomes ∧ s.phase = .unstarted ∧ s.passes = [] ∧ s.log = []

inductive Reachable [DecidableEq Id] (atomic calm : Prop) : State Id → Prop
  | initial {s} (h : Initial s) : Reachable atomic calm s
  | step {s s'} (h : Reachable atomic calm s) (hstep : Step atomic calm s s') : Reachable atomic calm s'

end Pipette.Android.Job
