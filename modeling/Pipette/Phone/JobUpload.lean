import Pipette.Phone.JobManifest

/-!
# A run and the upload passes over its job

`JobExecutor.run` keeps its own copy of the job's record and saves it whole, with the acknowledgements it reads from the disk
just before (`saveRunManifest`). An upload pass (`ResultUploader`, `ResultSubmissionService.submit`) saves the copy it loaded
whole after each acknowledgement. The passes wait for one another (`enqueue`), but not for the run. Beside each result lies the
record of its submission, which a run deletes when it files a new result. `log` is not part of the source: it keeps what was
sent, acknowledged and given up to be run again.
-/

namespace Pipette.Phone.Job

/-- Where the run is: its copy may be unsaved, it has read the disk for a save, or it has just saved. -/
inductive RunPhase where
  | unstarted
  | edited
  | saving
  | saved
  | ended
  deriving DecidableEq

/-- Where a pass is: picking the cells to send, between two batches, waiting for an answer, or going through the answers. -/
inductive PassStage (Id : Type) where
  | picking (cells queue : List Id)
  | between (queue : List Id)
  | waiting (batch queue : List Id)
  | answering (answers : List (Id × Option Text)) (queue : List Id)

/-- The cells that a pass has picked and not sent. -/
@[simp] def PassStage.queue {Id : Type} : PassStage Id → List Id
  | .picking _ queue | .between queue | .waiting _ queue | .answering _ queue => queue

/-- An upload pass over the job. -/
structure Pass (Id : Type) where
  manifest : JobManifest Id
  stage : PassStage Id
  hadTransportFailure : Bool
  retries : Nat

/-- What is sent and acknowledged. `again`: a run is started that is to replace the result of the cell. -/
inductive Upload (Id : Type) where
  | sent (cell : Id)
  | acked (cell : Id) (serverJobId : Text)
  | again (cell : Id)
  deriving DecidableEq

/-- The record on disk, the submission records beside the results, the run and the pass. -/
structure State (Id : Type) where
  disk : JobManifest Id
  record : Id → Option Text
  mine : JobManifest Id
  phase : RunPhase
  pass : Option (Pass Id)
  log : List (Upload Id)

variable {Id : Type}

/-- The cells of the job, each once. -/
structure Cells (Id : Type) where
  ids : List Id
  nodup : ids.Nodup

/-- No run has begun and no pass is under way. -/
def Initial (s : State Id) : Prop := s.phase = .unstarted ∧ s.pass = none ∧ s.log = []

/-- The run's copy with a cell completed. -/
@[simp] def JobManifest.complete [DecidableEq Id] (m : JobManifest Id) (i : Id) : JobManifest Id :=
  { m with cells := Function.update m.cells i { m.cells i with runStatus := .completed } }

/-- The start saves the record it is given, and forgets the submissions of the cells to be run again. A cell that is completed
has its new result filed, without the record of a submission (`recordResult`). In a calm run it starts, from the ids on disk,
and reads the record only while no pass is under way. -/
inductive RunStep [DecidableEq Id] (calm : Prop) (s : State Id) : State Id → Prop
  | start (m : JobManifest Id) (again : List Id) (h : s.phase = .unstarted)
      (hcalm : calm → s.pass = none ∧ ∀ i ∉ again, (m.cells i).serverJobId = (s.disk.cells i).serverJobId) :
      RunStep calm s { s with
        disk := m, mine := m, phase := .saved
        record := fun i => if i ∈ again then none else s.record i, log := s.log ++ again.map .again }
  | edit (m : JobManifest Id) (h : s.phase = .edited ∨ s.phase = .saved)
      (hm : ∀ i, (m.cells i).serverJobId = (s.mine.cells i).serverJobId ∧
        ((m.cells i).runStatus = .completed → (s.mine.cells i).runStatus = .completed)) :
      RunStep calm s { s with mine := m, phase := .edited }
  | complete (i : Id) (h : s.phase = .edited ∨ s.phase = .saved) (hi : (s.mine.cells i).runStatus = .running) :
      RunStep calm s { s with mine := s.mine.complete i, record := Function.update s.record i none, phase := .edited }
  | read (h : s.phase = .edited ∨ s.phase = .saved) (hcalm : calm → s.pass = none) :
      RunStep calm s { s with mine := s.mine.adopt s.disk, phase := .saving }
  | write (h : s.phase = .saving) : RunStep calm s { s with disk := s.mine, phase := .saved }
  | finish (h : s.phase = .saved) : RunStep calm s { s with phase := .ended }

/-- The cells a normal sweep may send: completed, not acknowledged in the manifest or the submission record. Whether the
benchmark is the server's and the payload can be read is left open. -/
def State.sends (s : State Id) (m : JobManifest Id) (i : Id) : Prop :=
  (m.cells i).runStatus = .completed ∧ (m.cells i).serverJobId = none ∧ s.record i = none

@[simp] def State.to (s : State Id) (p : Pass Id) (stage : PassStage Id) : State Id := { s with pass := some { p with stage } }

/-- A save of the pass: an acknowledgement in its own copy, all of which goes to the disk. -/
@[simp] def State.save [DecidableEq Id] (s : State Id) (p : Pass Id) (i : Id) (serverJobId : Text) (stage : PassStage Id) : State Id :=
  { s with disk := p.manifest.ack i serverJobId, pass := some { p with manifest := p.manifest.ack i serverJobId, stage } }

/-- What a pass over the cells `ids` does once it has loaded the record. -/
inductive PassStep [DecidableEq Id] (ids : List Id) (s : State Id) (p : Pass Id) : State Id → Prop
  | skip {i cells queue} (h : p.stage = .picking (i :: cells) queue) : PassStep ids s p (s.to p (.picking cells queue))
  | pick {i cells queue} (h : p.stage = .picking (i :: cells) queue) (hi : s.sends p.manifest i) :
      PassStep ids s p (s.to p (.picking cells (queue ++ [i])))
  | adopt {i cells queue serverJobId} (h : p.stage = .picking (i :: cells) queue)
      (hi : (p.manifest.cells i).serverJobId = none ∧ s.record i = some serverJobId) :
      PassStep ids s p (s.save p i serverJobId (.picking cells queue))
  | picked {queue} (h : p.stage = .picking [] queue) : PassStep ids s p (s.to p (.between queue))
  | send {batch queue} (h : p.stage = .between (batch ++ queue)) (hbatch : batch ≠ []) :
      PassStep ids s p { s.to p (.waiting batch queue) with log := s.log ++ batch.map .sent }
  | lose {batch queue} (h : p.stage = .waiting batch queue) :
      PassStep ids s p (s.to { p with hadTransportFailure := true } (.between queue))
  | answer {batch queue} (answers : List (Id × Option Text)) (h : p.stage = .waiting batch queue)
      (hanswers : ∀ a ∈ answers, a.1 ∈ batch) : PassStep ids s p (s.to p (.answering answers queue))
  | ack {i serverJobId answers queue} (h : p.stage = .answering ((i, some serverJobId) :: answers) queue) :
      PassStep ids s p { s.save p i serverJobId (.answering answers queue) with
        record := Function.update s.record i (some serverJobId), log := s.log ++ [.acked i serverJobId] }
  | refuse {i answers queue} (h : p.stage = .answering ((i, none) :: answers) queue) :
      PassStep ids s p { s.to p (.answering answers queue) with record := Function.update s.record i none }
  | answered {queue} (h : p.stage = .answering [] queue) : PassStep ids s p (s.to p (.between queue))
  | retry {n} (h : p.stage = .between []) (hp : p.hadTransportFailure ∧ p.retries = n + 1) :
      PassStep ids s p (s.to { p with hadTransportFailure := false, retries := n } (.picking ids []))
  | done (h : p.stage = .between []) (hp : p.hadTransportFailure = false ∨ p.retries = 0) :
      PassStep ids s p { s with pass := none }

/-- A step of the run, a pass that loads the record when no other is under way, or a step of the pass. In a calm run no pass
begins between a read of the run and its write. -/
inductive Step [DecidableEq Id] (cells : Cells Id) (calm : Prop) (s : State Id) : State Id → Prop
  | run {s'} (h : RunStep calm s s') : Step cells calm s s'
  | load (retries : Nat) (h : s.pass = none) (hcalm : calm → s.phase ≠ .saving) :
      Step cells calm s { s with pass := some ⟨s.disk, .picking cells.ids [], false, retries⟩ }
  | pass {p s'} (hp : s.pass = some p) (h : PassStep cells.ids s p s') : Step cells calm s s'

/-- The states that any interleaving leads to, or only a calm one. -/
inductive Reachable [DecidableEq Id] (cells : Cells Id) (calm : Prop) : State Id → Prop
  | initial {s} (h : Initial s) : Reachable cells calm s
  | step {s s'} (h : Reachable cells calm s) (hstep : Step cells calm s s') : Reachable cells calm s'

end Pipette.Phone.Job
