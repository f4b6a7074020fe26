import Pipette.Android.JobRecord

/-!
# Starting a job on Android

The entry points of `JobRunner`. Each loads the job and prepares it, clears the artifacts of the cells that are run again, saves
the record and then calls `run`, which refuses while a job is running. None of this is locked: the running job and the
submissions go on beside it (`Others`).
-/

namespace Pipette.Android.Job

open Function

/-- What a cell leaves beside the record: its payload, its submission record and its metrics. -/
structure Artifacts where
  payload : Option Text
  submission : Option Text
  metrics : Option Text

/-- The stored jobs and artifacts, and the job that is running. -/
structure World (JobId Id : Type) where
  jobs : JobId → Option (JobManifest Id)
  artifacts : JobId → Id → Artifacts
  runningJobId : Option JobId

variable {JobId Id : Type} [DecidableEq JobId] [DecidableEq Id]

/-- The cells of a job for which `p` holds, changed by `f`. -/
def JobManifest.change (m : JobManifest Id) (p : Id → Bool) (f : JobCell → JobCell) : JobManifest Id :=
  { m with cells := fun i => if i ∈ m.ids ∧ p i then f (m.cells i) else m.cells i, status := .running }

namespace World

variable (w : World JobId Id)

def saveJobManifest (j : JobId) (m : JobManifest Id) : World JobId Id :=
  { w with jobs := update w.jobs j (some m) }

/-- `clearCellArtifacts`, for the cells `ids`. -/
def clearCellArtifacts (j : JobId) (ids : List Id) : World JobId Id :=
  { w with artifacts := update w.artifacts j fun i => if i ∈ ids then ⟨none, none, none⟩ else w.artifacts j i }

/-- `run`, up to where the job is queued. -/
def run (j : JobId) : Except Text Unit × World JobId Id :=
  if w.runningJobId = none then (.ok (), { w with runningJobId := some j }) else (.error "A job is already running", w)

end World

/-- A job that is prepared: the cells whose artifacts are to be cleared, and the record to be saved. -/
structure Prepared (JobId Id : Type) where
  job : JobId
  cleared : List Id
  manifest : JobManifest Id

/-- `startNewJob`, with the manifest it plans for the models and benchmarks under a new id. -/
def startNewJob (models benchmarks : List Text) (j : JobId) (m : JobManifest Id) : Except Text (Prepared JobId Id) :=
  if models = [] then .error "Select at least one model"
  else if benchmarks = [] then .error "Select at least one benchmark"
  else if m.ids = [] then .error "No runnable cells for the selected model/benchmark set"
  else .ok ⟨j, [], m⟩

namespace World

def resume (w : World JobId Id) (j : JobId) : Except Text (Prepared JobId Id) :=
  match w.jobs j with
  | none => .error "Job not found"
  | some m => .ok ⟨j, [], m.change (fun i => (m.cells i).runStatus = .cancelled) ({ · with runStatus := .pending })⟩

def rerunCells (w : World JobId Id) (j : JobId) (cellIds : List Id) : Except Text (Prepared JobId Id) :=
  if cellIds = [] then .error "Select at least one cell to rerun"
  else match w.jobs j with
  | none => .error "Job not found"
  | some m =>
    let chosen := m.ids.filter fun i => i ∈ cellIds && (m.cells i).isRerunnable
    if chosen = [] then .error "No matching cells to rerun"
    else .ok ⟨j, chosen, m.change (· ∈ chosen) fun _ => ⟨.pending, none, none⟩⟩

/-- `retryFailed`, whose `rerunCells` loads the job `again`. -/
def retryFailed (w again : World JobId Id) (j : JobId) : Except Text (Prepared JobId Id) :=
  match w.jobs j with
  | none => .error "Job not found"
  | some m =>
    let failedIds := m.ids.filter fun i => (m.cells i).runStatus = .failed
    if failedIds = [] then .error "No failed cells to retry" else again.rerunCells j failedIds

end World

/-- A request to start a job. -/
inductive Request (JobId Id : Type) where
  | startNewJob (models benchmarks : List Text) (j : JobId) (m : JobManifest Id)
  | resume (j : JobId)
  | retryFailed (j : JobId)
  | rerunCells (j : JobId) (cellIds : List Id)

def Request.prepare (w again : World JobId Id) : Request JobId Id → Except Text (Prepared JobId Id)
  | .startNewJob models benchmarks j m => Job.startNewJob models benchmarks j m
  | .resume j => w.resume j
  | .retryFailed j => w.retryFailed again j
  | .rerunCells j cellIds => w.rerunCells j cellIds

/-- What the running job and the submissions make of the world beside a request: until it loads again and until it writes,
after it has cleared artifacts, and before it looks for a running job. -/
structure Others (JobId Id : Type) where
  again : World JobId Id
  before : World JobId Id
  between : World JobId Id → World JobId Id
  after : World JobId Id → World JobId Id

/-- The running job can end, but no other is started. -/
def StartsNone (w w' : World JobId Id) : Prop := w'.runningJobId = w.runningJobId ∨ w'.runningJobId = none

def Others.Beside (o : Others JobId Id) (w : World JobId Id) : Prop :=
  StartsNone w o.before ∧ ∀ v, StartsNone v (o.between v) ∧ StartsNone v (o.after v)

/-- The world as it is without the request. -/
def Others.alone (o : Others JobId Id) : World JobId Id := o.after (o.between o.before)

/-- A request that loads the job from `w`, with the world it leaves. -/
def Request.answer (r : Request JobId Id) (w : World JobId Id) (o : Others JobId Id) : Except Text Unit × World JobId Id :=
  match r.prepare w o.again with
  | .error e => (.error e, o.alone)
  | .ok p => (o.after ((o.between (o.before.clearCellArtifacts p.job p.cleared)).saveJobManifest p.job p.manifest)).run p.job

end Pipette.Android.Job
