import Pipette.Worker.Protocol

/-!
# Reporting a finished run

`submit_finished_run` and the functions under it. A success is posted and, once `post_completion` answers that the server has
the report, filed as synced and its eval checkpoint retired; a refused success is reported as a retriable failure.
-/

namespace Pipette.Worker

/-- The claim a run was made for. -/
structure ClaimedJob where
  jobId : Text

/-- A run that failed: what the worker reads off the error's chain. -/
structure RunError where
  heldTouch : Bool
  cancelled : Bool
  retriable : Bool
  text : Text

/-- A run that succeeded: its payload, its extras, and the checkpoint of an eval. -/
structure Finished where
  payload : Payload
  extras : Text
  evalCheckpoint : Option EvalRunDigest

/-- What reporting a run can end in, apart from success. -/
inductive SubmitError where
  | run (error : RunError)
  | serialize
  | refused (error : ApiError)

/-- `Ok(true)`: the server has the report. `Ok(false)`: it never reached the server. -/
def postCompletion (e : Env) (body : Body) (w : World) : Except SubmitError Bool × World :=
  match submitPlanResultWithBackoff e body w with
  | (.accepted _, w) => (.ok true, w)
  | (.dropped, w) => (.ok true, w)
  | (.retryTransient, w) => (.ok false, w)
  | (.fatal err, w) => (.error (.refused err), w)

/-- A job id that names exactly one directory under `synced/`: that directory's name. -/
def checkJobId (jobId : Text) : Option Text :=
  match components jobId with
  | [.normal name] => some name
  | _ => none

/-- Write the payload, then its extras; a failure between the two leaves the payload alone. -/
def saveResult (e : Env) (jobId dir : Text) (payload : Payload) (extras : Text) (w : World) : World :=
  if e.writesPayload then
    let old := w.synced dir
    let saved : SyncedResult :=
      { payload := some payload, extras := if e.writesExtras then some extras else old.extras }
    { w with synced := Function.update w.synced dir saved, log := w.log ++ [.filed jobId] }
  else w

/-- Keep a completed job's result on disk. Best-effort: a failed write does not fail the job. -/
def storeCompletedResult (e : Env) (jobId : Text) (payload : Payload) (extras : Text) (w : World) : World :=
  match checkJobId jobId with
  | some dir => saveResult e jobId dir payload extras w
  | none => w

/-- Retire an eval's checkpoint, if the run has one. -/
def finalizeEvalCheckpoint (e : Env) (digest : Option EvalRunDigest) (w : World) : World :=
  match digest with
  | none => w
  | some d => { w with evals := finalize e.checkpointIo w.evals d, log := w.log ++ [.finalized d] }

/-- Post a failure body against the claim. -/
def submitFailure (e : Env) (job : ClaimedJob) (reason : Reason) (retriable : Bool) (deviceTimeMs : Option Nat) (w : World) :
    Except SubmitError Bool × World :=
  postCompletion e (.failure job.jobId reason retriable deviceTimeMs) w

/-- Report a result that could not be submitted as a retriable failure. -/
def reportRefusedSubmission (e : Env) (job : ClaimedJob) (refused : ApiError) (deviceTimeMs : Option Nat) (w : World) :
    Except SubmitError Unit × World :=
  match submitFailure e job (.notSubmitted refused) true deviceTimeMs w with
  | (.ok _, w) => (.ok (), w)
  | (.error err, w) => (.error err, w)

/-- Post a finished run, then keep a local copy and retire an eval's checkpoint. -/
def submitSuccess (e : Env) (job : ClaimedJob) (run : Finished) (w : World) : Except SubmitError Unit × World :=
  if !e.encodes then (.error .serialize, w)
  else
    match postCompletion e (.success job.jobId run.payload) w with
    | (.ok true, w) =>
      (.ok (), finalizeEvalCheckpoint e run.evalCheckpoint (storeCompletedResult e job.jobId run.payload run.extras w))
    | (.ok false, w) => (.ok (), w)
    | (.error (.refused err), w) => reportRefusedSubmission e job err run.payload.deviceTimeMs w
    | (.error other, w) => (.error other, w)

/-- Whole milliseconds, saturating at the largest 64-bit value. -/
def deviceTimeMs (elapsed : Nat) : Nat := min elapsed (2 ^ 64 - 1)

/-- What a finished run owes the server, once the heartbeat thread has stopped. -/
def submitFinishedRun (e : Env) (job : ClaimedJob) (run : Except RunError Finished) (elapsed : Nat) (leaseLost : Bool)
    (w : World) : Except SubmitError Unit × World :=
  match run with
  | .error err =>
    -- A held touch is not submitted, whatever became of the lease: the worker stops.
    if err.heldTouch then (.error (.run err), w)
    else if leaseLost then (.ok (), w)
    else if e.stopRequested && err.cancelled then (.ok (), w)
    else
      match submitFailure e job (.runFailed err.text) err.retriable (some (deviceTimeMs elapsed)) w with
      | (.ok _, w) => (.ok (), w)
      | (.error err, w) => (.error err, w)
  | .ok run =>
    if leaseLost then (.ok (), w)
    else
      let payload := { run.payload with deviceTimeMs := some (deviceTimeMs elapsed) }
      submitSuccess e job { run with payload := payload } w

end Pipette.Worker
