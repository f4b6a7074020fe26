import Pipette.Lib.Retry
import Pipette.Evals.Checkpoint
import Pipette.Mgmt

/-!
# The submit protocol of the worker

`try_submit_plan_result`, its reclaim after a `404`, and the bounded backoff around it. The world records every call with its
reply; the replies, the waits that see the stop flag and the outcomes of the local writes are an `Env`, indexed by the number
of POSTs sent so far.
-/

namespace Pipette.Worker

open Retry

/-! ## Answers -/

/-- The request could not be built or signed, no answer arrived, or a status with the job id its body decodes to, if it does. -/
inductive Reply where
  | unsent
  | transport
  | answered (status : Nat) (accepted : Option Text)
  deriving DecidableEq

/-- Whether a status is a success. -/
def isSuccess (status : Nat) : Bool := 200 ≤ status && status < 300

/-- `send_json`: a success is decoded, any other status is the error that names it. -/
def sendJson : Reply → Except ApiError Text
  | .unsent => .error .unsent
  | .transport => .error .transport
  | .answered status accepted =>
    if isSuccess status then
      match accepted with
      | some jobId => .ok jobId
      | none => .error .decodeJson
    else .error (.httpStatus status)

/-- `send_empty`: only the status is checked. -/
def sendEmpty : Reply → Except ApiError Unit
  | .unsent => .error .unsent
  | .transport => .error .transport
  | .answered status _ => if isSuccess status then .ok () else .error (.httpStatus status)

/-! ## The world of one claim -/

/-- The result of a run: its device time, and the rest of its fields. -/
structure Payload where
  deviceTimeMs : Option Nat
  fields : Text
  deriving DecidableEq

/-- Why a failure is reported. -/
inductive Reason where
  | runFailed (error : Text)
  | notSubmitted (refused : ApiError)
  deriving DecidableEq

/-- A body the worker posts against its claim. -/
inductive Body where
  | success (jobId : Text) (payload : Payload)
  | failure (jobId : Text) (reason : Reason) (retriable : Bool) (deviceTimeMs : Option Nat)
  deriving DecidableEq

/-- What the worker did, in order. -/
inductive Event where
  | post (body : Body) (reply : Reply)
  | reclaim (reply : Reply)
  | filed (jobId : Text)
  | finalized (digest : EvalRunDigest)
  deriving DecidableEq

/-- A result directory under `synced/`. -/
structure SyncedResult where
  payload : Option Payload
  extras : Option Text

/-- The synced results by directory name, the eval checkpoints, the POSTs sent so far, and the log. -/
structure World where
  synced : Text → SyncedResult
  evals : EvalFiles
  posts : Nat
  log : List Event

/-- `post n` answers POST number `n` (from 1), `reclaim n` the reclaim after it, and `stops n` says whether the wait after it
sees the stop flag. -/
structure Env where
  post : Nat → Reply
  reclaim : Nat → Reply
  stops : Nat → Bool
  stopRequested : Bool
  encodes : Bool
  writesPayload : Bool
  writesExtras : Bool
  checkpointIo : CheckpointIo

/-- `POST /benchmarks`. -/
def submitResult (e : Env) (body : Body) (w : World) : Except ApiError Text × World :=
  let reply := e.post (w.posts + 1)
  (sendJson reply, { w with posts := w.posts + 1, log := w.log ++ [.post body reply] })

/-- `POST /plans/{job_id}/reclaim`. -/
def reclaim (e : Env) (w : World) : Except ApiError Unit × World :=
  let reply := e.reclaim w.posts
  (sendEmpty reply, { w with log := w.log ++ [.reclaim reply] })

/-! ## One submit, and the backoff around it -/

/-- Outcome of submitting a plan-attached result. -/
inductive SubmitDisposition where
  | accepted (jobId : Text)
  | dropped
  | retryTransient
  | fatal (error : ApiError)
  deriving DecidableEq

/-- One submit attempt. On `404`, reclaims once and asks the caller to send the body again. -/
def trySubmitPlanResult (e : Env) (body : Body) (w : World) : SubmitDisposition × World :=
  match submitResult e body w with
  | (.ok jobId, w) => (.accepted jobId, w)
  | (.error err, w) =>
    if err.status = some 409 then (.dropped, w)
    else if err.status = some 404 then
      match reclaim e w with
      | (.ok (), w) => (.retryTransient, w)
      | (.error re, w) =>
        if re.status = some 404 ∨ re.status = some 409 then (.dropped, w)
        else if re.isTransient then (.retryTransient, w)
        else (.dropped, w)
    else if err.isTransient then (.retryTransient, w)
    else (.fatal err, w)

def attempts : Nat := 32

/-- One round of the backoff: a transient disposition goes on, any other settles it. -/
def submitRound (e : Env) (body : Body) (_n : Nat) (w : World) : Flow SubmitDisposition × World :=
  match trySubmitPlanResult e body w with
  | (.retryTransient, w) => (.go, w)
  | (other, w) => (.stop other, w)

/-- The wait after a round breaks when it sees the stop flag. -/
def backoffSleep (e : Env) (_n : Nat) (w : World) : Bool × World := (e.stops w.posts, w)

/-- Until a terminal disposition. A backoff that runs out and one that is broken settle the same. -/
def submitPlanResultWithBackoff (e : Env) (body : Body) (w : World) : SubmitDisposition × World :=
  match backoff (submitRound e body) (backoffSleep e) (List.range' 1 attempts) w with
  | (some settled, w) => (settled, w)
  | (none, w) => (.retryTransient, w)

end Pipette.Worker
