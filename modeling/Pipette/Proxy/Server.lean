import Pipette.Mgmt
import Pipette.Path

/-!
# What the server's answers mean

Each answer is read as a disposition: a `404` reclaims the lease once, a `409` ends the run or drops the result. `Beat` is one
tick of the heartbeat thread, with the answers it gets.
-/

namespace Pipette.Proxy

/-- What one `reclaim` meant. -/
inductive ReclaimOutcome where
  | renewed
  | unrecoverable
  | transient
  deriving DecidableEq

def reclaimOnce : Except ApiError Unit → ReclaimOutcome
  | .ok () => .renewed
  | .error e =>
    if e.status = some 404 ∨ e.status = some 409 then .unrecoverable
    else if e.isTransient then .transient
    else .unrecoverable

/-- What one heartbeat meant for the run in flight. -/
inductive LeaseKeepalive where
  | ok
  | abort
  | retry
  deriving DecidableEq

/-- The answers to one heartbeat, and to the reclaim after a `404`. -/
structure Beat where
  heartbeat : Except ApiError Unit
  reclaim : Except ApiError Unit

/-- One `PUT /plans/{job_id}/heartbeat`, with the single reclaim folded in. -/
def keepaliveLease (beat : Beat) : LeaseKeepalive :=
  match beat.heartbeat with
  | .ok () => .ok
  | .error e =>
    if e.status = some 409 then .abort
    else if e.status = some 404 then
      match reclaimOnce beat.reclaim with
      | .renewed => .ok
      | .unrecoverable => .abort
      | .transient => .retry
    else .retry

/-- What one submit attempt meant. -/
inductive SubmitDisposition where
  | accepted (jobId : Text)
  | dropped
  | retryTransient
  | fatal (error : ApiError)
  deriving DecidableEq

/-- The answers that are settled without a reclaim; a `404` is not one of them. -/
def submitDisposition : Except ApiError Text → Option SubmitDisposition
  | .ok jobId => some (.accepted jobId)
  | .error e =>
    if e.status = some 409 then some .dropped
    else if e.status = some 404 then none
    else if e.isTransient then some .retryTransient
    else some (.fatal e)

theorem submitDisposition_accepted {answer : Except ApiError Text} {jobId : Text}
    (h : submitDisposition answer = some (.accepted jobId)) : answer = .ok jobId := by
  cases answer with
  | ok id =>
    cases h
    rfl
  | error e =>
    simp only [submitDisposition] at h
    split_ifs at h <;> cases h

/-- What a submit meant once its claim binding was reclaimed. -/
def afterReclaim : ReclaimOutcome → SubmitDisposition
  | .renewed | .transient => .retryTransient
  | .unrecoverable => .dropped

theorem afterReclaim_ne_accepted (outcome : ReclaimOutcome) (jobId : Text) : afterReclaim outcome ≠ .accepted jobId := by
  cases outcome <;> nofun

/-- What one `POST /plans/claim` meant. -/
inductive ClaimPoll (Job : Type) where
  | job (job : Job)
  | idle
  | notApproved
  | signatureRejected
  | transient
  | fatal (error : ApiError)

def pollClaim {Job : Type} : Except ApiError (Option Job) → ClaimPoll Job
  | .ok (some job) => .job job
  | .ok none => .idle
  | .error e =>
    if e.status = some 403 then .notApproved
    else if e.status = some 401 then .signatureRejected
    else if e.isTransient then .transient
    else .fatal e

theorem pollClaim_error_ne_job {Job : Type} (e : ApiError) {job : Job} : pollClaim (.error e) ≠ .job job := by
  simp only [pollClaim]
  split_ifs <;> nofun

end Pipette.Proxy
