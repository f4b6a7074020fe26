import Pipette.Path

/-!
# The worker's sessions on a phone

`WorkerCommands`: turning the worker on starts a session with a task of its own, and turning it off ends the session or, with
a run in flight, lets its task drain. On the main actor a task goes from one of its waits to the next in one step (`resume`),
cancelled or not. Inside a claimed job nothing of the session is written before the last wait. `asked` and `taken` are not
part of the source: they keep which session's task asked for a claim or was given one, and which session was the newest then.
The 64-bit generation does not come round.
-/

namespace Pipette.Phone.Session

/-- `statusText`. The texts of a finished job are `finished`. -/
inductive Status where
  | off
  | needsRegistration
  | starting
  | stopping (background : Bool)
  | refreshing
  | refreshFailed
  | notApproved
  | claiming (idleRounds : Nat)
  | retry (seconds : Nat)
  | running (benchmarkId : Text)
  | noWork (seconds : Nat)
  | claimFailed
  | finished (text : Text)
  deriving DecidableEq

/-- `SessionOutcome`. -/
inductive Outcome where
  | completed (jobs : Nat)
  | stopped
  | notApproved
  | notStarted
  | failed (reason : Text)
  deriving DecidableEq

/-- `WorkerArgs`, as far as the session reads it. -/
structure WorkerArgs where
  skipProfileRefresh : Bool := false
  maxJobs : Nat := 0

/-- Where a task waits. -/
inductive Wait where
  | begin
  | refresh
  | poll (attempt : Nat)
  | backoff (attempt : Nat)
  | work
  | idle
  | ended
  deriving DecidableEq

/-- A session's task and its local variables. -/
structure LoopTask where
  wait : Wait
  cancelled : Bool
  options : WorkerArgs
  idleRounds : Nat
  completedJobs : Nat

/-- The singleton and its tasks, by generation. `Ctl` are the controllers a session is bound to. -/
structure State (Ctl : Type) where
  enabled : Bool
  statusText : Status
  sessionOutcome : Option Outcome
  controllers : Option Ctl
  sessionOptions : WorkerArgs
  sessionGeneration : Nat
  loopTask : Option Nat
  tasks : Nat → LoopTask
  asked : List (Nat × Nat)
  taken : List (Nat × Nat)

variable {Ctl : Type}

/-- A launch: the worker is off and nothing was started. -/
def State.launched : State Ctl := ⟨false, .off, none, none, {}, 0, none, fun _ => ⟨.ended, false, {}, 0, 0⟩, [], []⟩

/-- What the app shows and the next session depends on. -/
def State.shown (s : State Ctl) : Bool × Status × Option Outcome × Option Ctl × WorkerArgs × Option Nat :=
  (s.enabled, s.statusText, s.sessionOutcome, s.controllers, s.sessionOptions, s.loopTask)

namespace State

variable (g : Nat) (s : State Ctl)

@[simp] def say (status : Status) : State Ctl := { s with statusText := status }

@[simp] def disable (status : Status) : State Ctl := { s with statusText := status, enabled := false }

@[simp] def setTask (f : LoopTask → LoopTask) : State Ctl := { s with tasks := Function.update s.tasks g (f (s.tasks g)) }

@[simp] def waitAt (wait : Wait) : State Ctl := s.setTask g fun t => { t with wait := wait }

/-- What a write comes to that is made only if the task still owns the session. -/
def owned {α : Type} (new old : α) : α := if g = s.sessionGeneration then new else old

/-- `finish`. -/
@[simp] def finish (outcome : Outcome) : State Ctl := { s with sessionOutcome := s.owned g (some outcome) s.sessionOutcome }

/-- The end of `runUntilStopped`, with its `defer`. -/
@[simp] def leave : State Ctl :=
  { s.waitAt g .ended with
    loopTask := s.owned g none s.loopTask, controllers := s.owned g none s.controllers,
    sessionOptions := s.owned g {} s.sessionOptions,
    statusText := s.owned g (if s.enabled = false ∨ (s.tasks g).cancelled then .off else s.statusText) s.statusText }

/-- `pollClaim` is called. -/
@[simp] def ask (attempt : Nat) : State Ctl :=
  { s.waitAt g (.poll attempt) with asked := (g, s.sessionGeneration) :: s.asked }

/-- The head of the claim loop. -/
def loop : State Ctl :=
  if (s.tasks g).cancelled = false ∧ s.enabled then (s.say (.claiming (s.tasks g).idleRounds)).ask g 1
  else (s.finish g .stopped).leave g

end State

/-- `ClaimPoll`. -/
inductive ClaimPoll where
  | job (benchmarkId : Text)
  | idle (wait : Nat)
  | refused
  | transient (error : Text)
  | fatal (error : Text)

/-- What a wait returns: whether there is a registration to sign with, the profile (`none` without a registration, else
whether it is approved), the claim, the end of a backoff, what became of a job and whether its submit was refused, or
whether the idle sleep was interrupted. -/
inductive Answer where
  | begun (signed : Bool)
  | refreshed (profile : Except Text (Option Bool))
  | polled (poll : ClaimPoll)
  | woke
  | worked (text : Option Text) (threw : Bool)
  | slept (interrupted : Bool)

/-- `exponentialBackoff` from a second to a minute. -/
def backoffSeconds (attempt : Nat) : Nat := min 60 (2 ^ (attempt - 1))

/-- `runUntilStopped` of one session, from a wait to the next. -/
def State.resume (g : Nat) (s : State Ctl) : Wait → Answer → State Ctl
  | .begin, .begun signed =>
    if s.controllers.isNone then ((s.say .off).finish g .notStarted).leave g
    else if signed = false then ((s.disable .needsRegistration).finish g .notStarted).leave g
    else
      let s := s.setTask g fun t => { t with options := s.sessionOptions }
      if s.sessionOptions.skipProfileRefresh then s.loop g else (s.say .refreshing).waitAt g .refresh
  | .refresh, .refreshed (.error e) =>
    if (s.tasks g).cancelled then (s.finish g .stopped).leave g
    else ((s.disable .refreshFailed).finish g (.failed ("profile refresh failed: " ++ e))).leave g
  | .refresh, .refreshed (.ok none) => ((s.disable .needsRegistration).finish g .notStarted).leave g
  | .refresh, .refreshed (.ok (some approved)) =>
    if approved then s.loop g else ((s.disable .notApproved).finish g .notApproved).leave g
  | .poll _, .polled (.job benchmarkId) =>
    { (s.say (.running benchmarkId)).setTask g fun t => { t with idleRounds := 0, wait := .work } with
      taken := (g, s.sessionGeneration) :: s.taken }
  | .poll _, .polled (.idle wait) =>
    (s.say (.noWork wait)).setTask g fun t => { t with idleRounds := t.idleRounds + 1, wait := .idle }
  | .poll _, .polled .refused => ((s.disable .notApproved).finish g .notApproved).leave g
  | .poll attempt, .polled (.transient _) =>
    if (s.tasks g).cancelled then s.loop g else (s.say (.retry (backoffSeconds attempt))).waitAt g (.backoff attempt)
  | .poll _, .polled (.fatal e) => ((s.disable .claimFailed).finish g (.failed ("fatal claim error: " ++ e))).leave g
  | .backoff attempt, .woke => s.ask g (attempt + 1)
  | .work, .worked text threw =>
    let s := s.say (text.elim s.statusText .finished)
    if threw then s.loop g
    else
      let s := s.setTask g fun t => { t with completedJobs := t.completedJobs + 1 }
      let t := s.tasks g
      if 0 < t.options.maxJobs ∧ t.options.maxJobs ≤ t.completedJobs then
        (({ s with enabled := false }).finish g (.completed t.completedJobs)).leave g
      else s.loop g
  | .idle, .slept interrupted => if interrupted then (s.finish g .stopped).leave g else s.loop g
  | _, _ => s

/-- What happens: a call of `setEnabled`, or a task goes on. -/
inductive Action (Ctl : Type) where
  | turnOn (registered : Bool) (controllers : Ctl) (options : WorkerArgs)
  | turnOff (background runnerIsRunning : Bool)
  | resume (g : Nat) (answer : Answer)

/-- `setEnabled(true)` that starts a session. -/
def State.start (s : State Ctl) (controllers : Ctl) (options : WorkerArgs) : State Ctl :=
  { s with enabled := true, statusText := .starting, sessionOutcome := none, controllers := some controllers,
           sessionOptions := options, sessionGeneration := s.sessionGeneration + 1, loopTask := some (s.sessionGeneration + 1),
           tasks := Function.update s.tasks (s.sessionGeneration + 1) ⟨.begin, false, {}, 0, 0⟩ }

/-- `setEnabled(false)` with no run in flight. -/
def State.stop (s : State Ctl) : State Ctl :=
  let s := match s.loopTask with
    | none => s
    | some g => s.setTask g fun t => { t with cancelled := true }
  { s with enabled := false, statusText := .off, sessionOutcome := some .stopped, controllers := none, sessionOptions := {},
           loopTask := none }

def State.act (s : State Ctl) : Action Ctl → State Ctl
  | .turnOn false _ _ => { s with enabled := false, statusText := .needsRegistration, sessionOutcome := some .notStarted }
  | .turnOn true controllers options => if s.loopTask.isSome then { s with enabled := true } else s.start controllers options
  | .turnOff background true => { s with enabled := false, statusText := .stopping background }
  | .turnOff _ false => s.stop
  | .resume g answer => s.resume g (s.tasks g).wait answer

end Pipette.Phone.Session
