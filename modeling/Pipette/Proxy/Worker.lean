import Pipette.Lib.Threads
import Pipette.Proxy.Catalog
import Pipette.Proxy.Server

/-!
# What the worker of one phone does

The worker asks the phone, the server and the bucket, reads and writes `installed.json`, and starts and ends the heartbeat of
a lease. What an operation is answered is left open, except that a file holds what was last written to it. The heartbeat
thread and the signal handler raise the flags `lost` and `stop` between any two operations. `World.log` has every operation
with its answer, newest first.
-/

namespace Pipette.Proxy

open Threads

/-! ## Errors -/

/-- The causes of an error that the worker tells apart. -/
inductive Cause where
  | identityReplaced
  | operatorNeeded
  | operatorAction
  | mgmt (error : ApiError)
  | deviceAbsent
  | runtimesListFailed
  deriving DecidableEq

/-- An `anyhow::Error`: the typed causes in its chain, and what it prints. -/
structure AnyError where
  chain : List Cause
  text : Text

namespace AnyError

def plain (text : Text) : AnyError := ⟨[], text⟩

variable (e : AnyError)

def context (doing : Text) : AnyError := { e with text := doing ++ ": " ++ e.text }

def replacedIdentity : Bool := e.chain.contains .identityReplaced

def needsOperator : Bool := e.chain.contains .operatorNeeded

/-- `OperatorNeededError`, with its source. -/
def operatorNeeded (e : AnyError) : AnyError :=
  ⟨.operatorNeeded :: e.chain, "this phone stops until an operator fixes it: " ++ e.text⟩

/-- Whether a failed job means that this phone must not claim again. -/
def haltsPhone : Bool := e.replacedIdentity || e.needsOperator

/-- Whether an error is one only an operator can fix. -/
def isOperatorActionable : Bool :=
  e.haltsPhone || e.chain.any fun
    | .operatorAction => true
    | .mgmt error => error.status.any fun status => 400 ≤ status && status < 500
    | _ => false

end AnyError

/-- An absent phone is its own failure cause, whatever call noticed it. -/
def failureCause (e : AnyError) (otherwise : FailureCause) : FailureCause :=
  if e.chain.contains .deviceAbsent then .deviceUnreachable else otherwise

/-- `or_fail`: a failed step as a classified failure. -/
def orFail (cause : FailureCause) (doing : Text) (e : AnyError) : JobFailure :=
  .new (failureCause e cause) (doing ++ ": " ++ e.text)

/-- Who can clear a failure to make a build ready. -/
inductive Fault where
  | operator
  | version
  | transient
  deriving DecidableEq

structure UnreadyError where
  fault : Fault
  error : AnyError

/-! ## What is exchanged -/

variable {F : Formats}

/-- `installed.json`: the build this proxy last installed on the phone. -/
structure InstalledBuild where
  path : Option Text
  version : Option Text

def InstalledBuild.unknown : InstalledBuild := ⟨none, none⟩

structure ResultRef where
  jobId : Text
  cellId : Text
  deriving DecidableEq

/-- One line of `results list`. -/
structure ListedResult where
  result : ResultRef
  /-- The app's upload was accepted. -/
  submitted : Bool

/-- A result as `results show` prints it. -/
structure Payload where
  isObject : Bool
  clientVersion : Option Text
  content : Text

structure RuntimeListing (F : Formats) where
  runtimes : List F.Runtime
  /-- Descriptors this proxy cannot name, as written. -/
  unreadable : List Text

/-- One `--console` launch of the app, to its end. -/
structure ConsoleRun where
  stdout : Text
  stderr : Text
  sentinel : Option Int
  exitCode : Option Int
  timedOut : Bool
  engineTime : Option Nat
  aborted : Bool
  stopped : Bool
  silent : Bool

/-- The sentinel decides; the exit code is the fallback when none arrived. -/
def ConsoleRun.succeeded (run : ConsoleRun) : Bool :=
  match run.sentinel with
  | some status => status = 0
  | none => run.exitCode = some 0 && !run.timedOut && !run.aborted && !run.stopped && !run.silent

inductive Reachability where
  | unreachable (reason : Text)
  | reachable (osVersion : Option Text)
  deriving DecidableEq

/-- A claim. `launchPlan` is its spec as the app's arguments, or why it cannot be read. -/
structure ClaimedJob (F : Formats) where
  jobId : Text
  benchmarkId : Text
  clientVersions : Option (List Text)
  launchPlan : Except Text (LaunchPlan F)

/-- A result of the phone with the claim attached, or a failure. `result` says which of the phone's results the payload is. -/
inductive Body where
  | success (jobId : Text) (result : ResultRef) (payload : Payload) (output : RuntimeOutput)
  | failure (jobId : Text) (failure : JobFailure)

structure Signals where
  abort : Bool
  stop : Bool

/-- The lease is lost or the process is stopping. -/
def Signals.raised (s : Signals) : Bool := s.abort || s.stop

/-! ## Operations -/

/-- What the worker does. `listResults` says whether it is the listing after the run; `joinHeartbeat` ends the heartbeat after
the launch, `dropLease` wherever a job ends before it. `jobStarts`, `chose` and `jobEnds` only note. -/
inductive Op (F : Formats) where
  | appVersion
  | reachability
  | localClientId
  | listRuntimes
  | bundlePresent
  | verifyInstallable (path : Text)
  | installApp (path : Text)
  | pinGpu
  | releasePin
  | launch (job : ClaimedJob F) (plan : LaunchPlan F) (build : Option (Build F))
  | listResults (after : Bool)
  | showResult (result : ResultRef)
  | deleteResult (result : ResultRef)
  | remembered
  | loadInstalled
  | storeInstalled (record : InstalledBuild)
  | look
  | ensurePulled (build : Build F)
  | sign (build : Build F) (dir : Text)
  | claim
  | getBenchmark (id : Text)
  | submit (body : Body)
  | reclaim (jobId : Text)
  | updateMe
  | me
  | startHeartbeat
  | joinHeartbeat
  | dropLease
  | signals
  | sleep
  | elapsed
  | budgetSpent
  | due
  | jobStarts (job : ClaimedJob F)
  | chose (catalog : Catalog F) (job : ClaimedJob F) (plan : LaunchPlan F) (build : Build F)
  | jobEnds (halts : Bool)

/-- What an operation answers. -/
abbrev Ans : Op F → Type
  | .appVersion => Except AnyError (Option Text)
  | .reachability => Reachability
  | .localClientId => Except AnyError Text
  | .listRuntimes => Except AnyError (RuntimeListing F)
  | .bundlePresent => Except AnyError Bool
  | .verifyInstallable _ | .installApp _ | .pinGpu | .releasePin | .deleteResult _ | .storeInstalled _ => Except AnyError Unit
  | .launch _ _ _ => Except AnyError ConsoleRun
  | .listResults _ => Except AnyError (List ListedResult)
  | .showResult _ => Except AnyError Payload
  | .remembered => Option Text
  | .loadInstalled => Except AnyError InstalledBuild
  | .look => Surroundings
  | .ensurePulled _ | .sign _ _ => Except UnreadyError Text
  | .claim => Except ApiError (Option (ClaimedJob F))
  | .getBenchmark _ | .reclaim _ => Except ApiError Unit
  | .submit _ => Except ApiError Text
  | .updateMe => Except ApiError Bool
  | .me => Except ApiError (Bool × Bool)
  | .signals => Signals
  | .sleep | .budgetSpent | .due => Bool
  | .elapsed => Nat
  | _ => Unit

/-- An operation with its answer, and the flags at that time. -/
structure Event (F : Formats) where
  op : Op F
  answer : Ans op
  lost : Bool
  stop : Bool

/-- `installed.json`, what the process remembers of it, the heartbeat, and the flags it and the signal handler raise. -/
structure World (F : Formats) where
  installed : InstalledBuild
  memory : Option Text
  beating : Bool
  lost : Bool
  stop : Bool
  log : List (Event F)

namespace World

/-- A worker that has just started, on a phone nothing is known of. -/
def fresh : World F := ⟨.unknown, none, false, false, false, []⟩

/-- Before an operation: some beats while the heartbeat runs, and a signal. -/
def advance (beats : List Beat) (signalled : Bool) (s : World F) : World F :=
  { s with
    lost := s.lost || (s.beating && beats.any fun beat => keepaliveLease beat = .abort)
    stop := s.stop || signalled }

/-- The answers an operation can get. Only a run that was told to stop ends as stopped. -/
def Allows (published : Surroundings → Prop) (s : World F) : (o : Op F) → Ans o → Prop
  | .launch _ _ _, r => ∀ run, r = .ok run → run.stopped → s.stop
  | .remembered, r => r = s.memory
  | .loadInstalled, r => ∀ record, r = .ok record → record = s.installed
  | .look, r => published r
  | .signals, r => r = ⟨s.lost, s.stop⟩
  | .sleep, r => r = !s.stop
  | _, _ => True

/-- What an operation changes besides the record. -/
def effect (s : World F) : (o : Op F) → Ans o → World F
  | .storeInstalled record, .ok () => { s with installed := record, memory := record.path }
  | .startHeartbeat, _ => { s with beating := true }
  | .joinHeartbeat, _ | .dropLease, _ => { s with beating := false }
  | .jobStarts _, _ => { s with beating := false, lost := false }
  | _, _ => s

def record (s : World F) (o : Op F) (r : Ans o) : World F :=
  { s.effect o r with log := ⟨o, r, s.lost, s.stop⟩ :: s.log }

end World

/-- The operations of the worker; `published` says which listings the bucket can give. -/
def machine (published : Surroundings → Prop) : Machine (Op F) Ans (World F) where
  step _ o s r s' := ∃ beats signalled, (s.advance beats signalled).Allows published o r ∧ s' = (s.advance beats signalled).record o r
  exit _ s := s

abbrev Act (F : Formats) := Prog (Op F) Ans

def call (o : Op F) : Act F (Ans o) := Prog.call o

/-! ## Runs that are played -/

/-- What a step leaves open: the answers, the beats before it, and whether a signal arrives. -/
structure Choice (F : Formats) (published : Surroundings → Prop) where
  answer : (o : Op F) → Ans o
  beats : List Beat
  signalled : Bool
  look : published (answer .look)

/-- The answer that was chosen, where it is open; the state's own where it is not. -/
def World.answer (answer : (o : Op F) → Ans o) (s : World F) : (o : Op F) → Ans o
  | .launch job plan build => (answer (.launch job plan build)).map fun run => { run with stopped := run.stopped && s.stop }
  | .remembered => s.memory
  | .loadInstalled => .ok s.installed
  | .signals => ⟨s.lost, s.stop⟩
  | .sleep => !s.stop
  | o => answer o

variable {published : Surroundings → Prop} (c : Choice F published)

/-- The step with these choices. -/
def act (_ : Tid) (o : Op F) (s : World F) : Option (Ans o × World F) :=
  let s := s.advance c.beats c.signalled
  some (s.answer c.answer o, s.record o (s.answer c.answer o))

theorem allows_answer (s : World F) (o : Op F) :
    s.Allows published o (s.answer c.answer o) := by
  cases o with
  | launch job plan build =>
    intro run hrun hstopped
    simp only [World.answer] at hrun
    cases hlaunch : c.answer (.launch job plan build) with
    | error e =>
      rw [hlaunch] at hrun
      cases hrun
    | ok ended =>
      rw [hlaunch] at hrun
      cases hrun
      exact (Bool.and_eq_true _ _ ▸ hstopped).2
  | loadInstalled =>
    rintro _ ⟨⟩
    rfl
  | look => exact c.look
  | remembered | signals | sleep => exact rfl
  | _ => exact trivial

/-- What a phone, a server and a bucket answer that refuse nothing, as far as it differs. -/
structure Script (F : Formats) where
  clientId : Text
  version : Text
  runtimes : List F.Runtime
  around : Surroundings
  job : ClaimedJob F
  pin : Except AnyError Unit
  run : ConsoleRun
  results : List ListedResult

/-- A phone with this client and a server with this job, a run that succeeds, and no releases bucket. -/
def Script.smooth (clientId : Text) (job : ClaimedJob F) : Script F where
  clientId := clientId
  version := []
  runtimes := []
  around := ⟨none, fun _ => false, ⟨[], fun _ => .error .unreachable⟩⟩
  job := job
  pin := .ok ()
  run := ⟨[], [], some 0, some 0, false, none, false, false, false⟩
  results := []

def Script.answer (script : Script F) : (o : Op F) → Ans o
  | .appVersion => .ok (some script.version)
  | .reachability => .reachable none
  | .localClientId => .ok script.clientId
  | .listRuntimes => .ok ⟨script.runtimes, []⟩
  | .bundlePresent => .ok true
  | .pinGpu => script.pin
  | .verifyInstallable _ | .installApp _ | .releasePin | .deleteResult _ | .storeInstalled _ => .ok ()
  | .launch _ _ _ => .ok script.run
  | .listResults after => .ok (if after then script.results else [])
  | .showResult _ => .ok ⟨true, some script.version, []⟩
  | .remembered => none
  | .loadInstalled => .ok .unknown
  | .look => script.around
  | .ensurePulled _ | .sign _ _ => .ok []
  | .claim => .ok (some script.job)
  | .getBenchmark _ | .reclaim _ => .ok ()
  | .submit _ => .ok []
  | .updateMe => .ok false
  | .me => .ok (true, false)
  | .signals => ⟨false, false⟩
  | .sleep | .budgetSpent | .due => true
  | .elapsed => 0
  | .startHeartbeat | .joinHeartbeat | .dropLease | .jobStarts _ | .chose _ _ _ _ | .jobEnds _ => ()

theorem step_of_act (t : Tid) (o : Op F) (s : World F) (r : Ans o)
    (s' : World F) (h : act c t o s = some (r, s')) : (machine published).step t o s r s' := by
  cases h
  exact ⟨c.beats, c.signalled, allows_answer c _ o, rfl⟩

end Pipette.Proxy
