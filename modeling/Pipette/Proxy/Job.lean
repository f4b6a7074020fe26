import Pipette.Proxy.Worker

/-!
# One claimed job

What both modes do with a job: install (pool mode), launch under the heartbeat, collect what the run left on the phone, submit
it, or report a failure. A job that fails before the launch ends with a `JobEnd`.
-/

namespace Pipette.Proxy

open Threads

variable {F : Formats}

/-- The configuration of a phone, as far as a job reads it. -/
structure Config where
  clientId : Text
  udid : Text
  /-- Whether `[devicectl] pymobiledevice3` is set. -/
  pinned : Bool
  runTimeout : Nat
  firstLine : Nat
  claimBackoff : Nat
  maxJobs : Nat

def natText (n : Nat) : Text := (Nat.repr n).toList

/-! ## How a job ends -/

/-- Why a job ended with nothing reported. -/
inductive Unreported where
  | leaseLost
  | stopped
  deriving DecidableEq

/-- A lost lease wins over a stop. -/
def Unreported.of (signals : Signals) : Unreported := if signals.abort then .leaseLost else .stopped

inductive Outcome where
  | accepted
  | notAccepted
  | failed (cause : FailureCause)
  | leaseLost
  | stopped
  deriving DecidableEq

def Unreported.outcome : Unreported → Outcome
  | .leaseLost => .leaseLost
  | .stopped => .stopped

/-- The failure the server is told about, or why it is told nothing, and whether the phone stops. -/
structure JobEnd where
  report : Except Unreported JobFailure
  halt : Option AnyError

def JobEnd.ofFailure (failure : JobFailure) : JobEnd := ⟨.ok failure, none⟩

/-! ## Posting -/

def submitMaxAttempts : Nat := 32

/-- One `POST /benchmarks`; a `404` reclaims the claim binding once. -/
def trySubmit (jobId : Text) (body : Body) : Act F SubmitDisposition := do
  match submitDisposition (← call (.submit body)) with
  | some disposition => pure disposition
  | none =>
    let answer ← call (.reclaim jobId)
    pure (afterReclaim (reclaimOnce answer))

def submitGaveUp (jobId : Text) : AnyError :=
  .plain ("gave up submitting the result for job " ++ jobId ++ " after " ++ natText submitMaxAttempts ++
    " attempts")

/-- `submit_with_backoff` with so many attempts left: the server's own id of the job, none for a dropped result. -/
def submitWithBackoff (jobId : Text) (body : Body) : Nat → Act F (Except AnyError (Option Text))
  | 0 => pure (.error (submitGaveUp jobId))
  | left + 1 => do
    match ← trySubmit jobId body with
    | .accepted accepted => pure (.ok (some accepted))
    | .dropped => pure (.ok none)
    | .fatal error => pure (.error ⟨[.mgmt error], "submitting the result for job " ++ jobId⟩)
    | .retryTransient =>
      if left = 0 then pure (.error (submitGaveUp jobId))
      else
        let _ ← call .sleep
        submitWithBackoff jobId body left

variable (cfg : Config) (job : ClaimedJob F)

/-- `submit_failure`, and `report_failure` around it. -/
def reportFailure (failure : JobFailure) : Act F (Except AnyError Unit) := do
  match ← submitWithBackoff job.jobId (.failure job.jobId failure) submitMaxAttempts with
  | .ok _ => pure (.ok ())
  | .error e => pure (.error (e.context ("submitting the failure for job " ++ job.jobId)))

/-- Submit one success payload with the claim on it. -/
def submitSuccess (result : ResultRef) (payload : Payload) (output : RuntimeOutput) :
    Act F (Except AnyError (Option Text)) :=
  if payload.isObject then submitWithBackoff job.jobId (.success job.jobId result payload output) submitMaxAttempts
  else pure (.error (.plain "the payload the phone printed is not a JSON object, so `job_id` cannot be attached"))

/-! ## What a run left on the phone -/

structure Collected where
  result : ResultRef
  submitted : Bool
  payload : Payload

/-- `results show` for each; the first that cannot be read fails. -/
def showResults : List ListedResult → Act F (Except AnyError (List Collected))
  | [] => pure (.ok [])
  | listed :: rest => do
    match ← call (.showResult listed.result) with
    | .error e => pure (.error e)
    | .ok payload =>
      match ← showResults rest with
      | .error e => pure (.error e)
      | .ok collected => pure (.ok (⟨listed.result, listed.submitted, payload⟩ :: collected))

variable (before : List ResultRef)

/-- The results this run produced: those the phone did not list before it. -/
def collectPayloads : Act F (Except AnyError (List Collected)) := do
  match ← call (.listResults true) with
  | .error e => pure (.error e)
  | .ok after => showResults (after.filter fun listed => listed.result ∉ before)

/-- One result the run left: whether it leaves the phone. -/
def settleCollected (output : RuntimeOutput) (c : Collected) : Act F Bool := do
  if c.submitted then
    let _ ← call (.deleteResult c.result)
    pure true
  else
    match ← submitSuccess job c.result c.payload output with
    | .ok (some _) =>
      let _ ← call (.deleteResult c.result)
      pure true
    | .ok none => pure false
    | .error _ => pure false

/-- How many of the results stay. -/
def settleAll (job : ClaimedJob F) (output : RuntimeOutput) : List Collected → Act F Nat
  | [] => pure 0
  | c :: cs => do
    let left ← settleCollected job output c
    let refused ← settleAll job output cs
    pure (if left then refused else refused + 1)

def deleteUploaded : List Collected → Act F Unit
  | [] => pure ()
  | c :: cs => do
    if c.submitted then
      let _ ← call (.deleteResult c.result)
      deleteUploaded cs
    else deleteUploaded cs

/-- After a lost lease: the results the app uploaded leave the phone. -/
def settleUploaded : Act F Unit := do
  match ← collectPayloads before with
  | .ok collected => deleteUploaded collected
  | .error _ => pure ()

/-! ## Classifying a run -/

def textLines (text : Text) : List Text := text.splitOn '\n'

/-- Whether a text contains another. -/
def containsText (part : Text) : Text → Bool
  | [] => part = []
  | c :: cs => part.isPrefixOf (c :: cs) || containsText part cs

def killedByIosLine : Text := "App terminated due to signal 9."

variable (run : ConsoleRun)

def ConsoleRun.killedByIos : Bool :=
  run.sentinel = none && (((textLines run.stdout).map trimText).filter (· ≠ [])).getLast? = some killedByIosLine

def cellFailed : Text := "[HEADLESS] error jobRun "
def engineStarted : Text := "[HEADLESS] info jobRun dispatch: "
def engineFailedTexts : List Text :=
  [" failed: Engine error: ", " failed: Engine backend failed: ", "exceeded available device memory"]
def notTheCells : List Text :=
  ["failed to open", "failed to read magic", "corrupted or incomplete",
    "Apple foundation model unavailable"]

/-- The app's last failed-cell line with the lines below it, when the engine failed on the cell. -/
def engineFailure (stderr : Text) : Option Text :=
  let reversed := ((textLines stderr).map trimText).reverse
  match reversed.dropWhile fun line => !cellFailed.isPrefixOf line with
  | [] => none
  | line :: before =>
    let after := (reversed.takeWhile fun line => !cellFailed.isPrefixOf line).reverse
    let entry := (line :: after.takeWhile fun next => !"[HEADLESS] ".toList.isPrefixOf next).filter (· ≠ [])
    if before.any (engineStarted.isPrefixOf ·) && engineFailedTexts.any (containsText · line) &&
        !entry.any (fun text => notTheCells.any (containsText · text))
    then some (joined " | ".toList entry) else none

def engineFailed (entry : Text) (elapsed : Nat) : JobFailure :=
  .new .engineFailed ("the app's engine failed on the cell after " ++ natText elapsed ++ "s: " ++ entry)

/-- The last output lines for a failure reason, stderr first. -/
def outputTail : Text :=
  let source := if trimText run.stderr = [] then run.stdout else run.stderr
  let lines := (((textLines source).map trimText).filter (· ≠ [])).reverse.take 3
  let text := joined " | " lines.reverse
  if text.length ≤ 400 then text else "..." ++ text.drop (text.length - 400)

def runtimeOutput (F : Formats) (run : ConsoleRun) : RuntimeOutput :=
  ⟨some (F.keepTail run.stdout), some (F.keepTail run.stderr)⟩

/-- The cause of a run that met its deadline, and what the reason says of it. -/
def timedOutCause (runTimeout : Nat) : FailureCause × Text :=
  match run.engineTime with
  | some time =>
    if runTimeout / 2 ≤ time then (.engineTimedOut, natText time ++ "s of it in the app's engine")
    else (.runTimedOut, "only " ++ natText time ++ "s of it in the app's engine, under half the limit")
  | none => (.runTimedOut, "before the app's engine had the cell")

/-- An unsuccessful run as a failure: the deadline outranks a kill by iOS, the sentinel, and the engine's failure. -/
def classifyRun (elapsed runTimeout : Nat) (versionMode : Bool) : JobFailure :=
  let detail := outputTail run
  let malformed : Bool := match run.sentinel with
    | some status => status = 2
    | none => run.exitCode = some 2
  if run.timedOut then
    let (cause, stage) := timedOutCause run runTimeout
    .new cause ("the run exceeded run_timeout_secs (".toList ++ natText runTimeout ++ "s) after ".toList ++ natText elapsed ++
      "s, ".toList ++ stage ++ ", and was terminated: ".toList ++ detail)
  else if run.killedByIos then
    .new .killedByIos ("the app was killed (signal 9) after ".toList ++ natText elapsed ++
      "s, most likely by iOS at its per-app memory limit: ".toList ++ detail)
  else if malformed then
    .new (if versionMode then .refusedByBuild else .malformedInvocation)
      ("the app refused the invocation as malformed: ".toList ++ detail)
  else
    match engineFailure run.stderr with
    | some entry => engineFailed entry elapsed
    | none => .new .runFailed ("the run failed after ".toList ++ natText elapsed ++ "s (sentinel=".toList ++
        (run.sentinel.elim "none".toList fun status => (toString status).toList) ++ ", exit=".toList ++
        (run.exitCode.elim "signal".toList fun code => (toString code).toList) ++ "): ".toList ++ detail)

/-! ## The launch and after it -/

/-- `run_benchmark`: a launch the app printed nothing on is repeated once. -/
def runBenchmark (plan : LaunchPlan F) (build : Option (Build F)) : Act F (Except AnyError ConsoleRun) := do
  match ← call (.launch job plan build) with
  | .error e => pure (.error e)
  | .ok run =>
    if run.silent then
      let signals ← call .signals
      if signals.raised then pure (.ok { run with stopped := true })
      else call (.launch job plan build)
    else pure (.ok run)

def pinGpu : Act F (Except AnyError Unit) := if cfg.pinned then call .pinGpu else pure (.ok ())

def releasePin : Act F (Except AnyError Unit) := if cfg.pinned then call .releasePin else pure (.ok ())

variable (build : Option (Build F))

/-- The version a result that is still to be sent names, where it is not the chosen one. -/
def otherVersion (collected : List Collected) : Option (Option Text) :=
  build.bind fun build =>
    ((collected.filter fun c => !c.submitted).map (·.payload.clientVersion)).find? (· ≠ some build.version.text)

/-- The failure of a run that succeeded and left nothing. -/
def nothingLeft (elapsed : Nat) : JobFailure :=
  match engineFailure run.stderr with
  | some entry => engineFailed entry elapsed
  | none => .new .runFailed ("the run reported success after " ++ natText elapsed ++
      "s but left no new result payload on the phone")

/-- `submit_results`: what the app uploaded leaves the phone, and the rest is submitted. -/
def submitResults (run : ConsoleRun) (elapsed : Nat) :
    Act F (Except JobEnd Outcome) := do
  let output := runtimeOutput F run
  match ← collectPayloads before with
  | .error e =>
    pure (.error (.ofFailure ((orFail .devicectlFailure "reading the run's result off the phone" e).withOutput output)))
  | .ok collected =>
    if collected.isEmpty then pure (.error (.ofFailure ((nothingLeft run elapsed).withOutput output)))
    else
      match otherVersion build collected with
      | some reported =>
        pure (.error (.ofFailure ((JobFailure.new .runFailed ("the run's result reports client_version " ++
          reported.getD "none" ++ ", not the build installed for it; the proxy submitted nothing and the phone's " ++
          "copies are kept")).withOutput output)))
      | none =>
        let refused ← settleAll job output collected
        pure (.ok (if refused = 0 then .accepted else .notAccepted))

/-- What a run that was carried out means, with the lease still held. -/
def concludeRun (outcome : Except AnyError ConsoleRun) (elapsed : Nat) (pinned : Except AnyError Unit) : Act F (Except JobEnd Outcome) :=
  match outcome with
  | .error e => pure (.error (.ofFailure (orFail .devicectlFailure "carrying out the launch" e)))
  | .ok run =>
    if run.stopped then pure (.ok .stopped)
    else if run.silent then
      pure (.error (.ofFailure ((JobFailure.new .launchSilent ("the app printed nothing for " ++ natText cfg.firstLine ++
        "s (first_line_timeout_secs) after its launch and again after one relaunch, so it never received the cell; giving the " ++
        "job back")).withOutput (runtimeOutput F run))))
    else if !run.succeeded then
      pure (.error (.ofFailure ((classifyRun run elapsed cfg.runTimeout build.isSome).withOutput (runtimeOutput F run))))
    else
      match pinned with
      | .error e => pure (.error (.ofFailure (.new .devicectlFailure ("holding the GPU performance state: " ++ e.text))))
      | .ok () => submitResults job before build run elapsed

/-- `run_and_submit`. -/
def runAndSubmit (plan : LaunchPlan F) (before : List ResultRef) (build : Option (Build F)) :
    Act F (Except JobEnd Outcome) := do
  match ← pinGpu cfg with
  | .error e =>
    call .dropLease
    pure (.error (.ofFailure (.new .devicectlFailure ("pinning the GPU performance state: " ++ e.text))))
  | .ok () =>
    let outcome ← runBenchmark job plan build
    let elapsed ← call .elapsed
    call .joinHeartbeat
    let pinned ← releasePin cfg
    let signals ← call .signals
    if signals.abort then
      settleUploaded before
      pure (.ok .leaseLost)
    else concludeRun cfg job before build outcome elapsed pinned

/-! ## The steps before the launch -/

def knownBenchmark : Act F (Except JobEnd Unit) := do
  match ← call (.getBenchmark job.benchmarkId) with
  | .ok () => pure (.ok ())
  | .error e =>
    if e.status = some 404 then
      pure (.error (.ofFailure (.new .unknownBenchmark
        ("GET /benchmarks/" ++ job.benchmarkId ++ ": benchmark not found"))))
    else pure (.ok ())

def uninterpretableSpec (refusal : Text) : JobEnd := .ofFailure (.new .uninterpretableSpec refusal)

/-- The results on the phone before the run. -/
def resultsBefore : Act F (Except JobEnd (List ResultRef)) := do
  match ← call (.listResults false) with
  | .ok listed => pure (.ok (listed.map (·.result)))
  | .error e => pure (.error (.ofFailure (orFail .devicectlFailure "listing the phone's existing results" e)))

/-! ## Installing -/

/-- The calls an install makes, in whatever they run. -/
structure InstallCalls (m : Type → Type) where
  remembered : m (Option Text)
  setInstalled : Option Text → m (Except AnyError Unit)
  checkBefore : Text → m (Except AnyError Unit)
  installApp : Text → m (Except AnyError Unit)
  checkAfter : Text → m (Except AnyError Unit)
  bundlePresent : m (Except AnyError Bool)

/-- Forget before, remember after, so a failure in between leaves "unknown". -/
def installBuild {m : Type → Type} [Monad m] (calls : InstallCalls m) (build : Text) : m (Except AnyError Unit) := do
  match ← calls.setInstalled none with
  | .error e => pure (.error e)
  | .ok () =>
    match ← calls.checkBefore build with
    | .error e => pure (.error e)
    | .ok () =>
      match ← calls.installApp build with
      | .error e => pure (.error e)
      | .ok () =>
        match ← calls.checkAfter build with
        | .error e => pure (.error e)
        | .ok () => calls.setInstalled (some build)

/-- `ensure_installed`: the build that provides the runtime, unless it is already on the phone. -/
def ensureInstalled {m : Type → Type} [Monad m] (calls : InstallCalls m) (build : Option Text) (noBuild : AnyError) :
    m (Except AnyError Unit) := do
  match build with
  | none => pure (.error noBuild)
  | some build =>
    if (← calls.remembered) = some build then
      match ← calls.bundlePresent with
      | .error e => pure (.error e)
      | .ok true => pure (.ok ())
      | .ok false => installBuild calls build
    else installBuild calls build

/-- The app still holds the configured client. -/
def checkAfter (checked : Text) : Act F (Except AnyError Unit) := do
  match ← call .localClientId with
  | .error e => pure (.error (e.context ("reading the phone's client " ++ checked)))
  | .ok found =>
    if found = cfg.clientId then pure (.ok ())
    else pure (.error ⟨[.identityReplaced], checked ++ ", " ++ cfg.udid ++ " reports client " ++ found ++
      " where " ++ cfg.clientId ++ " was configured"⟩)

/-- The calls of an install, as operations of the worker. -/
def installCalls : InstallCalls (Act F) where
  remembered := call .remembered
  setInstalled path := call (.storeInstalled ⟨path, none⟩)
  checkBefore path := call (.verifyInstallable path)
  installApp path := call (.installApp path)
  checkAfter path := checkAfter cfg ("after installing " ++ path)
  bundlePresent := call .bundlePresent

/-! ## Pool mode -/

/-- The build for a runtime, and what is advertised, unless a flag cannot be made. -/
structure PoolView (F : Formats) where
  buildFor : F.Runtime → Option Text
  capabilities : Option (List Text)
  advertisable : Except AnyError Unit
  noBuild : F.Runtime → AnyError

/-- A pool-mode job whose build could not be installed. A replaced identity stops the phone. -/
def installFailed (e : AnyError) : JobEnd :=
  ⟨.ok (.new (failureCause e .installFailed) ("installing the build: " ++ e.text)),
    if e.replacedIdentity then some e else none⟩

/-- `execute_job` in pool mode; the heartbeat starts just before the launch. -/
def executePoolJob (pool : PoolView F) (job : ClaimedJob F) : Act F (Except JobEnd Outcome) := do
  match job.launchPlan with
  | .error refusal => pure (.error (uninterpretableSpec refusal))
  | .ok plan =>
    match ← knownBenchmark job with
    | .error ended => pure (.error ended)
    | .ok () =>
      match ← ensureInstalled (installCalls cfg) (pool.buildFor plan.runtime) (pool.noBuild plan.runtime) with
      | .error e => pure (.error (installFailed e))
      | .ok () =>
        match ← resultsBefore with
        | .error ended => pure (.error ended)
        | .ok before =>
          call .startHeartbeat
          runAndSubmit cfg job plan before none

/-! ## The end of a job -/

/-- The failure of a job, reported unless there is nothing to report. -/
def reportEnd : Except Unreported JobFailure → Act F (Except AnyError Unit)
  | .ok failure => reportFailure job failure
  | .error _ => pure (.ok ())

/-- `conclude`: report a failed job, and hand back the halt it earned, which outlives a failed report. -/
def conclude (ended : JobEnd) : Act F (Except AnyError Unit) := do
  let reported ← reportEnd job ended.report
  match ended.halt with
  | none => pure reported
  | some halt => pure (.error halt)

end Pipette.Proxy
