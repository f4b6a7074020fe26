import Pipette.Proxy.Job

/-!
# Version mode

Every claim runs on a build its `client_versions` admits: chosen from the catalog, trusted if the phone already runs it and
`installed.json` says that it was seen through, else pulled, signed, installed and checked.
-/

namespace Pipette.Proxy

open Threads

variable {F : Formats}

/-- One phone's side of the bucket. -/
structure Releases (F : Formats) where
  catalog : Catalog F
  /-- The wait before the next claim. -/
  backoff : Option Nat

/-- Why a build did not get onto the phone. -/
structure Failed where
  cause : FailureCause
  fault : Fault
  error : AnyError
  /-- The phone had reported running the chosen version. -/
  reported : Bool

namespace Failed

def ofUnready (unready : UnreadyError) : Failed :=
  ⟨if unready.fault = .version then .buildUnusable else .buildNotReady, unready.fault, unready.error, false⟩

/-- A `devicectl` call or an app verb that failed. -/
def device (e : AnyError) : Failed := ⟨failureCause e .devicectlFailure, .transient, e, false⟩

/-- The client check after an install, or before trusting a build not recorded as installed. -/
def identity (e : AnyError) : Failed :=
  if e.replacedIdentity then ⟨.identityReplaced, .operator, e, false⟩ else device e

def afterReport (failed : Failed) : Failed := { failed with reported := true }

/-- Before the phone claims, where nothing is reported. -/
def atStartup (failed : Failed) (doing : Text) : AnyError :=
  match failed.fault with
  | .operator => failed.error.operatorNeeded
  | .version | .transient => failed.error.context doing

end Failed

/-! ## Checks of the phone -/

/-- `headlessrun version`, none when the app does not answer on a reachable phone. -/
def runningVersion : Act F (Except Failed (Option Text)) := do
  match ← call .appVersion with
  | .ok version => pure (.ok version)
  | .error e =>
    match ← call .reachability with
    | .reachable _ => pure (.ok none)
    | .unreachable reason => pure (.error
        ⟨.deviceUnreachable, .transient, e.context ("the phone is unreachable: " ++ reason), false⟩)

/-- The phone's `runtimes list`, spelled as a build spells its manifest. -/
def reportedKeys (listing : RuntimeListing F) : List Text :=
  let readable := listing.runtimes.map fun runtime => ((F.runtimeJson runtime).map descriptorKey).getD (F.runtimeText runtime)
  let unreadable := listing.unreadable.map fun raw => ((F.readJson raw).map descriptorKey).getD raw
  (readable ++ unreadable).insertionSort (· ≤ ·)

/-- The phone's listing of the runtimes against the build's manifest. -/
def checkRuntimes (build : Build F) : Act F (Except Failed Unit) := do
  match ← call .listRuntimes with
  | .error e =>
    let e := e.context "listing the runtimes the phone runs"
    if e.chain.contains .runtimesListFailed then pure (.error (Failed.ofUnready ⟨.version, e⟩).afterReport)
    else pure (.error (Failed.device e).afterReport)
  | .ok listing =>
    if reportedKeys listing = build.runtimeKeys then pure (.ok ())
    else pure (.error (Failed.ofUnready ⟨.version, .plain ("build " ++ build.version.text ++
      " reports the runtimes " ++ joined ", " (reportedKeys listing) ++ ", but its manifest names " ++
      joined ", " build.runtimeKeys)⟩).afterReport)

/-- The version `installed.json` names, none when it cannot be read. -/
def recordedVersion : Except AnyError InstalledBuild → Option Text
  | .ok installed => installed.version
  | .error _ => none

variable (cfg : Config)

/-- The phone runs `build`. Unless `installed.json` names it, the phone proves its client and runtimes first. -/
def trustRunning (build : Build F) : Act F (Except Failed Unit) := do
  let loaded ← call .loadInstalled
  if recordedVersion loaded = some build.version.text then pure (.ok ())
  else
    match ← checkAfter cfg ("on build " ++ build.version.text ++ " found running") with
    | .error e => pure (.error (Failed.identity e))
    | .ok () =>
      match ← checkRuntimes build with
      | .error failed => pure (.error failed)
      | .ok () =>
        let _ ← call (.storeInstalled ⟨none, some build.version.text⟩)
        pure (.ok ())

/-- After an install the phone holds its client, runs `build`, and lists what its manifest names. Then it is recorded. -/
def checkInstalled (build : Build F) (staged : Text) : Act F (Except Failed Unit) := do
  match ← checkAfter cfg ("after installing " ++ staged) with
  | .error e => pure (.error (Failed.identity e))
  | .ok () =>
    match ← call .appVersion with
    | .error e => pure (.error (Failed.device (e.context "reading the version the phone runs after the install")))
    | .ok reported =>
      if reported = some build.version.text then
        match ← checkRuntimes build with
        | .error failed => pure (.error failed)
        | .ok () =>
          match ← call (.storeInstalled ⟨some staged, some build.version.text⟩) with
          | .ok () => pure (.ok ())
          | .error e => pure (.error (Failed.ofUnready ⟨.transient, e⟩).afterReport)
      else pure (.error (Failed.ofUnready ⟨.version, .plain ("after installing build " ++ build.version.text ++
        ", the phone reports " ++ reported.getD "no version")⟩))

/-! ## Getting a build onto the phone -/

/-- The signals an install heeds: in a claim the lease and the stop, at startup the stop alone. -/
def heeded (inClaim : Bool) (signals : Signals) : Bool := (inClaim && signals.abort) || signals.stop

/-- The install itself: the record is emptied first, and a record that cannot be emptied ends it. -/
def installStaged (build : Build F) (staged : Text) : Act F (Except Failed Unit) := do
  match ← call (.storeInstalled .unknown) with
  | .error e => pure (.error (Failed.ofUnready ⟨.transient, e⟩))
  | .ok () =>
    match ← call (.installApp staged) with
    | .error e => pure (.error (Failed.device (e.context ("installing " ++ staged ++ " on " ++ cfg.udid))))
    | .ok () => checkInstalled cfg build staged

/-- Pull, sign and install a build. -/
def install (build : Build F) (inClaim : Bool) : Act F (Except Failed Unit) := do
  match ← call (.ensurePulled build) with
  | .error unready => pure (.error (Failed.ofUnready unready))
  | .ok dir =>
    match ← call (.sign build dir) with
    | .error unready => pure (.error (Failed.ofUnready unready))
    | .ok staged =>
      let signals ← call .signals
      if heeded inClaim signals then
        pure (.error (Failed.ofUnready ⟨.transient, .plain "the lease was lost or a stop arrived before the install"⟩))
      else installStaged cfg build staged

section Catalogs

variable [DecidableEq F.Runtime] [DecidableEq F.RuntimeType]

/-- The operator error of a catalog that offers nothing. -/
def nothingOffered : AnyError := AnyError.operatorNeeded (.plain "no build is offered")

variable (catalog : Catalog F)

/-- `check_offered` as a halt. -/
def offeredHalt : Option AnyError :=
  match catalog.checkOffered with
  | .ok () => none
  | .error _ => some nothingOffered

/-- How a failure to make the build ready ends the job, and the catalog after it. -/
def prepareFailed (build : Build F) (failed : Failed) : JobEnd × Catalog F :=
  let failure := (JobFailure.new failed.cause failed.error.text).onBuild build.version.text failed.reported
  match failed.fault with
  | .operator => (⟨.ok failure, some failed.error.operatorNeeded⟩, catalog)
  | .version =>
    let catalog := catalog.withdraw build.version
    (⟨.ok failure, offeredHalt catalog⟩, catalog)
  | .transient => (⟨.ok failure, none⟩, catalog)

/-- Have the phone run the chosen build. -/
def makeReady (build : Build F) : Act F (Except Failed Unit) := do
  match ← runningVersion with
  | .error failed => pure (.error failed)
  | .ok running =>
    if running = some build.version.text then
      match ← trustRunning cfg build with
      | .ok () => pure (.ok ())
      | .error failed => pure (.error failed.afterReport)
    else install cfg build true

variable (job : ClaimedJob F) (plan : LaunchPlan F)

/-- The bucket, looked at only where a claim's runtime is in no build it admits. -/
def lookIfNeeded : Act F Surroundings :=
  match catalog.choose job.clientVersions (some plan.runtime) with
  | .error (.runtimeNotCarried _) => call .look
  | _ => pure ⟨none, fun _ => false, ⟨[], fun _ => .error .unreachable⟩⟩

/-- `prepare`: choose the build and have the phone run it. -/
def prepareBuild (job : ClaimedJob F) (plan : LaunchPlan F) :
    Act F (Except JobEnd (Build F) × Catalog F) := do
  let around ← lookIfNeeded catalog job plan
  match chooseBuild catalog around job.clientVersions plan with
  | (.error failure, catalog) => pure (.error (.ofFailure failure), catalog)
  | (.ok chosen, catalog) =>
    call (.chose catalog job plan chosen.build)
    match ← makeReady cfg chosen.build with
    | .ok () => pure (.ok chosen.build, catalog)
    | .error failed =>
      let (ended, catalog) := prepareFailed catalog chosen.build failed
      pure (.error ended, catalog)

/-- A failure after the phone reported the build, named with it. -/
def JobEnd.onBuild (ended : JobEnd) (build : Build F) : JobEnd :=
  { ended with report := ended.report.map (·.onBuild build.version.text true) }

/-- A job that the lease or a stop ended before the launch: a halt still stops the phone. -/
def unreportedEnd (signals : Signals) (prepared : Except JobEnd (Build F)) : Except JobEnd Outcome :=
  match prepared with
  | .error ⟨_, some halt⟩ => .error ⟨.error (Unreported.of signals), some halt⟩
  | _ => .ok (Unreported.of signals).outcome

/-- From the prepared build to the end of the run. -/
def runPrepared (build : Build F) : Act F (Except JobEnd Outcome) := do
  match ← resultsBefore with
  | .error ended =>
    call .dropLease
    pure (.error (ended.onBuild build))
  | .ok before =>
    match ← runAndSubmit cfg job plan before (some build) with
    | .ok outcome => pure (.ok outcome)
    | .error ended => pure (.error (ended.onBuild build))

/-- What follows a preparation: nothing more if the lease was lost or a stop arrived meanwhile. -/
def afterPrepare (prepared : Except JobEnd (Build F)) :
    Act F (Except JobEnd Outcome) := do
  let signals ← call .signals
  if signals.raised then
    call .dropLease
    let signals ← call .signals
    pure (unreportedEnd signals prepared)
  else
    match prepared with
    | .error ended =>
      call .dropLease
      pure (.error ended)
    | .ok build => runPrepared cfg job plan build

/-- `run_job`: the heartbeat starts before the build is chosen. -/
def runVersionJob (job : ClaimedJob F) : Act F (Except JobEnd Outcome × Catalog F) := do
  match job.launchPlan with
  | .error refusal => pure (.error (uninterpretableSpec refusal), catalog)
  | .ok plan =>
    match ← knownBenchmark job with
    | .error ended => pure (.error ended, catalog)
    | .ok () =>
      call .startHeartbeat
      let (prepared, catalog) ← prepareBuild cfg catalog job plan
      let ended ← afterPrepare cfg job plan prepared
      pure (ended, catalog)

def prepareBackoffCap : Nat := 15 * 60

/-- The wait before the next claim after `build_not_ready` or `devicectl_failure`, doubling while they repeat. -/
def backoffAfter (previous : Option Nat) (ended : Except JobEnd Outcome) (base : Nat) : Option Nat :=
  match ended with
  | .error ⟨.ok failure, _⟩ =>
    if failure.cause = .buildNotReady ∨ failure.cause = .devicectlFailure then
      some (previous.elim base fun wait => min (2 * wait) prepareBackoffCap)
    else none
  | _ => none

/-- `execute_job` in version mode. -/
def executeVersionJob (releases : Releases F) (job : ClaimedJob F) :
    Act F (Except JobEnd Outcome × Releases F) := do
  let (ended, catalog) ← runVersionJob cfg releases.catalog job
  pure (ended, ⟨catalog, backoffAfter releases.backoff ended cfg.claimBackoff⟩)

/-! ## Before the phone claims -/

/-- A failed check or install at startup: a version's fault withdraws it, and a phone that did not take the build leaves the
installs to the claims. -/
def startFailed (build : Build F) (failed : Failed) (installing : Bool) : Except AnyError Unit × Catalog F :=
  if failed.fault = .version then
    let catalog := catalog.withdraw build.version
    match offeredHalt catalog with
    | none => (.ok (), catalog)
    | some halt => (.error halt, catalog)
  else if installing ∧ failed.cause = .devicectlFailure then (.ok (), catalog)
  else (.error (failed.atStartup (if installing then "installing build " ++ build.version.text ++ " before claiming"
    else "checking the client of build " ++ build.version.text)), catalog)

/-- Install a build before claiming, where the phone runs none that is offered. -/
def startInstall : Act F (Except AnyError Unit × Catalog F) := do
  match catalog.choose none none with
  | .error _ => pure (.error (.plain "the bucket publishes no app build this phone can install"), catalog)
  | .ok choice =>
    match ← install cfg choice.build false with
    | .ok () => pure (.ok (), catalog)
    | .error failed =>
      let signals ← call .signals
      if signals.stop then pure (.ok (), catalog) else pure (startFailed catalog choice.build failed true)

/-- Trust or install a build before claiming. -/
def startOn : Act F (Except AnyError Unit × Catalog F) := do
  match ← runningVersion with
  | .error failed => pure (.error (failed.error.context "reading the version the phone runs"), catalog)
  | .ok running =>
    match running.bind catalog.offers with
    | some build =>
      match ← trustRunning cfg build with
      | .ok () => pure (.ok (), catalog)
      | .error failed => pure (startFailed catalog build failed false)
    | none => startInstall cfg catalog

/-- `start`: list the bucket, and have the phone run a build that is offered. -/
def startReleases (releases : Releases F) : Act F (Except AnyError Unit × Releases F) := do
  let around ← call .look
  match releases.catalog.relist around, releases.catalog.builds.isEmpty with
  | .error _, true => pure (.error (.plain "listing the releases bucket"), releases)
  | relisted, _ =>
    let catalog := relisted.toOption.getD releases.catalog
    match offeredHalt catalog with
    | some halt => pure (.error halt, { releases with catalog := catalog })
    | none =>
      let (started, catalog) ← startOn cfg catalog
      pure (started, { releases with catalog := catalog })

/-- `advertised`: the flags of the offered builds, none if one cannot be made. -/
def Catalog.advertised : Option (List Text) :=
  ((catalog.offered.flatMap Build.readableRuntimes).mapM F.runtimeBuildFlag).map fun flags =>
    ((catalog.versionFlags ++ flags.filterMap id).insertionSort (· ≤ ·)).dedup

def advertisedFailed : AnyError := AnyError.operatorNeeded (.plain "a runtime descriptor cannot be digested")

/-- `refresh`: list the bucket again when it is due. Whether what this phone advertises changed. -/
def refreshReleases (releases : Releases F) : Act F (Except AnyError Bool × Releases F) := do
  match offeredHalt releases.catalog with
  | some halt => pure (.error halt, releases)
  | none =>
    if ← call .due then
      match releases.catalog.advertised with
      | none => pure (.error advertisedFailed, releases)
      | some before =>
        let around ← call .look
        match releases.catalog.relist around with
        | .error _ => pure (.ok false, releases)
        | .ok catalog =>
          let releases := { releases with catalog := catalog }
          match offeredHalt catalog, catalog.advertised with
          | some halt, _ => pure (.error halt, releases)
          | none, none => pure (.error advertisedFailed, releases)
          | none, some after => pure (.ok (after ≠ before), releases)
    else pure (.ok false, releases)

end Catalogs

end Pipette.Proxy
