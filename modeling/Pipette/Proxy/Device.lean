import Pipette.Proxy.Version

/-!
# One device for the life of the process

`runDevice` connects the phone and claims jobs until a stop, the budget of `max_jobs`, or an error that only an operator can
fix; after any other error it starts over, with the jobs it has taken still counted. The two loops run for a given number of
rounds.
-/

namespace Pipette.Proxy

open Threads

variable {F : Formats} [DecidableEq F.Runtime] [DecidableEq F.RuntimeType]

/-- Where the builds of a phone come from. -/
inductive Builds (F : Formats) where
  | pool (pool : PoolView F)
  | releases (releases : Releases F)

/-- A pool of one build that provides every runtime. -/
def Builds.single (F : Formats) (path : Text) : Builds F := .pool ⟨fun _ => some path, some [], .ok (), fun _ => .plain []⟩

/-- The jobs one device has taken, kept across its restarts. -/
structure Tally where
  attempted : Nat
  completed : Nat

/-- A device's builds, its tally, and the iOS version last read. -/
structure Device (F : Formats) where
  builds : Builds F
  tally : Tally
  osVersion : Option Text

/-- How some rounds of a loop end: it returned, or the rounds are spent. -/
inductive Ended where
  | returned (result : Except AnyError Unit)
  | spent

/-! ## One job -/

variable (cfg : Config)

/-- The job in the mode of the phone's builds. -/
def executeJob (job : ClaimedJob F) : Builds F → Act F (Except JobEnd Outcome × Builds F)
  | .pool pool => do
    let ended ← executePoolJob cfg pool job
    pure (ended, .pool pool)
  | .releases releases => do
    let (ended, releases) ← executeVersionJob cfg releases job
    pure (ended, .releases releases)

variable (builds : Builds F)

/-- `run_claimed_job`. -/
def runClaimedJob (job : ClaimedJob F) : Act F (Except AnyError Unit × Builds F) := do
  call (.jobStarts job)
  let (ended, builds) ← executeJob cfg job builds
  match ended with
  | .ok _ =>
    call (.jobEnds false)
    pure (.ok (), builds)
  | .error ended =>
    call (.jobEnds ended.halt.isSome)
    let concluded ← conclude job ended
    pure (concluded, builds)

/-! ## The server before and between jobs -/

def capabilities : Builds F → Option (List Text)
  | .pool pool => pool.capabilities
  | .releases releases => releases.catalog.advertised

def capabilitiesFailed : AnyError := .plain "a runtime descriptor cannot be digested"

def mgmtFailed (doing : Text) (e : ApiError) : AnyError := ⟨[.mgmt e], doing⟩

/-- Whether the client may claim, after so many polls at most; none when a stop ends the wait. -/
def waitUntilClaimable : Nat → Act F (Except AnyError (Option Unit))
  | 0 => pure (.error (.plain "the client is not claimable"))
  | polls + 1 => do
    match ← call .me with
    | .error e => pure (.error (mgmtFailed "reading this client's server-side profile" e))
    | .ok (approved, reindexPending) =>
      if approved && !reindexPending then pure (.ok (some ()))
      else if polls = 0 then pure (.error (.plain "the client is not claimable"))
      else if ← call .budgetSpent then pure (.error (.plain "the client is not claimable"))
      else if ← call .sleep then waitUntilClaimable polls
      else pure (.ok none)

/-- The polls that fit the budget: one at once, and one each five seconds up to five minutes. -/
def claimablePolls : Nat := 61

/-- `reassert_profile`: report the profile again, and wait out the reindex it causes. -/
def reassertProfile : Act F (Except AnyError Unit) := do
  match capabilities builds with
  | none => pure (.error capabilitiesFailed)
  | some _ =>
    match ← call .updateMe with
    | .error e => pure (.error (mgmtFailed "re-reporting the profile between jobs" e))
    | .ok false => pure (.ok ())
    | .ok true =>
      match ← waitUntilClaimable claimablePolls with
      | .error e => pure (.error e)
      | .ok _ => pure (.ok ())

/-- The catalog is listed again when due, and the profile reported if what it offers changed. -/
def refreshBuilds : Act F (Except AnyError Unit × Builds F) :=
  match builds with
  | .pool pool => pure (.ok (), .pool pool)
  | .releases releases => do
    let (refreshed, releases) ← refreshReleases releases
    match refreshed with
    | .error e => pure (.error e, .releases releases)
    | .ok false => pure (.ok (), .releases releases)
    | .ok true =>
      let reported ← reassertProfile (.releases releases)
      pure (reported, .releases releases)

/-- `note_os_version`: the iOS version after a probe, if it changed. -/
def newOsVersion (known read : Option Text) : Option Text :=
  match (read.map trimText).filter (· ≠ []) with
  | none => none
  | some version => if known.map trimText = some version then none else some version

/-- The wait after a job that the next claim would likely repeat. -/
def pace : Builds F → Act F Unit
  | .pool _ => pure ()
  | .releases releases =>
    match releases.backoff with
    | none => pure ()
    | some _ => do
      let _ ← call .sleep
      pure ()

/-! ## The claim loop -/

/-- What a round of the claim loop leaves: it goes on, or the loop returns. -/
inductive Round where
  | goOn
  | leave (result : Except AnyError Unit)

/-- After a job its halt ends the loop, and so does the budget; else the profile is reported again. -/
def afterJob (d : Device F) (ran : Except AnyError Unit) : Act F (Round × Device F) := do
  match ran with
  | .error e =>
    if e.haltsPhone then pure (.leave (.error e), d) else nextClaim d
  | .ok () => nextClaim { d with tally := { d.tally with completed := d.tally.completed + 1 } }
where
  nextClaim (d : Device F) : Act F (Round × Device F) := do
    if 0 < cfg.maxJobs ∧ cfg.maxJobs ≤ d.tally.attempted then pure (.leave (.ok ()), d)
    else
      let signals ← call .signals
      if signals.stop then
        pace d.builds
        pure (.goOn, d)
      else
        match ← reassertProfile d.builds with
        | .error e => pure (.leave (.error e), d)
        | .ok () =>
          pace d.builds
          pure (.goOn, d)

def notApproved : AnyError :=
  ⟨[.operatorAction], "claim refused with 403: client " ++ cfg.clientId ++ " is not approved"⟩

def signatureRejected : AnyError :=
  ⟨[.operatorAction], "claim refused with 401: the request signature or its timestamp was rejected for client " ++
    cfg.clientId⟩

/-- Poll for a claim, and run the job if there is one. -/
def pollRound (d : Device F) : Act F (Round × Device F) := do
  match pollClaim (← call .claim) with
  | .job job =>
    let (ran, builds) ← runClaimedJob cfg d.builds job
    afterJob cfg { d with builds := builds, tally := { d.tally with attempted := d.tally.attempted + 1 } } ran
  | .idle =>
    let _ ← call .sleep
    pure (.goOn, d)
  | .notApproved => pure (.leave (.error (notApproved cfg)), d)
  | .signatureRejected => pure (.leave (.error (signatureRejected cfg)), d)
  | .transient =>
    let _ ← call .sleep
    pure (.goOn, d)
  | .fatal e => pure (.leave (.error (mgmtFailed "claiming a job" e)), d)

/-- One round: refresh what is offered, see that the phone can run a job, and poll. -/
def claimRound (d : Device F) : Act F (Round × Device F) := do
  let (refreshed, builds) ← refreshBuilds d.builds
  let d := { d with builds := builds }
  match refreshed with
  | .error e => pure (.leave (.error e), d)
  | .ok () =>
    match ← call .reachability with
    | .unreachable _ =>
      let _ ← call .sleep
      pure (.goOn, d)
    | .reachable read =>
      match newOsVersion d.osVersion read with
      | none => pollRound cfg d
      | some version =>
        let d := { d with osVersion := some version }
        match ← reassertProfile d.builds with
        | .error e => pure (.leave (.error e), d)
        | .ok () => pure (.goOn, d)

/-- `claim_loop` for some rounds. -/
def claimLoop (cfg : Config) : Nat → Device F → Act F (Ended × Device F)
  | 0, d => pure (.spent, d)
  | rounds + 1, d => do
    let signals ← call .signals
    if signals.stop then pure (.returned (.ok ()), d)
    else
      let (round, d) ← claimRound cfg d
      match round with
      | .goOn => claimLoop cfg rounds d
      | .leave result => pure (.returned result, d)

/-! ## The device -/

/-- `wait_until_runnable` for some probes; false on a stop. -/
def waitUntilRunnable : Nat → Act F Bool
  | 0 => pure false
  | probes + 1 => do
    match ← call .reachability with
    | .reachable _ => pure true
    | .unreachable _ =>
      if ← call .sleep then waitUntilRunnable probes else pure false

/-- The builds before the first server call: whether to go on, or an error. -/
def startBuilds (probes : Nat) (builds : Builds F) : Act F (Except AnyError Bool × Builds F) :=
  match builds with
  | .pool pool => pure (pool.advertisable.map fun _ => true, .pool pool)
  | .releases releases => do
    if ← waitUntilRunnable probes then
      let (started, releases) ← startReleases cfg releases
      match started with
      | .error e => pure (.error e, .releases releases)
      | .ok () =>
        let signals ← call .signals
        pure (.ok (!signals.stop), .releases releases)
    else pure (.ok false, .releases releases)

/-- `connect`, and the wait until the client may claim: whether to enter the claim loop. -/
def connect : Act F (Except AnyError Bool) := do
  match capabilities builds with
  | none => pure (.error capabilitiesFailed)
  | some _ =>
    match ← call .updateMe with
    | .error e => pure (.error (mgmtFailed "PATCH /clients/me" e))
    | .ok _ =>
      match ← waitUntilClaimable claimablePolls with
      | .error e => pure (.error e)
      | .ok none => pure (.ok false)
      | .ok (some ()) => pure (.ok true)

/-- `run_one`. -/
def runOne (rounds : Nat) (d : Device F) : Act F (Ended × Device F) := do
  let (started, builds) ← startBuilds cfg rounds d.builds
  let d := { d with builds := builds }
  match started with
  | .error e => pure (.returned (.error e), d)
  | .ok false => pure (.returned (.ok ()), d)
  | .ok true =>
    match ← connect d.builds with
    | .error e => pure (.returned (.error e), d)
    | .ok false => pure (.returned (.ok ()), d)
    | .ok true => claimLoop cfg rounds d

/-- `run_device` for some starts of some rounds each. -/
def runDevice (cfg : Config) (rounds : Nat) : Nat → Device F → Act F Ended
  | 0, _ => pure .spent
  | starts + 1, d => do
    let (ended, d) ← runOne cfg rounds d
    match ended with
    | .spent => pure .spent
    | .returned (.ok ()) => pure (.returned (.ok ()))
    | .returned (.error e) =>
      if e.isOperatorActionable then pure (.returned (.error e))
      else
        let signals ← call .signals
        if signals.stop then pure (.returned (.ok ()))
        else if ← call .sleep then runDevice cfg rounds starts d
        else pure (.returned (.ok ()))

end Pipette.Proxy
