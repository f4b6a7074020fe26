import Pipette.Proxy.Device

/-!
# Which operations each part of a job does

The operations fall into stages; for each program of the worker, the stages of what it does. What a part cannot do, it cannot
break.
-/

namespace Pipette.Proxy

open Threads

variable {F : Formats}

inductive Stage where
  | asks
  | lease
  | drops
  | lists
  | installs
  | launches
  | posts
  | claims
  | begins
  | chooses
  | ends
  deriving DecidableEq

def Op.stage : Op F → Stage
  | .startHeartbeat | .joinHeartbeat => .lease
  | .dropLease => .drops
  | .listResults false => .lists
  | .installApp _ | .storeInstalled _ => .installs
  | .launch _ _ _ => .launches
  | .submit _ | .deleteResult _ => .posts
  | .claim => .claims
  | .jobStarts _ => .begins
  | .chose _ _ _ _ => .chooses
  | .jobEnds _ => .ends
  | _ => .asks

/-- The program does operations of these stages only. -/
def Does {α : Type} (stages : List Stage) (p : Act F α) : Prop := p.Only fun o => stages.contains o.stage

namespace Does

variable {α β : Type} {stages stages' : List Stage} {p : Act F α}

theorem bind {f : α → Act F β} (hp : Does stages p) (hf : ∀ a, Does stages (f a)) : Does stages (p >>= f) :=
  Prog.Only.bind hp hf

theorem pure (a : α) : Does stages (Pure.pure a : Act F α) := trivial

theorem call {o : Op F} (h : stages.contains o.stage) : Does stages (Proxy.call o) := Prog.Only.call h

theorem mono (hp : Does stages p) (h : stages.all stages'.contains) : Does stages' p :=
  Prog.Only.mono hp fun _ ho => List.all_eq_true.1 h _ (List.contains_iff_mem.1 ho)

end Does

/-! ## Posting and collecting -/

theorem does_trySubmit (jobId : Text) (body : Body) : Does (F := F) [.asks, .posts] (trySubmit jobId body) := by
  refine .bind (.call rfl) fun answer => ?_
  split
  · exact .pure _
  · exact .bind (.call rfl) fun _ => .pure _

theorem does_submitWithBackoff (jobId : Text) (body : Body) (left : Nat) :
    Does (F := F) [.asks, .posts] (submitWithBackoff jobId body left) := by
  induction left with
  | zero => exact .pure _
  | succ left ih =>
    refine .bind (does_trySubmit jobId body) fun disposition => ?_
    split
    · exact .pure _
    · exact .pure _
    · exact .pure _
    · split
      · exact .pure _
      · exact .bind (.call rfl) fun _ => ih

variable (cfg : Config) (builds : Builds F) (job : ClaimedJob F) (catalog : Catalog F) (before : List ResultRef)
  (build : Build F) (plan : LaunchPlan F)

theorem does_reportFailure (failure : JobFailure) : Does [.asks, .posts] (reportFailure job failure) := by
  refine .bind (does_submitWithBackoff _ _ _) fun reported => ?_
  split <;> exact .pure _

theorem does_submitSuccess (result : ResultRef) (payload : Payload) (output : RuntimeOutput) :
    Does [.asks, .posts] (submitSuccess job result payload output) := by
  unfold submitSuccess
  split
  · exact does_submitWithBackoff _ _ _
  · exact .pure _

theorem does_showResults (listed : List ListedResult) : Does (F := F) [.asks] (showResults listed) := by
  induction listed with
  | nil => exact .pure _
  | cons l rest ih =>
    refine .bind (.call rfl) fun shown => ?_
    split
    · exact .pure _
    · refine .bind ih fun collected => ?_
      split <;> exact .pure _

theorem does_collectPayloads : Does (F := F) [.asks] (collectPayloads before) := by
  refine .bind (.call rfl) fun listed => ?_
  split
  · exact .pure _
  · exact does_showResults _

theorem does_settleCollected (output : RuntimeOutput) (c : Collected) :
    Does [.asks, .posts] (settleCollected job output c) := by
  unfold settleCollected
  split
  · exact .bind (.call rfl) fun _ => .pure _
  refine .bind (does_submitSuccess _ _ _ _) fun submitted => ?_
  split
  · exact .bind (.call rfl) fun _ => .pure _
  · exact .pure _
  · exact .pure _

theorem does_settleAll (output : RuntimeOutput) (cs : List Collected) : Does [.asks, .posts] (settleAll job output cs) := by
  induction cs with
  | nil => exact .pure _
  | cons c cs ih => exact .bind (does_settleCollected job output c) fun _ => .bind ih fun _ => .pure _

theorem does_deleteUploaded (cs : List Collected) : Does (F := F) [.asks, .posts] (deleteUploaded cs) := by
  induction cs with
  | nil => exact .pure _
  | cons c cs ih =>
    unfold deleteUploaded
    split
    · exact .bind (.call rfl) fun _ => ih
    · exact ih

theorem does_settleUploaded : Does (F := F) [.asks, .posts] (settleUploaded before) := by
  refine .bind ((does_collectPayloads before).mono rfl) fun collected => ?_
  split
  · exact does_deleteUploaded _
  · exact .pure _

/-! ## From the launch on -/

theorem does_submitResults (build : Option (Build F)) (run : ConsoleRun)
    (elapsed : Nat) : Does [.asks, .posts] (submitResults job before build run elapsed) := by
  refine .bind ((does_collectPayloads before).mono rfl) fun collected => ?_
  split
  · exact .pure _
  split
  · exact .pure _
  · split
    · exact .pure _
    · exact .bind (does_settleAll _ _ _) fun _ => .pure _

theorem does_concludeRun (build : Option (Build F))
    (outcome : Except AnyError ConsoleRun) (elapsed : Nat) (pinned : Except AnyError Unit) :
    Does [.asks, .posts] (concludeRun cfg job before build outcome elapsed pinned) := by
  unfold concludeRun
  split
  · exact .pure _
  split
  · exact .pure _
  split
  · exact .pure _
  split
  · exact .pure _
  · split
    · exact .pure _
    · exact does_submitResults _ _ _ _ _

theorem does_pinGpu : Does (F := F) [.asks] (pinGpu cfg) := by
  unfold pinGpu
  split
  · exact .call rfl
  · exact .pure _

theorem does_releasePin : Does (F := F) [.asks] (releasePin cfg) := by
  unfold releasePin
  split
  · exact .call rfl
  · exact .pure _

/-- From the launch on: every launch is of the job's own plan. -/
theorem runAndSubmit_only {ok : Op F → Prop} (before : List ResultRef)
    (build : Option (Build F)) (hrest : ∀ o, [Stage.asks, .posts, .lease, .drops].contains o.stage → ok o)
    (hlaunch : ok (.launch job plan build)) : (runAndSubmit cfg job plan before build).Only ok := by
  have hdoes : ∀ {α : Type} {p : Act F α}, Does [.asks, .posts, .lease, .drops] p → p.Only ok := fun h => Prog.Only.mono h hrest
  have hrun : (runBenchmark job plan build).Only ok := by
    refine .bind (.call hlaunch) fun run => ?_
    split
    · exact .pure _
    split
    · refine .bind (.call (hrest _ rfl)) fun signals => ?_
      split
      · exact .pure _
      · exact .call hlaunch
    · exact .pure _
  refine .bind (hdoes ((does_pinGpu cfg).mono rfl)) fun pin => ?_
  split
  · exact .bind (.call (hrest _ rfl)) fun _ => .pure _
  refine .bind hrun fun outcome => .bind (.call (hrest _ rfl)) fun elapsed => .bind (.call (hrest _ rfl)) fun _ => ?_
  refine .bind (hdoes ((does_releasePin cfg).mono rfl)) fun pinned => .bind (.call (hrest _ rfl)) fun signals => ?_
  split
  · exact .bind (hdoes ((does_settleUploaded before).mono rfl)) fun _ => .pure _
  · exact hdoes ((does_concludeRun _ _ _ _ _ _ _).mono rfl)

theorem does_runAndSubmit (before : List ResultRef)
    (build : Option (Build F)) : Does [.asks, .posts, .lease, .drops, .launches] (runAndSubmit cfg job plan before build) := by
  refine runAndSubmit_only cfg job plan before build (fun o ho => ?_) rfl
  revert ho
  cases o.stage <;> decide

/-! ## Before the launch -/

theorem does_knownBenchmark : Does [.asks] (knownBenchmark job) := by
  refine .bind (.call rfl) fun found => ?_
  split
  · exact .pure _
  · split <;> exact .pure _

theorem does_resultsBefore : Does (F := F) [.lists] resultsBefore := by
  refine .bind (.call rfl) fun listed => ?_
  split <;> exact .pure _

theorem does_checkAfter (checked : Text) : Does (F := F) [.asks] (checkAfter cfg checked) := by
  refine .bind (.call rfl) fun found => ?_
  split
  · exact .pure _
  · split <;> exact .pure _

theorem does_installBuild (build : Text) : Does (F := F) [.asks, .installs] (installBuild (installCalls cfg) build) := by
  refine .bind (.call rfl) fun forgot => ?_
  split
  · exact .pure _
  refine .bind (.call rfl) fun verified => ?_
  split
  · exact .pure _
  refine .bind (.call rfl) fun installed => ?_
  split
  · exact .pure _
  refine .bind ((does_checkAfter cfg _).mono rfl) fun checked => ?_
  split
  · exact .pure _
  · exact .call rfl

theorem does_ensureInstalled (build : Option Text) (noBuild : AnyError) :
    Does (F := F) [.asks, .installs] (ensureInstalled (installCalls cfg) build noBuild) := by
  unfold ensureInstalled
  split
  · exact .pure _
  refine .bind (.call rfl) fun remembered => ?_
  split
  · refine .bind (.call rfl) fun present => ?_
    split
    · exact .pure _
    · exact .pure _
    · exact does_installBuild _ _
  · exact does_installBuild _ _

theorem does_executePoolJob (pool : PoolView F) (job : ClaimedJob F) :
    Does [.asks, .posts, .lease, .drops, .lists, .launches, .installs] (executePoolJob cfg pool job) := by
  unfold executePoolJob
  split
  · exact .pure _
  refine .bind ((does_knownBenchmark job).mono rfl) fun known => ?_
  split
  · exact .pure _
  refine .bind ((does_ensureInstalled cfg _ _).mono rfl) fun installed => ?_
  split
  · exact .pure _
  refine .bind (does_resultsBefore.mono rfl) fun before => ?_
  split
  · exact .pure _
  · exact .bind (.call rfl) fun _ => (does_runAndSubmit _ _ _ _ _).mono rfl

theorem does_conclude (ended : JobEnd) : Does [.asks, .posts] (conclude job ended) := by
  refine .bind ?_ fun reported => ?_
  · unfold reportEnd
    split
    · exact does_reportFailure _ _
    · exact .pure _
  · split <;> exact .pure _

/-! ## Version mode -/

theorem does_runningVersion : Does (F := F) [.asks] runningVersion := by
  refine .bind (.call rfl) fun version => ?_
  split
  · exact .pure _
  · refine .bind (.call rfl) fun reachability => ?_
    split <;> exact .pure _

theorem does_checkRuntimes : Does [.asks] (checkRuntimes build) := by
  refine .bind (.call rfl) fun listing => ?_
  split
  · dsimp only
    split <;> exact .pure _
  · split <;> exact .pure _

theorem does_trustRunning : Does [.asks, .installs] (trustRunning cfg build) := by
  refine .bind (.call rfl) fun loaded => ?_
  split
  · exact .pure _
  refine .bind ((does_checkAfter cfg _).mono rfl) fun checked => ?_
  split
  · exact .pure _
  refine .bind ((does_checkRuntimes build).mono rfl) fun compared => ?_
  split
  · exact .pure _
  · exact .bind (.call rfl) fun _ => .pure _

theorem does_checkInstalled (staged : Text) : Does [.asks, .installs] (checkInstalled cfg build staged) := by
  refine .bind ((does_checkAfter cfg _).mono rfl) fun checked => ?_
  split
  · exact .pure _
  refine .bind (.call rfl) fun reported => ?_
  split
  · exact .pure _
  split
  · refine .bind ((does_checkRuntimes build).mono rfl) fun compared => ?_
    split
    · exact .pure _
    · refine .bind (.call rfl) fun stored => ?_
      split <;> exact .pure _
  · exact .pure _

theorem does_installStaged (staged : Text) : Does [.asks, .installs] (installStaged cfg build staged) := by
  refine .bind (.call rfl) fun forgot => ?_
  split
  · exact .pure _
  refine .bind (.call rfl) fun installed => ?_
  split
  · exact .pure _
  · exact does_checkInstalled _ _ _

theorem does_install (inClaim : Bool) : Does [.asks, .installs] (install cfg build inClaim) := by
  refine .bind (.call rfl) fun pulled => ?_
  split
  · exact .pure _
  refine .bind (.call rfl) fun signed => ?_
  split
  · exact .pure _
  refine .bind (.call rfl) fun signals => ?_
  split
  · exact .pure _
  · exact does_installStaged _ _ _

theorem does_makeReady : Does [.asks, .installs] (makeReady cfg build) := by
  refine .bind (does_runningVersion.mono rfl) fun running => ?_
  split
  · exact .pure _
  split
  · refine .bind (does_trustRunning cfg build) fun trusted => ?_
    split <;> exact .pure _
  · exact does_install _ _ _

theorem does_runPrepared (build : Build F) :
    Does [.asks, .posts, .lease, .drops, .lists, .launches] (runPrepared cfg job plan build) := by
  refine .bind (does_resultsBefore.mono rfl) fun before => ?_
  split
  · exact .bind (.call rfl) fun _ => .pure _
  · refine .bind ((does_runAndSubmit _ _ _ _ _).mono rfl) fun ended => ?_
    split <;> exact .pure _

theorem does_afterPrepare (prepared : Except JobEnd (Build F)) :
    Does [.asks, .posts, .lease, .drops, .lists, .launches] (afterPrepare cfg job plan prepared) := by
  refine .bind (.call rfl) fun signals => ?_
  split
  · exact .bind (.call rfl) fun _ => .bind (.call rfl) fun _ => .pure _
  · split
    · exact .bind (.call rfl) fun _ => .pure _
    · exact does_runPrepared _ _ _ _

section Catalogs

variable [DecidableEq F.Runtime] [DecidableEq F.RuntimeType]

omit [DecidableEq F.RuntimeType] in
theorem does_lookIfNeeded (job : ClaimedJob F) (plan : LaunchPlan F) : Does [.asks] (lookIfNeeded catalog job plan) := by
  unfold lookIfNeeded
  split
  · exact .call rfl
  · exact .pure _

theorem does_prepareBuild (job : ClaimedJob F) (plan : LaunchPlan F) :
    Does [.asks, .installs, .chooses] (prepareBuild cfg catalog job plan) := by
  refine .bind ((does_lookIfNeeded catalog job plan).mono rfl) fun around => ?_
  split
  · exact .pure _
  · refine .bind (.call rfl) fun _ => .bind ((does_makeReady cfg _).mono rfl) fun ready => ?_
    split <;> exact .pure _

theorem does_runVersionJob (job : ClaimedJob F) :
    Does [.asks, .posts, .lease, .drops, .lists, .launches, .installs, .chooses] (runVersionJob cfg catalog job) := by
  unfold runVersionJob
  split
  · exact .pure _
  refine .bind ((does_knownBenchmark job).mono rfl) fun known => ?_
  split
  · exact .pure _
  · refine .bind (.call rfl) fun _ => .bind ((does_prepareBuild cfg catalog job _).mono rfl) fun prepared => ?_
    exact .bind ((does_afterPrepare _ _ _ _).mono rfl) fun _ => .pure _

theorem does_executeJob (builds : Builds F) :
    Does [.asks, .posts, .lease, .drops, .lists, .launches, .installs, .chooses] (executeJob cfg job builds) := by
  unfold executeJob
  split
  · exact .bind ((does_executePoolJob _ _ _).mono rfl) fun _ => .pure _
  · exact .bind (.bind (does_runVersionJob _ _ _) fun _ => .pure _) fun _ => .pure _

end Catalogs

/-! ## Before and between jobs -/

section Between

variable [DecidableEq F.Runtime]

theorem does_startInstall : Does [.asks, .installs] (startInstall cfg catalog) := by
  unfold startInstall
  split
  · exact .pure _
  refine .bind (does_install _ _ _) fun installed => ?_
  split
  · exact .pure _
  · refine .bind (.call rfl) fun signals => ?_
    split <;> exact .pure _

theorem does_startOn : Does [.asks, .installs] (startOn cfg catalog) := by
  refine .bind (does_runningVersion.mono rfl) fun running => ?_
  split
  · exact .pure _
  split
  · refine .bind (does_trustRunning _ _) fun trusted => ?_
    split <;> exact .pure _
  · exact does_startInstall _ _

theorem does_startReleases (releases : Releases F) : Does [.asks, .installs] (startReleases cfg releases) := by
  refine .bind (.call rfl) fun around => ?_
  split
  · exact .pure _
  dsimp only
  split
  · exact .pure _
  · exact .bind (does_startOn _ _) fun _ => .pure _

omit [DecidableEq F.Runtime] in
theorem does_waitUntilClaimable (polls : Nat) : Does (F := F) [.asks] (waitUntilClaimable polls) := by
  induction polls with
  | zero => exact .pure _
  | succ polls ih =>
    refine .bind (.call rfl) fun profile => ?_
    split
    · exact .pure _
    split
    · exact .pure _
    split
    · exact .pure _
    refine .bind (.call rfl) fun spent => ?_
    split
    · exact .pure _
    refine .bind (.call rfl) fun slept => ?_
    split
    · exact ih
    · exact .pure _

theorem does_reassertProfile : Does [.asks] (reassertProfile builds) := by
  unfold reassertProfile
  split
  · exact .pure _
  refine .bind (.call rfl) fun profile => ?_
  split
  · exact .pure _
  · exact .pure _
  · refine .bind (does_waitUntilClaimable _) fun waited => ?_
    split <;> exact .pure _

theorem does_refreshReleases (releases : Releases F) : Does [.asks] (refreshReleases releases) := by
  unfold refreshReleases
  split
  · exact .pure _
  refine .bind (.call rfl) fun due => ?_
  split
  · split
    · exact .pure _
    · refine .bind (.call rfl) fun around => ?_
      split
      · exact .pure _
      · dsimp only
        split <;> exact .pure _
  · exact .pure _

theorem does_refreshBuilds : Does [.asks] (refreshBuilds builds) := by
  unfold refreshBuilds
  split
  · exact .pure _
  refine .bind (does_refreshReleases _) fun refreshed => ?_
  split
  split
  · exact .pure _
  · exact .pure _
  · exact .bind (does_reassertProfile _) fun _ => .pure _

omit [DecidableEq F.Runtime] in
theorem does_pace : Does [.asks] (pace builds) := by
  unfold pace
  split
  · exact .pure _
  · split
    · exact .pure _
    · exact .bind (.call rfl) fun _ => .pure _

theorem does_connect : Does [.asks] (connect builds) := by
  unfold connect
  split
  · exact .pure _
  refine .bind (.call rfl) fun profile => ?_
  split
  · exact .pure _
  · refine .bind (does_waitUntilClaimable _) fun waited => ?_
    split <;> exact .pure _

omit [DecidableEq F.Runtime] in
theorem does_waitUntilRunnable (probes : Nat) : Does (F := F) [.asks] (waitUntilRunnable probes) := by
  induction probes with
  | zero => exact .pure _
  | succ probes ih =>
    refine .bind (.call rfl) fun reachability => ?_
    split
    · exact .pure _
    refine .bind (.call rfl) fun slept => ?_
    split
    · exact ih
    · exact .pure _

theorem does_startBuilds (probes : Nat) (builds : Builds F) : Does [.asks, .installs] (startBuilds cfg probes builds) := by
  unfold startBuilds
  split
  · exact .pure _
  refine .bind ((does_waitUntilRunnable probes).mono rfl) fun runnable => ?_
  split
  · refine .bind (does_startReleases _ _) fun started => ?_
    split
    split
    · exact .pure _
    · exact .bind (.call rfl) fun _ => .pure _
  · exact .pure _

end Between

end Pipette.Proxy
