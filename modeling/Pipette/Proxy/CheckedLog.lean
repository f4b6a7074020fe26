import Pipette.Proxy.JobLog

/-!
# What the log shows of a launch

In version mode the log shows how the build of a launch was chosen, what the phone reported since, and which checks it passed
since the proxy last began an install on it.
-/

namespace Pipette.Proxy

open Threads

variable {F : Formats}

namespace Event

/-- An install was begun. -/
def installs : Event F → Bool
  | ⟨.installApp _, _, _, _⟩ => true
  | _ => false

/-- A job was begun. -/
def begins : Event F → Bool
  | ⟨.jobStarts _, _, _, _⟩ => true
  | _ => false

end Event

/-- What was done since the last install was begun. -/
def sinceInstall (log : List (Event F)) : List (Event F) := log.takeWhile fun e => !e.installs

/-- What was done since the last job was begun. -/
def sinceJob (log : List (Event F)) : List (Event F) := log.takeWhile fun e => !e.begins

/-- The phone held the configured client, and listed these runtimes, since the last install began. -/
structure Checks (clientId : Text) (keys : List Text) (log : List (Event F)) : Prop where
  client : Told (sinceInstall log) .localClientId (.ok clientId)
  runtimes : ∃ listing, Told (sinceInstall log) .listRuntimes (.ok listing) ∧ reportedKeys listing = keys

/-- The build was chosen for the job that was begun last, from those that were offered. -/
structure ChosenFor [DecidableEq F.Runtime] (job : ClaimedJob F) (plan : LaunchPlan F) (build : Build F)
    (log : List (Event F)) : Prop where
  begun : ∃ lost stop, log.find? Event.begins = some ⟨.jobStarts job, (), lost, stop⟩
  planned : job.launchPlan = .ok plan
  chosen : ∃ catalog, Told (sinceJob log) (.chose catalog job plan build) () ∧ build ∈ catalog.offered
  admitted : admitsBuild job.clientVersions build
  carries : build.carries plan.runtime

/-- The phone reported this version since the job was begun, with no install after it. -/
def Reported (version : Text) (log : List (Event F)) : Prop :=
  Told (sinceInstall (sinceJob log)) .appVersion (.ok (some version))

/-- A build is ready for the launch of a job. -/
structure RunReady [DecidableEq F.Runtime] (clientId : Text) (job : ClaimedJob F) (plan : LaunchPlan F) (build : Build F)
    (log : List (Event F)) : Prop where
  chosen : ChosenFor job plan build log
  reported : Reported build.version.text log
  checks : Checks clientId build.runtimeKeys log

/-- Every launch for a chosen build was ready. -/
def LaunchesChecked [DecidableEq F.Runtime] (clientId : Text) (log : List (Event F)) : Prop :=
  ∀ later e earlier, log = later ++ e :: earlier → ∀ job plan build, e.op = .launch job plan (some build) →
    RunReady clientId job plan build earlier

end Pipette.Proxy
