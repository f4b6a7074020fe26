import Pipette.Path

/-!
# Why a job failed

A failure carries its cause, a reason, the app's console where it was launched, and in version mode the build the phone
reported. The cause decides whether the server hands the job out again.
-/

namespace Pipette.Proxy

inductive FailureCause where
  | deviceUnreachable
  | devicectlFailure
  | runFailed
  | runTimedOut
  | engineTimedOut
  | killedByIos
  | launchSilent
  | engineFailed
  | malformedInvocation
  | installFailed
  | uninterpretableSpec
  | unknownBenchmark
  | noAdmittedVersion
  | runtimeNotInBuild
  | noBuildCarriesRuntime
  | refusedByBuild
  | buildNotReady
  | buildUnusable
  | identityReplaced
  deriving DecidableEq

/-- The streams of a run, as a submission carries them. -/
structure RuntimeOutput where
  runtimeStdout : Option Text
  runtimeStderr : Option Text

structure JobFailure where
  cause : FailureCause
  detail : Text
  /-- The app's console, for a failure that launched it. -/
  output : RuntimeOutput
  /-- The build the phone reported running, in version mode. -/
  clientVersion : Option Text

namespace JobFailure

def new (cause : FailureCause) (detail : Text) : JobFailure := ⟨cause, detail, ⟨none, none⟩, none⟩

def withOutput (failure : JobFailure) (output : RuntimeOutput) : JobFailure := { failure with output := output }

/-- A failure on the build a version-mode job chose. -/
def onBuild (failure : JobFailure) (version : Text) (reported : Bool) : JobFailure :=
  { failure with
    detail := "build " ++ version ++ ": " ++ failure.detail
    clientVersion := if reported then some version else none }

end JobFailure

end Pipette.Proxy
