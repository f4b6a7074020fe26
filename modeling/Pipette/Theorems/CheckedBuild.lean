import Pipette.Lemmas.ReadyBuild

/-!
# A version-mode run is on a checked build

Whatever the lives of a phone's worker, each cut short anywhere: a run is launched only on a build that its claim admits and
whose manifest names its runtime, that the phone has reported running, and whose client and runtimes were checked since the
proxy last began an install.
-/

namespace Pipette.Proxy

open Threads

variable {F : Formats} [DecidableEq F.Runtime] [DecidableEq F.RuntimeType]

/-- The world of the next process: what is on disk, and what was done so far. -/
def World.restart (s : World F) : World F := ⟨s.installed, s.installed.path, false, false, false, s.log⟩

/-- The worlds some version-mode processes leave, one after the other, each returned or killed anywhere. They name one client;
before the first the phone has no record. -/
inductive Lives (published : Surroundings → Prop) (clientId : Text) : World F → Prop where
  | fresh : Lives published clientId .fresh
  | life {s s' : World F} {t : Tid} {cfg : Config} {rounds starts : Nat} {default : Option BuildVersion} {osVersion : Option Text}
      {x : Option Ended} : Lives published clientId s → cfg.clientId = clientId →
      Exec (machine published) t (runDevice cfg rounds starts ⟨.releases ⟨.new default, none⟩, ⟨0, 0⟩, osVersion⟩) s.restart x s' →
      Lives published clientId s'

variable {clientId : Text} {manifest : Text → List F.Json}

/-- A version-mode device keeps its record honest over all its rounds and restarts. -/
theorem upheld_versioned {t : Tid} {cfg : Config} :
    Upheld (Unchanging manifest) t cfg (Recorded cfg.clientId manifest) fun builds _ => Versioned manifest builds where
  asks builds o s r s' ho hs hbuilds hstep := by
    refine ⟨hs.step hstep ?_ ?_, hbuilds⟩ <;>
      · intro h
        rw [h] at ho
        cases ho
  starts probes builds := by
    refine .of_const ?_
    rintro ⟨releases, rfl, hcatalog⟩
    have hwait : Does (F := F) [.asks] (waitUntilRunnable probes) := does_waitUntilRunnable probes
    refine .bind (passes_triple carried_true hwait rfl) fun runnable => ?_
    split
    · refine .bind (triple_startReleases hcatalog) fun started => .of_const fun hcatalog => ?_
      obtain ⟨started, releases⟩ := started
      dsimp only
      split
      · exact .pure fun _ _ => ⟨releases, rfl, hcatalog⟩
      · exact .bind (passes_call carried_true rfl) fun signals => .pure fun _ _ => ⟨releases, rfl, hcatalog⟩
    · exact .pure fun _ _ => ⟨releases, rfl, hcatalog⟩
  refreshes builds := by
    refine .of_const ?_
    rintro ⟨releases, rfl, hcatalog⟩
    refine .bind (triple_refreshReleases hcatalog) fun refreshed => .of_const fun hcatalog => ?_
    obtain ⟨refreshed, releases⟩ := refreshed
    dsimp only
    split
    · exact .pure fun _ _ => ⟨releases, rfl, hcatalog⟩
    · exact .pure fun _ _ => ⟨releases, rfl, hcatalog⟩
    · refine .bind (passes_triple carried_true (does_reassertProfile _) rfl) fun reported => ?_
      exact .pure fun _ _ => ⟨releases, rfl, hcatalog⟩
  runs builds job := .of_const triple_runClaimedReady

omit [DecidableEq F.RuntimeType] in
theorem recorded_fresh : Recorded clientId manifest (.fresh : World F) := by
  refine ⟨fun later e earlier hlog => ?_, nofun⟩
  simp [World.fresh] at hlog

theorem recorded_of_lives {s : World F} (h : Lives (Unchanging manifest) clientId s) : Recorded clientId manifest s := by
  induction h with
  | fresh => exact recorded_fresh
  | @life s s' t cfg rounds starts default osVersion x _ hcfg hrun ih =>
    subst hcfg
    have hstart : Versioned manifest (.releases ⟨.new default, none⟩) := ⟨_, rfl, nofun⟩
    have hrestart : Recorded cfg.clientId manifest s.restart := ⟨ih.launches, ih.record⟩
    exact ((upheld_versioned).runDevice rounds starts _ (fun _ hs => hs) _ x s' hrestart hstart hrun).1

/-- Whenever a run is launched for a chosen build, in any history of version-mode processes: the build was offered, admitted
and names the runtime, the phone reported its version in this job's preparation, and the client and the runtimes were
checked since the last install was begun. -/
theorem launchesChecked_of_lives {s : World F} (h : Lives (Unchanging manifest) clientId s) : LaunchesChecked clientId s.log :=
  (recorded_of_lives h).launches

/-! ## One life -/

/-- Every version names the runtime 0. -/
def zeroManifest (_ : Text) : List numbered.Json := [(0 : Nat)]

theorem unchanging_zero (around : Surroundings) : Unchanging zeroManifest around := by
  rintro objects object build - - ⟨-, body, -, hbody⟩
  exact (congrArg Prod.snd (Option.some.inj hbody)).symm

def oneVersionJob : Config := ⟨"client", [], false, 0, 0, 0, 1⟩

/-- A phone that runs the published build. -/
def checkedPhone : Script numbered :=
  { Script.smooth "client" ⟨['j'], ['b'], some [['a']], .ok ⟨[], [], (0 : Nat)⟩⟩ with
    version := ['a'], runtimes := [(0 : Nat)], around := oneBuild }

def versionDevice : Device numbered := ⟨.releases ⟨.new none, none⟩, ⟨0, 0⟩, none⟩

def checkedLife : Option Ended × World numbered :=
  let choice : Choice numbered (Unchanging zeroManifest) := ⟨checkedPhone.answer, [], false, unchanging_zero _⟩
  (runDevice oneVersionJob 3 3 versionDevice).play (machine (Unchanging zeroManifest)) act 0 (List.replicate 60 choice)
    (World.restart .fresh)

theorem lives_checkedLife : Lives (Unchanging zeroManifest) "client" checkedLife.2 :=
  have hrun : Exec (machine (Unchanging zeroManifest)) 0
      (runDevice oneVersionJob 3 3 versionDevice) (World.restart .fresh) checkedLife.1 checkedLife.2 := Prog.exec_play step_of_act _ _ _
  .life .fresh rfl hrun

/-- The life launches a run for a chosen build. -/
theorem launchesChecked_checkedLife :
    (checkedLife.2.log.any fun e => match e.op with
      | .launch _ _ (some _) => true
      | _ => false) ∧ LaunchesChecked "client" checkedLife.2.log :=
  ⟨by decide, launchesChecked_of_lives lives_checkedLife⟩

end Pipette.Proxy
