import Pipette.Lemmas.DeviceRule
import Pipette.Lemmas.JobLog
import Pipette.Lemmas.Listing
import Pipette.Proxy.CheckedLog

/-!
# How a build gets ready

`installed.json` names a version only while its checks have passed since the last install was begun. The programs that check,
install and launch keep this, and hand on what a launch needs: the build was chosen, reported and checked.
-/

namespace Pipette.Proxy

open Threads List

variable {F : Formats} {published : Surroundings → Prop} {t : Tid}

/-! ## What an operation adds -/

variable {log : List (Event F)} {e : Event F} {p : Event F → Bool} {releases : Releases F}

variable {o : Op F}

theorem Told.cons_takeWhile {r : Ans o} (h : Told (log.takeWhile p) o r) (he : p e) : Told ((e :: log).takeWhile p) o r := by
  rw [takeWhile_cons_of_pos he]
  exact h.cons e

theorem told_head {r : Ans o} {lost stop : Bool} (h : p ⟨o, r, lost, stop⟩) :
    Told ((⟨o, r, lost, stop⟩ :: log : List (Event F)).takeWhile p) o r := by
  rw [takeWhile_cons_of_pos h]
  exact ⟨lost, stop, .head _⟩

theorem Checks.cons {clientId : Text} {keys : List Text} (h : Checks clientId keys log) (he : e.installs = false) :
    Checks clientId keys (e :: log) := by
  obtain ⟨listing, hlisting, hkeys⟩ := h.runtimes
  exact ⟨h.client.cons_takeWhile (by simp [he]), listing, hlisting.cons_takeWhile (by simp [he]), hkeys⟩

variable {build : Build F}

theorem ChosenFor.cons [DecidableEq F.Runtime] {job : ClaimedJob F} {plan : LaunchPlan F}
    (h : ChosenFor job plan build log) (he : e.begins = false) : ChosenFor job plan build (e :: log) := by
  obtain ⟨lost, stop, hbegun⟩ := h.begun
  obtain ⟨catalog, hchosen, hoffered⟩ := h.chosen
  refine ⟨⟨lost, stop, ?_⟩, h.planned, ⟨catalog, hchosen.cons_takeWhile (by simp [he]), hoffered⟩, h.admitted, h.carries⟩
  rw [find?_cons_of_neg (by simp [he])]
  exact hbegun

theorem Reported.cons {version : Text} (h : Reported version log) (hb : e.begins = false) (hi : e.installs = false) :
    Reported version (e :: log) := by
  unfold Reported sinceJob at h ⊢
  rw [takeWhile_cons_of_pos (by simp [hb])]
  exact h.cons_takeWhile (by simp [hi])

theorem RunReady.cons [DecidableEq F.Runtime] {clientId : Text} {job : ClaimedJob F} {plan : LaunchPlan F}
    (h : RunReady clientId job plan build log) (hb : e.begins = false) (hi : e.installs = false) :
    RunReady clientId job plan build (e :: log) :=
  ⟨h.chosen.cons hb, h.reported.cons hb hi, h.checks.cons hi⟩

theorem LaunchesChecked.cons [DecidableEq F.Runtime] {clientId : Text} (h : LaunchesChecked clientId log)
    (he : ∀ job plan build, e.op = .launch job plan (some build) → RunReady clientId job plan build log) :
    LaunchesChecked clientId (e :: log) := by
  intro later e' earlier heq
  cases later with
  | nil =>
    cases heq
    exact he
  | cons e'' later =>
    obtain ⟨-, heq⟩ := cons.inj heq
    exact h later e' earlier heq

theorem not_installs (h : e.op.stage ≠ .installs) : e.installs = false := by
  obtain ⟨op, _⟩ := e
  cases op <;> first | rfl | exact absurd rfl h

theorem not_begins (h : e.op.stage ≠ .begins) : e.begins = false := by
  obtain ⟨op, _⟩ := e
  cases op <;> first | rfl | exact absurd rfl h

theorem step_installed {r : Ans o} {s s' : World F} (h : (machine published).step t o s r s')
    (ho : o.stage ≠ .installs) : s'.installed = s.installed := by
  obtain ⟨lost, stop, -, -, -, -, rfl⟩ := step_cases h
  cases o with
  | storeInstalled record => exact absurd rfl ho
  | _ => rfl

/-! ## Between jobs -/

/-- A fact about the log that only the begin of a job or of an install can end. -/
def Carried (Z : List (Event F) → Prop) : Prop := ∀ log e, e.begins = false → e.installs = false → Z log → Z (e :: log)

theorem Carried.and {Y Z : List (Event F) → Prop} (hY : Carried Y) (hZ : Carried Z) : Carried fun log => Y log ∧ Z log :=
  fun log e hb hi h => ⟨hY log e hb hi h.1, hZ log e hb hi h.2⟩

theorem carried_told (o : Op F) (r : Ans o) : Carried fun log => Told (sinceInstall log) o r :=
  fun _ _ _ hi h => h.cons_takeWhile (by simp [hi])

theorem carried_checks (clientId : Text) (keys : List Text) : Carried (F := F) (Checks clientId keys) :=
  fun _ _ _ hi h => h.cons hi

theorem carried_reported (version : Text) : Carried (F := F) (Reported version) := fun _ _ hb hi h => h.cons hb hi

/-- Nothing is asked of the log beyond the record. -/
theorem carried_true : Carried fun _ : List (Event F) => True := fun _ _ _ _ h => h

theorem carried_of_kept {X : List (Event F) → Prop} (hX : ∀ log e, e.begins = false → X log → X (e :: log)) : Carried X :=
  fun log e hb _ h => hX log e hb h

/-- The job that was begun last. -/
def Begun (job : ClaimedJob F) (log : List (Event F)) : Prop :=
  ∃ lost stop, log.find? Event.begins = some ⟨.jobStarts job, (), lost, stop⟩

theorem carried_begun (job : ClaimedJob F) : Carried (Begun job) := by
  rintro log e hb - ⟨lost, stop, h⟩
  exact ⟨lost, stop, by rw [find?_cons_of_neg (by simp [hb])]; exact h⟩

def manifestKeys (runtimes : List F.Json) : List Text := (runtimes.map descriptorKey).insertionSort (· ≤ ·)

/-- Every launch was checked, and a version `installed.json` names has passed its checks since the last install. -/
structure Recorded [DecidableEq F.Runtime] (clientId : Text) (manifest : Text → List F.Json) (s : World F) : Prop where
  launches : LaunchesChecked clientId s.log
  record : ∀ version, s.installed.version = some version → Checks clientId (manifestKeys (manifest version)) s.log

variable [DecidableEq F.Runtime] {clientId : Text} {manifest : Text → List F.Json}

section Steps

variable {s s' : World F} {r : Ans o}

theorem Recorded.step (h : Recorded clientId manifest s) (hstep : (machine published).step t o s r s') (hi : o.stage ≠ .installs)
    (hl : o.stage ≠ .launches) : Recorded clientId manifest s' := by
  obtain ⟨lost, stop, hlog⟩ := step_log hstep
  refine ⟨?_, fun version hversion => ?_⟩
  · rw [hlog]
    refine h.launches.cons fun job plan build hop => ?_
    subst hop
    exact absurd rfl hl
  · rw [step_installed hstep hi] at hversion
    rw [hlog]
    exact (h.record version hversion).cons (not_installs hi)

/-- The stages that neither install, launch nor begin a job. -/
def Stage.passes : Stage → Bool
  | .installs | .launches | .begins => false
  | _ => true

/-- The program keeps the record honest; where `Z` holds of the log, it returns with `Q`. -/
abbrev Recording (published : Surroundings → Prop) (t : Tid) (clientId : Text) (manifest : Text → List F.Json) {α : Type}
    (Z : List (Event F) → Prop) (p : Act F α) (Q : α → World F → Prop) : Prop :=
  SafeTriple (machine published) t (Recorded clientId manifest) (fun s => Z s.log) p Q

variable {Z : List (Event F) → Prop} (hZ : Carried Z)

include hZ

omit [DecidableEq F.Runtime] hZ in
theorem passes_ne (ho : o.stage.passes) {stage : Stage} (h : stage.passes = false) : o.stage ≠ stage := by
  rintro rfl
  rw [h] at ho
  cases ho

theorem passes_step (hs : Recorded clientId manifest s) (hz : Z s.log) (hstep : (machine published).step t o s r s')
    (ho : o.stage.passes) : Recorded clientId manifest s' ∧ Z s'.log := by
  refine ⟨hs.step hstep (passes_ne ho rfl) (passes_ne ho rfl), ?_⟩
  obtain ⟨lost, stop, hlog⟩ := step_log hstep
  rw [hlog]
  exact hZ _ _ (not_begins (passes_ne ho rfl)) (not_installs (passes_ne ho rfl)) hz

theorem passes_triple {α : Type} {stages : List Stage} {p : Act F α} (hp : Does stages p) (hpasses : stages.all Stage.passes) :
    Recording published t clientId manifest Z p fun _ s => Z s.log :=
  hp.triple fun _ _ _ _ ho hs hz hstep => passes_step hZ hs hz hstep (all_eq_true.1 hpasses _ (contains_iff_mem.1 ho))

theorem passes_call (ho : o.stage.passes) : Recording published t clientId manifest Z (call o) fun _ s => Z s.log :=
  .call fun _ _ _ hs hz hstep => passes_step hZ hs hz hstep ho

/-- After a question: it stands in the log since the last install. -/
theorem told_call (ho : o.stage.passes) : Recording published t clientId manifest Z (call o)
      fun r s => Z s.log ∧ Told (sinceInstall s.log) o r ∧ Told (sinceInstall (sinceJob s.log)) o r := by
  refine .call fun s r s' hs hz hstep => ?_
  obtain ⟨hrecorded, hz⟩ := passes_step hZ hs hz hstep ho
  obtain ⟨lost, stop, hlog⟩ := step_log hstep
  have hi : (⟨o, r, lost, stop⟩ : Event F).installs = false := not_installs (passes_ne ho rfl)
  have hb : (⟨o, r, lost, stop⟩ : Event F).begins = false := not_begins (passes_ne ho rfl)
  refine ⟨hrecorded, hz, ?_, ?_⟩ <;> rw [hlog]
  · exact told_head (by simp [hi])
  · rw [sinceJob, takeWhile_cons_of_pos (by simp [hb])]
    exact told_head (by simp [hi])

/-! ## The checks -/

theorem triple_checkAfter (cfg : Config) (checked : Text) : Recording published t clientId manifest Z (checkAfter cfg checked)
      fun r s => Z s.log ∧ (r = .ok () → Told (sinceInstall s.log) .localClientId (.ok cfg.clientId)) := by
  refine .bind (told_call hZ rfl) fun found => ?_
  split
  · exact .pure fun s hs => ⟨hs.1, nofun⟩
  split
  · next hfound =>
    refine .pure fun s hs => ⟨hs.1, fun _ => ?_⟩
    rw [← hfound]
    exact hs.2.1
  · exact .pure fun s hs => ⟨hs.1, nofun⟩

theorem triple_checkRuntimes (build : Build F) :
    Recording published t clientId manifest Z (checkRuntimes build) fun r s => Z s.log ∧
      (r = .ok () → ∃ listing, Told (sinceInstall s.log) .listRuntimes (.ok listing) ∧ reportedKeys listing = build.runtimeKeys) := by
  refine .bind (told_call hZ rfl) fun listed => ?_
  split
  · dsimp only
    split <;> exact .pure fun s hs => ⟨hs.1, nofun⟩
  · next listing =>
    split
    · next hkeys => exact .pure fun s hs => ⟨hs.1, fun _ => ⟨listing, hs.2.1, hkeys⟩⟩
    · exact .pure fun s hs => ⟨hs.1, nofun⟩

/-- The record is written: what it names must have passed its checks. -/
theorem triple_storeInstalled (record : InstalledBuild)
    (hrecord : ∀ version, record.version = some version → ∀ log, Z log → Checks clientId (manifestKeys (manifest version)) log) :
    Recording published t clientId manifest Z (call (.storeInstalled record))
      fun r s => Z s.log ∧ (r = .ok () → s.installed = record) := by
  refine .call fun s r s' hs hz hstep => ?_
  obtain ⟨lost, stop, -, -, -, -, rfl⟩ := step_cases hstep
  set e : Event F := ⟨.storeInstalled record, r, lost, stop⟩
  have hz : Z (e :: s.log) := hZ s.log e rfl rfl hz
  have hlaunches : LaunchesChecked clientId (e :: s.log) := hs.launches.cons nofun
  cases r with
  | ok u => exact ⟨⟨hlaunches, fun version hversion => hrecord version hversion _ hz⟩, hz, fun _ => rfl⟩
  | error err => exact ⟨⟨hlaunches, fun version hversion => (hs.record version hversion).cons rfl⟩, hz, nofun⟩

/-! ## A build that runs, or is installed -/

/-- A build that is said to be ready is checked and reported. -/
abbrev Readied (Z : List (Event F) → Prop) (cfg : Config) (build : Build F) (r : Except Failed Unit) (s : World F) : Prop :=
  Z s.log ∧ (r = .ok () → Checks cfg.clientId build.runtimeKeys s.log ∧ Reported build.version.text s.log)

variable (cfg : Config) (hbuild : build.runtimes = manifest build.version.text)

include hbuild

/-- Both checks have passed: the phone's runtimes are those of the build's manifest. -/
theorem triple_record (path : Option Text) :
    Recording published t clientId manifest (fun log => Z log ∧ Checks clientId build.runtimeKeys log)
      (call (.storeInstalled ⟨path, some build.version.text⟩)) fun _ s => Z s.log ∧ Checks clientId build.runtimeKeys s.log := by
  refine (triple_storeInstalled (hZ.and (carried_checks clientId build.runtimeKeys)) _ ?_).post fun _ _ hs => hs.1
  rintro _ ⟨⟩ log hz
  rw [← hbuild]
  exact hz.2

theorem triple_trustRunning : Recording published t cfg.clientId manifest Z (trustRunning cfg build)
      fun r s => Z s.log ∧ (r = .ok () → Checks cfg.clientId build.runtimeKeys s.log) := by
  -- what is read is the record, and the record vouches for the checks
  have hload : Recording published t cfg.clientId manifest Z (call .loadInstalled) fun r s => Z s.log ∧
      (recordedVersion r = some build.version.text → Checks cfg.clientId build.runtimeKeys s.log) := by
    refine .call fun s r s' hs hz hstep => ?_
    obtain ⟨hs', hz'⟩ := passes_step hZ hs hz hstep rfl
    refine ⟨hs', hz', fun hversion => ?_⟩
    have hinstalled := step_installed hstep nofun
    obtain ⟨lost, stop, -, -, -, hallows, -⟩ := step_cases hstep
    cases r with
    | error e => cases hversion
    | ok record =>
      rw [hallows record rfl] at hversion
      have hchecks := hs'.record _ ((congrArg _ hinstalled).trans hversion)
      rwa [← hbuild] at hchecks
  refine .bind hload fun loaded => ?_
  split
  · next hloaded => exact .pure fun s hs => ⟨hs.1, fun _ => hs.2 hloaded⟩
  refine .bind ((triple_checkAfter hZ cfg _).pre fun s hs => hs.1) fun checked => ?_
  split
  · exact .pure fun s hs => ⟨hs.1, nofun⟩
  refine .bind ((triple_checkRuntimes (hZ.and (carried_told .localClientId (.ok cfg.clientId))) build).pre
    fun s hs => ⟨hs.1, hs.2 rfl⟩) fun compared => ?_
  split
  · exact .pure fun s hs => ⟨hs.1.1, nofun⟩
  · refine .bind ((triple_record hZ hbuild _).pre fun s hs => ⟨hs.1.1, hs.1.2, hs.2 rfl⟩) fun _ => ?_
    exact .pure fun s hs => ⟨hs.1, fun _ => hs.2⟩

theorem triple_checkInstalled (staged : Text) :
    Recording published t cfg.clientId manifest Z (checkInstalled cfg build staged) (Readied Z cfg build) := by
  refine .bind (triple_checkAfter hZ cfg _) fun checked => ?_
  split
  · exact .pure fun s hs => ⟨hs.1, nofun⟩
  have hclient := hZ.and (carried_told .localClientId (.ok cfg.clientId))
  refine .bind ((told_call hclient rfl).pre fun s hs => ⟨hs.1, hs.2 rfl⟩) fun reported => ?_
  split
  · exact .pure fun s hs => ⟨hs.1.1, nofun⟩
  split
  · next hreported =>
    subst hreported
    have hversion := hclient.and (carried_reported build.version.text)
    refine .bind ((triple_checkRuntimes hversion build).pre fun s hs => ⟨hs.1, hs.2.2⟩) fun compared => ?_
    split
    · exact .pure fun s hs => ⟨hs.1.1.1, nofun⟩
    refine .bind ((triple_record (hZ.and (carried_reported build.version.text)) hbuild _).pre
      fun s hs => ⟨⟨hs.1.1.1, hs.1.2⟩, hs.1.1.2, hs.2 rfl⟩) fun stored => ?_
    split
    · exact .pure fun s hs => ⟨hs.1.1, fun _ => ⟨hs.2, hs.1.2⟩⟩
    · exact .pure fun s hs => ⟨hs.1.1, nofun⟩
  · exact .pure fun s hs => ⟨hs.1.1, nofun⟩

end Steps

section Installs

variable {X : List (Event F) → Prop} (hX : ∀ log e, e.begins = false → X log → X (e :: log))

include hX

theorem triple_runningVersion : Recording published t clientId manifest X runningVersion
      fun r s => X s.log ∧ ∀ version, r = .ok (some version) → Reported version s.log := by
  refine .bind (told_call (carried_of_kept hX) rfl) fun answer => ?_
  split
  · next version =>
    refine .pure fun s hs => ⟨hs.1, ?_⟩
    rintro v ⟨⟩
    exact hs.2.2
  refine .bind ((passes_call (carried_of_kept hX) rfl).pre fun s hs => hs.1) fun reachability => ?_
  split
  · exact .pure fun s hs => ⟨hs, nofun⟩
  · exact .pure fun s hs => ⟨hs, nofun⟩

variable (cfg : Config) (hbuild : build.runtimes = manifest build.version.text)

include hbuild

/-- The record is empty when an install is begun, so it vouches for nothing. -/
theorem triple_installStaged (staged : Text) :
    Recording published t cfg.clientId manifest X (installStaged cfg build staged) (Readied X cfg build) := by
  refine .bind (triple_storeInstalled (carried_of_kept hX) .unknown nofun) fun forgot => ?_
  split
  · exact .pure fun s hs => ⟨hs.1, nofun⟩
  refine .bind (Q := fun _ s => X s.log) (.call fun s r s' hk hs hstep => ?_) fun installed => ?_
  · obtain ⟨lost, stop, -, -, -, -, rfl⟩ := step_cases hstep
    refine ⟨⟨hk.launches.cons nofun, fun version hversion => ?_⟩, hX _ _ rfl hs.1⟩
    have hnone : s.installed.version = some version := hversion
    rw [hs.2 rfl] at hnone
    cases hnone
  · split
    · exact .pure fun s hs => ⟨hs, nofun⟩
    · exact triple_checkInstalled (carried_of_kept hX) cfg hbuild staged

theorem triple_install (inClaim : Bool) :
    Recording published t cfg.clientId manifest X (install cfg build inClaim) (Readied X cfg build) := by
  refine .bind (passes_call (carried_of_kept hX) rfl) fun pulled => ?_
  split
  · exact .pure fun s hs => ⟨hs, nofun⟩
  refine .bind (passes_call (carried_of_kept hX) rfl) fun signed => ?_
  split
  · exact .pure fun s hs => ⟨hs, nofun⟩
  refine .bind (passes_call (carried_of_kept hX) rfl) fun signals => ?_
  split
  · exact .pure fun s hs => ⟨hs, nofun⟩
  · exact triple_installStaged hX cfg hbuild _

theorem triple_makeReady : Recording published t cfg.clientId manifest X (makeReady cfg build) (Readied X cfg build) := by
  refine .bind (triple_runningVersion hX) fun running => ?_
  split
  · exact .pure fun s hs => ⟨hs.1, nofun⟩
  split
  · next hrunning =>
    subst hrunning
    have hreported := (carried_of_kept hX).and (carried_reported build.version.text)
    refine .bind ((triple_trustRunning hreported cfg hbuild).pre fun s hs => ⟨hs.1, hs.2 _ rfl⟩) fun trusted => ?_
    split
    · exact .pure fun s hs => ⟨hs.1.1, fun _ => ⟨hs.2 rfl, hs.1.2⟩⟩
    · exact .pure fun s hs => ⟨hs.1.1, nofun⟩
  · exact (triple_install hX cfg hbuild true).pre fun s hs => hs.1

end Installs

/-! ## The launch -/

section Launch

variable {job : ClaimedJob F} {plan : LaunchPlan F}

theorem carried_runReady : Carried (RunReady clientId job plan build) := fun _ _ hb hi h => h.cons hb hi

/-- A launch for a build that is ready. -/
theorem triple_launchReady :
    Recording published t clientId manifest (RunReady clientId job plan build) (call (.launch job plan (some build)))
      fun _ s => RunReady clientId job plan build s.log := by
  refine .call fun s r s' hk hs hstep => ?_
  obtain ⟨lost, stop, -, -, -, -, rfl⟩ := step_cases hstep
  refine ⟨⟨hk.launches.cons ?_, fun version hversion => ?_⟩,
    hs.cons rfl rfl⟩
  · rintro _ _ _ ⟨⟩
    exact hs
  · exact (hk.record version hversion).cons rfl

theorem triple_runReady :
    Recording published t clientId manifest (RunReady clientId job plan build) (runBenchmark job plan (some build))
      fun _ s => RunReady clientId job plan build s.log := by
  refine .bind triple_launchReady fun launched => ?_
  split
  · exact .pure fun s hs => hs
  split
  · refine .bind (passes_call carried_runReady rfl) fun signals => ?_
    split
    · exact .pure fun s hs => hs
    · exact triple_launchReady
  · exact .pure fun s hs => hs

theorem triple_runAndSubmitReady (cfg : Config) (before : List ResultRef) :
    Recording published t clientId manifest (RunReady clientId job plan build) (runAndSubmit cfg job plan before (some build))
      fun _ _ => True := by
  have hpass : ∀ {α : Type} {p : Act F α}, Does [.asks, .posts, .lease, .drops] p → Recording published t clientId manifest
      (RunReady clientId job plan build) p fun _ s => RunReady clientId job plan build s.log :=
    fun hp => passes_triple carried_runReady hp rfl
  refine .bind (hpass ((does_pinGpu cfg).mono rfl)) fun pin => ?_
  split
  · exact .bind (hpass (.call rfl)) fun _ => .pure fun _ _ => trivial
  refine .bind triple_runReady fun outcome => .bind (hpass (.call rfl)) fun elapsed => .bind (hpass (.call rfl)) fun _ => ?_
  refine .bind (hpass ((does_releasePin cfg).mono rfl)) fun pinned => .bind (hpass (.call rfl)) fun signals => ?_
  split
  · exact .bind (hpass ((does_settleUploaded before).mono rfl)) fun _ => .pure fun _ _ => trivial
  · exact (hpass ((does_concludeRun _ _ _ _ _ _ _).mono rfl)).post fun _ _ _ => trivial

theorem triple_runPreparedReady (cfg : Config) :
    Recording published t clientId manifest (RunReady clientId job plan build) (runPrepared cfg job plan build)
      fun _ _ => True := by
  refine .bind (passes_triple carried_runReady does_resultsBefore rfl) fun before => ?_
  split
  · exact .bind (passes_call carried_runReady rfl) fun _ => .pure fun _ _ => trivial
  · refine .bind (triple_runAndSubmitReady cfg _) fun ended => ?_
    split <;> exact .pure fun _ _ => trivial

/-- What a preparation leaves is launched only if it is ready. -/
theorem triple_afterPrepareReady (cfg : Config) (prepared : Except JobEnd (Build F)) :
    Recording published t clientId manifest (fun log => ∀ build, prepared = .ok build → RunReady clientId job plan build log)
      (afterPrepare cfg job plan prepared) fun _ _ => True := by
  have hready : Carried fun log => ∀ build, prepared = .ok build → RunReady clientId job plan build log :=
    fun log e hb hi h build hbuild => (h build hbuild).cons hb hi
  refine .bind (passes_call hready rfl) fun signals => ?_
  split
  · refine .bind (passes_call hready rfl) fun _ => .bind (passes_call hready rfl) fun signals => ?_
    exact .pure fun _ _ => trivial
  · split
    · exact .bind (passes_call hready rfl) fun _ => .pure fun _ _ => trivial
    · next build => exact (triple_runPreparedReady cfg).pre fun s hs => hs build rfl

end Launch

/-! ## A job -/

section Jobs

variable {cfg : Config} {catalog : Catalog F} {job : ClaimedJob F} {plan : LaunchPlan F}

theorem triple_look {Z : List (Event F) → Prop} (hZ : Carried Z) :
    Recording (Unchanging manifest) t clientId manifest Z (call .look) fun around s => Z s.log ∧ Unchanging manifest around := by
  refine .call fun s r s' hs hz hstep => ?_
  obtain ⟨hs', hz'⟩ := passes_step hZ hs hz hstep rfl
  obtain ⟨lost, stop, -, -, -, hallows, -⟩ := step_cases hstep
  exact ⟨hs', hz', hallows⟩

theorem triple_choseFor (hplan : job.launchPlan = .ok plan) (hoffered : build ∈ catalog.offered)
    (hadmits : admitsBuild job.clientVersions build) (hcarries : build.carries plan.runtime) :
    Recording published t clientId manifest (Begun job) (call (.chose catalog job plan build))
      fun _ s => ChosenFor job plan build s.log := by
  refine .call fun s r s' hs hz hstep => ?_
  obtain ⟨hrecorded, hbegun⟩ := passes_step (carried_begun job) hs hz hstep rfl
  obtain ⟨lost, stop, hlog⟩ := step_log hstep
  refine ⟨hrecorded, hbegun, hplan, ⟨catalog, ?_, hoffered⟩, hadmits, hcarries⟩
  rw [hlog]
  exact told_head rfl

theorem triple_jobStartsReady :
    Recording published t clientId manifest (fun _ => True) (call (.jobStarts job)) fun _ s => Begun job s.log := by
  refine .call fun s r s' hs _ hstep => ⟨hs.step hstep nofun nofun, ?_⟩
  obtain ⟨lost, stop, hlog⟩ := step_log hstep
  exact ⟨lost, stop, by rw [hlog]; rfl⟩

theorem startFailed_faithful (h : catalog.Faithful manifest) (build : Build F) (failed : Failed) (installing : Bool) :
    (startFailed catalog build failed installing).2.Faithful manifest := by
  unfold startFailed
  split
  · dsimp only
    split <;> exact h
  · split <;> exact h

variable [DecidableEq F.RuntimeType]

theorem triple_prepareReady (hcatalog : catalog.Faithful manifest) (hplan : job.launchPlan = .ok plan) :
    Recording (Unchanging manifest) t cfg.clientId manifest (Begun job) (prepareBuild cfg catalog job plan)
      fun r s => (∀ build, r.1 = .ok build → RunReady cfg.clientId job plan build s.log) ∧ r.2.Faithful manifest := by
  refine .bind (Q := fun around s => Begun job s.log ∧ Unchanging manifest around) ?_ fun around => .of_imp fun haround => ?_
  · unfold lookIfNeeded
    split
    · exact triple_look (carried_begun job)
    · exact .pure fun s hs => ⟨hs, nofun⟩
  have hafter : (chooseBuild catalog around job.clientVersions plan).2.Faithful manifest := chooseBuild_faithful hcatalog haround
  split
  · next failure catalog' hchoose =>
    rw [hchoose] at hafter
    exact .pure fun s hs => ⟨nofun, hafter⟩
  · next choice catalog' hchoose =>
    rw [hchoose] at hafter
    obtain ⟨hoffered, hadmits, hcarries⟩ := chooseBuild_ok hchoose
    refine .bind (triple_choseFor hplan hoffered hadmits hcarries) fun _ => ?_
    have hbuild := hafter choice.build (mem_builds_of_offered hoffered)
    refine .bind (triple_makeReady (fun log e hb h => ChosenFor.cons h hb) cfg hbuild) fun ready => ?_
    split
    · refine .pure fun s hs => ⟨?_, hafter⟩
      rintro _ ⟨⟩
      exact ⟨hs.1, (hs.2 rfl).2, (hs.2 rfl).1⟩
    · refine .pure fun s hs => ⟨nofun, ?_⟩
      split <;> exact hafter

theorem triple_runVersionReady (hcatalog : catalog.Faithful manifest) :
    Recording (Unchanging manifest) t cfg.clientId manifest (Begun job) (runVersionJob cfg catalog job)
      fun r _ => r.2.Faithful manifest := by
  unfold runVersionJob
  split
  · exact .pure fun _ _ => hcatalog
  · next plan hplan =>
    refine .bind (passes_triple (carried_begun job) (does_knownBenchmark job) rfl) fun known => ?_
    split
    · exact .pure fun _ _ => hcatalog
    · refine .bind (passes_call (carried_begun job) rfl) fun _ => ?_
      refine .bind (triple_prepareReady hcatalog hplan) fun prepared => .of_imp fun hfaithful => ?_
      exact .bind (triple_afterPrepareReady cfg prepared.1) fun ended => .pure fun _ _ => hfaithful

/-- The builds of a version-mode device. -/
def Versioned (manifest : Text → List F.Json) (builds : Builds F) : Prop :=
  ∃ releases, builds = .releases releases ∧ releases.catalog.Faithful manifest

theorem triple_runClaimedReady {builds : Builds F} (hbuilds : Versioned manifest builds) :
    Recording (Unchanging manifest) t cfg.clientId manifest (fun _ => True) (runClaimedJob cfg builds job)
      fun r _ => Versioned manifest r.2 := by
  obtain ⟨releases, rfl, hcatalog⟩ := hbuilds
  have hexecute : Recording (Unchanging manifest) t cfg.clientId manifest (Begun job) (executeJob cfg job (.releases releases))
      fun r s => True ∧ Versioned manifest r.2 :=
    .bind (.bind (triple_runVersionReady hcatalog) fun _ => .pure fun _ hs => hs)
      fun ended => .pure fun s hs => ⟨trivial, _, rfl, hs⟩
  refine .bind triple_jobStartsReady fun _ => .bind hexecute fun r => .of_imp fun hbuilds => ?_
  obtain ⟨ended, builds⟩ := r
  cases ended with
  | ok outcome => exact .bind (passes_call carried_true rfl) fun _ => .pure fun _ _ => hbuilds
  | error ended =>
    refine .bind (passes_call carried_true rfl) fun _ => ?_
    exact .bind (passes_triple carried_true (does_conclude job ended) rfl) fun concluded => .pure fun _ _ => hbuilds

end Jobs

/-! ## Before and between the jobs -/

section Between

variable {cfg : Config} {catalog : Catalog F}

theorem triple_startInstall (hcatalog : catalog.Faithful manifest) :
    Recording published t cfg.clientId manifest (fun _ => True) (startInstall cfg catalog) fun r _ => r.2.Faithful manifest := by
  unfold startInstall
  split
  · exact .pure fun _ _ => hcatalog
  · next choice hchoose =>
    have hbuild := hcatalog choice.build (mem_builds_of_offered (choose_ok hchoose).1)
    refine .bind (triple_install (X := fun _ => True) (fun _ _ _ h => h) cfg hbuild false) fun installed => ?_
    split
    · exact .pure fun _ _ => hcatalog
    refine .bind ((passes_call carried_true rfl).pre fun s hs => trivial) fun signals => ?_
    split
    · exact .pure fun _ _ => hcatalog
    · exact .pure fun _ _ => startFailed_faithful hcatalog _ _ _

theorem triple_startOn (hcatalog : catalog.Faithful manifest) :
    Recording published t cfg.clientId manifest (fun _ => True) (startOn cfg catalog) fun r _ => r.2.Faithful manifest := by
  refine .bind (triple_runningVersion (X := fun _ => True) (fun _ _ _ h => h)) fun running => ?_
  split
  · exact .pure fun _ _ => hcatalog
  · next running =>
    split
    · next build hoffers =>
      obtain ⟨version, -, hfind⟩ := Option.bind_eq_some_iff.1 hoffers
      have hbuild := hcatalog build (mem_builds_of_offered (mem_of_find?_eq_some hfind))
      refine .bind ((triple_trustRunning carried_true cfg hbuild).pre fun s hs => trivial) fun trusted => ?_
      split
      · exact .pure fun _ _ => hcatalog
      · exact .pure fun _ _ => startFailed_faithful hcatalog _ _ _
    · exact (triple_startInstall hcatalog).pre fun s hs => trivial

theorem triple_startReleases (hcatalog : releases.catalog.Faithful manifest) :
    Recording (Unchanging manifest) t cfg.clientId manifest (fun _ => True) (startReleases cfg releases)
      fun r _ => r.2.catalog.Faithful manifest := by
  refine .bind (triple_look carried_true) fun around => .of_imp fun haround => ?_
  have hrelisted := relist_faithful hcatalog haround
  split
  · exact .pure fun _ _ => hcatalog
  dsimp only
  split
  · exact .pure fun _ _ => hrelisted
  · exact .bind (triple_startOn hrelisted) fun started => .pure fun _ hs => hs

theorem triple_refreshReleases (hcatalog : releases.catalog.Faithful manifest) :
    Recording (Unchanging manifest) t clientId manifest (fun _ => True) (refreshReleases releases)
      fun r _ => r.2.catalog.Faithful manifest := by
  unfold refreshReleases
  split
  · exact .pure fun _ _ => hcatalog
  refine .bind (passes_call carried_true rfl) fun due => ?_
  split
  · split
    · exact .pure fun _ _ => hcatalog
    · refine .bind (triple_look carried_true) fun around => .of_imp fun haround => ?_
      split
      · exact .pure fun _ _ => hcatalog
      · next catalog hlist =>
        have hlisted : catalog.Faithful manifest := .of_list haround hlist
        split <;> exact .pure fun _ _ => hlisted
  · exact .pure fun _ _ => hcatalog

end Between

end Pipette.Proxy
