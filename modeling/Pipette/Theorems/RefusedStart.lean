import Pipette.Android.JobRunner

/-!
# What a refused start leaves behind

The running job is looked for last, after the job was prepared, so a request that is refused for it has already been written.
-/

namespace Pipette.Android.Job

open World

variable {JobId Id : Type} [DecidableEq Id]

/-- A refusal leaves the stored jobs, the artifacts and the running job as they are without the request. -/
def Harmless (o : Others JobId Id) (r : Except Text Unit × World JobId Id) : Prop := ∀ e, r.1 = .error e → r.2 = o.alone

/-- The request is turned down before anything is written. -/
def Request.TurnedDown (w : World JobId Id) : Request JobId Id → Prop
  | .startNewJob models benchmarks _ m => models = [] ∨ benchmarks = [] ∨ m.ids = []
  | .resume j => w.jobs j = none
  | .retryFailed j => ∀ m, w.jobs j = some m → ∀ i ∈ m.ids, (m.cells i).runStatus ≠ .failed
  | .rerunCells j cellIds => ∀ m, w.jobs j = some m → ∀ i ∈ m.ids, i ∈ cellIds → ¬(m.cells i).isRerunnable

variable {w again : World JobId Id} {r : Request JobId Id}

theorem rerunCells_prepares {j : JobId} {cellIds : List Id} : (∃ p, w.rerunCells j cellIds = .ok p) ↔
    ¬(.rerunCells j cellIds : Request JobId Id).TurnedDown w := by
  unfold rerunCells Request.TurnedDown
  split
  · next h => simp [h]
  split
  · next h => simp [h]
  next m h =>
  dsimp only
  split
  · next hnil => simp_all
  · next hcons => simpa [h] using hcons

/-- A request that is turned down prepares nothing, whatever it loads later. -/
theorem prepare_of_turnedDown (h : r.TurnedDown w) (again : World JobId Id) : ∃ e, r.prepare w again = .error e := by
  cases hp : r.prepare w again with
  | error e => exact ⟨e, rfl⟩
  | ok p =>
    cases r with
    | startNewJob models benchmarks j m =>
      simp only [Request.prepare, startNewJob] at hp
      split_ifs at hp
      obtain h | h | h := h <;> contradiction
    | resume j =>
      have hnone : w.jobs j = none := h
      simp [Request.prepare, resume, hnone] at hp
    | rerunCells j cellIds => exact absurd h (rerunCells_prepares.1 ⟨p, hp⟩)
    | retryFailed j =>
      simp only [Request.prepare, retryFailed] at hp
      split at hp
      · cases hp
      next m hm =>
      split_ifs at hp with hnone
      exact absurd (List.filter_eq_nil_iff.2 fun i hi => by simpa using h m hm i hi) hnone

/-- Any other request prepares a job, if nobody else changes it meanwhile. -/
theorem prepare_of_not_turnedDown (h : ¬r.TurnedDown w) : ∃ p, r.prepare w w = .ok p := by
  cases r with
  | startNewJob models benchmarks j m =>
    simp only [Request.TurnedDown, not_or] at h
    simp [Request.prepare, startNewJob, h]
  | resume j =>
    obtain ⟨m, hm⟩ := Option.ne_none_iff_exists'.1 h
    simp [Request.prepare, resume, hm]
  | rerunCells j cellIds => exact rerunCells_prepares.2 h
  | retryFailed j =>
    simp only [Request.TurnedDown, not_forall] at h
    obtain ⟨m, hm, i, hi, hfailed⟩ := h
    have hmem : i ∈ m.ids.filter fun i => (m.cells i).runStatus = .failed := by simpa [hi] using hfailed
    simp only [Request.prepare, retryFailed, hm, List.ne_nil_of_mem hmem, if_false]
    refine rerunCells_prepares.2 fun hdown => hdown m hm i hi hmem ?_
    simp_all [JobCell.isRerunnable]

variable [DecidableEq JobId]

/-- A request that is prepared does harm: while a job is running it is refused, and has put another record in the place of the
one saved since it loaded. -/
theorem harm_of_prepare {k : JobId} (hrunning : w.runningJobId = some k) {p : Prepared JobId Id} (hp : r.prepare w w = .ok p) :
    ∃ o : Others JobId Id, o.Beside w ∧ ¬Harmless o (r.answer w o) := by
  obtain ⟨status, hstatus⟩ : ∃ status, status ≠ p.manifest.status := by
    by_cases h : p.manifest.status = .running
    · exact ⟨.paused, by simp [h]⟩
    · exact ⟨.running, Ne.symm h⟩
  refine ⟨⟨w, w.saveJobManifest p.job { p.manifest with status }, id, id⟩, ⟨.inl rfl, fun v => ⟨.inl rfl, .inl rfl⟩⟩, fun h => ?_⟩
  have hrefused := h "A job is already running"
  simp only [Request.answer, hp, run, saveJobManifest, clearCellArtifacts, id, hrunning, Others.alone, reduceCtorEq, if_false] at hrefused
  have hjob := congrFun (congrArg World.jobs (hrefused trivial)) p.job
  simp only [Function.update_self, Option.some.injEq] at hjob
  exact hstatus (congrArg JobManifest.status hjob).symm

/-- While no job is running, a request is refused only before it has written. -/
theorem harmless_of_idle {o : Others JobId Id} (ho : o.Beside w) (hidle : w.runningJobId = none) :
    Harmless o (r.answer w o) := by
  unfold Request.answer
  cases hp : r.prepare w o.again with
  | error e => exact fun _ _ => rfl
  | ok p =>
    have hbefore : o.before.runningJobId = none := ho.1.elim (·.trans hidle) id
    have hbetween := (ho.2 (o.before.clearCellArtifacts p.job p.cleared)).1.elim (·.trans hbefore) id
    have hafter := (ho.2 ((o.between (o.before.clearCellArtifacts p.job p.cleared)).saveJobManifest p.job p.manifest)).2.elim
      (·.trans hbetween) id
    simp [Harmless, run, hafter]

/-- Job `false` has one cell, whose result is on disk and was submitted; job `true` is running. -/
def finishedBesideRunning : World Bool Unit where
  jobs j := if j then some ⟨[()], fun _ => ⟨.running, none, none⟩, .running⟩
    else some ⟨[()], fun _ => ⟨.completed, some "j", none⟩, .completed⟩
  artifacts _ _ := ⟨some "p", some "s", some "m"⟩
  runningJobId := some true

/-- Nobody else does anything. -/
def nobody (w : World Bool Unit) : Others Bool Unit := ⟨w, w, id, id⟩

/-- A refused resume of the running job puts a cell back that the run has completed since. -/
example : ((Request.resume true).answer finishedBesideRunning { nobody finishedBesideRunning with
    before := finishedBesideRunning.saveJobManifest true ⟨[()], fun _ => ⟨.completed, none, none⟩, .running⟩ }).2.jobs true =
      finishedBesideRunning.jobs true := by
  simp [Request.answer, Request.prepare, resume, finishedBesideRunning, JobManifest.change, run, saveJobManifest, nobody,
    clearCellArtifacts]

end Pipette.Android.Job
