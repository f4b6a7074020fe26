import Pipette.Android.JobRace

/-!
# Outcomes and acknowledgements of a job on Android

In a calm run the record can always be read, every copy of it that is about to be written carries the ids on disk, and a submission's
copy carries the outcomes there.
-/

namespace Pipette.Android.Job

open Function Phone.Job

variable {Id : Type} [DecidableEq Id] {s s' : State Id} {d : JobManifest Id} {m : JobManifest Id}

/-- What holds in a calm run, with the record `d` on disk. -/
structure Kept (s : State Id) (d : JobManifest Id) : Prop where
  disk : s.disk = some d
  kept : s.kept = d.outcomes
  logged : ∀ i id, (i, id) ∈ s.log → d.serverIds i = some id
  passes : s.passes = [] ∨ ∃ m, s.passes = [m] ∧ m.serverIds = d.serverIds ∧ m.outcomes = d.outcomes
  saved : s.phase = .saved ∨ s.phase = .ended → d.outcomes = s.mine.outcomes
  alone : s.phase = .saving → s.passes = [] ∧ s.mine.serverIds = d.serverIds
  mine : s.phase = .edited ∨ s.phase = .saved → ∀ i id, s.mine.serverIds i = some id → d.serverIds i = some id
  fresh : s.phase = .saved → s.behind = false → s.mine.serverIds = d.serverIds
  told : s.phase ≠ .unstarted → s.told = s.mine.outcomes

omit [DecidableEq Id] in
theorem serverIds_recover (m : JobManifest Id) : m.recoverInterruptedRunState.serverIds = m.serverIds := by
  funext i
  unfold JobManifest.recoverInterruptedRunState JobManifest.serverIds
  split_ifs <;> first | rfl | simp only []; split_ifs <;> rfl

theorem serverIds_ack (m : JobManifest Id) (i : Id) (id : Text) : (m.ack i id).serverIds = update m.serverIds i (some id) := by
  funext j
  simp only [JobManifest.serverIds, JobManifest.ack, update_apply]
  split <;> rfl

theorem outcomes_ack (m : JobManifest Id) (i : Id) (id : Text) : (m.ack i id).outcomes = m.outcomes := by
  simp only [JobManifest.outcomes, JobManifest.ack, Prod.mk.injEq, and_true]
  funext j
  by_cases hj : j = i
  · simp [hj]
  · simp [update_of_ne hj]

theorem setRun_parts (m : JobManifest Id) (i : Id) (status : CellRunStatus) : (m.setRun i status).serverIds = m.serverIds ∧
    (m.setRun i status).outcomes = (update m.outcomes.1 i status, m.outcomes.2) := by
  refine ⟨?_, Prod.ext ?_ rfl⟩
  all_goals
    funext j
    by_cases hj : j = i
    · simp [JobManifest.serverIds, JobManifest.outcomes, JobManifest.setRun, hj]
    · simp [JobManifest.serverIds, JobManifest.outcomes, JobManifest.setRun, update_of_ne hj]

omit [DecidableEq Id] in
/-- A copy whose ids are all on disk has the ids of the disk once it is filled. -/
theorem serverIds_fill {m latest : JobManifest Id} (h : ∀ i id, m.serverIds i = some id → latest.serverIds i = some id) :
    (m.fill latest).serverIds = latest.serverIds := by
  funext i
  change (if (m.serverIds i).all isBlank then latest.serverIds i else m.serverIds i) = latest.serverIds i
  cases hid : m.serverIds i with
  | none => rfl
  | some id => rw [h i id hid, ite_self]

omit [DecidableEq Id] in
theorem Kept.only {others others' : List (JobManifest Id)} (h : Kept s d)
    (hp : s.passes = others ++ m :: others') : others = [] ∧ others' = [] ∧ m.serverIds = d.serverIds ∧ m.outcomes = d.outcomes := by
  obtain hnone | ⟨m', hm', hids, hrun⟩ := h.passes
  · simp [hnone] at hp
  · obtain ⟨rfl, heq⟩ | ⟨-, hnil⟩ := List.append_eq_singleton_iff.1 (hp.symm.trans hm')
    · cases heq
      exact ⟨rfl, rfl, hids, hrun⟩
    · cases hnil

/-- A copy with the ids and outcomes of the disk, once an id is added to it. -/
theorem Kept.acked {i : Id} (h : Kept s d) (hids : m.serverIds = d.serverIds) (hi : m.serverIds i = none) (id : Text) :
    (∀ j id', d.serverIds j = some id' → (m.ack i id).serverIds j = some id') ∧
      ∀ j id', (j, id') ∈ (i, id) :: s.log → (m.ack i id).serverIds j = some id' := by
  have hnew : ∀ j id', d.serverIds j = some id' → (m.ack i id).serverIds j = some id' := by
    intro j id' hj
    have hji : j ≠ i := by rintro rfl; simp [← hids, hi] at hj
    rw [serverIds_ack, update_of_ne hji, hids, hj]
  refine ⟨hnew, fun j id' hj => ?_⟩
  obtain heq | hj := List.mem_cons.1 hj
  · cases heq
    rw [serverIds_ack, update_self]
  · exact hnew j id' (h.logged j id' hj)

theorem Kept.step (h : Kept s d) (hstep : Step True True s s') : ∃ d', Kept s' d' := by
  have hstarted : s.phase = .edited ∨ s.phase = .saved → s.phase ≠ .unstarted := by rintro (h | h) <;> simp [h]
  cases hstep with
  | @start m hphase hm hcalm =>
    cases h.disk.symm.trans hm
    exact ⟨d, { h with saved := fun _ => rfl, alone := nofun, mine := fun _ _ _ => id, fresh := fun _ _ => rfl, told := fun _ => rfl }⟩
  | edit i status hphase =>
    obtain ⟨hids, hrun⟩ := setRun_parts s.mine i status
    exact ⟨d, { h with
      saved := nofun, alone := nofun, fresh := nofun, mine := fun _ => hids ▸ h.mine hphase
      told := fun _ => by rw [hrun, h.told (hstarted hphase)] }⟩
  | conclude status hphase =>
    exact ⟨d, { h with
      saved := nofun, alone := nofun, fresh := nofun, mine := fun _ => h.mine hphase, told := fun _ => by rw [h.told (hstarted hphase)]; rfl }⟩
  | read hphase hcalm =>
    have hmine : s.disk.elim s.mine s.mine.fill = s.mine.fill d := by rw [h.disk]; rfl
    rw [hmine]
    exact ⟨d, { h with
      saved := nofun, fresh := nofun, mine := nofun, alone := fun _ => ⟨hcalm trivial, serverIds_fill (h.mine hphase)⟩
      told := fun _ => h.told (hstarted hphase) }⟩
  | write hphase =>
    obtain ⟨halone, hids⟩ := h.alone hphase
    exact ⟨s.mine, { h with
      disk := rfl, kept := rfl, saved := fun _ => rfl, alone := nofun, mine := fun _ _ _ => id, fresh := fun _ _ => rfl
      logged := hids ▸ h.logged, passes := .inl halone, told := fun _ => h.told (by simp [hphase]) }⟩
  | submit i id hphase hi hcalm =>
    obtain ⟨hnone, hbehind⟩ := hcalm trivial
    have hout := outcomes_ack s.mine i id
    exact ⟨s.mine.ack i id, { h with
      disk := rfl, kept := h.kept.trans ((h.saved (.inl hphase)).trans hout.symm), passes := .inl hnone, saved := fun _ => rfl
      alone := by simp [hphase], mine := fun _ _ _ hid => hid, fresh := fun _ _ => rfl, told := fun hs => (h.told hs).trans hout.symm
      logged := (h.acked (h.fresh hphase hbehind) hi id).2 }⟩
  | reread hphase hcalm =>
    have hmine : s.disk.getD s.mine = d := by rw [h.disk]; rfl
    rw [hmine]
    have hout := h.saved (.inl hphase)
    exact ⟨d, { h with
      saved := fun _ => rfl, mine := fun _ _ _ => id, fresh := fun _ _ => rfl, alone := by simp [hphase]
      told := fun hstarted => (h.told hstarted).trans hout.symm }⟩
  | finish hphase =>
    exact ⟨d, { h with
      saved := fun _ => h.saved (.inl hphase), alone := nofun, mine := nofun, fresh := nofun, told := fun _ => h.told (by simp [hphase]) }⟩
  | @load m hm hcalm =>
    cases h.disk.symm.trans hm
    obtain ⟨halone, hsaving⟩ := hcalm trivial
    exact ⟨d, { h with passes := .inr ⟨d, by rw [halone], rfl, rfl⟩, alone := fun hs => absurd hs hsaving }⟩
  | ack i id hp hi =>
    obtain ⟨rfl, rfl, hids, hrun⟩ := h.only hp
    obtain ⟨hnew, hlogged⟩ := h.acked hids hi id
    have hout := (outcomes_ack _ i id).trans hrun
    exact ⟨_, { h with
      disk := rfl, kept := h.kept.trans hout.symm, passes := .inr ⟨_, rfl, rfl, rfl⟩, fresh := nofun, logged := hlogged
      saved := fun hs => hout.trans (h.saved hs), mine := fun hs j id' hj => hnew j id' (h.mine hs j id' hj)
      alone := fun hs => absurd (h.alone hs).1 (by simp [hp]) }⟩
  | done hp =>
    obtain ⟨rfl, rfl, -⟩ := h.only hp
    exact ⟨d, { h with passes := .inl rfl, alone := fun hs => absurd (h.alone hs).1 (by simp [hp]) }⟩
  | empty hatomic => exact absurd trivial hatomic
  | kill => exact ⟨d, { h with passes := .inl rfl, saved := nofun, alone := nofun, mine := nofun, fresh := nofun, told := nofun }⟩
  | @recover m hphase hm halone =>
    cases h.disk.symm.trans hm
    have hids := serverIds_recover d
    exact ⟨_, { h with
      disk := rfl, kept := rfl, logged := hids ▸ h.logged, passes := .inl halone
      saved := by simp [hphase], alone := by simp [hphase], mine := by simp [hphase], fresh := by simp [hphase] }⟩

theorem Reachable.kept (h : Reachable True True s) : ∃ d, Kept s d := by
  induction h with
  | initial h =>
    obtain ⟨d, hdisk, hkept, hphase, hnone, hlog⟩ := h
    exact ⟨d, hdisk, hkept, by simp [hlog], .inl hnone, by simp [hphase], by simp [hphase], by simp [hphase], by simp [hphase], by simp [hphase]⟩
  | step _ hstep ih =>
    obtain ⟨d, hd⟩ := ih
    exact hd.step hstep

/-- In a calm run, once the run and the submissions have ended, the record gives each cell and the job the status that the run
gave it, and the server's id for every cell that was acknowledged. -/
theorem run_keeps_outcomes (s : State Id) (h : Reachable True True s) (hended : s.phase = .ended) (_hdone : s.passes = []) :
    ∃ m, s.disk = some m ∧ m.outcomes = s.told ∧ ∀ i id, (i, id) ∈ s.log → m.serverIds i = some id := by
  obtain ⟨d, hd⟩ := h.kept
  exact ⟨d, hd.disk, (hd.saved (.inr hended)).trans (hd.told (by simp [hended])).symm, hd.logged⟩

/-- In a calm run the record can be read at any time, with the outcomes of the last save of a run and the server's ids of all
saves. -/
theorem record_survives (s : State Id) (h : Reachable True True s) :
    ∃ m, s.disk = some m ∧ m.outcomes = s.kept ∧ ∀ i id, (i, id) ∈ s.log → m.serverIds i = some id := by
  obtain ⟨d, hd⟩ := h.kept
  exact ⟨d, hd.disk, hd.kept.symm, hd.logged⟩

/-- A job with two cells, one completed. -/
def halfDone (other : CellRunStatus) (status : JobStatus) : JobManifest Bool :=
  ⟨[true, false], fun first => ⟨if first then .completed else other, none, none⟩, status⟩

def beforeRun : State Bool :=
  ⟨some (halfDone .pending .running), halfDone .pending .running, .unstarted, [], false, (halfDone .pending .running).outcomes,
    (halfDone .pending .running).outcomes, []⟩

theorem reachable_beforeRun {atomic calm : Prop} : Reachable atomic calm beforeRun := .initial ⟨_, rfl, rfl, rfl, rfl, rfl⟩

/-- A calm run completes its cell and saves; a submission beside it is answered before the save. -/
theorem reachable_savedBeside : ∃ s : State Bool, Reachable True True s ∧ s.phase = .saved ∧ s.passes = [] ∧
    s.log = [(true, "j".toList)] ∧ s.told.1 false = .completed ∧ s.kept = s.told := by
  have h := @reachable_beforeRun True True
  replace h := h.step (.start rfl rfl fun _ => rfl)
  replace h := h.step (.load rfl fun _ => ⟨rfl, by simp⟩)
  replace h := h.step (.edit false .completed (.inr rfl))
  replace h := h.step (@Step.ack _ _ _ _ _ _ [] [] true "j".toList rfl rfl)
  replace h := h.step (@Step.done _ _ _ _ _ _ [] [] rfl)
  replace h := h.step (.read (.inl rfl) fun _ => rfl)
  replace h := h.step (.write rfl)
  refine ⟨_, h, rfl, rfl, rfl, rfl, Prod.ext ?_ rfl⟩
  funext first
  cases first <;> rfl

/-- Once it has ended, the record has the outcome of the run and the id that the submission got. -/
theorem run_keeps_outcomes_savedBeside : ∃ s : State Bool, Reachable True True s ∧ s.phase = .ended ∧ s.log = [(true, "j".toList)] ∧
    ∃ m, s.disk = some m ∧ m.outcomes = s.told ∧ (m.cells false).runStatus = .completed ∧ m.serverIds true = some "j".toList := by
  obtain ⟨s, h, hsaved, hnone, hlog, htold, -⟩ := reachable_savedBeside
  have hended := h.step (.finish hsaved)
  obtain ⟨m, hdisk, hout, hids⟩ := run_keeps_outcomes _ hended rfl hnone
  exact ⟨_, hended, rfl, hlog, m, hdisk, hout, (congrFun (congrArg Prod.fst hout) false).trans htold, hids true _ (by simp [hlog])⟩

/-- The run gives its cell another outcome, and is killed in the save of it: the record has what was saved before. -/
theorem record_survives_kill : ∃ s : State Bool, Reachable True True s ∧ s.phase = .unstarted ∧ s.told.1 false = .failed ∧
    ∃ m, s.disk = some m ∧ (m.cells false).runStatus = .completed ∧ m.serverIds true = some "j".toList := by
  obtain ⟨s, h, hsaved, hnone, hlog, htold, hkept⟩ := reachable_savedBeside
  have hkilled := ((h.step (.edit false .failed (.inr hsaved))).step (.read (.inl rfl) fun _ => hnone)).step .kill
  obtain ⟨m, hdisk, hout, hids⟩ := record_survives _ hkilled
  have hrun : m.outcomes.1 false = .completed := by rw [hout, ← htold]; exact congrFun (congrArg Prod.fst hkept) false
  exact ⟨_, hkilled, rfl, by simp, m, hdisk, hrun, hids true _ (by simp [hlog])⟩

/-- A submission loads the record before the run and is answered after it. It saves the record it loaded: the cell that the
run completed is pending again. -/
theorem submission_overwrites_run :
    ∃ s : State Bool, Reachable True False s ∧ s.phase = .ended ∧ s.passes = [] ∧ s.told.1 false = .completed ∧
      ∃ m, s.disk = some m ∧ (m.cells false).runStatus = .pending := by
  have h := @reachable_beforeRun True False
  replace h := h.step (.load rfl nofun)
  replace h := h.step (.start rfl rfl nofun)
  replace h := h.step (.edit false .completed (.inr rfl))
  replace h := h.step (.read (.inl rfl) nofun)
  replace h := h.step (.write rfl)
  replace h := h.step (.finish rfl)
  replace h := h.step (@Step.ack _ _ _ _ _ _ [] [] true "j" rfl rfl)
  replace h := h.step (@Step.done _ _ _ _ _ _ [] [] rfl)
  exact ⟨_, h, rfl, rfl, rfl, _, rfl, rfl⟩

/-- The process is killed while a save of the run fills the file: there is no record to load. -/
theorem killed_save_loses_record :
    ∃ s : State Bool, Reachable False False s ∧ s.phase = .unstarted ∧ s.passes = [] ∧ s.kept = beforeRun.kept ∧ s.disk = none := by
  have h := @reachable_beforeRun False False
  replace h := h.step (.start rfl rfl nofun)
  replace h := h.step (.edit false .running (.inr rfl))
  replace h := h.step (.read (.inl rfl) nofun)
  replace h := h.step (.empty nofun (.inl rfl))
  replace h := h.step .kill
  exact ⟨_, h, rfl, rfl, rfl, rfl⟩

end Pipette.Android.Job
