import Pipette.Phone.JobUpload

/-!
# Outcomes and acknowledgements of a job

The job's record is written whole by both sides, so outcomes and acknowledgements stay only if the saves of one fall outside
the passes of the other. Then every copy that is about to be written carries the acknowledgements that stand, and a pass sends
none of their cells.
-/

namespace Pipette.Phone.Job

open List Function PassStage

variable {Id : Type} [DecidableEq Id] {s s' : State Id} {calm : Prop}

/-! ## What stands acknowledged -/

/-- The acknowledgements that stand after one more event. -/
def Upload.after (standing : Id → Option Text) : Upload Id → Id → Option Text
  | .sent _ => standing
  | .acked i serverJobId => update standing i (some serverJobId)
  | .again i => update standing i none

/-- The id the server gave last for a cell, unless a run has since been started to replace its result. -/
def standing (log : List (Upload Id)) : Id → Option Text := log.foldl Upload.after fun _ => none

/-- No cell is sent while its acknowledgement stands. -/
def Once (log : List (Upload Id)) : Prop := ∀ l i, l ++ [.sent i] <+: log → standing l i = none

variable {log : List (Upload Id)} {i : Id}

theorem standing_concat (log : List (Upload Id)) (e : Upload Id) : standing (log ++ [e]) = e.after (standing log) := by
  simp [standing]

theorem standing_sent (log : List (Upload Id)) (batch : List Id) : standing (log ++ batch.map .sent) = standing log := by
  induction batch generalizing log with
  | nil => simp
  | cons j batch ih => rw [map_cons, append_cons, ih, standing_concat, Upload.after]

theorem standing_again (log : List (Upload Id)) (again : List Id) (i : Id) :
    standing (log ++ again.map .again) i = if i ∈ again then none else standing log i := by
  induction again generalizing log with
  | nil => simp
  | cons j again ih =>
    rw [map_cons, append_cons, ih, standing_concat, Upload.after, update_apply]
    by_cases hj : i = j <;> simp [hj]

theorem Once.concat {e : Upload Id} (h : Once log) (he : ∀ i, e = .sent i → standing log i = none) : Once (log ++ [e]) := by
  intro l i hl
  rcases prefix_concat_iff.1 hl with heq | hl
  · obtain ⟨rfl, hlast⟩ := append_inj' heq rfl
    exact he i (by simpa using hlast.symm)
  · exact h l i hl

theorem Once.sent {batch : List Id} (h : Once log) (hbatch : ∀ i ∈ batch, standing log i = none) :
    Once (log ++ batch.map .sent) := by
  induction batch generalizing log with
  | nil => simpa using h
  | cons j batch ih =>
    rw [map_cons, append_cons]
    refine ih (h.concat fun i hi => ?_) fun i hi => ?_
    · cases hi
      exact hbatch _ mem_cons_self
    · rw [standing_concat]
      exact hbatch i (mem_cons_of_mem _ hi)

theorem Once.again (h : Once log) (again : List Id) : Once (log ++ again.map .again) := by
  induction again generalizing log with
  | nil => simpa using h
  | cons j again ih =>
    rw [map_cons, append_cons]
    exact ih (h.concat nofun)

/-! ## What the disk keeps -/

/-- A record that carries every acknowledgement that stands. -/
def Carries (s : State Id) (m : JobManifest Id) : Prop :=
  ∀ i serverJobId, standing s.log i = some serverJobId → (m.cells i).serverJobId = some serverJobId

/-- What a pass still goes through, has picked, and waits for is apart. -/
def PassStage.Apart : PassStage Id → Prop
  | .picking cells queue => (cells ++ queue).Nodup
  | .between queue => queue.Nodup
  | .waiting batch queue => (batch ++ queue).Nodup
  | .answering answers queue => queue.Nodup ∧ ∀ a ∈ answers, a.1 ∉ queue

/-- What holds of a pass in a calm run: its copy has the outcomes on disk and carries the acknowledgements, and no cell that it
is to send stands acknowledged. -/
structure Loaded (s : State Id) (p : Pass Id) : Prop where
  outcomes : p.manifest.outcomes = s.disk.outcomes
  carries : Carries s p.manifest
  apart : p.stage.Apart
  queue : ∀ i ∈ p.stage.queue, standing s.log i = none

/-- What holds of the job's record in a calm run. -/
structure Kept (s : State Id) : Prop where
  once : Once s.log
  alone : s.phase = .saving → s.pass = none
  loaded : ∀ p, s.pass = some p → Loaded s p
  saved : s.phase = .saved ∨ s.phase = .ended → s.disk.outcomes = s.mine.outcomes
  disk : Carries s s.disk
  mine : s.phase = .saving → Carries s s.mine

theorem outcomes_ack (m : JobManifest Id) (i : Id) (serverJobId : Text) : (m.ack i serverJobId).outcomes = m.outcomes := by
  simp only [JobManifest.outcomes, JobManifest.ack, Prod.mk.injEq, and_true]
  funext j
  by_cases hj : j = i
  · simp [hj]
  · simp [update_of_ne hj]

variable {cells : Cells Id} {p : Pass Id} {m : JobManifest Id}

theorem Kept.runStep (hs : Kept s) (h : RunStep True s s') : Kept s' := by
  cases h with
  | start m again h hcalm =>
    obtain ⟨hnone, hids⟩ := hcalm trivial
    refine ⟨hs.once.again again, nofun, by simp [hnone], fun _ => rfl, fun i id hi => ?_, nofun⟩
    have hstands := standing_again s.log again i ▸ hi
    split_ifs at hstands with hagain
    exact (hids i hagain).trans (hs.disk i id hstands)
  | edit m h hm => exact ⟨hs.once, nofun, fun p hp => { hs.loaded p hp with }, by simp, hs.disk, nofun⟩
  | complete i h hi => exact ⟨hs.once, nofun, fun p hp => { hs.loaded p hp with }, by simp, hs.disk, nofun⟩
  | read h hcalm =>
    refine ⟨hs.once, fun _ => hcalm trivial, by simp [hcalm trivial], by simp, hs.disk, fun _ i id hi => ?_⟩
    have hdisk := hs.disk i id hi
    simp [hdisk]
  | write h => exact ⟨hs.once, nofun, by simp [hs.alone h], fun _ => rfl, hs.mine h, nofun⟩
  | finish h => exact ⟨hs.once, nofun, fun p hp => { hs.loaded p hp with }, fun _ => hs.saved (.inl h), hs.disk, nofun⟩

/-- A save of the pass, for a cell whose acknowledgement does not stand. -/
theorem Carries.ack {id : Text} (h : Carries s m) (hi : standing s.log i = none) : Carries s (m.ack i id) := by
  intro j id' hj
  have hji : j ≠ i := by rintro rfl; simp [hi] at hj
  simpa [update_of_ne hji] using h j id' hj

/-- What is given to the pass stands. -/
theorem Carries.acked {id : Text} (h : Carries s m) (hlog : s'.log = s.log ++ [.acked i id]) : Carries s' (m.ack i id) := by
  intro j id' hj
  rw [hlog, standing_concat, Upload.after] at hj
  by_cases hji : j = i
  · subst hji
    simpa using hj
  · simpa [update_of_ne hji] using h j id' (by simpa [update_of_ne hji] using hj)

/-- A step of the pass, which leaves the outcomes on the disk as they are. -/
theorem Kept.moved (hs : Kept s) (hp : s.pass = some p) (honce : Once s'.log) (hphase : s'.phase = s.phase) (hmine : s'.mine = s.mine)
    (hdisk : s'.disk.outcomes = s.disk.outcomes) (hcarries : Carries s' s'.disk)
    (hpass : ∀ p', s'.pass = some p' → Loaded s' p') : Kept s' := by
  have hsaving : s'.phase ≠ .saving := fun h => by simp [hs.alone (hphase ▸ h)] at hp
  refine ⟨honce, fun h => absurd h hsaving, hpass, fun h => ?_, hcarries, fun h => absurd h hsaving⟩
  rw [hdisk, hmine]
  exact hs.saved (hphase ▸ h)

/-- A step of the pass that saves nothing, sends nothing and is given nothing. -/
theorem Kept.quiet (hs : Kept s) (hp : s.pass = some p) (hlog : s'.log = s.log) (hdisk : s'.disk = s.disk)
    (hphase : s'.phase = s.phase) (hmine : s'.mine = s.mine) (hpass : ∀ p', s'.pass = some p' → p'.manifest = p.manifest ∧
      p'.stage.Apart ∧ ∀ i ∈ p'.stage.queue, standing s.log i = none) : Kept s' := by
  have hcarries : ∀ {m}, Carries s m → Carries s' m := fun h i id hi => h i id (hlog ▸ hi)
  refine hs.moved hp (hlog ▸ hs.once) hphase hmine (by rw [hdisk]) (hdisk ▸ hcarries hs.disk) fun p' hp' => ?_
  obtain ⟨hm, hapart, hqueue⟩ := hpass p' hp'
  obtain ⟨houtcomes, hown, -, -⟩ := hs.loaded p hp
  exact ⟨by rw [hm, hdisk]; exact houtcomes, hm ▸ hcarries hown, hapart, hlog ▸ hqueue⟩

theorem Kept.passStep (hs : Kept s) (hp : s.pass = some p) (h : PassStep cells.ids s p s') : Kept s' := by
  obtain ⟨houtcomes, hcarries, hapart, hqueue⟩ := hs.loaded p hp
  have hack (i : Id) (id : Text) : (p.manifest.ack i id).outcomes = s.disk.outcomes := (outcomes_ack _ i id).trans houtcomes
  -- a cell that the pass's own copy has no id for does not stand acknowledged
  have hnew (i : Id) (hi : (p.manifest.cells i).serverJobId = none) : standing s.log i = none := by
    by_contra hne
    obtain ⟨id, hid⟩ := Option.ne_none_iff_exists'.1 hne
    simp [hcarries i id hid] at hi
  have hto {p' : Pass Id} {record : Id → Option Text} (hm : p'.manifest = p.manifest) (hapart' : p'.stage.Apart)
      (hqueue' : ∀ i ∈ p'.stage.queue, standing s.log i = none) : Kept { s with record, pass := some p' } := by
    refine hs.quiet hp rfl rfl rfl rfl ?_
    rintro _ ⟨⟩
    exact ⟨hm, hapart', hqueue'⟩
  cases h with
  | @adopt i _ _ id h hi =>
    have hstays : Carries s (p.manifest.ack i id) := hcarries.ack (hnew i hi.1)
    refine hs.moved hp hs.once rfl rfl (hack i id) hstays ?_
    rintro _ ⟨⟩
    rw [h] at hapart hqueue
    exact ⟨rfl, hstays, (nodup_cons.1 hapart).2, hqueue⟩
  | @ack i id answers queue h =>
    rw [h, Apart] at hapart
    rw [h] at hqueue
    refine hs.moved hp (hs.once.concat (by rintro _ ⟨⟩)) rfl rfl (hack i id) (hcarries.acked rfl) ?_
    rintro _ ⟨⟩
    refine ⟨rfl, hcarries.acked rfl, ⟨hapart.1, fun a ha => hapart.2 a (mem_cons_of_mem _ ha)⟩, fun j hj => ?_⟩
    have hji : j ≠ i := fun heq => hapart.2 _ mem_cons_self (heq ▸ hj)
    simpa [standing_concat, Upload.after, update_of_ne hji] using hqueue j hj
  | @send batch queue h hbatch =>
    rw [h, Apart] at hapart
    rw [h] at hqueue
    have hcarries' : ∀ {m}, Carries s m → ∀ j id, standing (s.log ++ batch.map .sent) j = some id → (m.cells j).serverJobId = some id :=
      fun h j id hj => h j id (standing_sent s.log batch ▸ hj)
    refine hs.moved hp (hs.once.sent fun i hi => hqueue i (mem_append_left _ hi)) rfl rfl rfl (hcarries' hs.disk) ?_
    rintro _ ⟨⟩
    refine ⟨houtcomes, hcarries' hcarries, hapart, fun j hj => ?_⟩
    rw [standing_sent]
    exact hqueue j (mem_append_right _ hj)
  | skip h =>
    rw [h] at hapart hqueue
    exact hto rfl (nodup_cons.1 hapart).2 hqueue
  | pick h hi =>
    rw [h] at hapart hqueue
    refine hto rfl ?_ (forall_mem_append.2 ⟨hqueue, forall_mem_singleton.2 (hnew _ hi.2.1)⟩)
    rw [Apart, ← append_assoc, nodup_append_comm]
    exact hapart
  | picked h =>
    rw [h] at hapart hqueue
    exact hto rfl hapart hqueue
  | lose h =>
    rw [h] at hapart hqueue
    exact hto rfl (nodup_append.1 hapart).2.1 hqueue
  | answer answers h hanswers =>
    rw [h] at hapart hqueue
    obtain ⟨-, hnodup, hapart⟩ := nodup_append.1 hapart
    exact hto rfl ⟨hnodup, fun a ha hmem => hapart _ (hanswers a ha) _ hmem rfl⟩ hqueue
  | refuse h =>
    rw [h] at hapart hqueue
    exact hto rfl ⟨hapart.1, fun a ha => hapart.2 a (mem_cons_of_mem _ ha)⟩ hqueue
  | answered h =>
    rw [h] at hapart hqueue
    exact hto rfl hapart.1 hqueue
  | retry h hp' => exact hto rfl (by simpa [Apart] using cells.nodup) (forall_mem_nil _)
  | done h hn => exact hs.quiet hp rfl rfl rfl rfl (by rintro _ ⟨⟩)

theorem Reachable.kept (h : Reachable cells True s) : Kept s := by
  induction h with
  | initial h =>
    obtain ⟨hphase, hpass, hlog⟩ := h
    exact ⟨by simp [Once, hlog], by simp [hphase], by simp [hpass], by simp [hphase], by simp [Carries, hlog, standing], by simp [hphase]⟩
  | step _ hstep ih =>
    cases hstep with
    | run h => exact ih.runStep h
    | pass hp h => exact ih.passStep hp h
    | load retries h hcalm =>
      refine ⟨ih.once, fun hsaving => absurd hsaving (hcalm trivial), ?_, ih.saved, ih.disk, ih.mine⟩
      rintro _ ⟨⟩
      exact ⟨rfl, ih.disk, by simpa [Apart] using cells.nodup, nofun⟩

/-- In a calm run nothing is sent again while its acknowledgement stands. Once the run and all passes have ended, the job's
record gives each cell and the job the status that the run gave it, and the server's id for every cell that stands acknowledged. -/
theorem job_keeps_outcomes (cells : Cells Id) (s : State Id) (h : Reachable cells True s) : Once s.log ∧
    (s.phase = .ended → s.pass = none → s.disk.outcomes = s.mine.outcomes ∧
      ∀ i id, standing s.log i = some id → (s.disk.cells i).serverJobId = some id) :=
  ⟨h.kept.once, fun hended _ => ⟨h.kept.saved (.inr hended), h.kept.disk⟩⟩

/-- A record of two cells, of which one is completed; `ack` is the server's id for it. -/
def twoCells (ack : Option Text) (other : CellRunStatus) (status : JobStatus) : JobManifest Bool :=
  ⟨fun first => if first then ⟨.completed, ack, 0⟩ else ⟨other, none, 0⟩, status⟩

def twoIds : Cells Bool := ⟨[true, false], by decide⟩

/-- A paused job whose completed cell is not acknowledged. -/
theorem reachable_paused {calm : Prop} : Reachable twoIds calm
    ⟨twoCells none .cancelled .paused, fun _ => none, twoCells none .cancelled .paused, .unstarted, none, []⟩ := .initial ⟨rfl, rfl, rfl⟩

/-- A pass sends the completed cell, the job is resumed and the other cell completed, and a pass sends that one. -/
theorem job_keeps_outcomes_resumed : ∃ s, Reachable twoIds True s ∧ s.phase = .ended ∧ s.pass = none ∧ Once s.log ∧
    s.disk.status = .completed ∧ (s.disk.cells false).runStatus = .completed ∧
    (s.disk.cells true).serverJobId = some "a" ∧ (s.disk.cells false).serverJobId = some "b" := by
  have h := @reachable_paused True
  replace h := h.step (.load 0 rfl nofun)
  replace h := h.step (.pass rfl (.pick rfl ⟨rfl, rfl, rfl⟩))
  replace h := h.step (.pass rfl (.skip rfl))
  replace h := h.step (.pass rfl (.picked rfl))
  replace h := h.step (.pass rfl (@PassStep.send _ _ _ _ _ [true] [] rfl nofun))
  replace h := h.step (.pass rfl (.answer [(true, some "a")] rfl (by simp)))
  replace h := h.step (.pass rfl (.ack rfl))
  replace h := h.step (.pass rfl (.answered rfl))
  replace h := h.step (.pass rfl (.done rfl (.inl rfl)))
  replace h := h.step (.run (.start (twoCells (some "a") .pending .running) [] rfl fun _ => ⟨rfl, by decide⟩))
  replace h := h.step (.run (.edit (twoCells (some "a") .running .running) (.inr rfl) (by decide)))
  replace h := h.step (.run (.complete false (.inl rfl) rfl))
  replace h := h.step (.run (.edit (twoCells (some "a") .completed .completed) (.inl rfl) (by decide)))
  replace h := h.step (.run (.read (.inl rfl) fun _ => rfl))
  replace h := h.step (.run (.write rfl))
  replace h := h.step (.load 0 rfl nofun)
  replace h := h.step (.pass rfl (.skip rfl))
  replace h := h.step (.pass rfl (.pick rfl ⟨rfl, rfl, rfl⟩))
  replace h := h.step (.pass rfl (.picked rfl))
  replace h := h.step (.pass rfl (@PassStep.send _ _ _ _ _ [false] [] rfl nofun))
  replace h := h.step (.pass rfl (.answer [(false, some "b")] rfl (by simp)))
  replace h := h.step (.pass rfl (.ack rfl))
  replace h := h.step (.pass rfl (.answered rfl))
  replace h := h.step (.pass rfl (.done rfl (.inl rfl)))
  replace h := h.step (.run (.finish rfl))
  obtain ⟨honce, hends⟩ := job_keeps_outcomes _ _ h
  obtain ⟨houtcomes, hids⟩ := hends rfl rfl
  refine ⟨_, h, rfl, rfl, honce, congrArg Prod.snd houtcomes, congrFun (congrArg Prod.fst houtcomes) false, ?_, ?_⟩
  · exact hids true _ rfl
  · exact hids false _ rfl

/-- A pass loads the record of a paused job and sends its completed cell; before the answer the job is resumed and its other
cell completed. The pass saves what it loaded: the cell is cancelled again and the job paused. -/
theorem pass_overwrites_outcomes : ∃ s : State Bool, Reachable twoIds False s ∧ s.phase = .ended ∧ s.pass = none ∧
      s.mine.status = .completed ∧ (s.mine.cells false).runStatus = .completed ∧
      s.disk.status = .paused ∧ (s.disk.cells false).runStatus = .cancelled := by
  have h := @reachable_paused False
  replace h := h.step (.load 0 rfl nofun)
  replace h := h.step (.pass rfl (.pick rfl ⟨rfl, rfl, rfl⟩))
  replace h := h.step (.pass rfl (.skip rfl))
  replace h := h.step (.pass rfl (.picked rfl))
  replace h := h.step (.pass rfl (@PassStep.send _ _ _ _ _ [true] [] rfl nofun))
  replace h := h.step (.run (.start (twoCells none .pending .running) [] rfl nofun))
  replace h := h.step (.run (.edit (twoCells none .running .running) (.inr rfl) (by decide)))
  replace h := h.step (.run (.complete false (.inl rfl) rfl))
  replace h := h.step (.run (.edit (twoCells none .completed .completed) (.inl rfl) (by decide)))
  replace h := h.step (.run (.read (.inl rfl) nofun))
  replace h := h.step (.run (.write rfl))
  replace h := h.step (.run (.finish rfl))
  replace h := h.step (.pass rfl (.answer [(true, some "j")] rfl (by simp)))
  replace h := h.step (.pass rfl (.ack rfl))
  replace h := h.step (.pass rfl (.answered rfl))
  replace h := h.step (.pass rfl (.done rfl (.inl rfl)))
  exact ⟨_, h, rfl, rfl, rfl, rfl, rfl, rfl⟩

end Pipette.Phone.Job
