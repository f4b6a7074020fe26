import Pipette.Phone.WorkerSession

/-!
# A session that was replaced

Only `finish` and the `defer` of `runUntilStopped` ask whether the task still owns the session. A task that goes on after its
session was replaced is harmless if it was in its idle sleep, since its cancelled loop writes nothing more. From any other
wait it may write what the newer session shows, and switch it off.
-/

namespace Pipette.Phone.Session

open Function State

variable {Ctl : Type} {s s' : State Ctl} {g : Nat}

/-- What a task does beside what is shown: its own row, the end of its session, and its claims. -/
structure ByTask (g : Nat) (s s' : State Ctl) : Prop where
  others : ∀ u, u ≠ g → s'.tasks u = s.tasks u
  cancelled : (s'.tasks g).cancelled = (s.tasks g).cancelled
  generation : s'.sessionGeneration = s.sessionGeneration
  loopTask : s'.loopTask = s.loopTask ∨ g = s.sessionGeneration ∧ s'.loopTask = none ∧ (s'.tasks g).wait = .ended
  asked : ∀ x ∈ s'.asked, x ∈ s.asked ∨ x = (g, s.sessionGeneration)
  taken : ∀ x ∈ s'.taken, x ∈ s.taken ∨ x = (g, s.sessionGeneration)

/-- Two states that differ in what is shown and in the local variables of one task. -/
def Alike (g : Nat) (s s₁ : State Ctl) : Prop :=
  (∀ u, u ≠ g → s₁.tasks u = s.tasks u) ∧ (s₁.tasks g).cancelled = (s.tasks g).cancelled ∧
    s₁.sessionGeneration = s.sessionGeneration ∧ s₁.loopTask = s.loopTask ∧ s₁.asked = s.asked ∧ s₁.taken = s.taken

theorem ByTask.of_alike {s₁ : State Ctl} (h : ByTask g s₁ s') (ha : Alike g s s₁) : ByTask g s s' := by
  obtain ⟨hothers, hcancelled, hgeneration, hloop, hasked, htaken⟩ := ha
  refine ⟨fun u hu => (h.others u hu).trans (hothers u hu), h.cancelled.trans hcancelled, h.generation.trans hgeneration, ?_, ?_, ?_⟩
  · exact hgeneration ▸ hloop ▸ h.loopTask
  · exact hgeneration ▸ hasked ▸ h.asked
  · exact hgeneration ▸ htaken ▸ h.taken

theorem byTask_leave (g : Nat) (s : State Ctl) : ByTask g s (s.leave g) := by
  refine ⟨fun u hu => update_of_ne hu _ _, by simp, rfl, ?_, fun _ => .inl, fun _ => .inl⟩
  by_cases hg : g = s.sessionGeneration <;> simp [owned, hg]

theorem byTask_loop (g : Nat) (s : State Ctl) : ByTask g s (s.loop g) := by
  unfold loop
  split
  · exact ⟨fun u hu => update_of_ne hu _ _, by simp, rfl, .inl rfl, by simp [or_comm], fun _ => .inl⟩
  · exact (byTask_leave g _).of_alike (by simp [Alike])

theorem byTask_resume (g : Nat) (s : State Ctl) (wait : Wait) (answer : Answer) : ByTask g s (s.resume g wait answer) := by
  have hleave (s₁ : State Ctl) (h : Alike g s s₁) : ByTask g s (s₁.leave g) := (byTask_leave g s₁).of_alike h
  have hloop (s₁ : State Ctl) (h : Alike g s s₁) : ByTask g s (s₁.loop g) := (byTask_loop g s₁).of_alike h
  fun_cases resume g s wait answer
  all_goals first
    | exact hleave _ (by simp +contextual +zetaDelta [Alike])
    | exact hloop _ (by simp +contextual +zetaDelta [Alike])
    | constructor <;> simp +contextual +zetaDelta [or_comm]

/-! ## Runs -/

/-- A session is started only when each older task has ended or is in its idle sleep. -/
def Calm (s : State Ctl) : Action Ctl → Prop
  | .turnOn true _ _ => s.loopTask = none → ∀ g, (s.tasks g).wait = .ended ∨ (s.tasks g).wait = .idle
  | _ => True

/-- The states that any sequence of calls and of tasks going on leads to, or only a calm one. -/
inductive Reachable (calm : Prop) : State Ctl → Prop
  | launched : Reachable calm .launched
  | act {s : State Ctl} (h : Reachable calm s) (a : Action Ctl) (hcalm : calm → Calm s a) : Reachable calm (s.act a)

/-- What holds between calls in a calm run. -/
structure Replaced (s : State Ctl) : Prop where
  unstarted : ∀ g, s.sessionGeneration < g → (s.tasks g).wait = .ended
  older : ∀ g, g < s.sessionGeneration → (s.tasks g).wait = .ended ∨ (s.tasks g).wait = .idle ∧ (s.tasks g).cancelled
  stopped : s.loopTask = none → (s.tasks s.sessionGeneration).wait = .ended ∨ (s.tasks s.sessionGeneration).cancelled
  newest : ∀ g, s.loopTask = some g → g = s.sessionGeneration
  asked : ∀ x ∈ s.asked, x.1 = x.2
  taken : ∀ x ∈ s.taken, x.1 = x.2

/-- A task that has ended does nothing. -/
theorem resume_ended (g : Nat) (s : State Ctl) (answer : Answer) : s.resume g .ended answer = s := by cases answer <;> rfl

/-- A cancelled task of an older session that is woken from its idle sleep shows nothing and asks for nothing. -/
theorem resume_older (hg : g < s.sessionGeneration) (hcancelled : (s.tasks g).cancelled) (answer : Answer) :
    let s' := s.resume g .idle answer
    s'.shown = s.shown ∧ (s' = s ∨ s' = s.waitAt g .ended) := by
  have hne : g ≠ s.sessionGeneration := Nat.ne_of_lt hg
  cases answer with
  | slept interrupted => cases interrupted <;> simp [resume, loop, owned, shown, hcancelled, hne]
  | _ => exact ⟨rfl, .inl rfl⟩

theorem Replaced.resume (hs : Replaced s) (g : Nat) (answer : Answer) : Replaced (s.resume g (s.tasks g).wait answer) := by
  by_cases hended : (s.tasks g).wait = .ended
  · rwa [hended, resume_ended]
  obtain hg | rfl | hg := Nat.lt_trichotomy g s.sessionGeneration
  · obtain ⟨hidle, hcancelled⟩ := (hs.older g hg).resolve_left hended
    rw [hidle]
    obtain heq | heq := (resume_older hg hcancelled answer).2
    · rwa [heq]
    · rw [heq]
      constructor <;> simp only [waitAt, setTask, update_apply] <;> grind [Replaced]
  · have h := byTask_resume s.sessionGeneration s (s.tasks s.sessionGeneration).wait answer
    have hone (x : Nat × Nat) (hx : x = (s.sessionGeneration, s.sessionGeneration)) : x.1 = x.2 := by rw [hx]
    refine ⟨?_, ?_, ?_, ?_, fun x hx => (h.asked x hx).elim (hs.asked x) (hone x), fun x hx => (h.taken x hx).elim (hs.taken x) (hone x)⟩
    all_goals rw [h.generation]
    · intro u hu
      rw [h.others u (Nat.ne_of_gt hu)]
      exact hs.unstarted u hu
    · intro u hu
      rw [h.others u (Nat.ne_of_lt hu)]
      exact hs.older u hu
    · intro hnone
      rw [h.cancelled]
      obtain hsame | ⟨-, -, hwait⟩ := h.loopTask
      · exact .inr ((hs.stopped (hsame ▸ hnone)).resolve_left hended)
      · exact .inl hwait
    · intro u hu
      obtain hsame | ⟨-, hnone, -⟩ := h.loopTask
      · exact hs.newest u (hsame ▸ hu)
      · simp [hnone] at hu
  · exact absurd (hs.unstarted g hg) hended

theorem Replaced.act (hs : Replaced s) (a : Action Ctl) (hcalm : Calm s a) : Replaced (s.act a) := by
  match a with
  | .turnOn false _ _ => exact ⟨hs.unstarted, hs.older, hs.stopped, hs.newest, hs.asked, hs.taken⟩
  | .turnOn true controllers options =>
    simp only [State.act]
    split
    · exact ⟨hs.unstarted, hs.older, hs.stopped, hs.newest, hs.asked, hs.taken⟩
    · next hnone =>
      rw [Option.not_isSome_iff_eq_none] at hnone
      have hquiet := hcalm hnone
      constructor <;> simp only [start, update_apply] <;> grind [Replaced]
  | .turnOff _ true => exact ⟨hs.unstarted, hs.older, hs.stopped, hs.newest, hs.asked, hs.taken⟩
  | .turnOff _ false =>
    cases hloop : s.loopTask with
    | none => constructor <;> simp only [State.act, State.stop, hloop] <;> grind [Replaced]
    | some g =>
      obtain rfl := hs.newest g hloop
      constructor <;> simp only [State.act, State.stop, hloop, State.setTask, update_apply] <;> grind [Replaced]
  | .resume g answer => exact hs.resume g answer

theorem Reachable.replaced (h : Reachable True s) : Replaced s := by
  induction h with
  | launched => constructor <;> simp [State.launched]
  | act _ a hcalm ih => exact ih.act a (hcalm trivial)

/-- In a run in which a session is started only when each older task has ended or is in its idle sleep, an older task changes
nothing that is shown, only the newest session asks for claims or is given any, and a session that is up ends or is
switched off only by a call or by its own task. -/
theorem stale_session_harmless (h : Reachable True s) :
    (∀ g answer, g < s.sessionGeneration → (s.act (.resume g answer)).shown = s.shown) ∧
      (∀ x ∈ s.asked ++ s.taken, x.1 = x.2) ∧
      ∀ g a, s.loopTask = some g →
        (s.act a).loopTask = some g ∧ (s.enabled → (s.act a).enabled) ∨ (∃ background busy, a = .turnOff background busy) ∨
          (∃ controllers options, a = .turnOn false controllers options) ∨ ∃ answer, a = .resume g answer := by
  have hs := h.replaced
  have hstale (g : Nat) (answer : Answer) (hg : g < s.sessionGeneration) : (s.act (.resume g answer)).shown = s.shown := by
    simp only [act]
    obtain hended | ⟨hidle, hcancelled⟩ := hs.older g hg
    · rw [hended, resume_ended]
    · rw [hidle]
      exact (resume_older hg hcancelled answer).1
  refine ⟨hstale, ?_, ?_⟩
  · intro x hx
    exact (List.mem_append.1 hx).elim (hs.asked x) (hs.taken x)
  · intro g a hloop
    obtain rfl := hs.newest g hloop
    match a with
    | .turnOn true controllers options => exact .inl (by simp [act, hloop])
    | .turnOn false controllers options => exact .inr (.inr (.inl ⟨_, _, rfl⟩))
    | .turnOff background busy => exact .inr (.inl ⟨_, _, rfl⟩)
    | .resume u answer =>
      obtain hu | rfl | hu := Nat.lt_trichotomy u s.sessionGeneration
      · have hshown := hstale u answer hu
        simp only [shown, Prod.mk.injEq] at hshown
        exact .inl ⟨hshown.2.2.2.2.2.trans hloop, fun hon => hshown.1.trans hon⟩
      · exact .inr (.inr (.inr ⟨answer, rfl⟩))
      · refine .inl ?_
        rw [act, hs.unstarted u hu, resume_ended]
        exact ⟨hloop, id⟩

/-- The worker is turned on, finds no work and sleeps, and is turned off. -/
def stoppedAsleep : State Unit :=
  (((launched.act (.turnOn true () { skipProfileRefresh := true })).act (.resume 1 (.begun true))).act
    (.resume 1 (.polled (.idle 30)))).act (.turnOff false false)

/-- It is turned on again, and the older task wakes. -/
theorem stale_session_harmless_asleep : let s := stoppedAsleep.act (.turnOn true () {})
    s.sessionGeneration = 2 ∧ (s.tasks 1).wait = .idle ∧ (s.act (.resume 1 (.slept true))).shown = s.shown := by
  have hasleep : Reachable True stoppedAsleep := by
    refine .act (.act (.act (.act .launched _ ?_) _ ?_) _ ?_) _ ?_
    exacts [fun _ _ _ => .inl rfl, fun _ => trivial, fun _ => trivial, fun _ => trivial]
  have hcalm : Calm stoppedAsleep (.turnOn true () {}) := by
    intro _ g
    by_cases hg : g = 1
    · rw [hg]
      exact .inr rfl
    · refine .inl ?_
      simp [stoppedAsleep, act, launched, start, resume, loop, stop, hg]
  exact ⟨rfl, rfl, (stale_session_harmless (.act hasleep _ fun _ => hcalm)).1 1 (.slept true) (by decide)⟩

/-- The worker is turned on and waits for a claim, is turned off and on again, and the newer session waits for its own. -/
def replacedSession : State Unit :=
  ((((launched.act (.turnOn true () { skipProfileRefresh := true })).act (.resume 1 (.begun true))).act
    (.turnOff false false)).act (.turnOn true () { skipProfileRefresh := true })).act (.resume 2 (.begun true))

/-- The older task's claim is refused, and the newer session is switched off. -/
theorem older_task_switches_off :
    Reachable False replacedSession ∧ replacedSession.sessionGeneration = 2 ∧ replacedSession.enabled ∧
      replacedSession.statusText = .claiming 0 ∧ (replacedSession.act (.resume 1 (.polled .refused))).enabled = false ∧
      (replacedSession.act (.resume 1 (.polled .refused))).statusText = .notApproved := by
  refine ⟨?_, rfl, rfl, rfl, rfl, rfl⟩
  have hcall {s : State Unit} (h : Reachable False s) (a : Action Unit) : Reachable False (s.act a) := .act h a False.elim
  exact hcall (hcall (hcall (hcall (hcall .launched _) _) _) _) _

end Pipette.Phone.Session
