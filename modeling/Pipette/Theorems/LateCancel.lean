import Pipette.Android.RemoteEngine

/-!
# A timer and the operation that armed it

A posted timer belongs to a run in progress, or to an unload that no operation followed, as long as nothing posts it late.
-/

namespace Pipette.Android.RemoteEngine

/-- The run whose cancel posted the timer is in progress; no operation has begun since the unload that did. -/
def Timer.Own (runs : List Nat) (ops : Nat) : Timer → Prop
  | .hardCancel r => r ∈ runs
  | .idleTeardown n => ops = n

/-- What holds in a calm run: every timer, posted, fired or run, belongs to its operation. -/
structure Owned (s : State) : Prop where
  cancel : ∀ r, s.hardCancel = some r → r ∈ s.runs
  idle : ∀ n, s.idleTeardown = some n → s.ops = n
  firing : ∀ t, s.firing = some t → t.Own s.runs s.ops
  log : ∀ e ∈ s.log, e.timer.Own e.runs e.ops

/-- A fired cancel timer keeps its run while other runs begin and operations with them. -/
theorem Owned.begin {s : State} (h : Owned s) (hcalm : ∀ n, s.firing ≠ some (.idleTeardown n)) (r : Nat) (ops : Nat) :
    ∀ t, s.firing = some t → t.Own (r :: s.runs) ops ∧ t.Own s.runs ops := by
  intro t ht
  cases t with
  | hardCancel r' => exact ⟨List.mem_cons_of_mem _ (h.firing _ ht), h.firing _ ht⟩
  | idleTeardown n => exact absurd ht (hcalm n)

theorem Owned.step {s s' : State} (h : Owned s) (hstep : Step True s s') : Owned s' := by
  cases hstep with
  | load hcalm => exact ⟨h.cancel, nofun, fun t ht => (h.begin (hcalm trivial) 0 _ t ht).2, h.log⟩
  | run hcalm =>
    exact ⟨fun r hr => List.mem_cons_of_mem _ (h.cancel r hr), nofun, fun t ht => (h.begin (hcalm trivial) _ _ t ht).1, h.log⟩
  | cancel r hr hcalm =>
    refine ⟨?_, h.idle, h.firing, h.log⟩
    rintro _ ⟨⟩
    exact hcalm trivial
  | finish r hr hcalm =>
    refine ⟨nofun, h.idle, fun t ht => ?_, h.log⟩
    cases t with
    | hardCancel r' =>
      have hne : r' ≠ r := fun heq => hcalm trivial (heq ▸ ht)
      exact (List.mem_erase_of_ne hne).2 (h.firing _ ht)
    | idleTeardown n => exact h.firing _ ht
  | unload =>
    refine ⟨h.cancel, ?_, h.firing, h.log⟩
    rintro _ ⟨⟩
    rfl
  | fireCancel hr hf =>
    refine ⟨nofun, h.idle, ?_, h.log⟩
    rintro _ ⟨⟩
    exact h.cancel _ hr
  | fireIdle hn hf =>
    refine ⟨h.cancel, nofun, ?_, h.log⟩
    rintro _ ⟨⟩
    exact h.idle _ hn
  | act ht =>
    refine ⟨nofun, nofun, nofun, fun e he => ?_⟩
    split at he
    · obtain rfl | he := List.mem_cons.1 he
      · exact h.firing _ ht
      · exact h.log e he
    · exact h.log e he
  | teardown => exact ⟨nofun, nofun, h.firing, h.log⟩

theorem Reachable.owned {s : State} (h : Reachable True s) : Owned s := by
  induction h with
  | initial => exact ⟨nofun, nofun, nofun, nofun⟩
  | step _ hstep ih => exact ih.step hstep

/-- In a calm run the cancel timer takes the process down only while the run whose cancel posted it is in progress, the idle
timer only if no operation has begun since the unload that posted it. -/
theorem teardowns_own (s : State) (h : Reachable True s) : ∀ e ∈ s.log, e.timer.Own e.runs e.ops := h.owned.log

/-- A cancelled run does not return in time, so its timer takes the process down; a later unload is left alone until its own
does. -/
theorem teardowns_own_both : ∃ s, Reachable True s ∧ s.log = [⟨.idleTeardown 2, [], 2⟩, ⟨.hardCancel 0, [0], 1⟩] ∧
    ∀ e ∈ s.log, e.timer.Own e.runs e.ops := by
  have h : Reachable True _ := .initial
  replace h := h.step (.run nofun)
  replace h := h.step (.cancel 0 (by decide) (by simp))
  replace h := h.step (.fireCancel rfl rfl)
  replace h := h.step (.act rfl)
  replace h := h.step (.finish 0 (by decide) nofun)
  replace h := h.step (.load nofun)
  replace h := h.step .unload
  replace h := h.step (.fireIdle rfl rfl)
  replace h := h.step (.act rfl)
  exact ⟨_, h, rfl, teardowns_own _ h⟩

/-- The last progress message of a cancelled run is handled after the run; the timer it posts takes the process down under the
next. -/
theorem late_cancel_stops_next :
    ∃ s, Reachable False s ∧ ⟨.hardCancel 0, [1], 2⟩ ∈ s.log ∧ ¬(Timer.hardCancel 0).Own [1] 2 := by
  have h : Reachable False _ := .initial
  replace h := h.step (.run nofun)
  replace h := h.step (.finish 0 (by decide) nofun)
  replace h := h.step (.cancel 0 (by decide) nofun)
  replace h := h.step (.run nofun)
  replace h := h.step (.fireCancel rfl rfl)
  replace h := h.step (.act rfl)
  exact ⟨_, h, by simp, by simp [Timer.Own]⟩

end Pipette.Android.RemoteEngine
