import Pipette.Lemmas.Routing

/-!
# What one action of a worker does

An action of a worker leaves the other workers as they are. It takes an item from a queue, puts the one it holds into a queue,
ends it with an event, drops it, or keeps it (`Effect`), and moves at most one slot between the worker and the free ones
(`Step.slots`).
-/

namespace Pipette.Runner

open Function Finset

variable {T : PlanTypes} {v : Invocation T} {w u : Nat} {cfg : TransportConfig} {s s' : RunState}

/-! ## Parts of a state -/

namespace RunState

@[simp] theorem goto_phase (s : RunState) (w : Nat) (p : Phase) : ((s.goto w p).workers w).phase = p := by simp [goto]

theorem goto_workers_of_ne (s : RunState) (p : Phase) (h : u ≠ w) : (s.goto w p).workers u = s.workers u := by simp [goto, h]

theorem setFailures_workers_of_ne (s : RunState) (n : Nat) (h : u ≠ w) : (s.setFailures w n).workers u = s.workers u := by
  simp [setFailures, h]

end RunState

open RunState

/-- After an event that ended an attempt a worker goes on with its queues, or has reached the cap. -/
theorem afterAttempt_cases (v : Invocation T) (s : RunState) (w : Nat) (cfg : TransportConfig) (code : Int) :
    ∃ n p, afterAttempt v s w cfg code = (s.setFailures w n).goto w p ∧
      (p = .popping (v.queuesFor cfg) ∨ p = .stopped .failureCap) := by
  unfold afterAttempt
  split
  · exact ⟨0, _, rfl, .inl rfl⟩
  dsimp only
  split
  · exact ⟨_, _, rfl, .inr rfl⟩
  · exact ⟨_, _, rfl, .inl rfl⟩

theorem afterAttempt_phase (v : Invocation T) (s : RunState) (w : Nat) (cfg : TransportConfig) (code : Int) :
    ((afterAttempt v s w cfg code).workers w).phase = .popping (v.queuesFor cfg) ∨
      ((afterAttempt v s w cfg code).workers w).phase = .stopped .failureCap := by
  obtain ⟨n, p, heq, hp⟩ := afterAttempt_cases v s w cfg code
  rwa [heq, goto_phase]

theorem Step.others (h : Step v w cfg s s') (hu : u ≠ w) : s'.workers u = s.workers u := by
  cases h
  case writeEnd item code hphase =>
    obtain ⟨n, p, heq, -⟩ := afterAttempt_cases v (s.note (.wrote w item (statusOf code) cfg.clientId)) w cfg code
    rw [heq, goto_workers_of_ne _ _ hu, setFailures_workers_of_ne _ _ hu]
    rfl
  all_goals exact goto_workers_of_ne _ _ hu

/-! ## Items -/

/-- What an action does to the items. -/
inductive Effect (v : Invocation T) (w : Nat) (cfg : TransportConfig) (s s' : RunState) : Prop where
  | take {q rest item items} (h : (s.workers w).phase = .popping (q :: rest)) (hq : s.queues q = item :: items)
    (hqueues : s'.queues = update s.queues q items) (hphase : (s'.workers w).phase = .probing item q)
    (hlog : s'.log = s.log)
  | put {item q} (h : (s.workers w).phase = .returning item q)
    (hqueues : s'.queues = update s.queues q (s.queues q ++ [item]))
    (hphase : (s'.workers w).phase = .waiting v.maxRetries) (hlog : s'.log = .handedBack w item :: s.log)
  | finish {item code} (h : (s.workers w).phase = .finishing item code) (hqueues : s'.queues = s.queues)
    (hphase : (s'.workers w).phase = .popping (v.queuesFor cfg) ∨ (s'.workers w).phase = .stopped .failureCap)
    (hlog : s'.log = .wrote w item (statusOf code) cfg.clientId :: s.log)
  | drop {item} (h : (s.workers w).phase.item? = some item) (hqueues : s'.queues = s.queues)
    (hphase : (s'.workers w).phase = .stopped .unwritten) (hlog : s'.log = s.log)
  | keep (hqueues : s'.queues = s.queues) (hitem : (s'.workers w).phase.item? = (s.workers w).phase.item?)
    (hlog : s'.log = s.log ∨ ∃ item, (s.workers w).phase.item? = some item ∧
      (s'.log = .wrote w item .started cfg.clientId :: s.log ∨ s'.log = .began w item :: s.log))

theorem Step.effect (h : Step v w cfg s s') : Effect v w cfg s s' := by
  cases h with
  | pop h hq => exact .take h hq rfl (goto_phase _ _ _) rfl
  | pushBack h => exact .put h rfl (goto_phase _ _ _) rfl
  | @writeEnd item code h =>
    obtain ⟨n, p, heq, hp⟩ := afterAttempt_cases v (s.note (.wrote w item (statusOf code) cfg.clientId)) w cfg code
    rw [heq]
    exact .finish h rfl (by rwa [goto_phase]) rfl
  | startedUnwritten h => exact .drop (by rw [h]; rfl) rfl (goto_phase _ _ _) rfl
  | endUnwritten h => exact .drop (by rw [h]; rfl) rfl (goto_phase _ _ _) rfl
  | writeStarted h => exact .keep rfl (by rw [goto_phase, h]; rfl) (.inr ⟨_, by rw [h]; rfl, .inl rfl⟩)
  | exec h => exact .keep rfl (by rw [goto_phase, h]; rfl) (.inr ⟨_, by rw [h]; rfl, .inr rfl⟩)
  | _ h => exact .keep rfl (by rw [goto_phase, h]; rfl) (.inl rfl)

/-- What is in a queue was in it, or a worker puts it there. -/
theorem Step.mem_queue (h : Step v w cfg s s') {q : QueueId} {item : RunnableItem} (hitem : item ∈ s'.queues q) :
    item ∈ s.queues q ∨ (s.workers w).phase = .returning item q := by
  cases h.effect with
  | @take q' rest item' items _ hq hqueues _ _ =>
    rw [hqueues, update_apply] at hitem
    split at hitem
    · next heq => exact .inl (by simp [heq, hq, hitem])
    · exact .inl hitem
  | @put item' q' hphase hqueues _ _ =>
    rw [hqueues, update_apply] at hitem
    split at hitem
    · next heq =>
      rw [← heq, List.mem_append, List.mem_singleton] at hitem
      rcases hitem with hitem | rfl
      · exact .inl hitem
      · exact .inr (heq ▸ hphase)
    · exact .inl hitem
  | finish _ hqueues _ _ | drop _ hqueues _ _ | keep hqueues _ _ => exact .inl (hqueues ▸ hitem)

/-- What a worker holds it held, or it has it from a queue it was trying. -/
theorem Step.item (h : Step v w cfg s s') {item : RunnableItem} (hitem : (s'.workers w).phase.item? = some item) :
    (s.workers w).phase.item? = some item ∨ ∃ q rest, (s.workers w).phase = .popping (q :: rest) ∧ item ∈ s.queues q := by
  cases h.effect with
  | @take q rest item' items hphase hq _ hphase' _ =>
    rw [hphase'] at hitem
    cases hitem
    exact .inr ⟨q, rest, hphase, by simp [hq]⟩
  | put _ _ hphase' _ | drop _ _ hphase' _ =>
    rw [hphase'] at hitem
    cases hitem
  | finish _ _ hphase' _ => rcases hphase' with hp | hp <;> rw [hp] at hitem <;> cases hitem
  | keep _ hkeep _ => exact .inl (hkeep ▸ hitem)

/-- The queues a phase still has to do with. -/
def Phase.queues : Phase → List QueueId
  | .popping rest => rest
  | .probing _ q | .returning _ q => [q]
  | _ => []

/-- A worker comes to no queue but those it takes from. -/
theorem Step.phase_queues (h : Step v w cfg s s') {q : QueueId} (hq : q ∈ (s'.workers w).phase.queues) :
    q ∈ (s.workers w).phase.queues ∨ q ∈ v.queuesFor cfg := by
  cases h with
  | writeEnd h =>
    rcases afterAttempt_phase v _ w cfg _ with hp | hp <;> rw [hp] at hq
    · exact .inr hq
    · cases hq
  | pop h | pass h | probeFails h =>
    rw [goto_phase] at hq
    rw [h]
    simp_all [Phase.queues]
  | execFails h =>
    rw [goto_phase] at hq
    exact .inr (List.mem_singleton.1 hq ▸ mem_queuesFor_pinned.2 rfl)
  | synced h =>
    rw [goto_phase] at hq
    exact .inr hq
  | _ =>
    rw [goto_phase] at hq
    cases hq

theorem Step.not_stopped (h : Step v w cfg s s') (why : Stop) : (s.workers w).phase ≠ .stopped why := by cases h <;> simp_all

/-! ## Slots -/

/-- The slot a worker holds. -/
def Phase.slot (p : Phase) : Nat := if p.hasSlot then 1 else 0

/-- A slot a worker comes to hold is taken from its machine's free ones, and one it gives up goes back. -/
theorem Step.slots (h : Step v w cfg s s') :
    s'.free cfg.physicalId + (s'.workers w).phase.slot = s.free cfg.physicalId + (s.workers w).phase.slot ∧
      ∀ machine, machine ≠ cfg.physicalId → s'.free machine = s.free machine := by
  cases h with
  | exec h hfree | sync h hfree =>
    refine ⟨?_, fun machine hne => update_of_ne hne ..⟩
    rw [goto_phase, h]
    change update s.free _ (s.free _ - 1) cfg.physicalId + 1 = _ + 0
    rw [update_self]
    omega
  | execReturns h | execFails h | synced h =>
    refine ⟨?_, fun machine hne => update_of_ne hne ..⟩
    rw [goto_phase, h]
    exact update_self cfg.physicalId (s.free cfg.physicalId + 1) s.free
  | @writeEnd item code h =>
    obtain ⟨n, p, heq, hp⟩ := afterAttempt_cases v (s.note (.wrote w item (statusOf code) cfg.clientId)) w cfg code
    rw [heq, goto_phase, h]
    rcases hp with rfl | rfl <;> exact ⟨rfl, fun _ _ => rfl⟩
  | _ h => exact ⟨by rw [goto_phase, h]; rfl, fun _ _ => rfl⟩

/-! ## Sums over workers and queues -/

/-- Two functions that agree but at one place have sums that differ by their values there. -/
theorem sum_add_eq_of_eq_off {ι : Type} [DecidableEq ι] {S : Finset ι} {a : ι} (ha : a ∈ S) {f g : ι → Nat}
    (h : ∀ b ∈ S, b ≠ a → g b = f b) : (∑ b ∈ S, g b) + f a = (∑ b ∈ S, f b) + g a := by
  have hrest : ∑ b ∈ S.erase a, g b = ∑ b ∈ S.erase a, f b :=
    sum_congr rfl fun b hb => h b (mem_of_mem_erase hb) (ne_of_mem_erase hb)
  rw [← add_sum_erase S g ha, ← add_sum_erase S f ha, hrest]
  omega

/-- Whether a worker holds a slot of a machine. -/
def holdsSlot (v : Invocation T) (s : RunState) (machine : Text) (w : Nat) : Nat :=
  if v.workers[w]?.any (·.physicalId = machine) ∧ (s.workers w).phase.hasSlot then 1 else 0

/-- How many workers hold a slot of a machine. -/
def slotHolders (v : Invocation T) (s : RunState) (machine : Text) : Nat := ∑ w ∈ range v.workers.length, holdsSlot v s machine w

theorem lt_length_of_worker (h : v.workers[w]? = some cfg) : w < v.workers.length := (List.getElem?_eq_some_iff.1 h).1

/-- The free slots and the slots that are held are all the slots of a machine. -/
def SlotsAddUp (v : Invocation T) (s : RunState) : Prop := ∀ machine, s.free machine + slotHolders v s machine = v.largest machine

theorem slotsAddUp_start : SlotsAddUp v (.start v) := by
  intro machine
  have hnone : slotHolders v (.start v) machine = 0 := by
    refine sum_eq_zero fun w _ => if_neg ?_
    rintro ⟨-, hslot⟩
    cases hw : v.workers[w]? <;> simp [RunState.start, hw, Phase.hasSlot] at hslot
  rw [hnone, Nat.add_zero]
  exact physicalIdCapacities_eq machine

theorem SlotsAddUp.step (hinv : SlotsAddUp v s) (hw : v.workers[w]? = some cfg) (h : Step v w cfg s s') : SlotsAddUp v s' := by
  intro machine
  have hsum : slotHolders v s' machine + holdsSlot v s machine w = slotHolders v s machine + holdsSlot v s' machine w := by
    refine sum_add_eq_of_eq_off (mem_range.2 (lt_length_of_worker hw)) fun u _ hu => ?_
    rw [holdsSlot, holdsSlot, h.others hu]
  have hbefore := hinv machine
  obtain ⟨hown, hothers⟩ := h.slots
  by_cases hm : machine = cfg.physicalId
  · subst hm
    have hholds (s : RunState) : holdsSlot v s cfg.physicalId w = (s.workers w).phase.slot := by simp [holdsSlot, hw, Phase.slot]
    rw [hholds, hholds] at hsum
    omega
  have hnone (s : RunState) : holdsSlot v s machine w = 0 := by simp [holdsSlot, hw, Ne.symm hm]
  rw [hnone, hnone] at hsum
  rw [hothers machine hm]
  omega

end Pipette.Runner
