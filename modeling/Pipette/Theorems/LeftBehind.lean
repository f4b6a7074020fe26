import Pipette.Theorems.CellRuns

/-!
# Cells that no one runs

A worker leaves when it finds its queues empty, also while another still holds a cell that it may hand back. If no event is
lost and each cell is handed back while a worker has still to come to its queue that goes on until its queues are empty, each
routed cell is ended, or all workers that may run it stopped early (`noneLeftBehind`). A cell that is handed back when the
others have left, by a worker that gives up on its device, is left behind (`handedBack_leftBehind`).
-/

namespace Pipette.Runner

open RunState List

variable {T : PlanTypes} {v : Invocation T} {w u : Nat} {cfg : TransportConfig} {s s' : RunState} {q : QueueId}

/-- All workers have stopped. -/
def AllStopped (s : RunState) : Prop := ∀ w, ∃ why, (s.workers w).phase = .stopped why

/-- Every routed cell has an event that ends it, or every worker that may run it stopped early. -/
def NoneLeftBehind (v : Invocation T) (s : RunState) : Prop :=
  ∀ item, Routed v item → (∃ e ∈ s.log, e.Ends item.1) ∨
    ∀ (w : Nat) (cfg : TransportConfig) (cell : RunnableCell T), v.workers[w]? = some cfg → v.cells[item.1]? = some cell →
      Permits v cell cfg.clientId → ∃ why, (s.workers w).phase = .stopped why ∧ why ≠ .queuesEmpty

/-! ## Passing a queue -/

/-- The worker has found the queue empty since it last began to look for an item. -/
def Phase.Passed (q : QueueId) : Phase → Prop
  | .popping rest => q ∉ rest
  | .stopped .queuesEmpty => True
  | _ => False

/-- A worker that takes from the queue has not passed it in `mid`, and goes on until its queues are empty, as they are in `s`. -/
def TakenUp (v : Invocation T) (s mid : RunState) (q : QueueId) : Prop :=
  ∃ (u : Nat) (cfg : TransportConfig), v.workers[u]? = some cfg ∧ q ∈ v.queuesFor cfg ∧ ¬(mid.workers u).phase.Passed q ∧
    (s.workers u).phase = .stopped .queuesEmpty

/-- The states of a run to `s` in which every item that is handed back is taken up. -/
def ResumesTo (v : Invocation T) (s : RunState) : RunState → Prop :=
  Relation.ReflTransGen (fun mid next => ∃ w cfg, v.workers[w]? = some cfg ∧ Step v w cfg mid next ∧
    ∀ item q, (mid.workers w).phase = .returning item q → TakenUp v s mid q) (.start v)

/-- The run to `s` lost no event, and every item that was handed back was taken up. -/
structure Resumes (v : Invocation T) (s : RunState) : Prop where
  written : ∀ w, (s.workers w).phase ≠ .stopped .unwritten
  run : ResumesTo v s s

/-- A worker that comes to have passed a queue found it empty. -/
theorem Step.passed (h : Step v w cfg s s') (hq : q ∈ v.queuesFor cfg) (hpassed : (s'.workers w).phase.Passed q) :
    (s.workers w).phase.Passed q ∨ s.queues q = [] ∧ s'.queues = s.queues := by
  cases h with
  | @pass q' rest h hempty =>
    rw [goto_phase] at hpassed
    by_cases hne : q = q'
    · subst hne
      exact .inr ⟨hempty, rfl⟩
    · rw [h]
      exact .inl (by simpa [Phase.Passed, hne] using hpassed)
  | leave h =>
    rw [h]
    exact .inl (by simp [Phase.Passed])
  | synced h =>
    rw [goto_phase] at hpassed
    exact absurd hq hpassed
  | writeEnd h =>
    rcases afterAttempt_phase v _ w cfg _ with hp | hp <;> rw [hp] at hpassed
    · exact absurd hq hpassed
    · cases hpassed
  | _ =>
    rw [goto_phase] at hpassed
    cases hpassed

variable {mid next : RunState}

/-- What is in a queue is taken up, or was routed there and no worker has passed the queue. -/
def Owed (v : Invocation T) (s mid : RunState) : Prop :=
  ∀ q, ∀ item ∈ mid.queues q, TakenUp v s mid q ∨ v.queueOf item = some q ∧
    ∀ (u : Nat) (cfg : TransportConfig), v.workers[u]? = some cfg → q ∈ v.queuesFor cfg → ¬(mid.workers u).phase.Passed q

theorem owed_start : Owed v s (.start v) := by
  intro q item hitem
  refine .inr ⟨by simpa using (mem_filter.1 hitem).2, fun u cfg hu hq hpassed => ?_⟩
  rcases phase_start v u with ⟨hnone, -⟩ | ⟨cfg', hu', hp⟩
  · rw [hu] at hnone
    cases hnone
  · rw [hp] at hpassed
    cases hu.symm.trans hu'
    exact hpassed hq

theorem Owed.step (h : Owed v s mid) (hw : v.workers[w]? = some cfg) (hstep : Step v w cfg mid next)
    (hback : ∀ item q, (mid.workers w).phase = .returning item q → TakenUp v s mid q) : Owed v s next := by
  intro q item hitem
  -- no worker passes a queue that is not empty
  have hkept : ∀ (u : Nat) (cfg' : TransportConfig), v.workers[u]? = some cfg' → q ∈ v.queuesFor cfg' →
      ¬(mid.workers u).phase.Passed q → ¬(next.workers u).phase.Passed q := by
    intro u cfg' hu hq hnot hpassed
    by_cases hne : u = w
    · subst hne
      cases hw.symm.trans hu
      rcases hstep.passed hq hpassed with hbefore | ⟨hempty, hsame⟩
      · exact hnot hbefore
      · rw [hsame, hempty] at hitem
        cases hitem
    · rw [hstep.others hne] at hpassed
      exact hnot hpassed
  have htaken : TakenUp v s mid q → TakenUp v s next q := by
    rintro ⟨u, cfg', hu, hq, hnot, hend⟩
    exact ⟨u, cfg', hu, hq, hkept u cfg' hu hq hnot, hend⟩
  rcases hstep.mem_queue hitem with hold | hreturning
  · refine (h q item hold).imp htaken ?_
    rintro ⟨hqueue, hnone⟩
    exact ⟨hqueue, fun u cfg' hu hq => hkept u cfg' hu hq (hnone u cfg' hu hq)⟩
  · exact .inl (htaken (hback item q hreturning))

theorem ResumesTo.owed (h : ResumesTo v s mid) : Owed v s mid := by
  induction h with
  | refl => exact owed_start
  | tail _ hnext ih =>
    obtain ⟨w, cfg, hw, hstep, hback⟩ := hnext
    exact ih.step hw hstep hback

theorem ResumesTo.reachable (h : ResumesTo v s mid) : Reachable v mid := by
  induction h with
  | refl => exact .refl
  | tail _ hnext ih =>
    obtain ⟨w, cfg, hw, hstep, -⟩ := hnext
    exact ih.step hw hstep

/-- The item that a worker is about to put into a queue it hands back. -/
theorem Step.hands_back (h : Step v w cfg s s') {item : RunnableItem} (hphase : (s.workers w).phase = .returning item q) :
    Entry.handedBack w item ∈ s'.log := by
  cases h with
  | pushBack h =>
    rw [hphase] at h
    cases h
    exact mem_cons_self
  | _ h =>
    rw [hphase] at h
    cases h

/-- A worker that handed an item back and goes on until its queues are empty takes the item up itself. -/
theorem Reachable.resumes (h : Reachable v s) (hwritten : ∀ w, (s.workers w).phase ≠ .stopped .unwritten)
    (hresumed : ∀ w item, Entry.handedBack w item ∈ s.log → (s.workers w).phase = .stopped .queuesEmpty) : Resumes v s := by
  have hrun : ∀ mid, Reachable v mid → mid.log ⊆ s.log → ResumesTo v s mid := by
    intro mid hmid
    induction hmid with
    | refl => exact fun _ => .refl
    | tail hreach hnext ih =>
      obtain ⟨w, cfg, hw, hstep⟩ := hnext
      refine fun hlog => (ih fun _ he => hlog (hstep.log_subset he)).tail ⟨w, cfg, hw, hstep, fun item q hphase => ?_⟩
      have hknown := (Reachable.runInv hreach).allowed.known hw q (by rw [hphase]; exact mem_singleton.2 rfl)
      exact ⟨w, cfg, hw, hknown, by rw [hphase]; exact id, hresumed w item (hlog (hstep.hands_back hphase))⟩
  exact ⟨hwritten, hrun s h fun _ he => he⟩

/-! ## The end of a run -/

/-- If no event was lost and every cell that was handed back was taken up, then at the end every routed cell is ended, or all
workers that may run it stopped early. -/
theorem noneLeftBehind (v : Invocation T) (s : RunState) (hstopped : AllStopped s) (hresumes : Resumes v s) :
    NoneLeftBehind v s := by
  have hinv := hresumes.run.reachable.runInv
  obtain ⟨place, hplaced, hsomewhere⟩ := hinv.placed
  intro item hrouted
  cases hplace : place item.1 with
  | nowhere => exact absurd hplace (hsomewhere item hrouted)
  | worker w =>
    obtain ⟨why, hwhy⟩ := hstopped w
    have hheld := (hplaced.worker w item.1).1 hplace
    rw [heldBy, hwhy] at hheld
    cases hheld
  | gone =>
    rcases hplaced.gone item.1 hplace with hends | ⟨w, hw⟩
    · exact .inl hends
    · exact absurd hw (hresumes.written w)
  | queue q =>
    right
    intro w cfg cell hw hcell hpermits
    obtain ⟨why, hwhy⟩ := hstopped w
    refine ⟨why, hwhy, ?_⟩
    rintro rfl
    -- The item itself is in the queue: positions are those of one item.
    have hitem : item ∈ s.queues q := by
      obtain ⟨item', hmem, hidx⟩ := mem_map.1 ((hplaced.queue q item.1).1 hplace)
      rwa [← inj_on_of_nodup_map items_nodup (hinv.genuine.queue q item' hmem).1 hrouted.1 hidx]
    rcases hresumes.run.owed q item hitem with ⟨u, cfg', hu, hq, hnot, hend⟩ | ⟨hq, hnone⟩
    · rw [hend] at hnot
      exact hnot trivial
    · have hserves : q.Serves cfg.clientId := by
        refine (serves_iff_permits ?_ (mem_presentLabels_of_worker hw)).2 hpermits
        rwa [Invocation.queueOf, hcell, Option.bind_some] at hq
      exact hnone w cfg hw (mem_queuesFor_of_serves hrouted.1 hq hserves) (by rw [hwhy]; trivial)

/-- Workers that the plan does not have are stopped. -/
theorem stopped_of_no_worker (hreach : Reachable v s) (hu : v.workers[u]? = none) : (s.workers u).phase = .stopped .queuesEmpty := by
  induction hreach with
  | refl =>
    rcases phase_start v u with ⟨-, hp⟩ | ⟨cfg, hu', -⟩
    · exact hp
    · rw [hu] at hu'
      cases hu'
  | tail _ hnext ih =>
    obtain ⟨w, cfg, hw, hstep⟩ := hnext
    have hne : u ≠ w := by
      rintro rfl
      rw [hu] at hw
      cases hw
    rw [hstep.others hne]
    exact ih

/-- The one cell of an invocation is routed to the shared queue. -/
theorem routed_oneCell (names : List String) : Routed (oneCell names) (0, 1) := ⟨mem_singleton.2 rfl, .unassigned, rfl⟩

/-- A phone whose first probe fails hands the cell back, answers again, and runs it to its end. -/
theorem exists_rejoined : ∃ s, Reachable (oneCell ["t1"]) s ∧ (∀ w, (s.workers w).phase = .stopped .queuesEmpty) ∧
    s.log = [.wrote 0 (0, 1) .success "t1", .began 0 (0, 1), .wrote 0 (0, 1) .started "t1", .handedBack 0 (0, 1)] := by
  have hw : (oneCell ["t1"]).workers[0]? = some (phone "t1") := rfl
  have hpop := ((Reachable.step .refl hw (.pass rfl rfl)).step hw (.pop rfl rfl))
  have hback := (hpop.step hw (.probeFails rfl)).step hw (.pushBack rfl)
  have hagain := ((hback.step hw (.waitProbeAnswers rfl)).step hw (.sync rfl (by decide))).step hw (.synced rfl)
  have hpop' := ((hagain.step hw (.pass rfl rfl)).step hw (.pop rfl rfl)).step hw (.probeAnswers rfl)
  have hexec := (hpop'.step hw (.writeStarted rfl)).step hw (.exec rfl (by decide))
  have hend := (hexec.step hw (.execReturns rfl 0)).step hw (.writeEnd rfl)
  have hleft := ((hend.step hw (.pass rfl rfl)).step hw (.pass rfl rfl)).step hw (.leave rfl)
  refine ⟨_, hleft, fun w => ?_, rfl⟩
  match w with
  | 0 => rfl
  | _ + 1 => exact stopped_of_no_worker hleft rfl

/-- There the cell is handed back, and is ended all the same. -/
theorem noneLeftBehind_rejoined : ∃ s, AllStopped s ∧ Resumes (oneCell ["t1"]) s ∧ Entry.handedBack 0 (0, 1) ∈ s.log ∧
    NoneLeftBehind (oneCell ["t1"]) s := by
  obtain ⟨s, hreach, hall, hlog⟩ := exists_rejoined
  have hstopped : AllStopped s := fun w => ⟨_, hall w⟩
  have hresumes : Resumes (oneCell ["t1"]) s := hreach.resumes (fun w h => by simp [hall w] at h) fun w _ _ => hall w
  exact ⟨s, hstopped, hresumes, by simp [hlog], noneLeftBehind _ s hstopped hresumes⟩

/-- At every moment each routed cell is in one place, and once all workers have stopped every slot is free again. -/
theorem none_lost (v : Invocation T) (s : RunState) (h : Reachable v s) :
    (∃ place, Placed place s ∧ ∀ item, Routed v item → place item.1 ≠ .nowhere) ∧
      (AllStopped s → ∀ machine, s.free machine = v.largest machine) := by
  have hinv := h.runInv
  refine ⟨hinv.placed, fun hstopped machine => ?_⟩
  have hnone : slotHolders v s machine = 0 := by
    refine Finset.sum_eq_zero fun w _ => ?_
    obtain ⟨why, hwhy⟩ := hstopped w
    simp [holdsSlot, hwhy, Phase.hasSlot]
  have hsum := hinv.slots machine
  omega

/-- So it is when the phone has run the cell that it handed back. -/
theorem none_lost_rejoined : ∃ s, Reachable (oneCell ["t1"]) s ∧ AllStopped s ∧
    ∀ machine, s.free machine = (oneCell ["t1"]).largest machine := by
  obtain ⟨s, hreach, hall, -⟩ := exists_rejoined
  have hstopped : AllStopped s := fun w => ⟨_, hall w⟩
  exact ⟨s, hreach, hstopped, (none_lost _ s hreach).2 hstopped⟩

/-- Two phones may run the one cell. The first takes it; the second finds the queues empty and leaves; the first loses its
device, hands the cell back and gives up. No event ends the cell. -/
theorem handedBack_leftBehind : ∃ s, Reachable (oneCell ["t1", "t2"]) s ∧ AllStopped s ∧ Routed (oneCell ["t1", "t2"]) (0, 1) ∧
    s.log = [.handedBack 0 (0, 1)] ∧ (s.workers 0).phase = .stopped .gaveUp ∧ (s.workers 1).phase = .stopped .queuesEmpty ∧
    ¬ NoneLeftBehind (oneCell ["t1", "t2"]) s := by
  have hw₀ : (oneCell ["t1", "t2"]).workers[0]? = some (phone "t1") := rfl
  have hw₁ : (oneCell ["t1", "t2"]).workers[1]? = some (phone "t2") := rfl
  have htaken := (Reachable.step .refl hw₀ (.pass rfl rfl)).step hw₀ (.pop rfl rfl)
  have hleft := ((htaken.step hw₁ (.pass rfl rfl)).step hw₁ (.pass rfl rfl)).step hw₁ (.leave rfl)
  have hback := (hleft.step hw₀ (.probeFails rfl)).step hw₀ (.pushBack rfl)
  have hend := (hback.step hw₀ (.waitProbeFails rfl)).step hw₀ (.giveUp rfl)
  refine ⟨_, hend, ?_, routed_oneCell _, rfl, rfl, rfl, ?_⟩
  · intro w
    match w with
    | 0 => exact ⟨_, rfl⟩
    | 1 => exact ⟨_, rfl⟩
    | w + 2 => exact ⟨_, stopped_of_no_worker hend rfl⟩
  · intro hnone
    rcases hnone (0, 1) (routed_oneCell _) with ⟨e, he, hends⟩ | hearly
    · obtain rfl := mem_singleton.1 he
      cases hends
    · obtain ⟨why, hwhy, hne⟩ := hearly 1 (phone "t2") bareCell hw₁ rfl ⟨.inl rfl, fun pin hpin => by cases hpin⟩
      cases hwhy
      exact hne rfl

end Pipette.Runner
