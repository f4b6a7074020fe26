import Pipette.Theorems.LeftBehind

/-!
# Runs that end

A cell whose probe or execution fails is handed back, and taken again once the device answers; nothing bounds how often. Each
action but a hand-back lowers a rank of the state, and some worker can always act until all have stopped. So a run ends
exactly if cells are handed back finitely often (`ends_iff`).
-/

namespace Pipette.Runner

open RunState List Entry Function

variable {T : PlanTypes} {v : Invocation T} {w u : Nat} {cfg : TransportConfig} {s s' : RunState}

attribute [local simp] goto setQueue acquire release note

def Entry.isBegan : Entry → Bool
  | .began _ _ => true
  | _ => false

def Entry.isHandedBack : Entry → Bool
  | .handedBack _ _ => true
  | _ => false

/-- How many executions have been started. -/
def executions (s : RunState) : Nat := s.log.countP isBegan

/-- How often a probe before a cell or an execution has failed, and the cell was handed back. -/
def handBacks (s : RunState) : Nat := s.log.countP isHandedBack

/-! ## The rank -/

/-- The length of the longest list of queues of a worker. -/
def Invocation.most (v : Invocation T) : Nat := (v.workers.map fun cfg => (v.queuesFor cfg).length).foldr max 0

theorem length_queuesFor_le (hw : v.workers[w]? = some cfg) : (v.queuesFor cfg).length ≤ v.most :=
  le_max_of_le (mem_map_of_mem (mem_of_getElem? hw)) le_rfl

/-- How far a worker is from stopping or from the next item, if nothing fails. -/
def Phase.rank (most : Nat) : Phase → Nat
  | .probing _ _ => most + 6
  | .starting _ => most + 5
  | .acquiring _ => most + 4
  | .executing _ => most + 3
  | .finishing _ _ => most + 2
  | .popping rest => rest.length + 1
  | .returning _ _ => 1
  | .waiting left => most + 4 + left
  | .rejoining => most + 3
  | .syncing => most + 2
  | .stopped _ => 0

/-- All the queues workers take from. -/
def Invocation.allQueues (v : Invocation T) : Finset QueueId := (v.workers.flatMap v.queuesFor).toFinset

variable {q : QueueId} {σ : Nat → RunState} {n : Nat}

theorem mem_allQueues (hw : v.workers[w]? = some cfg) (hq : q ∈ v.queuesFor cfg) : q ∈ v.allQueues := by
  rw [Invocation.allQueues, mem_toFinset, mem_flatMap]
  exact ⟨cfg, mem_of_getElem? hw, hq⟩

def workersRank (v : Invocation T) (s : RunState) : Nat := ∑ w ∈ Finset.range v.workers.length, (s.workers w).phase.rank v.most

def queuedItems (v : Invocation T) (s : RunState) : Nat := ∑ q ∈ v.allQueues, (s.queues q).length

/-- How many actions are left, if nothing fails. -/
def rank (v : Invocation T) (s : RunState) : Nat := workersRank v s + (v.most + 6) * queuedItems v s

/-- What a hand-back can add to the rank. -/
def handBackCost (v : Invocation T) : Nat := 2 * v.most + 11 + v.maxRetries

theorem workersRank_step (hw : v.workers[w]? = some cfg) (h : Step v w cfg s s') :
    workersRank v s' + (s.workers w).phase.rank v.most = workersRank v s + (s'.workers w).phase.rank v.most := by
  have hsum := sum_add_eq_of_eq_off (Finset.mem_range.2 (lt_length_of_worker hw))
    (g := fun u => (s'.workers u).phase.rank v.most) fun u _ hu => by rw [h.others hu]
  exact hsum

theorem queuedItems_update (hq : q ∈ v.allQueues) {items : List RunnableItem}
    (h : s'.queues = update s.queues q items) :
    queuedItems v s' + (s.queues q).length = queuedItems v s + items.length := by
  have hsum := sum_add_eq_of_eq_off hq (g := fun q => (s'.queues q).length)
    fun q' _ hne => by rw [h, update_of_ne hne]
  have hlength : (s'.queues q).length = items.length := by rw [h, update_self]
  rwa [hlength] at hsum

/-- An action that moves no item to a queue takes the worker nearer to its end. -/
theorem Step.rank_lt (h : Step v w cfg s s') (hw : v.workers[w]? = some cfg) (hqueues : s'.queues = s.queues) :
    (s'.workers w).phase.rank v.most + 1 ≤ (s.workers w).phase.rank v.most := by
  have hmost := length_queuesFor_le hw
  cases h with
  | @pop q rest item items h hq =>
    have hlength := congrArg length (congrFun hqueues q)
    simp [hq] at hlength
  | @pushBack item q h =>
    have hlength := congrArg length (congrFun hqueues q)
    simp at hlength
  | writeEnd h => rcases afterAttempt_phase v _ w cfg _ with hp | hp <;> rw [hp, h] <;> simp only [Phase.rank] <;> omega
  | _ h =>
    rw [goto_phase, h]
    simp only [Phase.rank, length_cons]
    omega

/-- Every action lowers the rank, but for what a hand-back can add to it. -/
theorem Step.rank_le (h : Step v w cfg s s') (hw : v.workers[w]? = some cfg) (hallowed : Allowed v s) :
    rank v s' + 1 + handBackCost v * handBacks s ≤ rank v s + handBackCost v * handBacks s' := by
  have hworkers := workersRank_step hw h
  have hquiet : s'.queues = s.queues → handBacks s' = handBacks s →
      rank v s' + 1 + handBackCost v * handBacks s ≤ rank v s + handBackCost v * handBacks s' := by
    intro hqueues hbacks
    have hlt := h.rank_lt hw hqueues
    have hqueued : queuedItems v s' = queuedItems v s := by rw [queuedItems, hqueues, queuedItems]
    rw [rank, rank, hqueued, hbacks]
    omega
  cases h.effect with
  | @take q rest item items hphase hq hqueues hphase' hlog =>
    have hmem : q ∈ v.allQueues := mem_allQueues hw (hallowed.known hw q (by rw [hphase]; exact mem_cons_self))
    have hqueued := queuedItems_update hmem hqueues
    rw [hq, length_cons] at hqueued
    have hbacks : handBacks s' = handBacks s := by rw [handBacks, hlog, handBacks]
    rw [hphase, hphase'] at hworkers
    simp only [Phase.rank] at hworkers
    have hone : queuedItems v s = queuedItems v s' + 1 := by omega
    rw [rank, rank, hbacks, hone, Nat.mul_succ]
    omega
  | @put item q hphase hqueues hphase' hlog =>
    have hmem : q ∈ v.allQueues := mem_allQueues hw (hallowed.known hw q (by rw [hphase]; exact mem_singleton.2 rfl))
    have hqueued := queuedItems_update hmem hqueues
    rw [length_append, length_singleton] at hqueued
    have hbacks : handBacks s' = handBacks s + 1 := by rw [handBacks, hlog, countP_cons_of_pos (by rfl), handBacks]
    rw [hphase, hphase'] at hworkers
    simp only [Phase.rank] at hworkers
    have hone : queuedItems v s' = queuedItems v s + 1 := by omega
    rw [rank, rank, hbacks, hone, Nat.mul_succ, Nat.mul_succ, handBackCost]
    omega
  | finish _ hqueues _ hlog | drop _ hqueues _ hlog => exact hquiet hqueues (by simp [handBacks, hlog, isHandedBack])
  | keep hqueues _ hlog =>
    refine hquiet hqueues ?_
    rcases hlog with hlog | ⟨item, -, hlog | hlog⟩ <;> simp [handBacks, hlog, isHandedBack]

/-! ## No worker is stuck -/

/-- A worker that does not wait for a slot and has not stopped can act. -/
theorem exists_step_or_waits (v : Invocation T) (w : Nat) (cfg : TransportConfig) (s : RunState) :
    (∃ s', Step v w cfg s s') ∨ (∃ why, (s.workers w).phase = .stopped why) ∨ s.free cfg.physicalId = 0 := by
  rcases Nat.eq_zero_or_pos (s.free cfg.physicalId) with hzero | hpos
  · exact .inr (.inr hzero)
  cases hphase : (s.workers w).phase with
  | popping rest =>
    cases rest with
    | nil => exact .inl ⟨_, .leave hphase⟩
    | cons q rest =>
      cases hq : s.queues q with
      | nil => exact .inl ⟨_, .pass hphase hq⟩
      | cons item items => exact .inl ⟨_, .pop hphase hq⟩
  | probing item q => exact .inl ⟨_, .probeAnswers hphase⟩
  | starting item => exact .inl ⟨_, .writeStarted hphase⟩
  | acquiring item => exact .inl ⟨_, .exec hphase hpos⟩
  | executing item => exact .inl ⟨_, .execReturns hphase 0⟩
  | finishing item code => exact .inl ⟨_, .writeEnd hphase⟩
  | returning item q => exact .inl ⟨_, .pushBack hphase⟩
  | waiting left =>
    cases left with
    | zero => exact .inl ⟨_, .giveUp hphase⟩
    | succ left => exact .inl ⟨_, .waitProbeAnswers hphase⟩
  | rejoining => exact .inl ⟨_, .sync hphase hpos⟩
  | syncing => exact .inl ⟨_, .synced hphase⟩
  | stopped why => exact .inr (.inl ⟨why, rfl⟩)

/-- A worker that holds a slot can act. -/
theorem exists_step_of_hasSlot (v : Invocation T) (cfg : TransportConfig) (h : (s.workers w).phase.hasSlot) :
    ∃ s', Step v w cfg s s' := by
  cases hphase : (s.workers w).phase with
  | executing item => exact ⟨_, .execReturns hphase 0⟩
  | syncing => exact ⟨_, .synced hphase⟩
  | _ =>
    rw [hphase] at h
    cases h

/-- A run in which no worker can act has stopped: where no slot is free a worker holds one. -/
theorem allStopped_of_not_next (h : Reachable v s) (hnext : ¬ ∃ s', Next v s s') : AllStopped s := by
  intro w
  cases hw : v.workers[w]? with
  | none => exact ⟨_, stopped_of_no_worker h hw⟩
  | some cfg =>
    rcases exists_step_or_waits v w cfg s with ⟨s', hstep⟩ | hstopped | hzero
    · exact absurd ⟨s', w, cfg, hw, hstep⟩ hnext
    · exact hstopped
    exfalso
    have hslots := h.runInv.slots cfg.physicalId
    have hlargest := parallelism_le_largest hw
    have hpos := cfg.parallelism_pos
    have hholders : slotHolders v s cfg.physicalId ≠ 0 := by omega
    obtain ⟨u, hu, hholds⟩ := Finset.exists_ne_zero_of_sum_ne_zero hholders
    obtain ⟨hmachine, hslot⟩ : v.workers[u]?.any (·.physicalId = cfg.physicalId) ∧ (s.workers u).phase.hasSlot := by
      by_contra hnot
      exact hholds (if_neg hnot)
    obtain ⟨cfg', hu', -⟩ := (Option.any_eq_true _ _).1 hmachine
    obtain ⟨s', hstep⟩ := exists_step_of_hasSlot v cfg' hslot
    exact hnext ⟨s', u, cfg', hu', hstep⟩

/-! ## Whole runs -/

/-- A run: the workers act as long as one of them can. -/
structure Run (v : Invocation T) (σ : Nat → RunState) : Prop where
  start : σ 0 = .start v
  next : ∀ n, Next v (σ n) (σ (n + 1)) ∨ (¬ ∃ s', Next v (σ n) s') ∧ σ (n + 1) = σ n

/-- Finitely many cells are executed, and all workers stop. -/
def Ends (σ : Nat → RunState) : Prop := (∃ bound, ∀ n, executions (σ n) ≤ bound) ∧ ∃ n, AllStopped (σ n)

variable (h : Run v σ)
include h

theorem Run.reachable (n : Nat) : Reachable v (σ n) := by
  induction n with
  | zero =>
    rw [h.start]
    exact .refl
  | succ n ih =>
    rcases h.next n with hnext | ⟨-, heq⟩
    · exact ih.tail hnext
    · rwa [heq]

/-- As long as the workers act, they use the rank up. -/
theorem Run.rank_add_le (n : Nat) (hacts : ∀ m < n, ∃ s', Next v (σ m) s') :
    rank v (σ n) + n ≤ rank v (σ 0) + handBackCost v * handBacks (σ n) := by
  induction n with
  | zero => omega
  | succ n ih =>
    have hbefore := ih fun m hm => hacts m (by omega)
    obtain ⟨w, cfg, hw, hstep⟩ := (h.next n).resolve_right fun hstuck => hstuck.1 (hacts n (by omega))
    have hstep := hstep.rank_le hw (h.reachable n).runInv.allowed
    omega

theorem Run.count_mono (p : Entry → Bool) : Monotone fun n => (σ n).log.countP p := by
  refine monotone_nat_of_le_succ fun n => ?_
  rcases h.next n with ⟨w, cfg, -, hstep⟩ | ⟨-, heq⟩
  · rcases hstep.log with hlog | ⟨e, hlog, -⟩
    · rw [hlog]
    · rw [hlog]
      exact (sublist_cons_self e _).countP_le
  · rw [heq]

theorem Run.stays (hstopped : AllStopped (σ n)) {m : Nat} (hle : n ≤ m) : σ m = σ n := by
  induction m, hle using Nat.le_induction with
  | base => rfl
  | succ m _ ih =>
    rcases h.next m with ⟨w, cfg, -, hstep⟩ | ⟨-, heq⟩
    · obtain ⟨why, hwhy⟩ := hstopped w
      rw [ih] at hstep
      exact absurd hwhy (hstep.not_stopped why)
    · rw [heq, ih]

theorem Run.bounded_of_stopped (hstopped : AllStopped (σ n)) (p : Entry → Bool) (m : Nat) :
    (σ m).log.countP p ≤ (σ n).log.countP p := by
  rcases Nat.le_total m n with hle | hle
  · exact h.count_mono p hle
  · rw [h.stays hstopped hle]

/-- A run in which cells are handed back finitely often ends. -/
theorem Run.ends_of_handBacks_le {bound : Nat} (hbound : ∀ n, handBacks (σ n) ≤ bound) : Ends σ := by
  have hstuck : ∃ n, ¬ ∃ s', Next v (σ n) s' := by
    by_contra hnone
    have hacts : ∀ m, ∃ s', Next v (σ m) s' := fun m => by_contra fun hno => hnone ⟨m, hno⟩
    have hle := h.rank_add_le (rank v (σ 0) + handBackCost v * bound + 1) fun m _ => hacts m
    have hcost := Nat.mul_le_mul_left (handBackCost v) (hbound (rank v (σ 0) + handBackCost v * bound + 1))
    omega
  obtain ⟨n, hn⟩ := hstuck
  have hstopped := allStopped_of_not_next (h.reachable n) hn
  exact ⟨⟨executions (σ n), h.bounded_of_stopped hstopped _⟩, n, hstopped⟩

omit h

/-- A run ends exactly if cells are handed back finitely often. -/
theorem ends_iff (v : Invocation T) (σ : Nat → RunState) (h : Run v σ) : Ends σ ↔ ∃ bound, ∀ n, handBacks (σ n) ≤ bound := by
  constructor
  · rintro ⟨-, n, hstopped⟩
    exact ⟨handBacks (σ n), h.bounded_of_stopped hstopped _⟩
  · rintro ⟨bound, hbound⟩
    exact h.ends_of_handBacks_le hbound

/-- A state that can be reached is reached after some number of actions. -/
theorem Reachable.exists_actions (h : Reachable v s) :
    ∃ (n : Nat) (σ : Nat → RunState), σ 0 = .start v ∧ (∀ m < n, Next v (σ m) (σ (m + 1))) ∧ ∀ m, n ≤ m → σ m = s := by
  induction h with
  | refl => exact ⟨0, fun _ => .start v, rfl, by simp, fun _ _ => rfl⟩
  | @tail s s' _ hnext ih =>
    obtain ⟨n, σ, hstart, hacts, hlast⟩ := ih
    refine ⟨n + 1, fun m => if m ≤ n then σ m else s', by simpa using hstart, fun m hm => ?_, fun m hm => if_neg (by omega)⟩
    by_cases hlt : m < n
    · simpa [hlt.le, Nat.succ_le_of_lt hlt] using hacts m hlt
    · obtain rfl : m = n := by omega
      simpa [hlast m le_rfl] using hnext

/-- A state in which all workers have stopped is the end of a run. -/
theorem Reachable.exists_run (h : Reachable v s) (hstopped : AllStopped s) : ∃ σ, Run v σ ∧ ∃ n, ∀ m, n ≤ m → σ m = s := by
  obtain ⟨n, σ, hstart, hacts, hlast⟩ := h.exists_actions
  refine ⟨σ, ⟨hstart, fun m => ?_⟩, n, hlast⟩
  by_cases hm : m < n
  · exact .inl (hacts m hm)
  refine .inr ⟨?_, by rw [hlast m (by omega), hlast (m + 1) (by omega)]⟩
  rintro ⟨s', w, cfg, -, hstep⟩
  obtain ⟨why, hwhy⟩ := hstopped w
  rw [hlast m (by omega)] at hstep
  exact hstep.not_stopped why hwhy

/-- The run of a phone that misses one probe ends. -/
theorem ends_rejoined : ∃ σ, Run (oneCell ["t1"]) σ ∧ (∃ n, handBacks (σ n) = 1) ∧ Ends σ := by
  obtain ⟨s, hreach, hall, hlog⟩ := exists_rejoined
  have hstopped : AllStopped s := fun w => ⟨_, hall w⟩
  obtain ⟨σ, hrun, n, hlast⟩ := hreach.exists_run hstopped
  have hone : handBacks (σ n) = 1 := by
    rw [hlast n le_rfl, handBacks, hlog]
    rfl
  refine ⟨σ, hrun, ⟨n, hone⟩, (ends_iff _ σ hrun).2 ⟨1, fun m => ?_⟩⟩
  have hle := hrun.bounded_of_stopped (by rwa [hlast n le_rfl]) isHandedBack m
  exact hone ▸ hle

/-! ## A phone that fails every execution -/

/-- The name of the one phone. -/
def onePhone : Text := "t1"

/-- A first run of one cell that only one phone may run. -/
def pinnedCell : Invocation bareTypes :=
  { oneCell ["t1"] with arrival := [{ bareCell with allowedClients := [onePhone] }], distinct := by simp }

/-- The next state of a run whose phone answers every probe and fails every execution. -/
def failing (s : RunState) : RunState :=
  match (s.workers 0).phase with
  | .popping (q :: rest) =>
    match s.queues q with
    | item :: items => (s.setQueue q items).goto 0 (.probing item q)
    | [] => s.goto 0 (.popping rest)
  | .popping [] => s.goto 0 (.stopped .queuesEmpty)
  | .probing item _ => s.goto 0 (.starting item)
  | .starting item => (s.note (.wrote 0 item .started onePhone)).goto 0 (.acquiring item)
  | .acquiring item => ((s.acquire onePhone).note (.began 0 item)).goto 0 (.executing item)
  | .executing item => (s.release onePhone).goto 0 (.returning item (.pinned onePhone))
  | .returning item q => ((s.setQueue q (s.queues q ++ [item])).note (.handedBack 0 item)).goto 0 (.waiting 1)
  | .waiting (_ + 1) => s.goto 0 .rejoining
  | .rejoining => (s.acquire onePhone).goto 0 .syncing
  | .syncing => (s.release onePhone).goto 0 (.popping [.pinned onePhone, .unassigned])
  | .waiting 0 | .finishing _ _ | .stopped _ => s

/-- The item is in the queue of the phone, or with its worker, and the slot is free but for an execution and a sync. Every
execution was handed back, but for one that has not been yet. -/
inductive Looping (s : RunState) : Prop where
  | popping (h : (s.workers 0).phase = .popping [.pinned onePhone, .unassigned]) (hq : s.queues (.pinned onePhone) = [(0, 1)])
    (hfree : s.free onePhone = 1) (hcount : executions s = handBacks s)
  | probing (h : (s.workers 0).phase = .probing (0, 1) (.pinned onePhone)) (hq : s.queues (.pinned onePhone) = [])
    (hfree : s.free onePhone = 1) (hcount : executions s = handBacks s)
  | starting (h : (s.workers 0).phase = .starting (0, 1)) (hq : s.queues (.pinned onePhone) = []) (hfree : s.free onePhone = 1)
    (hcount : executions s = handBacks s)
  | acquiring (h : (s.workers 0).phase = .acquiring (0, 1)) (hq : s.queues (.pinned onePhone) = []) (hfree : s.free onePhone = 1)
    (hcount : executions s = handBacks s)
  | executing (h : (s.workers 0).phase = .executing (0, 1)) (hq : s.queues (.pinned onePhone) = []) (hfree : s.free onePhone = 0)
    (hcount : executions s = handBacks s + 1)
  | returning (h : (s.workers 0).phase = .returning (0, 1) (.pinned onePhone)) (hq : s.queues (.pinned onePhone) = [])
    (hfree : s.free onePhone = 1) (hcount : executions s = handBacks s + 1)
  | waiting (h : (s.workers 0).phase = .waiting 1) (hq : s.queues (.pinned onePhone) = [(0, 1)]) (hfree : s.free onePhone = 1)
    (hcount : executions s = handBacks s)
  | rejoining (h : (s.workers 0).phase = .rejoining) (hq : s.queues (.pinned onePhone) = [(0, 1)]) (hfree : s.free onePhone = 1)
    (hcount : executions s = handBacks s)
  | syncing (h : (s.workers 0).phase = .syncing) (hq : s.queues (.pinned onePhone) = [(0, 1)]) (hfree : s.free onePhone = 0)
    (hcount : executions s = handBacks s)

/-- The worker acts, and stays in the loop. -/
theorem Looping.step (h : Looping s) : Step pinnedCell 0 (phone "t1") s (failing s) ∧ Looping (failing s) := by
  cases h with
  | popping h hq hfree hcount =>
    simp only [failing, h, hq]
    exact ⟨.pop h hq, .probing (goto_phase _ _ _) (by simp) hfree hcount⟩
  | probing h hq hfree hcount =>
    simp only [failing, h]
    exact ⟨.probeAnswers h, .starting (goto_phase _ _ _) hq hfree hcount⟩
  | starting h hq hfree hcount =>
    simp only [failing, h]
    exact ⟨.writeStarted h, .acquiring (goto_phase _ _ _) hq hfree
      (by simpa [executions, handBacks, countP_cons, isBegan, isHandedBack] using hcount)⟩
  | acquiring h hq hfree hcount =>
    simp only [failing, h]
    exact ⟨.exec h (by change 0 < s.free onePhone; omega), .executing (goto_phase _ _ _) hq (by simp [hfree])
      (by simpa [executions, handBacks, countP_cons, isBegan, isHandedBack] using hcount)⟩
  | executing h hq hfree hcount =>
    simp only [failing, h]
    exact ⟨.execFails h, .returning (goto_phase _ _ _) hq (by simp [hfree]) hcount⟩
  | returning h hq hfree hcount =>
    simp only [failing, h]
    exact ⟨.pushBack h, .waiting (goto_phase _ _ _) (by simp [hq]) hfree
      (by simpa [executions, handBacks, countP_cons, isBegan, isHandedBack] using hcount)⟩
  | waiting h hq hfree hcount =>
    simp only [failing, h]
    exact ⟨.waitProbeAnswers h, .rejoining (goto_phase _ _ _) hq hfree hcount⟩
  | rejoining h hq hfree hcount =>
    simp only [failing, h]
    exact ⟨.sync h (by change 0 < s.free onePhone; omega), .syncing (goto_phase _ _ _) hq (by simp [hfree]) hcount⟩
  | syncing h hq hfree hcount =>
    simp only [failing, h]
    exact ⟨.synced h, .popping (goto_phase _ _ _) hq (by simp [hfree]) hcount⟩

theorem looping_start : Looping (.start pinnedCell) := .popping rfl rfl rfl rfl

/-- The states of that run. -/
def failingRun (n : Nat) : RunState := failing^[n] (.start pinnedCell)

theorem failingRun_succ (n : Nat) : failingRun (n + 1) = failing (failingRun n) := iterate_succ_apply' failing n _

theorem looping_failingRun (n : Nat) : Looping (failingRun n) := by
  induction n with
  | zero => exact looping_start
  | succ n ih =>
    rw [failingRun_succ]
    exact ih.step.2

theorem run_failingRun : Run pinnedCell failingRun where
  start := rfl
  next n := .inl ⟨0, phone "t1", rfl, by rw [failingRun_succ]; exact (looping_failingRun n).step.1⟩

/-- A phone that answers every probe and fails every execution: the one cell is executed again and again. -/
theorem failing_run_goes_on : ∃ σ, Run pinnedCell σ ∧ (∀ n, ∃ m, n ≤ executions (σ m)) ∧ (∀ n, ¬ AllStopped (σ n)) ∧ ¬ Ends σ := by
  have hgoes : ∀ n, ¬ AllStopped (failingRun n) := by
    intro n hstopped
    obtain ⟨why, hwhy⟩ := hstopped 0
    cases looping_failingRun n <;> simp_all
  have hends : ¬ Ends failingRun := fun h => h.2.elim hgoes
  refine ⟨failingRun, run_failingRun, fun n => ?_, hgoes, hends⟩
  by_contra hfew
  have hbound : ∀ m, handBacks (failingRun m) ≤ n := by
    intro m
    have hcount : handBacks (failingRun m) ≤ executions (failingRun m) := by cases looping_failingRun m <;> omega
    have hm : ¬ n ≤ executions (failingRun m) := fun h => hfew ⟨m, h⟩
    omega
  exact hends (run_failingRun.ends_of_handBacks_le hbound)

end Pipette.Runner
