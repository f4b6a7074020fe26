import Pipette.Lemmas.QueuePlaces

/-!
# Where cells run, and how often at once

Whatever the workers meet, and in whatever order they act: an execution is by a worker that may run the cell, after a started
event of its own; no two workers execute one cell at a time; a cell gets one ending event at most; and no machine has more
executions than the largest parallelism of the transports that reach it.
-/

namespace Pipette.Runner

open RunState

variable {T : PlanTypes} {v : Invocation T} {w u : Nat} {cfg : TransportConfig} {s s' : RunState} {item : RunnableItem}

/-- The worker an entry is of. -/
def Entry.worker : Entry → Nat
  | .wrote w _ _ _ | .began w _ | .handedBack w _ => w

/-- The entry is an event that ends a cell. -/
def EndsCell (v : Invocation T) (cell : RunnableCell T) (e : Entry) : Prop := ∃ idx, e.Ends idx ∧ v.cells[idx]? = some cell

def Phase.isExecuting : Phase → Bool
  | .executing _ => true
  | _ => false

/-- How many executions a machine has in progress. -/
def executingOn (v : Invocation T) (s : RunState) (machine : Text) : Nat :=
  ((Finset.range v.workers.length).filter fun w =>
    v.workers[w]?.any (·.physicalId = machine) ∧ (s.workers w).phase.isExecuting).card

/-- What holds of a run at any moment. -/
structure RunsWhereTheyMay (v : Invocation T) (s : RunState) : Prop where
  /-- A cell is executed by workers that may run it only. -/
  permitted : ∀ w item, Entry.began w item ∈ s.log →
    ∃ cfg cell, v.workers[w]? = some cfg ∧ v.cells[item.1]? = some cell ∧ Permits v cell cfg.clientId
  /-- Two workers execute two cells. -/
  exclusive : ∀ u w item item', (s.workers u).phase = .executing item → (s.workers w).phase = .executing item' →
    v.cells[item.1]? = v.cells[item'.1]? → u = w
  /-- The last thing a worker does before it executes a cell is to write a started event for it that names its transport. -/
  startedFirst : ∀ later w item earlier, s.log = later ++ .began w item :: earlier →
    ∃ cfg, v.workers[w]? = some cfg ∧ earlier.find? (·.worker = w) = some (.wrote w item .started cfg.clientId)
  /-- A cell is ended once at most. -/
  once : s.log.Pairwise fun e e' => ∀ cell, EndsCell v cell e → ¬ EndsCell v cell e'
  /-- A machine executes no more than it may. -/
  capacity : ∀ machine, executingOn v s machine ≤ v.largest machine

/-! ## Items of the invocation -/

/-- An item that was routed to a queue. -/
def Routed (v : Invocation T) (item : RunnableItem) : Prop := item ∈ v.items ∧ ∃ q, v.queueOf item = some q

/-- The queues and the workers hold routed items only. -/
structure Genuine (v : Invocation T) (s : RunState) : Prop where
  queue : ∀ q, ∀ item ∈ s.queues q, Routed v item
  held : ∀ w item, (s.workers w).phase.item? = some item → Routed v item

theorem genuine_start : Genuine v (.start v) where
  queue q item hitem := by
    obtain ⟨hmem, hqueue⟩ := List.mem_filter.1 hitem
    exact ⟨hmem, q, by simpa using hqueue⟩
  held w item hitem := by rcases phase_start v w with ⟨-, hp⟩ | ⟨cfg', -, hp⟩ <;> rw [hp] at hitem <;> cases hitem

theorem Genuine.step (hinv : Genuine v s) (h : Step v w cfg s s') : Genuine v s' where
  queue q item hitem := by
    rcases h.mem_queue hitem with hold | hphase
    · exact hinv.queue q item hold
    · exact hinv.held w item (by rw [hphase]; rfl)
  held u item hitem := by
    by_cases hne : u = w
    · subst hne
      rcases h.item hitem with hold | ⟨q, rest, -, hq⟩
      · exact hinv.held u item hold
      · exact hinv.queue q item hq
    · rw [h.others hne] at hitem
      exact hinv.held u item hitem

theorem Routed.exists_cell (h : Routed v item) : ∃ cell, v.cells[item.1]? = some cell := by
  obtain ⟨-, q, hq⟩ := h
  obtain ⟨cell, hcell, -⟩ := Option.bind_eq_some_iff.1 hq
  exact ⟨cell, hcell⟩

/-! ## What was done -/

/-- The last entry of a worker. -/
def lastOf (w : Nat) (log : List Entry) : Option Entry := log.find? (·.worker = w)

/-- At most one entry more, of the worker that acted: a started event for what it holds, an execution of it after it waited
for a slot, or neither. -/
theorem Step.log (h : Step v w cfg s s') : s'.log = s.log ∨ ∃ e, s'.log = e :: s.log ∧ e.worker = w ∧
    ((∃ item, e = .wrote w item .started cfg.clientId) ∨ (∃ item, e = .began w item ∧ (s.workers w).phase = .acquiring item) ∨
      ∀ item, e ≠ .began w item) := by
  cases h with
  | writeStarted h => exact .inr ⟨_, rfl, rfl, .inl ⟨_, rfl⟩⟩
  | exec h => exact .inr ⟨_, rfl, rfl, .inr (.inl ⟨_, rfl, h⟩)⟩
  | pushBack h => exact .inr ⟨_, rfl, rfl, .inr (.inr (by simp))⟩
  | @writeEnd item code h =>
    obtain ⟨n, p, heq, -⟩ := afterAttempt_cases v (s.note (.wrote w item (statusOf code) cfg.clientId)) w cfg code
    rw [heq]
    exact .inr ⟨_, rfl, rfl, .inr (.inr (by simp))⟩
  | _ => exact .inl rfl

/-- A worker waits for a slot to execute only right after its started event. -/
theorem Step.acquiring (h : Step v w cfg s s') (hphase : (s'.workers w).phase = .acquiring item) :
    s'.log = .wrote w item .started cfg.clientId :: s.log := by
  cases h with
  | writeStarted h =>
    rw [goto_phase] at hphase
    cases hphase
    rfl
  | writeEnd h => rcases afterAttempt_phase v _ w cfg _ with hp | hp <;> rw [hp] at hphase <;> cases hphase
  | _ =>
    rw [goto_phase] at hphase
    cases hphase

/-- Executions follow a started event of their worker, and one that waits for a slot has written one. -/
structure Started (v : Invocation T) (s : RunState) : Prop where
  began : ∀ later w item earlier, s.log = later ++ .began w item :: earlier →
    ∃ cfg, v.workers[w]? = some cfg ∧ lastOf w earlier = some (.wrote w item .started cfg.clientId)
  acquiring : ∀ {w cfg item}, v.workers[w]? = some cfg → (s.workers w).phase = .acquiring item →
    lastOf w s.log = some (.wrote w item .started cfg.clientId)

theorem started_start : Started v (.start v) where
  began later w item earlier h := by
    have : (RunState.start v).log = [] := rfl
    simp [this] at h
  acquiring := by
    intro w cfg item _ hphase
    rcases phase_start v w with ⟨-, hp⟩ | ⟨cfg', -, hp⟩ <;> rw [hp] at hphase <;> cases hphase

theorem Started.step (hinv : Started v s) (hw : v.workers[w]? = some cfg) (h : Step v w cfg s s') : Started v s' where
  began later u item earlier heq := by
    rcases h.log with hlog | ⟨e, hlog, hworker, he⟩
    · exact hinv.began later u item earlier (hlog ▸ heq)
    cases later with
    | cons e' later => exact hinv.began later u item earlier (List.cons.inj (hlog.symm.trans heq)).2
    | nil =>
      cases hlog.symm.trans heq
      rcases he with ⟨item', he⟩ | ⟨item', he, hphase⟩ | he
      · cases he
      · cases he
        exact ⟨cfg, hw, hinv.acquiring hw hphase⟩
      · obtain rfl : u = w := hworker
        exact absurd rfl (he item)
  acquiring := by
    intro u cfg' item hu hphase
    by_cases hne : u = w
    · subst hne
      cases hw.symm.trans hu
      rw [h.acquiring hphase]
      simp [lastOf, Entry.worker]
    rw [h.others hne] at hphase
    rcases h.log with hlog | ⟨e, hlog, hworker, -⟩
    · rw [hlog]
      exact hinv.acquiring hu hphase
    · rw [hlog, lastOf, List.find?_cons_of_neg (by simp [hworker, Ne.symm hne])]
      exact hinv.acquiring hu hphase

/-- A cell has one event that ends it at most. -/
def EndedOnce (v : Invocation T) (log : List Entry) : Prop := log.Pairwise fun e e' => ∀ cell, EndsCell v cell e → ¬ EndsCell v cell e'

theorem EndedOnce.cons_of_not_ends {log : List Entry} (hinv : EndedOnce v log) {e : Entry} (he : ∀ idx, ¬ e.Ends idx) :
    EndedOnce v (e :: log) :=
  List.pairwise_cons.2 ⟨fun _ _ _ ⟨idx, hends, _⟩ => absurd hends (he idx), hinv⟩

/-- The item a worker ends was with that worker, so it was not over. -/
theorem EndedOnce.step {place : Nat → Place} (hinv : EndedOnce v s.log) (hplaced : Placed place s) (h : Step v w cfg s s') :
    EndedOnce v s'.log := by
  cases h.effect with
  | take _ _ _ _ hlog | drop _ _ _ hlog => rwa [hlog]
  | put _ _ _ hlog =>
    rw [hlog]
    exact hinv.cons_of_not_ends fun _ hends => hends
  | @finish item code hphase _ _ hlog =>
    rw [hlog]
    refine List.pairwise_cons.2 ⟨?_, hinv⟩
    rintro e he cell ⟨idx, ⟨-, rfl⟩, hcell⟩ ⟨idx', hends', hcell'⟩
    have hover := hplaced.ended e he idx' hends'
    rw [cells_inj hcell' hcell, (hplaced.worker w item.1).2 (by rw [heldBy, hphase]; rfl)] at hover
    cases hover
  | keep _ _ hlog =>
    rcases hlog with hlog | ⟨item, -, hlog | hlog⟩ <;> rw [hlog]
    · exact hinv
    · exact hinv.cons_of_not_ends fun _ hends => hends.1 rfl
    · exact hinv.cons_of_not_ends fun _ hends => hends

/-! ## A run at any moment -/

/-- What every action keeps. -/
structure RunInv (v : Invocation T) (s : RunState) : Prop where
  placed : ∃ place, Placed place s ∧ ∀ item, Routed v item → place item.1 ≠ .nowhere
  allowed : Allowed v s
  genuine : Genuine v s
  slots : SlotsAddUp v s
  started : Started v s
  once : EndedOnce v s.log
  permitted : ∀ w item, Entry.began w item ∈ s.log →
    ∃ cfg, v.workers[w]? = some cfg ∧ MayRun v item.1 cfg.clientId ∧ Routed v item

theorem runInv_start : RunInv v (.start v) where
  placed := by
    refine ⟨_, placed_start, ?_⟩
    rintro item ⟨hitem, q, hq⟩
    rw [firstPlace_eq_queue.2 ⟨item, hitem, hq, rfl⟩]
    simp
  allowed := allowed_start
  genuine := genuine_start
  slots := slotsAddUp_start
  started := started_start
  once := List.Pairwise.nil
  permitted _ _ h := by cases h

theorem RunInv.step (hinv : RunInv v s) (hw : v.workers[w]? = some cfg) (h : Step v w cfg s s') : RunInv v s' where
  placed := by
    obtain ⟨place, hplaced, hrouted⟩ := hinv.placed
    obtain ⟨place', hplaced', hstays⟩ := hplaced.step h
    exact ⟨place', hplaced', fun item hitem => hstays item.1 (hrouted item hitem)⟩
  allowed := hinv.allowed.step hw h
  genuine := hinv.genuine.step h
  slots := hinv.slots.step hw h
  started := hinv.started.step hw h
  once := by
    obtain ⟨place, hplaced, -⟩ := hinv.placed
    exact hinv.once.step hplaced h
  permitted u item hmem := by
    rcases h.log with hlog | ⟨e, hlog, hworker, he⟩
    · exact hinv.permitted u item (hlog ▸ hmem)
    rw [hlog, List.mem_cons] at hmem
    rcases hmem with rfl | hold
    · obtain rfl : u = w := hworker
      rcases he with ⟨item', he⟩ | ⟨item', he, hphase⟩ | he
      · cases he
      · cases he
        have hitem : (s.workers u).phase.item? = some item := by rw [hphase]; rfl
        exact ⟨cfg, hw, hinv.allowed.held hw item hitem, hinv.genuine.held u item hitem⟩
      · exact absurd rfl (he item)
    · exact hinv.permitted u item hold

theorem Reachable.step (h : Reachable v s) (hw : v.workers[w]? = some cfg) (hstep : Step v w cfg s s') : Reachable v s' :=
  h.tail ⟨w, cfg, hw, hstep⟩

theorem Reachable.runInv (h : Reachable v s) : RunInv v s := by
  induction h with
  | refl => exact runInv_start
  | tail _ hnext ih =>
    obtain ⟨w, cfg, hw, hstep⟩ := hnext
    exact ih.step hw hstep

/-- An execution holds a slot. -/
theorem executingOn_le_slotHolders (v : Invocation T) (s : RunState) (machine : Text) :
    executingOn v s machine ≤ slotHolders v s machine := by
  rw [executingOn, Finset.card_filter, slotHolders]
  refine Finset.sum_le_sum fun w _ => ?_
  unfold holdsSlot
  cases (s.workers w).phase <;> simp [Phase.isExecuting, Phase.hasSlot]

/-- In every run of every invocation: cells run where they may, one at a time, after a started event, to one end at most, and
within what their machine may execute. -/
theorem runsWhereTheyMay (v : Invocation T) (s : RunState) (h : Reachable v s) : RunsWhereTheyMay v s := by
  have hinv := h.runInv
  obtain ⟨place, hplaced, -⟩ := hinv.placed
  refine ⟨?_, ?_, hinv.started.began, hinv.once, ?_⟩
  · intro w item hmem
    obtain ⟨cfg, hw, hmay, hrouted⟩ := hinv.permitted w item hmem
    obtain ⟨cell, hcell⟩ := hrouted.exists_cell
    exact ⟨cfg, cell, hw, hcell, hmay cell hcell⟩
  · intro u w item item' hu hw hcells
    have hitem : (s.workers u).phase.item? = some item := by rw [hu]; rfl
    have hitem' : (s.workers w).phase.item? = some item' := by rw [hw]; rfl
    obtain ⟨cell, hcell⟩ := (hinv.genuine.held u item hitem).exists_cell
    have hidx : item.1 = item'.1 := cells_inj hcell (hcells ▸ hcell)
    have hu' := (hplaced.worker u item.1).2 (by rw [heldBy, hitem]; rfl)
    have hw' := (hplaced.worker w item.1).2 (by rw [heldBy, hitem', hidx]; rfl)
    simpa using hu'.symm.trans hw'
  · intro machine
    have hslots := hinv.slots machine
    have hle := executingOn_le_slotHolders v s machine
    omega

/-! ## A run of two cells -/

/-- Descriptors without parts: cells differ in their benchmark and clients only. -/
abbrev bareTypes : PlanTypes where
  Model := Unit
  Runtime := Unit
  RuntimeFlags := Empty
  ModelFlags := Empty
  BenchmarkFlags := Empty
  modelText _ := []
  runtimeText _ := []
  runtimeFlagsText := Empty.elim
  modelFlagsText := Empty.elim

/-- A cell that any client may run. -/
def bareCell : RunnableCell bareTypes := ⟨"b", (), (), [], none, none, none⟩

/-- A transport of one worker, to a machine of its own. -/
def phone (name : String) : TransportConfig := ⟨name.toList, name.toList, 1, by decide⟩

/-- A first run of one cell over some phones, each given up at its first failed probe. -/
def oneCell (names : List String) : Invocation bareTypes where
  arrival := [bareCell]
  distinct := by simp
  transports := names.map phone
  maxConsecutiveFailures := 0
  state := .empty
  opts := ⟨false, false, none⟩
  limit := none
  reassignStranded := false
  ignorePins := false
  maxRetries := 1

/-- A second cell, which only the first of two phones may run. -/
def twoCells : Invocation bareTypes :=
  { oneCell ["t1", "t2"] with
    arrival := [bareCell, { bareCell with benchmark := "c", allowedClients := ["t1"] }]
    distinct := by simp [bareCell] }

/-- The first phone takes the cell of its own, so the second takes the other; both execute. -/
theorem runsWhereTheyMay_twoCells : ∃ s, Reachable twoCells s ∧ (s.workers 0).phase = .executing (1, 1) ∧
    (s.workers 1).phase = .executing (0, 1) ∧ RunsWhereTheyMay twoCells s := by
  have hw₀ : twoCells.workers[0]? = some (phone "t1") := rfl
  have hw₁ : twoCells.workers[1]? = some (phone "t2") := rfl
  have hpop₀ := Reachable.step .refl hw₀ (.pop rfl rfl)
  have hpop₁ := (hpop₀.step hw₁ (.pass rfl rfl)).step hw₁ (.pop rfl rfl)
  have hstarted₀ := (hpop₁.step hw₀ (.probeAnswers rfl)).step hw₀ (.writeStarted rfl)
  have hexec₀ := hstarted₀.step hw₀ (.exec rfl (by decide))
  have hstarted₁ := (hexec₀.step hw₁ (.probeAnswers rfl)).step hw₁ (.writeStarted rfl)
  have hexec₁ := hstarted₁.step hw₁ (.exec rfl (by decide))
  exact ⟨_, hexec₁, rfl, rfl, runsWhereTheyMay _ _ hexec₁⟩

end Pipette.Runner
