import Pipette.Runner.Matrix

/-!
# Routing the cells of a run and working the queues off

`run_matrix` routes every selected cell to the queue of its pin, of its set of allowed clients, or the shared one. A worker
takes the next cell of its queues, probes its device, writes a started event, executes the cell with a slot of its machine,
and writes how it ended. A cell whose probe or execution fails goes back to a queue, and the worker waits for its device.
`Step` is one action of one worker; a run is any interleaving of them.
-/

namespace Pipette.Runner

open Function

variable {T : PlanTypes}

/-! ## The invocation -/

/-- An entry of `[[transports]]`, as far as the queues read it. -/
structure TransportConfig where
  clientId : Text
  physicalId : Text
  parallelism : Nat
  parallelism_pos : 0 < parallelism

/-- The cells as the plan gives them, its transports and failure cap, the state that was loaded, and the options. -/
structure Invocation (T : PlanTypes) where
  arrival : List (RunnableCell T)
  distinct : arrival.Nodup
  transports : List TransportConfig
  maxConsecutiveFailures : Nat
  state : StateIndex
  opts : RunOptions
  limit : Option Nat
  reassignStranded : Bool
  ignorePins : Bool
  maxRetries : Nat

/-! ## Routing -/

inductive StrandedReason where
  | pinnedAbsent (label : Text)
  | pinnedExcluded (label : Text) (allowed : List Text)
  | noOverlap (allowed : List Text)
  deriving DecidableEq

inductive RouteOutcome where
  | pinned (label : Text)
  | restricted (labels : List Text)
  | unassigned
  | stranded (reason : StrandedReason)
  deriving DecidableEq

/-- `route_unpinned`. -/
def routeUnpinned : List Text → RouteOutcome
  | [] => .unassigned
  | [label] => .pinned label
  | labels => .restricted labels

/-- `route_cell`. -/
def routeCell (allowedClients : List Text) (pinnedLabel : Option Text) (nameToLabel : Text → Option Text)
    (presentLabels : List Text) (reassignStranded : Bool) : RouteOutcome :=
  let allowedLabels := (allowedClients.filterMap nameToLabel).insertionSort (· ≤ ·)
  if allowedClients ≠ [] ∧ allowedLabels = [] then .stranded (.noOverlap allowedClients)
  else match pinnedLabel with
    | some pinned =>
      if pinned ∉ presentLabels then
        if reassignStranded then routeUnpinned allowedLabels else .stranded (.pinnedAbsent pinned)
      else if allowedLabels ≠ [] ∧ pinned ∉ allowedLabels then
        if reassignStranded then routeUnpinned allowedLabels else .stranded (.pinnedExcluded pinned allowedLabels)
      else .pinned pinned
    | none => routeUnpinned allowedLabels

/-- One for each present client, one for each set of allowed clients, and the shared one. -/
inductive QueueId where
  | pinned (label : Text)
  | restricted (labels : List Text)
  | unassigned
  deriving DecidableEq

/-- The queue a routed cell goes to; a stranded one goes to none. -/
def RouteOutcome.queue : RouteOutcome → Option QueueId
  | .pinned label => some (.pinned label)
  | .restricted labels => some (.restricted labels)
  | .unassigned => some .unassigned
  | .stranded _ => none

namespace Invocation

variable (v : Invocation T)

/-- The ordered matrix. -/
def cells : List (RunnableCell T) := orderCells v.arrival

def presentLabels : List Text := v.transports.map (·.clientId)

def nameToLabel (name : Text) : Option Text := if name ∈ v.presentLabels then some name else none

/-- The pin routing goes by. -/
def pinOf (cell : RunnableCell T) : Option Text := if v.ignorePins then none else v.state.pinnedTransportFor cell

def routeOf (cell : RunnableCell T) : RouteOutcome :=
  routeCell cell.allowedClients (v.pinOf cell) v.nameToLabel v.presentLabels v.reassignStranded

/-- The selected cells up to the limit. -/
def items : List RunnableItem :=
  let runnable := selectRunnable v.cells v.state v.opts
  match v.limit with
  | some limit => runnable.take limit
  | none => runnable

/-- The queue of an item. -/
def queueOf (item : RunnableItem) : Option QueueId := v.cells[item.1]?.bind fun cell => (v.routeOf cell).queue

/-- The queues the workers start from, each in matrix order. -/
def initialQueues (q : QueueId) : List RunnableItem := v.items.filter fun item => v.queueOf item = some q

/-- The sets of clients some item is restricted to. -/
def restrictedKeys : List (List Text) :=
  (v.items.filterMap fun item => match v.queueOf item with
    | some (.restricted labels) => some labels
    | _ => none).dedup

/-- `build_workers`: as many workers for a transport as its parallelism. -/
def workers : List TransportConfig := v.transports.flatMap fun cfg => List.replicate cfg.parallelism cfg

/-- `physical_id_capacities`: the largest parallelism of the transports that reach a machine. -/
def physicalIdCapacities : Text → Option Nat :=
  v.transports.foldl (fun caps cfg => update caps cfg.physicalId
    (some ((caps cfg.physicalId).elim cfg.parallelism fun c => max c cfg.parallelism))) fun _ => none

/-- The restricted queues of a client, narrowest first. -/
def eligibleRestricted (client : Text) : List (List Text) :=
  (v.restrictedKeys.filter (client ∈ ·)).insertionSort fun a b => toLex (a.length, a) ≤ toLex (b.length, b)

/-- The queues a worker takes from, in the order `pop_next` tries them. -/
def queuesFor (cfg : TransportConfig) : List QueueId :=
  .pinned cfg.clientId :: ((v.eligibleRestricted cfg.clientId).map .restricted ++ [.unassigned])

end Invocation

/-! ## The workers -/

/-- Why a worker stopped. -/
inductive Stop where
  | queuesEmpty
  | gaveUp
  | failureCap
  | unwritten
  deriving DecidableEq

/-- Where a worker is. -/
inductive Phase where
  /-- In `pop_next`, with these queues still to try. -/
  | popping (rest : List QueueId)
  /-- Before the probe for an item from a queue. -/
  | probing (item : RunnableItem) (origin : QueueId)
  /-- Before the started event. -/
  | starting (item : RunnableItem)
  /-- Waiting for a slot to execute. -/
  | acquiring (item : RunnableItem)
  /-- In `transport.exec`. -/
  | executing (item : RunnableItem)
  /-- Before the event that says how the execution ended. -/
  | finishing (item : RunnableItem) (status : Int)
  /-- Before `push_back` to a queue. -/
  | returning (item : RunnableItem) (queue : QueueId)
  /-- In `wait_for_device`, with so many probes left. -/
  | waiting (left : Nat)
  /-- Waiting for a slot to sync. -/
  | rejoining
  /-- In `sync_transport`. -/
  | syncing
  | stopped (why : Stop)
  deriving DecidableEq

/-- The item a worker holds. -/
def Phase.item? : Phase → Option RunnableItem
  | .probing item _ | .starting item | .acquiring item | .executing item | .finishing item _ | .returning item _ => some item
  | .popping _ | .waiting _ | .rejoining | .syncing | .stopped _ => none

/-- Whether a worker holds a slot of its machine. -/
def Phase.hasSlot : Phase → Bool
  | .executing _ | .syncing => true
  | _ => false

structure Worker where
  phase : Phase
  consecutiveFailures : Nat

/-- What others can see, newest first: events in the state file, executions, and cells handed back. -/
inductive Entry where
  | wrote (worker : Nat) (item : RunnableItem) (status : AttemptStatus) (transportLabel : Text)
  | began (worker : Nat) (item : RunnableItem)
  | handedBack (worker : Nat) (item : RunnableItem)
  deriving DecidableEq

/-- The shared queues, the free slots of each machine, the workers, and what was done. -/
structure RunState where
  queues : QueueId → List RunnableItem
  free : Text → Nat
  workers : Nat → Worker
  log : List Entry

namespace RunState

variable (s : RunState)

/-- The state with a worker in another phase. -/
def goto (w : Nat) (phase : Phase) : RunState :=
  { s with workers := update s.workers w { s.workers w with phase } }

def setQueue (q : QueueId) (items : List RunnableItem) : RunState :=
  { s with queues := update s.queues q items }

/-- `HostSemaphore::acquire`, when a slot is free. -/
def acquire (machine : Text) : RunState :=
  { s with free := update s.free machine (s.free machine - 1) }

/-- Dropping the guard. -/
def release (machine : Text) : RunState :=
  { s with free := update s.free machine (s.free machine + 1) }

def note (e : Entry) : RunState := { s with log := e :: s.log }

def setFailures (w : Nat) (n : Nat) : RunState :=
  { s with workers := update s.workers w { s.workers w with consecutiveFailures := n } }

end RunState

/-- The status an exit code stands for. -/
def statusOf (code : Int) : AttemptStatus := if code = 0 then .success else .failed

variable (v : Invocation T)

/-- Where a worker goes after an event that says how an execution ended. -/
def afterAttempt (s : RunState) (w : Nat) (cfg : TransportConfig) (code : Int) : RunState :=
  if code = 0 then (s.setFailures w 0).goto w (.popping (v.queuesFor cfg))
  else
    let n := (s.workers w).consecutiveFailures + 1
    if 0 < v.maxConsecutiveFailures ∧ v.maxConsecutiveFailures ≤ n then (s.setFailures w n).goto w (.stopped .failureCap)
    else (s.setFailures w n).goto w (.popping (v.queuesFor cfg))

/-- One action of a worker. -/
inductive Step (w : Nat) (cfg : TransportConfig) (s : RunState) : RunState → Prop where
  /-- `pop_next` finds an item. -/
  | pop {q rest item items} (h : (s.workers w).phase = .popping (q :: rest)) (hq : s.queues q = item :: items) :
    Step w cfg s ((s.setQueue q items).goto w (.probing item q))
  /-- `pop_next` finds a queue empty and goes on to the next. -/
  | pass {q rest} (h : (s.workers w).phase = .popping (q :: rest)) (hq : s.queues q = []) : Step w cfg s (s.goto w (.popping rest))
  /-- All queues were empty: the loop ends. -/
  | leave (h : (s.workers w).phase = .popping []) : Step w cfg s (s.goto w (.stopped .queuesEmpty))
  | probeAnswers {item q} (h : (s.workers w).phase = .probing item q) : Step w cfg s (s.goto w (.starting item))
  | probeFails {item q} (h : (s.workers w).phase = .probing item q) : Step w cfg s (s.goto w (.returning item q))
  | writeStarted {item} (h : (s.workers w).phase = .starting item) :
    Step w cfg s ((s.note (.wrote w item .started cfg.clientId)).goto w (.acquiring item))
  | startedUnwritten {item} (h : (s.workers w).phase = .starting item) : Step w cfg s (s.goto w (.stopped .unwritten))
  /-- A slot is free, and the execution starts. -/
  | exec {item} (h : (s.workers w).phase = .acquiring item) (hfree : 0 < s.free cfg.physicalId) :
    Step w cfg s (((s.acquire cfg.physicalId).note (.began w item)).goto w (.executing item))
  /-- The execution returns an exit code; the slot is given back. -/
  | execReturns {item} (h : (s.workers w).phase = .executing item) (code : Int) :
    Step w cfg s ((s.release cfg.physicalId).goto w (.finishing item code))
  /-- The transport fails; the slot is given back, and the item goes to the worker's pinned queue. -/
  | execFails {item} (h : (s.workers w).phase = .executing item) :
    Step w cfg s ((s.release cfg.physicalId).goto w (.returning item (.pinned cfg.clientId)))
  | writeEnd {item code} (h : (s.workers w).phase = .finishing item code) :
    Step w cfg s (afterAttempt v (s.note (.wrote w item (statusOf code) cfg.clientId)) w cfg code)
  | endUnwritten {item code} (h : (s.workers w).phase = .finishing item code) : Step w cfg s (s.goto w (.stopped .unwritten))
  | pushBack {item q} (h : (s.workers w).phase = .returning item q) :
    Step w cfg s (((s.setQueue q (s.queues q ++ [item])).note (.handedBack w item)).goto w (.waiting v.maxRetries))
  | waitProbeFails {left} (h : (s.workers w).phase = .waiting (left + 1)) : Step w cfg s (s.goto w (.waiting left))
  | waitProbeAnswers {left} (h : (s.workers w).phase = .waiting (left + 1)) : Step w cfg s (s.goto w .rejoining)
  | giveUp (h : (s.workers w).phase = .waiting 0) : Step w cfg s (s.goto w (.stopped .gaveUp))
  | sync (h : (s.workers w).phase = .rejoining) (hfree : 0 < s.free cfg.physicalId) :
    Step w cfg s ((s.acquire cfg.physicalId).goto w .syncing)
  | synced (h : (s.workers w).phase = .syncing) :
    Step w cfg s ((s.release cfg.physicalId).goto w (.popping (v.queuesFor cfg)))

/-- An action of any worker. -/
def Next (s s' : RunState) : Prop := ∃ w cfg, v.workers[w]? = some cfg ∧ Step v w cfg s s'

/-- The workers start with their queues, and every machine with all its slots. -/
def RunState.start : RunState where
  queues := v.initialQueues
  free machine := (v.physicalIdCapacities machine).getD 0
  workers w := ⟨match v.workers[w]? with
    | some cfg => .popping (v.queuesFor cfg)
    | none => .stopped .queuesEmpty, 0⟩
  log := []

/-- The states a run can be in. -/
def Reachable : RunState → Prop := Relation.ReflTransGen (Next v) (.start v)

end Pipette.Runner
