import Pipette.Runner.State

/-!
# The ordered matrix and its shards

`run` puts the cells of a plan in order and takes those of its shard that the state leaves to run. The order is by a key of the
cell's texts; the cells arrive as a set, so in any order.
-/

namespace Pipette.Runner

variable {T : PlanTypes}

/-! ## Shards -/

/-- `INDEX/COUNT`: the positions of the ordered matrix that are `index` modulo `count`. -/
structure Shard where
  index : Nat
  count : Nat
  index_lt : index < count

def Shard.contains (s : Shard) (idx : Nat) : Bool := idx % s.count = s.index

/-! ## The order -/

/-- The key cells are ordered by, compared field by field. -/
abbrev OrderKey := Text ×ₗ Text ×ₗ Text ×ₗ Text ×ₗ List Text ×ₗ List Text

/-- `cell_order_key`; the benchmark flags are not in it, and the clients are sorted. -/
def cellOrderKey (c : RunnableCell T) : OrderKey :=
  toLex (T.modelText c.model, toLex (c.modelFlagsCanonicalString.getD [], toLex (c.benchmark, toLex (T.runtimeText c.runtime,
    toLex (c.runtimeFlagsCanonicalString.toList, c.allowedClients.insertionSort (· ≤ ·))))))

/-- `order_cells`: a stable sort by the key. -/
def orderCells (cells : List (RunnableCell T)) : List (RunnableCell T) :=
  cells.insertionSort fun a b => cellOrderKey a ≤ cellOrderKey b

/-! ## The selection -/

/-- What selecting reads of the options of `run`. -/
structure RunOptions where
  includeFailed : Bool
  includeDone : Bool
  shard : Option Shard

/-- A position of the ordered matrix, and the number its attempt gets. -/
abbrev RunnableItem := Nat × Nat

/-- `select_runnable`. -/
def selectRunnable (cells : List (RunnableCell T)) (state : StateIndex) (opts : RunOptions) : List RunnableItem :=
  (cells.zipIdx.filter fun x => opts.shard.all (·.contains x.2)).filterMap fun x =>
    let attempts := state.attemptsFor x.1
    match state.stateFor x.1 with
    | .done => if !opts.includeDone then none else some (x.2, attempts + 1)
    | .failed => if !opts.includeFailed then none else some (x.2, 1)
    | .missing => some (x.2, attempts + 1)

/-- Each item of the matrix as it arrives is looked up in the ordered matrix it indexes. -/
def selectedCells (arrival : List (RunnableCell T)) (state : StateIndex) (opts : RunOptions) : List (RunnableCell T) :=
  (selectRunnable (orderCells arrival) state opts).filterMap fun item => (orderCells arrival)[item.1]?

/-- Whether the state filter admits a cell. -/
def admits (state : StateIndex) (opts : RunOptions) (cell : RunnableCell T) : Bool :=
  match state.stateFor cell with
  | .done => opts.includeDone
  | .failed => opts.includeFailed
  | .missing => true

end Pipette.Runner
