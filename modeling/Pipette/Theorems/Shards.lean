import Pipette.Lib.Evict
import Pipette.Runner.Matrix

/-!
# Shards of a plan

`N` invocations, one per shard index, each get the cells of a plan in an order of their own and read the same state. They
order the matrix alike and together select every admitted cell once exactly if no two cells share an order key, one invocation
apart (`splitsPlan_iff`). The key leaves the benchmark flags out.
-/

namespace Pipette.Runner

open List
open scoped List

variable {T : PlanTypes} {cells : List (RunnableCell T)} {N : Nat}

/-- The options of the invocation with a shard index. -/
def RunOptions.sharded (opts : RunOptions) (i : Fin N) : RunOptions := { opts with shard := some ⟨i, N, i.isLt⟩ }

/-- No two cells share an order key. -/
def DistinctKeys (cells : List (RunnableCell T)) : Prop := ∀ a ∈ cells, ∀ b ∈ cells, cellOrderKey a = cellOrderKey b → a = b

/-- What the invocations select, one after the other. -/
def selectedByAll (arrival : Fin N → List (RunnableCell T)) (state : StateIndex) (opts : RunOptions) : List (RunnableCell T) :=
  (finRange N).flatMap fun i => selectedCells (arrival i) state (opts.sharded i)

/-- The invocations order the matrix alike, and together select the admitted cells, none twice. -/
structure SplitsPlan (cells : List (RunnableCell T)) (arrival : Fin N → List (RunnableCell T)) (state : StateIndex)
    (opts : RunOptions) : Prop where
  sameOrder : ∀ i j, orderCells (arrival i) = orderCells (arrival j)
  covers : ∀ cell, cell ∈ selectedByAll arrival state opts ↔ cell ∈ cells ∧ admits state opts cell
  once : (selectedByAll arrival state opts).Nodup

/-! ## The order -/

instance : Std.Total fun a b : RunnableCell T => cellOrderKey a ≤ cellOrderKey b :=
  ⟨fun a b => le_total (cellOrderKey a) (cellOrderKey b)⟩

instance : IsTrans (RunnableCell T) fun a b => cellOrderKey a ≤ cellOrderKey b := ⟨fun _ _ _ => le_trans⟩

theorem orderCells_perm (cells : List (RunnableCell T)) : orderCells cells ~ cells := perm_insertionSort _ _

/-- With distinct keys the order does not depend on how the cells arrive. -/
theorem orderCells_eq {l₁ l₂ : List (RunnableCell T)} (hkeys : DistinctKeys cells) (h₁ : l₁ ~ cells) (h₂ : l₂ ~ cells) :
    orderCells l₁ = orderCells l₂ := by
  have hperm : orderCells l₁ ~ orderCells l₂ :=
    (orderCells_perm l₁).trans (h₁.trans (h₂.symm.trans (orderCells_perm l₂).symm))
  refine List.Perm.eq_of_pairwise ?_ (pairwise_insertionSort _ l₁) (pairwise_insertionSort _ l₂) hperm
  intro a b ha hb hab hba
  have ha' : a ∈ cells := h₁.mem_iff.1 ((orderCells_perm l₁).mem_iff.1 ha)
  have hb' : b ∈ cells := h₂.mem_iff.1 ((orderCells_perm l₂).mem_iff.1 hb)
  exact hkeys a ha' b hb' (le_antisymm hab hba)

/-- Cells that share a key stay in the order they arrive in. -/
theorem filter_orderCells (l : List (RunnableCell T)) (k : OrderKey) :
    (orderCells l).filter (cellOrderKey · = k) = l.filter (cellOrderKey · = k) := by
  rw [orderCells, Evict.filter_insertionSort]
  refine List.Pairwise.insertionSort_eq (pairwise_of_forall_mem_list ?_)
  intro a ha b hb
  have ha' : cellOrderKey a = k := by simpa using of_mem_filter ha
  have hb' : cellOrderKey b = k := by simpa using of_mem_filter hb
  exact (ha'.trans hb'.symm).le

/-- Two cells that share a key can arrive in two orders that are kept. -/
theorem orderCells_swap_ne {a b : RunnableCell T} (rest : List (RunnableCell T)) (hne : a ≠ b)
    (hkey : cellOrderKey a = cellOrderKey b) : orderCells (a :: b :: rest) ≠ orderCells (b :: a :: rest) := by
  intro heq
  have hfilter := congrArg (filter (cellOrderKey · = cellOrderKey a)) heq
  rw [filter_orderCells, filter_orderCells] at hfilter
  simp only [hkey, decide_true, filter_cons_of_pos, cons.injEq] at hfilter
  exact hne hfilter.1

/-! ## The selection -/

/-- The selected cells are the admitted ones of the shard, in matrix order. -/
theorem selectedCells_eq (arrival : List (RunnableCell T)) (state : StateIndex) (opts : RunOptions) :
    selectedCells arrival state opts =
      ((orderCells arrival).zipIdx.filter fun x => opts.shard.all (·.contains x.2) && admits state opts x.1).map Prod.fst := by
  rw [selectedCells, selectRunnable, filterMap_filterMap]
  refine (filterMap_congr (g := fun x => (Option.guard (fun x => admits state opts x.1) x).map Prod.fst) fun x hx => ?_).trans ?_
  · have hget : (orderCells arrival)[x.2]? = some x.1 := mem_zipIdx_iff_getElem?.1 (mem_of_mem_filter hx)
    unfold admits Option.guard
    cases hstate : state.stateFor x.1 with
    | done => cases opts.includeDone <;> simp [hget, hstate]
    | failed => cases opts.includeFailed <;> simp [hget, hstate]
    | missing => simp [hget, hstate]
  · rw [← map_filterMap, filterMap_eq_filter, filter_filter]
    simp only [Bool.and_comm]

/-- The parts of a list by a number below `N` are the elements whose number is below `N`. -/
theorem flatMap_filter_perm {α : Type} (l : List α) (f : α → Nat) (N : Nat) :
    ((finRange N).flatMap fun i : Fin N => l.filter fun x => f x = i.val) ~ l.filter fun x => f x < N := by
  induction N with
  | zero => simp
  | succ N ih =>
    have hbelow : (l.filter fun x => f x < N) = (l.filter fun x => f x < N + 1).filter fun x => f x < N := by
      rw [filter_filter]
      refine filter_congr fun x _ => ?_
      by_cases h : f x < N
      · simp [h, Nat.lt_succ_of_lt h]
      · simp [h]
    have hlast : (l.filter fun x => f x = N) = (l.filter fun x => f x < N + 1).filter fun x => !decide (f x < N) := by
      rw [filter_filter]
      refine filter_congr fun x _ => ?_
      by_cases h : f x = N
      · simp [h]
      · simp only [h, decide_false, Bool.false_eq, Bool.and_eq_false_iff, Bool.not_eq_false', decide_eq_true_eq,
          decide_eq_false_iff_not]
        omega
    rw [finRange_succ_last, flatMap_append, flatMap_map]
    simp only [Fin.val_castSucc, flatMap_cons, flatMap_nil, append_nil, Fin.val_last]
    refine (ih.append_right _).trans ?_
    rw [hbelow, hlast]
    exact filter_append_perm _ _

/-- Invocations that order the matrix alike select every admitted cell once. -/
theorem selected_once {arrival : Fin N → List (RunnableCell T)} (hN : 0 < N) {ordered : List (RunnableCell T)}
    (hordered : ∀ i, orderCells (arrival i) = ordered) (state : StateIndex) (opts : RunOptions) :
    selectedByAll arrival state opts ~ ordered.filter (admits state opts) := by
  have hpart : ∀ i : Fin N, selectedCells (arrival i) state (opts.sharded i) =
      ((ordered.zipIdx.filter fun x => admits state opts x.1).filter fun x => x.2 % N = i).map Prod.fst := by
    intro i
    rw [selectedCells_eq, hordered i, filter_filter]
    rfl
  have hall : ((ordered.zipIdx.filter fun x => admits state opts x.1).filter fun x => x.2 % N < N) =
      ordered.zipIdx.filter fun x => admits state opts x.1 :=
    filter_eq_self.2 fun x _ => by simpa using Nat.mod_lt x.2 hN
  have hfst : (ordered.zipIdx.filter fun x => admits state opts x.1).map Prod.fst = ordered.filter (admits state opts) := by
    conv_rhs => rw [← zipIdx_map_fst 0 ordered]
    rw [filter_map]
    rfl
  simp only [selectedByAll, hpart]
  rw [← map_flatMap, ← hfst]
  refine List.Perm.map _ ?_
  have hsplit := flatMap_filter_perm (ordered.zipIdx.filter fun x => admits state opts x.1) (fun x => x.2 % N) N
  rwa [hall] at hsplit

/-! ## What splits a plan -/

/-- Two invocations that get two cells with one key in different orders do not order the matrix alike. -/
theorem exists_orders_apart (hnot : ¬ DistinctKeys cells) :
    ∃ l₁ l₂, l₁ ~ cells ∧ l₂ ~ cells ∧ orderCells l₁ ≠ orderCells l₂ := by
  classical
  simp only [DistinctKeys, not_forall] at hnot
  obtain ⟨a, ha, b, hb, hkey, hne⟩ := hnot
  have hb' : b ∈ cells.erase a := (mem_erase_of_ne (Ne.symm hne)).2 hb
  have hperm : cells ~ a :: b :: (cells.erase a).erase b := (perm_cons_erase ha).trans ((perm_cons_erase hb').cons a)
  exact ⟨_, _, hperm.symm, (List.Perm.swap a b _).trans hperm.symm, orderCells_swap_ne _ hne hkey⟩

/-- For cells that are distinct and at least one shard: whatever order each invocation gets the cells in, the invocations
order the matrix alike and select each admitted cell once, exactly if there is one shard only or no two cells share an
order key. -/
theorem splitsPlan_iff (hcells : cells.Nodup) (hN : 0 < N) (state : StateIndex) (opts : RunOptions) :
    (∀ arrival : Fin N → List (RunnableCell T), (∀ i, arrival i ~ cells) → SplitsPlan cells arrival state opts) ↔
      N = 1 ∨ DistinctKeys cells := by
  constructor
  · intro hall
    by_contra hnot
    obtain ⟨hmany, hkeys⟩ := not_or.1 hnot
    obtain ⟨l₁, l₂, h₁, h₂, hne⟩ := exists_orders_apart hkeys
    have hsplit := hall (fun i => if i.val = 0 then l₁ else l₂) fun i => by
      split
      · exact h₁
      · exact h₂
    have hsame := hsplit.sameOrder ⟨0, hN⟩ ⟨1, by omega⟩
    exact hne (by simpa using hsame)
  · intro hsome arrival harrival
    have hsame : ∀ i j, orderCells (arrival i) = orderCells (arrival j) := by
      intro i j
      rcases hsome with rfl | hkeys
      · rw [Subsingleton.elim i j]
      · exact orderCells_eq hkeys (harrival i) (harrival j)
    have hperm : selectedByAll arrival state opts ~ cells.filter (admits state opts) :=
      (selected_once hN (fun i => hsame i ⟨0, hN⟩) state opts).trans (((orderCells_perm _).trans (harrival ⟨0, hN⟩)).filter _)
    refine ⟨hsame, fun cell => ?_, hperm.nodup_iff.2 (hcells.filter _)⟩
    rw [hperm.mem_iff, mem_filter]

/-- Descriptors that are their own texts. -/
abbrev textTypes : PlanTypes where
  Model := Text
  Runtime := Text
  RuntimeFlags := Text
  ModelFlags := Text
  BenchmarkFlags := Text
  modelText := id
  runtimeText := id
  runtimeFlagsText := some
  modelFlagsText := some

/-- A cell of a variant that waits for readiness as the client does by default. -/
def plainCell : RunnableCell textTypes where
  benchmark := "prefill_throughput_256"
  model := "gguf_text:o/r/a.gguf"
  runtime := "llamacpp_cli_stock_tools:b9050"
  allowedClients := ["t1"]
  runtimeFlags := none
  modelFlags := none
  benchmarkFlags := none

/-- The cell of a variant that sets the wait, and is the same otherwise. -/
def gatedCell : RunnableCell textTypes := { plainCell with benchmarkFlags := some "max_wait_secs=300" }

/-- The cell of a variant of another model. -/
def otherCell : RunnableCell textTypes := { plainCell with model := "gguf_text:o/r/b.gguf" }

/-- A first run, with nothing recorded and no options but the shard. -/
def firstRun : RunOptions := ⟨false, false, none⟩

/-- One process gets the two cells in one order, the other in the other. -/
def twoOrders (a b : RunnableCell textTypes) (i : Fin 2) : List (RunnableCell textTypes) := if i.val = 0 then [a, b] else [b, a]

theorem twoOrders_perm (a b : RunnableCell textTypes) (i : Fin 2) : twoOrders a b i ~ [a, b] := by
  unfold twoOrders
  split
  · exact .refl _
  · exact .swap a b []

/-- Two variants of different models are split, whatever order each process gets them in. -/
theorem plainCell_otherCell_split : SplitsPlan [plainCell, otherCell] (twoOrders plainCell otherCell) .empty firstRun := by
  have hne : plainCell ≠ otherCell := fun h => absurd (congrArg RunnableCell.model h) (by decide)
  have hkey : cellOrderKey plainCell ≠ cellOrderKey otherCell := fun h => absurd (congrArg (fun k => (ofLex k).1) h) (by decide)
  have hkeys : DistinctKeys [plainCell, otherCell] := by
    intro a ha b hb hab
    simp only [mem_cons, not_mem_nil, or_false] at ha hb
    rcases ha with rfl | rfl <;> rcases hb with rfl | rfl
    · rfl
    · exact absurd hab hkey
    · exact absurd hab.symm hkey
    · rfl
  exact (splitsPlan_iff (by simpa using hne) (by decide) .empty firstRun).2 (.inr hkeys) _ (twoOrders_perm plainCell otherCell)

/-- Two variants that differ in their benchmark flags alone, and two shards that get the cells in different orders: the two
select the same cell, and neither the other. -/
theorem flagged_variants_split_apart :
    [plainCell, gatedCell].Nodup ∧ (∀ i, twoOrders plainCell gatedCell i ~ [plainCell, gatedCell]) ∧
      selectedByAll (twoOrders plainCell gatedCell) .empty firstRun = [plainCell, plainCell] ∧
      ¬ SplitsPlan [plainCell, gatedCell] (twoOrders plainCell gatedCell) .empty firstRun := by
  have hne : plainCell ≠ gatedCell := fun h => absurd (congrArg RunnableCell.benchmarkFlags h) (by decide)
  have hsel : selectedByAll (twoOrders plainCell gatedCell) .empty firstRun = [plainCell, plainCell] := by rfl
  refine ⟨by simpa using hne, twoOrders_perm plainCell gatedCell, hsel, fun hsplit => ?_⟩
  have honce := hsplit.once
  rw [hsel] at honce
  simp at honce

end Pipette.Runner
