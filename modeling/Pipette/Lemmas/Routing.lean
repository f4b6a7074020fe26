import Pipette.Runner.Queue

/-!
# Which workers a queue serves

A cell is routed to a queue that serves the clients that may run it, and no others: those of its pin, those it allows, or all.
-/

namespace Pipette.Runner

open List Invocation Prod
open scoped List

variable {T : PlanTypes} {v : Invocation T} {cfg : TransportConfig} {q : QueueId} {cell : RunnableCell T}

/-- The clients a queue serves. -/
def QueueId.Serves (client : Text) : QueueId → Prop
  | .pinned label => client = label
  | .restricted labels => client ∈ labels
  | .unassigned => True

/-- The cell allows the client, or any, and it is the cell's pin, if that is kept. It is not if stranded cells are to be
reassigned and the pin is not present or not allowed. -/
structure Permits (v : Invocation T) (cell : RunnableCell T) (client : Text) : Prop where
  allowed : cell.allowedClients = [] ∨ client ∈ cell.allowedClients
  pinned : ∀ pin, v.pinOf cell = some pin → client = pin ∨ v.reassignStranded ∧
    (pin ∉ v.presentLabels ∨ cell.allowedClients ≠ [] ∧ pin ∉ cell.allowedClients)

/-! ## Routing -/

/-- The allowed clients that are present, in order. -/
def Invocation.allowedLabels (v : Invocation T) (cell : RunnableCell T) : List Text :=
  (cell.allowedClients.filterMap v.nameToLabel).insertionSort (· ≤ ·)

variable {label client : Text} {w : Nat}

theorem mem_allowedLabels : label ∈ v.allowedLabels cell ↔ label ∈ cell.allowedClients ∧ label ∈ v.presentLabels := by
  rw [allowedLabels, mem_insertionSort, mem_filterMap]
  constructor
  · rintro ⟨name, hname, hlabel⟩
    rw [nameToLabel] at hlabel
    split at hlabel
    · next hpresent =>
      cases hlabel
      exact ⟨hname, hpresent⟩
    · cases hlabel
  · rintro ⟨hname, hpresent⟩
    exact ⟨label, hname, if_pos hpresent⟩

/-- Routing without a pin serves the allowed clients that are present, or all if none is. -/
theorem serves_routeUnpinned {labels : List Text} (h : (routeUnpinned labels).queue = some q) :
    q.Serves client ↔ labels = [] ∨ client ∈ labels := by
  match labels with
  | [] =>
    cases h
    simp [QueueId.Serves]
  | [label] =>
    cases h
    simp [QueueId.Serves]
  | a :: b :: rest =>
    cases h
    simp [QueueId.Serves]

/-- The queue of a cell serves, of the present clients, those that may run the cell. -/
theorem serves_iff_permits (hq : (v.routeOf cell).queue = some q) (hpresent : client ∈ v.presentLabels) :
    q.Serves client ↔ Permits v cell client := by
  have hlabels : (cell.allowedClients.filterMap v.nameToLabel).insertionSort (· ≤ ·) = v.allowedLabels cell := rfl
  simp only [routeOf, routeCell, hlabels] at hq
  have hmem : ∀ label ∈ v.presentLabels, (label ∈ v.allowedLabels cell ↔ label ∈ cell.allowedClients) := fun label hlabel => by
    rw [mem_allowedLabels]
    exact and_iff_left hlabel
  split at hq
  · cases hq
  · next hoverlap =>
    -- Some allowed client is present, or the cell allows any.
    have hnil : v.allowedLabels cell = [] ↔ cell.allowedClients = [] := by
      constructor
      · intro hlabels
        by_contra hallowed
        exact hoverlap ⟨hallowed, hlabels⟩
      · intro hallowed
        simp [allowedLabels, hallowed]
    have hfree : (routeUnpinned (v.allowedLabels cell)).queue = some q →
        (q.Serves client ↔ cell.allowedClients = [] ∨ client ∈ cell.allowedClients) := fun hroute => by
      rw [serves_routeUnpinned hroute, hnil, hmem client hpresent]
    split at hq
    · next pinned hpin =>
      split at hq
      · next habsent =>
        split at hq
        · next hreassign =>
          rw [hfree hq]
          refine ⟨fun hallowed => ⟨hallowed, fun pin hpin' => ?_⟩, fun h => h.allowed⟩
          cases hpin.symm.trans hpin'
          exact .inr ⟨hreassign, .inl habsent⟩
        · cases hq
      · next hpinned =>
        have hpinned : pinned ∈ v.presentLabels := not_not.1 hpinned
        split at hq
        · next hexcluded =>
          have hnot : cell.allowedClients ≠ [] ∧ pinned ∉ cell.allowedClients :=
            ⟨fun h => hexcluded.1 (hnil.2 h), fun h => hexcluded.2 ((hmem pinned hpinned).2 h)⟩
          split at hq
          · next hreassign =>
            rw [hfree hq]
            refine ⟨fun hallowed => ⟨hallowed, fun pin hpin' => ?_⟩, fun h => h.allowed⟩
            cases hpin.symm.trans hpin'
            exact .inr ⟨hreassign, .inr hnot⟩
          · cases hq
        · next hkept =>
          cases hq
          have hallowed : cell.allowedClients = [] ∨ pinned ∈ cell.allowedClients := by
            by_cases hempty : cell.allowedClients = []
            · exact .inl hempty
            · refine .inr ((hmem pinned hpinned).1 ?_)
              by_contra hnot
              exact hkept ⟨fun h => hempty (hnil.1 h), hnot⟩
          constructor
          · rintro rfl
            refine ⟨hallowed, fun pin hpin' => .inl ?_⟩
            exact Option.some.inj (hpin.symm.trans hpin')
          · intro h
            rcases h.pinned pinned hpin with heq | ⟨-, habsent | ⟨hne, hnot⟩⟩
            · exact heq
            · exact absurd hpinned habsent
            · exact absurd hallowed (by simp [hne, hnot])
    · next hpin =>
      rw [hfree hq]
      exact ⟨fun hallowed => ⟨hallowed, fun pin hpin' => by simp [hpin] at hpin'⟩, fun h => h.allowed⟩

/-! ## The queues of a worker -/

theorem mem_queuesFor_pinned : QueueId.pinned label ∈ v.queuesFor cfg ↔ label = cfg.clientId := by simp [queuesFor]

/-- A worker takes from queues that serve its client only. -/
theorem serves_of_mem_queuesFor (h : q ∈ v.queuesFor cfg) : q.Serves cfg.clientId := by
  rw [queuesFor, mem_cons, mem_append, mem_map, mem_singleton] at h
  rcases h with rfl | ⟨labels, hlabels, rfl⟩ | rfl
  · rfl
  · rw [eligibleRestricted, mem_insertionSort, mem_filter] at hlabels
    simpa [QueueId.Serves] using hlabels.2
  · trivial

/-- A worker takes from every queue of some item that serves its client. -/
theorem mem_queuesFor_of_serves {item : RunnableItem} (hitem : item ∈ v.items) (hq : v.queueOf item = some q)
    (h : q.Serves cfg.clientId) : q ∈ v.queuesFor cfg := by
  rw [queuesFor, mem_cons, mem_append, mem_map, mem_singleton]
  cases q with
  | pinned label => exact .inl (congrArg _ h.symm)
  | restricted labels =>
    refine .inr (.inl ⟨labels, ?_, rfl⟩)
    rw [eligibleRestricted, mem_insertionSort, mem_filter]
    refine ⟨mem_dedup.2 (mem_filterMap.2 ⟨item, hitem, ?_⟩), by simpa [QueueId.Serves] using h⟩
    simp [hq]
  | unassigned => exact .inr (.inr rfl)

/-! ## Workers, items and machines -/

theorem mem_transports_of_worker (h : v.workers[w]? = some cfg) : cfg ∈ v.transports := by
  have hmem := mem_of_getElem? h
  rw [workers, mem_flatMap] at hmem
  obtain ⟨cfg', hcfg', hrep⟩ := hmem
  rwa [eq_of_mem_replicate hrep]

theorem mem_presentLabels_of_worker (h : v.workers[w]? = some cfg) : cfg.clientId ∈ v.presentLabels :=
  mem_map_of_mem (mem_transports_of_worker h)

theorem cells_inj {i j : Nat} (hi : v.cells[i]? = some cell) (hj : v.cells[j]? = some cell) : i = j := by
  have hnodup : v.cells.Nodup := (perm_insertionSort _ _).nodup_iff.2 v.distinct
  obtain ⟨hlt, -⟩ := List.getElem?_eq_some_iff.1 hi
  exact (List.getElem?_inj hlt hnodup).1 (hi.trans hj.symm)

theorem map_fst_filterMap_sublist {α β γ : Type} {f : α → Option (β × γ)} {g : α → β} {l : List α}
    (h : ∀ x y, f x = some y → y.1 = g x) : ((l.filterMap f).map fst) <+ l.map g := by
  induction l with
  | nil => exact .slnil
  | cons x l ih =>
    cases hf : f x with
    | none =>
      rw [filterMap_cons_none hf]
      exact ih.cons _
    | some y =>
      rw [filterMap_cons_some hf, map_cons, map_cons, h x y hf]
      exact ih.cons_cons _

theorem items_nodup : (v.items.map fst).Nodup := by
  have hrunnable : ((selectRunnable v.cells v.state v.opts).map fst).Nodup := by
    have hpos : ((v.cells.zipIdx.filter fun x => v.opts.shard.all (·.contains x.2)).map snd).Nodup := by
      refine List.Nodup.sublist (List.Sublist.map snd filter_sublist) ?_
      rw [zipIdx_map_snd]
      exact nodup_range'
    refine hpos.sublist (map_fst_filterMap_sublist fun x item h => ?_)
    cases hstate : v.state.stateFor x.1 with
    | done => cases hdone : v.opts.includeDone <;> simp [hstate, hdone] at h; exact congrArg fst h.symm
    | failed => cases hfailed : v.opts.includeFailed <;> simp [hstate, hfailed] at h; exact congrArg fst h.symm
    | missing =>
      simp only [hstate, Option.some.injEq] at h
      exact congrArg fst h.symm
  rw [items]
  cases v.limit with
  | none => exact hrunnable
  | some limit =>
    rw [map_take]
    exact hrunnable.sublist (take_sublist _ _)

/-- The largest parallelism of the transports that reach a machine. -/
def Invocation.largest (v : Invocation T) (machine : Text) : Nat :=
  ((v.transports.filter (·.physicalId = machine)).map (·.parallelism)).foldr max 0

/-- The slots of a machine are the largest parallelism of the transports that reach it. -/
theorem physicalIdCapacities_eq (machine : Text) : (v.physicalIdCapacities machine).getD 0 = v.largest machine := by
  have hfold : ∀ (ts : List TransportConfig) (caps : Text → Option Nat),
      (ts.foldl (fun (caps : Text → Option Nat) cfg => Function.update caps cfg.physicalId
        (some ((caps cfg.physicalId).elim cfg.parallelism fun c => max c cfg.parallelism))) caps machine).getD 0 =
      max ((caps machine).getD 0) (((ts.filter (·.physicalId = machine)).map (·.parallelism)).foldr max 0) := by
    intro ts
    induction ts with
    | nil => simp
    | cons cfg ts ih =>
      intro caps
      rw [foldl_cons, ih]
      by_cases h : cfg.physicalId = machine
      · subst h
        cases caps cfg.physicalId <;> simp [max_assoc]
      · have hne : machine ≠ cfg.physicalId := Ne.symm h
        simp [h, hne]
  rw [physicalIdCapacities, hfold, largest]
  simp

theorem parallelism_le_largest (h : v.workers[w]? = some cfg) : cfg.parallelism ≤ v.largest cfg.physicalId := by
  have hmem : cfg.parallelism ∈ (v.transports.filter (·.physicalId = cfg.physicalId)).map (·.parallelism) :=
    mem_map_of_mem (mem_filter.2 ⟨mem_transports_of_worker h, by simp⟩)
  exact le_max_of_le hmem le_rfl

end Pipette.Runner
