import Pipette.Lemmas.QueueSteps

/-!
# Where each item is

Every routed item is in one queue, with one worker, or over: it has its event, or a worker that could not write dropped it. An
action moves one item at most, and keeps every item where only workers that may run it can come to it.
-/

namespace Pipette.Runner

open RunState List Function RunState

variable {T : PlanTypes} {v : Invocation T} {w u : Nat} {cfg : TransportConfig} {s s' : RunState}

/-- Where an item is. -/
inductive Place where
  | queue (q : QueueId)
  | worker (w : Nat)
  | gone
  | nowhere
  deriving DecidableEq

/-- The position of the item a worker holds. -/
def heldBy (s : RunState) (w : Nat) : Option Nat := (s.workers w).phase.item?.map Prod.fst

/-- The positions of the items of a queue. -/
def queued (s : RunState) (q : QueueId) : List Nat := (s.queues q).map Prod.fst

/-- The entry is the event that ends an attempt at an item. -/
def Entry.Ends (idx : Nat) : Entry → Prop
  | .wrote _ item status _ => status ≠ .started ∧ item.1 = idx
  | _ => False

/-- The items are where `place` says. -/
structure Placed (place : Nat → Place) (s : RunState) : Prop where
  queue : ∀ q idx, place idx = .queue q ↔ idx ∈ queued s q
  nodup : ∀ q, (queued s q).Nodup
  worker : ∀ w idx, place idx = .worker w ↔ heldBy s w = some idx
  ended : ∀ e ∈ s.log, ∀ idx, e.Ends idx → place idx = .gone
  gone : ∀ idx, place idx = .gone → (∃ e ∈ s.log, e.Ends idx) ∨ ∃ w, (s.workers w).phase = .stopped .unwritten

/-! ## The start -/

/-- Where the items are before the first action. -/
def firstPlace (v : Invocation T) (idx : Nat) : Place :=
  match (v.items.find? (·.1 = idx)).bind v.queueOf with
  | some q => .queue q
  | none => .nowhere

variable {item : RunnableItem} {q : QueueId} {idx : Nat} {place : Nat → Place}

theorem find?_items (h : item ∈ v.items) : v.items.find? (·.1 = item.1) = some item := by
  obtain ⟨found, hfound⟩ : ∃ found, v.items.find? (·.1 = item.1) = some found := by
    rw [← Option.isSome_iff_exists, find?_isSome]
    exact ⟨item, h, by simp⟩
  have hidx : found.1 = item.1 := by simpa using find?_some hfound
  rw [hfound, inj_on_of_nodup_map items_nodup (mem_of_find?_eq_some hfound) h hidx]

theorem firstPlace_eq_queue : firstPlace v idx = .queue q ↔ ∃ item ∈ v.items, v.queueOf item = some q ∧ item.1 = idx := by
  unfold firstPlace
  constructor
  · intro h
    split at h
    · next q' hq =>
      obtain ⟨item, hfind, hqueue⟩ := Option.bind_eq_some_iff.1 hq
      cases h
      exact ⟨item, mem_of_find?_eq_some hfind, hqueue, by simpa using find?_some hfind⟩
    · cases h
  · rintro ⟨item, hitem, hqueue, rfl⟩
    rw [find?_items hitem, Option.bind_some, hqueue]

theorem phase_start (v : Invocation T) (w : Nat) :
    v.workers[w]? = none ∧ ((start v).workers w).phase = .stopped .queuesEmpty ∨
    ∃ cfg, v.workers[w]? = some cfg ∧ ((start v).workers w).phase = .popping (v.queuesFor cfg) := by
  cases hw : v.workers[w]? with
  | none => exact .inl ⟨rfl, by simp [start, hw]⟩
  | some cfg => exact .inr ⟨cfg, rfl, by simp [start, hw]⟩

theorem heldBy_start (v : Invocation T) (w : Nat) : heldBy (.start v) w = none := by
  rcases phase_start v w with ⟨-, hp⟩ | ⟨cfg, -, hp⟩ <;> rw [heldBy, hp] <;> rfl

theorem placed_start : Placed (firstPlace v) (.start v) where
  queue q idx := by
    rw [firstPlace_eq_queue, queued, mem_map]
    simp only [start, Invocation.initialQueues, mem_filter, decide_eq_true_eq, and_assoc]
  nodup q := items_nodup.sublist (List.Sublist.map _ filter_sublist)
  worker w idx := by
    rw [heldBy_start]
    refine iff_of_false (fun h => ?_) (by simp)
    unfold firstPlace at h
    split at h <;> cases h
  ended e he := by cases he
  gone idx h := by
    unfold firstPlace at h
    split at h <;> cases h

/-! ## Steps -/

/-- A worker that could not write stays so. -/
theorem Step.unwritten (h : Step v w cfg s s') (hu : ∃ u, (s.workers u).phase = .stopped .unwritten) :
    ∃ u, (s'.workers u).phase = .stopped .unwritten := by
  obtain ⟨u, hu⟩ := hu
  have hne : u ≠ w := by
    rintro rfl
    exact h.not_stopped _ hu
  exact ⟨u, by rw [h.others hne, hu]⟩

/-- The entries of an action: those before, and perhaps one more of the worker. -/
theorem Step.log_subset (h : Step v w cfg s s') : s.log ⊆ s'.log := by
  cases h.effect with
  | take _ _ _ _ hlog | drop _ _ _ hlog => rw [hlog]; exact List.Subset.refl _
  | put _ _ _ hlog | finish _ _ _ hlog => rw [hlog]; exact subset_cons_self _ _
  | keep _ _ hlog =>
    rcases hlog with hlog | ⟨item, -, hlog | hlog⟩ <;> rw [hlog]
    · exact List.Subset.refl _
    · exact subset_cons_self _ _
    · exact subset_cons_self _ _

variable (hinv : Placed place s)
include hinv

variable (h : Step v w cfg s s')
include h

namespace Placed

/-- A worker moves an item it holds, or takes one from a queue. -/
theorem move (idx₀ : Nat) (dest : Place) (hfrom : place idx₀ = .worker w ∨ (∃ q, place idx₀ = .queue q) ∧ dest = .worker w)
    (hqueue : ∀ q, queued s' q = if dest = .queue q then queued s q ++ [idx₀] else (queued s q).erase idx₀)
    (hbefore : ∀ idx, heldBy s w = some idx → idx = idx₀) (hheld : heldBy s' w = if dest = .worker w then some idx₀ else none)
    (hdest : ∀ u, u ≠ w → dest ≠ .worker u)
    (hlog : ∀ e ∈ s'.log, ∀ idx, e.Ends idx → e ∈ s.log ∨ idx = idx₀ ∧ dest = .gone)
    (hover : dest = .gone → (∃ e ∈ s'.log, e.Ends idx₀) ∨ ∃ u, (s'.workers u).phase = .stopped .unwritten) :
    Placed (update place idx₀ dest) s' where
  queue q idx := by
    rw [hqueue]
    by_cases hi : idx = idx₀
    · split <;> simp_all [(hinv.nodup q).mem_erase_iff]
    · split <;> simp [hi, hinv.queue, mem_erase_of_ne hi]
  nodup q := by
    rw [hqueue]
    split
    · next hd =>
      have hnot : idx₀ ∉ queued s q := by
        rw [← hinv.queue]
        rcases hfrom with hplace | ⟨-, hworker⟩
        · simp [hplace]
        · cases hd.symm.trans hworker
      simpa [nodup_append, hinv.nodup q] using fun a ha (h : a = idx₀) => hnot (h ▸ ha)
    · exact (hinv.nodup q).erase _
  worker u idx := by
    by_cases hu : u = w
    · rw [hu, hheld]
      by_cases hi : idx = idx₀
      · simp [hi]
      · have hnot : heldBy s w ≠ some idx := fun h => hi (hbefore idx h)
        simp [hi, hinv.worker, hnot, Ne.symm hi]
    rw [heldBy, h.others hu, ← heldBy, ← hinv.worker]
    by_cases hi : idx = idx₀
    · rw [hi, update_self]
      refine iff_of_false (hdest u hu) ?_
      rcases hfrom with hplace | ⟨⟨q, hplace⟩, -⟩ <;> simp [hplace, Ne.symm hu]
    · rw [update_of_ne hi]
  ended e he idx hends := by
    by_cases hi : idx = idx₀
    · subst hi
      rcases hlog e he idx hends with hold | ⟨-, rfl⟩
      · rcases hfrom with hplace | ⟨⟨q, hplace⟩, -⟩ <;> cases hplace.symm.trans (hinv.ended e hold idx hends)
      · exact update_self ..
    rw [update_of_ne hi]
    rcases hlog e he idx hends with hold | ⟨heq, -⟩
    · exact hinv.ended e hold idx hends
    · exact absurd heq hi
  gone idx hidx := by
    by_cases hi : idx = idx₀
    · subst hi
      rw [update_self] at hidx
      exact hover hidx
    rw [update_of_ne hi] at hidx
    rcases hinv.gone idx hidx with ⟨e, he, hends⟩ | hunwritten
    · exact .inl ⟨e, h.log_subset he, hends⟩
    · exact .inr (h.unwritten hunwritten)

omit h in
/-- What stands elsewhere is in no other queue. -/
theorem erase_queued {idx : Nat} (hplace : place idx ≠ .queue q) : (queued s q).erase idx = queued s q :=
  erase_of_not_mem fun hmem => hplace ((hinv.queue q idx).2 hmem)

theorem take {rest : List QueueId}
    {items : List RunnableItem} (hphase : (s.workers w).phase = .popping (q :: rest))
    (hq : s.queues q = item :: items) (hqueues : s'.queues = update s.queues q items)
    (hphase' : (s'.workers w).phase = .probing item q) (hlog : s'.log = s.log) :
    Placed (update place item.1 (.worker w)) s' := by
  have hplace : place item.1 = .queue q := (hinv.queue q item.1).2 (by simp [queued, hq])
  refine hinv.move h item.1 (.worker w) (.inr ⟨⟨q, hplace⟩, rfl⟩) ?_ (by simp [heldBy, hphase, Phase.item?])
    (by simp [heldBy, hphase', Phase.item?]) (fun u hu => by simpa using Ne.symm hu) (fun e he _ _ => .inl (hlog ▸ he)) (by simp)
  intro q'
  by_cases hq' : q' = q
  · subst hq'
    simp [queued, hqueues, hq]
  · rw [hinv.erase_queued (by simpa [hplace] using Ne.symm hq')]
    simp [queued, hqueues, update_of_ne hq']

theorem put (hphase : (s.workers w).phase = .returning item q)
    (hqueues : s'.queues = update s.queues q (s.queues q ++ [item]))
    (hphase' : (s'.workers w).phase = .waiting v.maxRetries) (hlog : s'.log = .handedBack w item :: s.log) :
    Placed (update place item.1 (.queue q)) s' := by
  have hplace : place item.1 = .worker w := (hinv.worker w item.1).2 (by rw [heldBy, hphase]; rfl)
  refine hinv.move h item.1 (.queue q) (.inl hplace) ?_ (by simp [heldBy, hphase, Phase.item?, eq_comm])
    (by simp [heldBy, hphase', Phase.item?]) (by simp) ?_ (by simp)
  · intro q'
    by_cases hq' : q' = q
    · subst hq'
      simp [queued, hqueues]
    · rw [hinv.erase_queued (by simp [hplace])]
      simp [queued, hqueues, update_of_ne hq', Ne.symm hq']
  · intro e he idx hends
    rw [hlog, mem_cons] at he
    rcases he with rfl | he
    · cases hends
    · exact .inl he

/-- A worker is done with the item it holds: with its event, or because it could not write. -/
theorem done
    (hphase : (s.workers w).phase.item? = some item) (hqueues : s'.queues = s.queues)
    (hphase' : (s'.workers w).phase.item? = none)
    (hlog : ∀ e ∈ s'.log, e ∈ s.log ∨ ∀ idx, e.Ends idx → idx = item.1)
    (hover : (∃ e ∈ s'.log, e.Ends item.1) ∨ ∃ u, (s'.workers u).phase = .stopped .unwritten) :
    Placed (update place item.1 .gone) s' := by
  have hplace : place item.1 = .worker w := (hinv.worker w item.1).2 (by rw [heldBy, hphase]; rfl)
  refine hinv.move h item.1 .gone (.inl hplace) (fun q => ?_) (by simp [heldBy, hphase, eq_comm])
    (by simp [heldBy, hphase']) (by simp) (fun e he idx hends => ?_) fun _ => hover
  · rw [hinv.erase_queued (by simp [hplace])]
    simp [queued, hqueues]
  · rcases hlog e he with hold | hnew
    · exact .inl hold
    · exact .inr ⟨hnew idx hends, rfl⟩

theorem keep (hqueues : s'.queues = s.queues)
    (hitem : (s'.workers w).phase.item? = (s.workers w).phase.item?)
    (hlog : ∀ e ∈ s'.log, ∀ idx, e.Ends idx → e ∈ s.log) : Placed place s' where
  queue q idx := by
    rw [queued, hqueues]
    exact hinv.queue q idx
  nodup q := by
    rw [queued, hqueues]
    exact hinv.nodup q
  worker u idx := by
    rw [hinv.worker]
    by_cases hu : u = w
    · rw [hu, heldBy, heldBy, hitem]
    · rw [heldBy, heldBy, h.others hu]
  ended e he idx hends := hinv.ended e (hlog e he idx hends) idx hends
  gone idx hidx := by
    rcases hinv.gone idx hidx with ⟨e, he, hends⟩ | hunwritten
    · exact .inl ⟨e, h.log_subset he, hends⟩
    · exact .inr (h.unwritten hunwritten)

/-- An action leaves every item that is somewhere somewhere. -/
theorem step :
    ∃ place', Placed place' s' ∧ ∀ idx, place idx ≠ .nowhere → place' idx ≠ .nowhere := by
  have hstays : ∀ (idx₀ : Nat) {dest : Place}, dest ≠ .nowhere →
      ∀ idx, place idx ≠ .nowhere → update place idx₀ dest idx ≠ .nowhere := by
    intro idx₀ dest hdest idx hidx
    by_cases hi : idx = idx₀
    · rw [hi, update_self]
      exact hdest
    · rwa [update_of_ne hi]
  cases h.effect with
  | @take q rest item items hphase hq hqueues hphase' hlog =>
    exact ⟨_, hinv.take h hphase hq hqueues hphase' hlog, hstays item.1 (by simp)⟩
  | @put item q hphase hqueues hphase' hlog => exact ⟨_, hinv.put h hphase hqueues hphase' hlog, hstays item.1 (by simp)⟩
  | @finish item code hphase hqueues hphase' hlog =>
    refine ⟨_, hinv.done h (by rw [hphase]; rfl) hqueues ?_ ?_ (.inl ⟨_, by rw [hlog]; exact mem_cons_self, ?_⟩),
      hstays item.1 (by simp)⟩
    · rcases hphase' with hp | hp <;> rw [hp] <;> rfl
    · intro e he
      rw [hlog, mem_cons] at he
      rcases he with rfl | he
      · exact .inr fun idx hends => hends.2.symm
      · exact .inl he
    · refine ⟨?_, rfl⟩
      unfold statusOf
      split <;> simp
  | @drop item hphase hqueues hphase' hlog =>
    refine ⟨_, hinv.done h hphase hqueues (by rw [hphase']; rfl) ?_ (.inr ⟨w, hphase'⟩), hstays item.1 (by simp)⟩
    intro e he
    exact .inl (hlog ▸ he)
  | keep hqueues hitem hlog =>
    refine ⟨_, hinv.keep h hqueues hitem ?_, fun idx hidx => hidx⟩
    intro e he idx hends
    rcases hlog with hlog | ⟨item, -, hlog | hlog⟩ <;> rw [hlog] at he
    · exact he
    all_goals
      rcases mem_cons.1 he with rfl | he
      · first
          | exact absurd rfl hends.1
          | cases hends
      · exact he

end Placed

omit h hinv

/-! ## Who can come to an item -/

/-- A client may run the cell at a position. -/
def MayRun (v : Invocation T) (idx : Nat) (client : Text) : Prop := ∀ cell, v.cells[idx]? = some cell → Permits v cell client

/-- Every worker that takes from a queue may run the cell at a position. -/
def QueueOk (v : Invocation T) (q : QueueId) (idx : Nat) : Prop :=
  ∀ (u : Nat) (cfg : TransportConfig), v.workers[u]? = some cfg → q ∈ v.queuesFor cfg → MayRun v idx cfg.clientId

/-- The queue a phase has an item from or is to put it into. -/
def Phase.origin? : Phase → Option (RunnableItem × QueueId)
  | .probing item q | .returning item q => some (item, q)
  | _ => none

/-- Only workers that may run an item can come to it. -/
structure Allowed (v : Invocation T) (s : RunState) : Prop where
  known : ∀ {w : Nat} {cfg : TransportConfig}, v.workers[w]? = some cfg → ∀ q ∈ (s.workers w).phase.queues, q ∈ v.queuesFor cfg
  queue : ∀ q, ∀ item ∈ s.queues q, QueueOk v q item.1
  held : ∀ {w : Nat} {cfg : TransportConfig}, v.workers[w]? = some cfg → ∀ item, (s.workers w).phase.item? = some item → MayRun v item.1 cfg.clientId
  origin : ∀ {w item q}, (s.workers w).phase.origin? = some (item, q) → QueueOk v q item.1

/-- A queue serves only workers that may run the cells routed to it. -/
theorem queueOk_of_queueOf (h : v.queueOf item = some q) : QueueOk v q item.1 := by
  intro u cfg hu hq cell hcell
  rw [Invocation.queueOf, hcell, Option.bind_some] at h
  exact (serves_iff_permits h (mem_presentLabels_of_worker hu)).1 (serves_of_mem_queuesFor hq)

theorem allowed_start : Allowed v (.start v) where
  known := by
    intro w cfg hw q hq
    rcases phase_start v w with ⟨-, hp⟩ | ⟨cfg', hw', hp⟩ <;> rw [hp] at hq
    · cases hq
    · cases hw.symm.trans hw'
      exact hq
  queue := by
    intro q item hitem
    have hqueue := (mem_filter.1 hitem).2
    exact queueOk_of_queueOf (by simpa using hqueue)
  held := by
    intro w cfg hw item hitem
    rcases phase_start v w with ⟨-, hp⟩ | ⟨cfg', -, hp⟩ <;> rw [hp] at hitem <;> cases hitem
  origin := by
    intro w item q horigin
    rcases phase_start v w with ⟨-, hp⟩ | ⟨cfg', -, hp⟩ <;> rw [hp] at horigin <;> cases horigin

/-- The queue of a worker's own client serves workers of that client only. -/
theorem queueOk_pinned (h : MayRun v idx cfg.clientId) : QueueOk v (.pinned cfg.clientId) idx := by
  intro u cfg' hu hq
  rw [← mem_queuesFor_pinned.1 hq]
  exact h

/-- A worker gets an item from a queue, and gives it to one of its queue or to its own. -/
theorem Step.origin (h : Step v w cfg s s') (horigin : (s'.workers w).phase.origin? = some (item, q)) :
    (item ∈ s.queues q ∧ q ∈ (s.workers w).phase.queues) ∨ (s.workers w).phase.origin? = some (item, q) ∨
      ((s.workers w).phase.item? = some item ∧ q = .pinned cfg.clientId) := by
  cases h with
  | pop h hq =>
    rw [goto_phase] at horigin
    cases horigin
    exact .inl ⟨by simp [hq], by rw [h]; exact mem_cons_self⟩
  | probeFails h =>
    rw [goto_phase] at horigin
    cases horigin
    exact .inr (.inl (by rw [h]; rfl))
  | execFails h =>
    rw [goto_phase] at horigin
    cases horigin
    exact .inr (.inr ⟨by rw [h]; rfl, rfl⟩)
  | writeEnd h => rcases afterAttempt_phase v _ w cfg _ with hp | hp <;> rw [hp] at horigin <;> cases horigin
  | _ =>
    rw [goto_phase] at horigin
    cases horigin

theorem Allowed.step (hinv : Allowed v s) (hw : v.workers[w]? = some cfg) (h : Step v w cfg s s') : Allowed v s' where
  known := by
    intro u cfg' hu q hq
    by_cases hne : u = w
    · subst hne
      cases hw.symm.trans hu
      exact (h.phase_queues hq).elim (hinv.known hw q) id
    · rw [h.others hne] at hq
      exact hinv.known hu q hq
  queue := by
    intro q item hitem
    rcases h.mem_queue hitem with hold | hphase
    · exact hinv.queue q item hold
    · exact hinv.origin (by rw [hphase]; rfl)
  held := by
    intro u cfg' hu item hitem
    by_cases hne : u = w
    · subst hne
      cases hw.symm.trans hu
      rcases h.item hitem with hold | ⟨q, rest, hphase, hq⟩
      · exact hinv.held hw item hold
      · exact hinv.queue q item hq u cfg hw (hinv.known hw q (by rw [hphase]; exact mem_cons_self))
    · rw [h.others hne] at hitem
      exact hinv.held hu item hitem
  origin := by
    intro u item q horigin
    by_cases hne : u = w
    · subst hne
      rcases h.origin horigin with ⟨hmem, -⟩ | hold | ⟨hitem, rfl⟩
      · exact hinv.queue q item hmem
      · exact hinv.origin hold
      · exact queueOk_pinned (hinv.held hw item hitem)
    · rw [h.others hne] at horigin
      exact hinv.origin horigin

end Pipette.Runner
