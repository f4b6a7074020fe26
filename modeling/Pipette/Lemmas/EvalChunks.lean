import Pipette.Lemmas.EvalCell

/-!
# Chunks

The log of a cell that reads its dataset in chunks is a list of visits: an offset, the rows given, and what was done with them
(`ChunkTrace`). The offsets are positions still to do, in order; a refused chunk is the last visit, and every other visit but
the last closed its samples.
-/

namespace Pipette.Measurement

open Evals List

variable {k : Codec} {start : Session} (env : Env) {source : ChunkSource}

/-! ## Positions still to do -/

/-- Positions of a dataset in their order, each with its id. -/
structure Positions (source : ChunkSource) (todo : List (Nat × Text)) : Prop where
  placed : ∀ p ∈ todo, p.1 < source.declared ∧ p.2 = source.idAt p.1
  sorted : todo.Pairwise fun p q => p.1 < q.1

variable {idAt : Nat → Text}

theorem mem_chunkedPending {checkpoint : Session} {declared : Nat} {p : Nat × Text} :
    p ∈ chunkedPending checkpoint declared idAt ↔ p.1 < declared ∧ p.2 = idAt p.1 ∧ settled checkpoint true p.2 = false := by
  have hsettled : (!checkpoint.contains p.2 || decide (p.2 ∈ (checkpoint.failureSplit maxSampleAttempts).1)) ↔
      settled checkpoint true p.2 = false := by
    unfold settled
    cases checkpoint.contains p.2 <;> simp
  rw [chunkedPending, mem_filter, hsettled, mem_map]
  constructor
  · rintro ⟨⟨i, hi, rfl⟩, hp⟩
    exact ⟨mem_range.1 hi, rfl, hp⟩
  · rintro ⟨hlt, hid, hp⟩
    exact ⟨⟨p.1, mem_range.2 hlt, by rw [← hid]⟩, hp⟩

theorem positions_chunkedPending (checkpoint : Session) (source : ChunkSource) :
    Positions source (chunkedPending checkpoint source.declared source.idAt) where
  placed := fun p hp => ⟨(mem_chunkedPending.1 hp).1, (mem_chunkedPending.1 hp).2.1⟩
  sorted := by
    refine List.Pairwise.filter _ (pairwise_map.2 ?_)
    exact pairwise_lt_range

variable {todo rest : List (Nat × Text)} {p q : Nat × Text}

theorem Positions.eq_of_id (h : Positions source todo) (hp : p ∈ todo) (hq : q ∈ todo) (hid : p.2 = q.2) : p = q := by
  obtain ⟨hplt, hpid⟩ := h.placed p hp
  obtain ⟨hqlt, hqid⟩ := h.placed q hq
  exact Prod.ext (source.idAt_inj _ _ hplt hqlt (by rw [← hpid, ← hqid, hid])) hid

/-- The positions after a place are those that are not before it. -/
theorem Positions.mem_drop (h : Positions source todo) {cursor : Nat} (hp : todo[cursor]? = some p) (hq : q ∈ todo) :
    q ∈ todo.drop cursor ↔ p.1 ≤ q.1 := by
  obtain ⟨hlt, hp⟩ := List.getElem?_eq_some_iff.1 hp
  have hdrop : todo.drop cursor = p :: todo.drop (cursor + 1) := by rw [List.drop_eq_getElem_cons hlt, hp]
  have hsplit := take_append_drop cursor todo
  have hsorted := h.sorted
  rw [← hsplit, hdrop] at hsorted
  obtain ⟨-, hafter, hbefore⟩ := pairwise_append.1 hsorted
  constructor
  · intro hmem
    rw [hdrop] at hmem
    rcases mem_cons.1 hmem with rfl | hmem
    · exact Nat.le_refl _
    · exact Nat.le_of_lt ((pairwise_cons.1 hafter).1 q hmem)
  · intro hle
    rw [← hsplit] at hq
    rcases mem_append.1 hq with hq | hq
    · have := hbefore q hq p (by simp)
      omega
    · exact hq

/-- The positions from `stop` on are those after its partition point. -/
theorem drop_partitionPoint (hsorted : todo.Pairwise fun p q => p.1 < q.1) (stop : Nat) :
    todo.drop (partitionPoint todo stop) = todo.filter fun p => stop ≤ p.1 := by
  induction todo with
  | nil => rfl
  | cons p todo ih =>
    obtain ⟨hp, htodo⟩ := pairwise_cons.1 hsorted
    by_cases hlt : p.1 < stop
    · have hnot : ¬stop ≤ p.1 := by omega
      simpa [partitionPoint, hlt, hnot] using ih htodo
    have hall : (p :: todo).filter (fun p => stop ≤ p.1) = p :: todo := by
      refine filter_eq_self.2 (forall_mem_cons.2 ⟨by simpa using hlt, fun q hq => ?_⟩)
      have := hp q hq
      simp only [decide_eq_true_eq]
      omega
    rw [hall]
    simp [partitionPoint, hlt]

/-! ## Accepted chunks -/

variable {ids : List Text}

/-- A chunk that is not refused has rows, all of them in place. -/
theorem placed_of_chunkRefused {declared offset : Nat} (h : chunkRefused declared idAt offset ids = none) :
    ids ≠ [] ∧ offset + ids.length ≤ declared ∧ ∀ (j : Nat) (id : Text), ids[j]? = some id → id = idAt (offset + j) := by
  unfold chunkRefused at h
  split at h
  · cases h
  · next hne =>
    split at h
    · cases h
    · next hlt =>
      refine ⟨hne, by omega, fun j id hj => ?_⟩
      have hplaced := find?_eq_none.1 (Option.map_eq_none_iff.1 h) (offset + j, id) (mem_of_getElem? (by
        rw [getElem?_mapIdx, hj]; rfl))
      simpa using hplaced

variable {offset : Nat} {s : Sample}

theorem mem_chunkPending (hs : s ∈ chunkPending todo offset ids) :
    ∃ j : Nat, ids[j]? = some s.id ∧ ∃ p ∈ todo, p.2 = s.id := by
  obtain ⟨hs, htodo⟩ := mem_filter.1 hs
  obtain ⟨j, hj⟩ := getElem?_of_mem hs
  rw [chatSamples, getElem?_mapIdx] at hj
  obtain ⟨id, hid, rfl⟩ := Option.map_eq_some_iff.1 hj
  refine ⟨j, hid, ?_⟩
  simpa using htodo

variable {id : Text}

theorem exists_mem_chunkPending (hid : id ∈ ids) (htodo : ∃ p ∈ todo, p.2 = id) :
    ∃ s ∈ chunkPending todo offset ids, s.id = id := by
  obtain ⟨j, hj⟩ := getElem?_of_mem hid
  refine ⟨⟨id, offset + j + 1⟩, mem_filter.2 ⟨mem_of_getElem? (i := j) ?_, by simpa using htodo⟩, rfl⟩
  rw [chatSamples, getElem?_mapIdx, hj]
  rfl

/-- The samples of an accepted chunk stand at its positions. -/
theorem Positions.position (h : Positions source todo)
    (haccepted : chunkRefused source.declared source.idAt offset ids = none) (hs : s ∈ chunkPending todo offset ids) :
    ∃ p ∈ todo, p.2 = s.id ∧ offset ≤ p.1 ∧ p.1 < offset + ids.length := by
  obtain ⟨j, hj, p, hp, hpid⟩ := mem_chunkPending hs
  obtain ⟨-, hle, hplaced⟩ := placed_of_chunkRefused haccepted
  have hlt : j < ids.length := (List.getElem?_eq_some_iff.1 hj).1
  obtain ⟨hplt, hpat⟩ := h.placed p hp
  have hposition : p.1 = offset + j := by
    refine source.idAt_inj _ _ hplt (by omega) ?_
    rw [← hpat, hpid]
    exact hplaced j s.id hj
  exact ⟨p, hp, hpid, by omega, by omega⟩

theorem chunkPending_nodup (haccepted : chunkRefused source.declared source.idAt offset ids = none) :
    ((chunkPending todo offset ids).map (·.id)).Nodup := by
  obtain ⟨-, hle, hplaced⟩ := placed_of_chunkRefused haccepted
  have hids : ((chatSamples ids offset).map (·.id)) = ids := by
    refine ext_getElem? fun j => ?_
    rw [getElem?_map, chatSamples, getElem?_mapIdx]
    cases ids[j]? <;> rfl
  refine List.Nodup.sublist (filter_sublist.map _) ?_
  rw [hids]
  refine nodup_iff_getElem?_ne_getElem?.2 fun i j hij hj heq => ?_
  have hi := hplaced i ids[i] (getElem?_eq_getElem (by omega))
  have hj' := hplaced j ids[j] (getElem?_eq_getElem hj)
  rw [getElem?_eq_getElem (by omega), getElem?_eq_getElem hj] at heq
  have hsame := source.idAt_inj _ _ (by omega) (by omega) (hi.symm.trans ((Option.some.inj heq).trans hj'))
  omega

/-! ## Visits -/

/-- An offset that was asked for, what the source returned, and the events until the next. -/
structure Visit where
  offset : Nat
  rows : Option (List Text)
  events : List Event

def Visit.log (v : Visit) : List Event := .asked v.offset :: v.events

/-- What a chunk was refused for, if it was. -/
def Visit.refused (source : ChunkSource) (v : Visit) : Option EvalError :=
  match v.rows with
  | none => some (.chunk v.offset)
  | some ids => chunkRefused source.declared source.idAt v.offset ids

/-- The ids of a chunk that are still to do. -/
def Visit.given (todo : List (Nat × Text)) (v : Visit) : List Text := (v.rows.getD []).filter fun id => id ∈ todo.map (·.2)

/-- What a run over the positions that are left does to a log. -/
structure ChunkTrace (source : ChunkSource) (todo rest : List (Nat × Text)) (asked : List Nat) (visits : List Visit)
    (log log' : List Event) (r : Except EvalError Unit) : Prop where
  visited : log' = log ++ visits.flatMap Visit.log
  offsets : (visits.map Visit.offset).Sublist (rest.map (·.1))
  answers : ∀ (i : Nat) (v : Visit), visits[i]? = some v → v.rows = source.chunk (asked ++ (visits.take (i + 1)).map Visit.offset)
  refused : ∀ (i : Nat) (v : Visit), visits[i]? = some v → ∀ e, v.refused source = some e →
    v.events = [] ∧ i + 1 = visits.length ∧ r = .error e
  only : ∀ v ∈ visits, ∀ e ∈ v.events, ∃ id ∈ v.given todo, e.id = some id
  all : ∀ (i : Nat) (v : Visit), visits[i]? = some v → (i + 1 < visits.length ∨ r = .ok ()) → ∀ id ∈ v.given todo,
    ∃ c, SentIn v.events id c
  defined : ∀ id, (phase log' id).isSome
  frame : ∀ id, (∀ p ∈ rest, p.2 ≠ id) → phase log' id = phase log id
  cutLast : log'.Pairwise fun e _ => e.isCut = false
  closed : r = .ok () → ∀ p ∈ rest, phase log' p.2 = some (.closed true)
  fueled : r ≠ .error .stuck

variable {log : List Event} {v : Visit} {e : EvalError} {r : Except EvalError Unit}

theorem phase_asked (log : List Event) (offset : Nat) (id : Text) : phase (log ++ [.asked offset]) id = phase log id :=
  phase_concat_of_ne (by simp [Event.id])

theorem Open.asked (h : Open log) (offset : Nat) : Open (log ++ [.asked offset]) where
  defined := fun id => by
    rw [phase_asked]
    exact h.defined id
  uncut := forall_mem_append.2 ⟨h.uncut, forall_mem_singleton.2 rfl⟩

theorem forall_getElem?_cons {α : Type} {P : Nat → α → Prop} {v : α} {l : List α} (hv : P 0 v)
    (hl : ∀ i w, l[i]? = some w → P (i + 1) w) : ∀ i w, (v :: l)[i]? = some w → P i w
  | 0, _, h => Option.some.inj h ▸ hv
  | i + 1, w, h => hl i w h

theorem ChunkTrace.done (hopen : Open log) (asked : List Nat) : ChunkTrace source todo [] asked [] log log (.ok ()) where
  visited := by simp
  offsets := List.Sublist.refl _
  answers := fun _ _ h => by simp at h
  refused := fun _ _ h => by simp at h
  only := nofun
  all := fun _ _ h => by simp at h
  defined := hopen.defined
  frame := fun _ _ => rfl
  cutLast := hopen.cutLast
  closed := nofun
  fueled := nofun

/-- A visit whose chunk is refused is the last one. -/
theorem ChunkTrace.refuse {asked : List Nat} (hopen : Open log)
    (hrows : v.rows = source.chunk (asked ++ [v.offset])) (hevents : v.events = []) (hrefused : v.refused source = some e)
    (hstuck : e ≠ .stuck) :
    ChunkTrace source todo ((v.offset, id) :: rest) asked [v] log (log ++ [.asked v.offset]) (.error e) where
  visited := by simp [Visit.log, hevents]
  offsets := by simp
  answers := forall_getElem?_cons (by simpa using hrows) nofun
  refused := by
    refine forall_getElem?_cons (fun e' he' => ?_) nofun
    exact ⟨hevents, rfl, by rw [Option.some.inj (hrefused.symm.trans he')]⟩
  only := by
    rw [forall_mem_singleton, hevents]
    nofun
  all := forall_getElem?_cons (fun hlast => by simp at hlast) nofun
  defined := (hopen.asked _).defined
  frame := fun id' _ => phase_asked _ _ _
  cutLast := (hopen.asked _).cutLast
  closed := nofun
  fueled := fun h => hstuck (Except.error.inj h)

/-- What sending the samples of an accepted chunk does, as a visit. -/
structure Accepted (source : ChunkSource) (todo : List (Nat × Text)) (asked : List Nat) (v : Visit) (log log' : List Event)
    (r : Except EvalError Unit) : Prop where
  rows : v.rows = source.chunk (asked ++ [v.offset])
  accepted : v.refused source = none
  visited : log' = log ++ v.log
  only : ∀ e ∈ v.events, ∃ id ∈ v.given todo, e.id = some id
  all : r = .ok () → ∀ id ∈ v.given todo, ∃ c, SentIn v.events id c
  defined : ∀ id, (phase log' id).isSome
  frame : ∀ id, id ∉ v.given todo → phase log' id = phase log id
  cutLast : log'.Pairwise fun e _ => e.isCut = false
  uncut : r = .ok () → ∀ e ∈ log', e.isCut = false
  closed : r = .ok () → ∀ id ∈ v.given todo, phase log' id = some (.closed true)
  fueled : r ≠ .error .stuck

/-- The samples of a chunk are those of its rows that are still to do. -/
theorem mem_given (hrows : v.rows = some ids) :
    id ∈ v.given todo ↔ ∃ s ∈ chunkPending todo v.offset ids, s.id = id := by
  have hgiven : id ∈ v.given todo ↔ id ∈ ids ∧ ∃ p ∈ todo, p.2 = id := by
    rw [Visit.given, hrows, mem_filter]
    simp
  rw [hgiven]
  constructor
  · rintro ⟨hid, htodo⟩
    exact exists_mem_chunkPending hid htodo
  · rintro ⟨s, hs, rfl⟩
    obtain ⟨j, hj, htodo⟩ := mem_chunkPending hs
    exact ⟨mem_of_getElem? hj, htodo⟩

/-- A chunk that is accepted is visited. -/
theorem exists_accepted {log log' : List Event} {asked : List Nat}
    (hchunk : source.chunk (asked ++ [offset]) = some ids) (haccepted : chunkRefused source.declared source.idAt offset ids = none)
    (hfresh : ∀ s ∈ chunkPending todo offset ids, phase log s.id = some .fresh)
    (hsends : Sends (chunkPending todo offset ids) (log ++ [.asked offset]) log' r) :
    ∃ events, Accepted source todo asked ⟨offset, some ids, events⟩ log log' r := by
  obtain ⟨events, hevents⟩ := hsends.advance.grows
  have hgiven : ∀ {id}, id ∈ Visit.given todo ⟨offset, some ids, events⟩ ↔ ∃ s ∈ chunkPending todo offset ids, s.id = id :=
    mem_given rfl
  -- a given id is fresh before, so that its events are all in this visit
  have habout : ∀ s ∈ chunkPending todo offset ids, about log' s.id = about events s.id := by
    intro s hs
    rw [← hevents, about_append, about_eq_nil_iff.2 ((phase_asked log offset s.id).trans (hfresh s hs)), nil_append]
  refine ⟨events, hchunk.symm, haccepted, ?_, ?_, ?_, hsends.advance.defined, ?_, hsends.advance.cutLast, ?_, ?_, hsends.fueled⟩
  · rw [← hevents]
    simp [Visit.log]
  · intro e he
    cases hid : e.id with
    | none =>
      have hoffset : ∃ o, e.offset = some o := by
        cases e <;> simp [Event.id] at hid
        exact ⟨_, rfl⟩
      obtain ⟨o, ho⟩ := hoffset
      have hasks : asks events = [] := by
        have hsame := hsends.advance.asks
        rw [← hevents, asks, asks, filterMap_append] at hsame
        exact append_right_eq_self.1 hsame
      have hmem : o ∈ asks events := mem_filterMap.2 ⟨e, he, ho⟩
      rw [hasks] at hmem
      cases hmem
    | some id =>
      refine ⟨id, ?_, rfl⟩
      by_contra hnot
      have hunmoved := hsends.advance.unmoved id fun s hs heq => hnot (hgiven.2 ⟨s, hs, heq⟩)
      rw [← hevents, about_append] at hunmoved
      have hmem : e ∈ about events id := mem_filter.2 ⟨he, by simpa using hid⟩
      rw [append_right_eq_self.1 hunmoved] at hmem
      cases hmem
  · intro hok id hid
    obtain ⟨s, hs, rfl⟩ := hgiven.1 hid
    obtain ⟨c, hc⟩ := sentIn_of_closed (hsends.closed hok s hs)
    refine ⟨c, ?_⟩
    unfold SentIn at hc ⊢
    rwa [habout s hs] at hc
  · intro id hid
    rw [hsends.advance.frame fun s hs heq => hid (hgiven.2 ⟨s, hs, heq⟩)]
    exact phase_asked _ _ _
  · exact fun hok => hsends.advance.uncut (by rw [hok]; intro h; cases h)
  · intro hok id hid
    obtain ⟨s, hs, rfl⟩ := hgiven.1 hid
    exact hsends.closed hok s hs

/-- A visit whose samples are not sent to their end is the last one. -/
theorem ChunkTrace.fail {log log' : List Event} {asked : List Nat}
    (h : Accepted source todo asked v log log' (.error e)) (hgiven : ∀ id' ∈ v.given todo, ∃ p ∈ (v.offset, id) :: rest, p.2 = id') :
    ChunkTrace source todo ((v.offset, id) :: rest) asked [v] log log' (.error e) where
  visited := by simpa using h.visited
  offsets := by simp
  answers := forall_getElem?_cons (by simpa using h.rows) nofun
  refused := by
    refine forall_getElem?_cons (fun e' he' => ?_) nofun
    rw [h.accepted] at he'
    cases he'
  only := forall_mem_singleton.2 h.only
  all := forall_getElem?_cons (fun hlast => by simp at hlast) nofun
  defined := h.defined
  frame := by
    intro id' hid
    refine h.frame id' fun hmem => ?_
    obtain ⟨p, hp, hpid⟩ := hgiven id' hmem
    exact hid p hp hpid
  cutLast := h.cutLast
  closed := nofun
  fueled := h.fueled

/-- A visit whose samples are sent, and the visits after it. -/
theorem ChunkTrace.more {log log₁ log' : List Event} {asked : List Nat} {visits : List Visit}
    {left : List (Nat × Text)} (h : Accepted source todo asked v log log₁ (.ok ()))
    (hleft : ChunkTrace source todo left (asked ++ [v.offset]) visits log₁ log' r) (hsub : left.Sublist rest)
    (hgiven : ∀ id' ∈ v.given todo, (∃ p ∈ (v.offset, id) :: rest, p.2 = id') ∧ ∀ p ∈ left, p.2 ≠ id')
    (hrest : ∀ p ∈ (v.offset, id) :: rest, p ∈ left ∨ p.2 ∈ v.given todo) :
    ChunkTrace source todo ((v.offset, id) :: rest) asked (v :: visits) log log' r where
  visited := by
    rw [hleft.visited, h.visited]
    simp
  offsets := (hleft.offsets.trans (hsub.map _)).cons_cons _
  answers := forall_getElem?_cons (by simpa using h.rows) fun i w hw => by simpa using hleft.answers i w hw
  refused := by
    refine forall_getElem?_cons (fun e he => ?_) fun i w hw e he => ?_
    · rw [h.accepted] at he
      cases he
    · obtain ⟨hevents, hlast, hr⟩ := hleft.refused i w hw e he
      exact ⟨hevents, by simpa using hlast, hr⟩
  only := forall_mem_cons.2 ⟨h.only, hleft.only⟩
  all := forall_getElem?_cons (fun _ => h.all rfl) fun i w hw hlast => hleft.all i w hw (by simpa using hlast)
  defined := hleft.defined
  frame := by
    intro id' hid
    have hnot : id' ∉ v.given todo := by
      intro hmem
      obtain ⟨⟨p, hp, hpid⟩, -⟩ := hgiven id' hmem
      exact hid p hp hpid
    rw [hleft.frame id' fun p hp => hid p (mem_cons_of_mem _ (hsub.subset hp)), h.frame id' hnot]
  cutLast := hleft.cutLast
  closed := by
    intro hok p hp
    rcases hrest p hp with hp | hp
    · exact hleft.closed hok p hp
    · rw [hleft.frame p.2 (hgiven p.2 hp).2]
      exact h.closed rfl p.2 hp
  fueled := hleft.fueled

variable (h : Positions source todo)
include h

/-- The ids of an accepted chunk that are still to do are those of the positions it covers. -/
theorem Positions.mem_given {cursor offset : Nat}
    (hcursor : todo[cursor]? = some (offset, id)) (haccepted : chunkRefused source.declared source.idAt offset ids = none)
    {events : List Event} {id' : Text} :
    id' ∈ Visit.given todo ⟨offset, some ids, events⟩ ↔ ∃ p ∈ todo.drop cursor, p.2 = id' ∧ p.1 < offset + ids.length := by
  constructor
  · intro hid'
    obtain ⟨s, hs, rfl⟩ := (Measurement.mem_given rfl).1 hid'
    obtain ⟨p, hp, hpid, hge, hlt⟩ := h.position haccepted hs
    exact ⟨p, (h.mem_drop hcursor hp).2 hge, hpid, hlt⟩
  · rintro ⟨p, hp, rfl, hlt⟩
    have hmem : p ∈ todo := mem_of_mem_drop hp
    have hge : offset ≤ p.1 := (h.mem_drop hcursor hmem).1 hp
    obtain ⟨j, hj⟩ : ∃ j, p.1 = offset + j := ⟨p.1 - offset, by omega⟩
    have hjlt : j < ids.length := by omega
    have hid : ids[j] = p.2 := by
      rw [(placed_of_chunkRefused haccepted).2.2 j ids[j] (getElem?_eq_getElem hjlt), ← hj]
      exact (h.placed p hmem).2.symm
    refine mem_filter.2 ⟨hid ▸ getElem_mem hjlt, ?_⟩
    simpa using ⟨p.1, hmem⟩

theorem Positions.mem_next {stop : Nat} {p : Nat × Text} :
    p ∈ todo.drop (partitionPoint todo stop) ↔ p ∈ todo ∧ stop ≤ p.1 := by
  rw [drop_partitionPoint h.sorted, mem_filter]
  simp

/-- After a chunk the cursor stands behind the position it was asked for. -/
theorem Positions.cursor_lt {cursor offset stop : Nat}
    (hcursor : todo[cursor]? = some (offset, id)) (hstop : offset < stop) : cursor < partitionPoint todo stop := by
  by_contra hge
  have hmem : (offset, id) ∈ todo.drop (partitionPoint todo stop) := by
    refine mem_of_getElem? (i := cursor - partitionPoint todo stop) ?_
    rw [getElem?_drop, Nat.add_sub_cancel' (Nat.not_lt.1 hge)]
    exact hcursor
  exact absurd (h.mem_next.1 hmem).2 (Nat.not_le.2 hstop)

omit h

theorem chunkRefused_ne_stuck {declared offset : Nat}
    (h : chunkRefused declared idAt offset ids = some e) : e ≠ .stuck := by
  unfold chunkRefused at h
  split at h
  · cases h
    simp
  split at h
  · cases h
    simp
  · obtain ⟨p, -, rfl⟩ := Option.map_eq_some_iff.1 h
    simp

/-- Sending the samples of an accepted chunk, as a visit. -/
theorem exists_accepted_run (inFlight : InFlight) {cursor offset : Nat} {asked : List Nat} {cell : Cell k start}
    (hpos : Positions source todo) (hopen : Open cell.log) (hfresh : ∀ p ∈ todo.drop cursor, phase cell.log p.2 = some .fresh)
    (hcursor : todo[cursor]? = some (offset, id)) (hchunk : source.chunk (asked ++ [offset]) = some ids)
    (haccepted : chunkRefused source.declared source.idAt offset ids = none) :
    ∃ events, Accepted source todo asked ⟨offset, some ids, events⟩ cell.log
      (runSamples env inFlight (chunkPending todo offset ids) (cell.emit (.asked offset))).2.log
      (runSamples env inFlight (chunkPending todo offset ids) (cell.emit (.asked offset))).1 := by
  have hpending : ∀ s ∈ chunkPending todo offset ids, phase cell.log s.id = some .fresh := by
    intro s hs
    obtain ⟨p, hp, hpid, hge, -⟩ := hpos.position haccepted hs
    rw [← hpid]
    exact hfresh p ((hpos.mem_drop hcursor hp).2 hge)
  refine exists_accepted hchunk haccepted hpending
    (@sends_runSamples k start env (cell.emit (.asked offset)) inFlight _ (hopen.asked offset) (chunkPending_nodup haccepted) ?_)
  intro s hs
  rw [Cell.emit_log, phase_asked]
  exact hpending s hs

/-- Chunk after chunk, from the position at `cursor` on. -/
theorem exists_chunkTrace (inFlight : InFlight) {fuel cursor : Nat} {asked : List Nat} {cell : Cell k start} (hpos : Positions source todo)
    (hopen : Open cell.log) (hfresh : ∀ p ∈ todo.drop cursor, phase cell.log p.2 = some .fresh)
    (hfuel : (todo.drop cursor).length ≤ fuel) :
    ∃ visits, ChunkTrace source todo (todo.drop cursor) asked visits cell.log
      (chunksFrom env source inFlight todo fuel cursor asked cell).2.log (chunksFrom env source inFlight todo fuel cursor asked cell).1 := by
  induction fuel generalizing cursor asked cell with
  | zero =>
    have hnil : todo.drop cursor = [] := length_eq_zero_iff.1 (Nat.le_zero.1 hfuel)
    have hnone : todo[cursor]? = none := getElem?_eq_none (drop_eq_nil_iff.1 hnil)
    unfold chunksFrom
    rw [hnone, hnil]
    exact ⟨[], .done hopen asked⟩
  | succ fuel ih =>
    unfold chunksFrom
    split
    · next hnone =>
      rw [drop_eq_nil_of_le (getElem?_eq_none_iff.1 hnone)]
      exact ⟨[], .done hopen asked⟩
    · next offset id hcursor =>
      have hdrop : todo.drop cursor = (offset, id) :: todo.drop (cursor + 1) := by
        obtain ⟨hlt, hp⟩ := List.getElem?_eq_some_iff.1 hcursor
        rw [List.drop_eq_getElem_cons hlt, hp]
      dsimp only
      split
      · next hchunk =>
        rw [hdrop]
        exact ⟨_, .refuse (v := ⟨offset, none, []⟩) hopen hchunk.symm rfl rfl (by simp)⟩
      · next ids hchunk =>
        split
        · next e hrefused =>
          rw [hdrop]
          exact ⟨_, .refuse (v := ⟨offset, some ids, []⟩) hopen hchunk.symm rfl hrefused (chunkRefused_ne_stuck hrefused)⟩
        · next haccepted =>
          obtain ⟨events, haccept⟩ := exists_accepted_run env inFlight hpos hopen hfresh hcursor hchunk haccepted
          have hrun : (if chunkPending todo offset ids ≠ [] then runSamples env inFlight (chunkPending todo offset ids)
              (cell.emit (.asked offset)) else (.ok (), cell.emit (.asked offset))) =
              runSamples env inFlight (chunkPending todo offset ids) (cell.emit (.asked offset)) := by
            split
            · rfl
            · next hnil =>
              rw [not_not.1 hnil]
              cases inFlight <;> rfl
          rw [hrun]
          have hgiven : ∀ id' ∈ Visit.given todo ⟨offset, some ids, events⟩, ∃ p ∈ (offset, id) :: todo.drop (cursor + 1), p.2 = id' := by
            intro id' hid'
            obtain ⟨p, hp, hpid, -⟩ := (hpos.mem_given hcursor haccepted).1 hid'
            exact ⟨p, hdrop ▸ hp, hpid⟩
          split
          · next e cell' hrun' =>
            rw [hrun'] at haccept
            rw [hdrop]
            exact ⟨_, .fail haccept hgiven⟩
          · next cell' hrun' =>
            rw [hrun'] at haccept
            have hlength : 0 < ids.length := length_pos_iff.2 (placed_of_chunkRefused haccepted).1
            set next := partitionPoint todo (offset + ids.length) with hnext
            have hlt : cursor < next := hpos.cursor_lt hcursor (by omega)
            have hsuffix : (todo.drop next).Sublist (todo.drop (cursor + 1)) := drop_sublist_drop_left todo hlt
            -- the positions left are not the chunk's
            have hleft : ∀ id' ∈ Visit.given todo ⟨offset, some ids, events⟩, ∀ p ∈ todo.drop next, p.2 ≠ id' := by
              intro id' hid' p hp heq
              obtain ⟨q, hq, hqid, hqlt⟩ := (hpos.mem_given hcursor haccepted).1 hid'
              obtain rfl := hpos.eq_of_id (hpos.mem_next.1 hp).1 (mem_of_mem_drop hq) (heq.trans hqid.symm)
              exact absurd (hpos.mem_next.1 hp).2 (Nat.not_le.2 hqlt)
            have hfresh' : ∀ p ∈ todo.drop next, phase cell'.log p.2 = some .fresh := by
              intro p hp
              rw [haccept.frame p.2 fun hmem => hleft p.2 hmem p hp rfl]
              exact hfresh p (by rw [hdrop]; exact mem_cons_of_mem _ (hsuffix.subset hp))
            have hfuel' : (todo.drop next).length ≤ fuel := by
              have hle := hsuffix.length_le
              rw [hdrop, length_cons] at hfuel
              omega
            obtain ⟨visits, htrace⟩ := @ih next (asked ++ [offset]) cell' ⟨haccept.defined, haccept.uncut rfl⟩ hfresh' hfuel'
            rw [hdrop]
            refine ⟨_, .more haccept htrace hsuffix (fun id' hid' => ⟨hgiven id' hid', hleft id' hid'⟩) fun p hp => ?_⟩
            have hp' : p ∈ todo.drop cursor := hdrop ▸ hp
            by_cases hstop : offset + ids.length ≤ p.1
            · exact .inl (hpos.mem_next.2 ⟨mem_of_mem_drop hp', hstop⟩)
            · exact .inr ((hpos.mem_given hcursor haccepted).2 ⟨p, hp', rfl, Nat.not_le.1 hstop⟩)

/-- What the visits of a cell and the check of the rows they leave make its result. -/
inductive ChunkResult (source : ChunkSource) (s : Session) : Except EvalError Unit → Except EvalError (List Completion) → Prop
  | stopped {e : EvalError} : ChunkResult source s (.error e) (.error e)
  | refused {e : EvalError} (h : checkComplete false s source.declared = .error e) : ChunkResult source s (.ok ()) (.error e)
  | complete (h : checkComplete false s source.declared = .ok ()) : ChunkResult source s (.ok ()) (.ok s.completions.list)

theorem evalCompleteChunked_result (env : Env) (source : ChunkSource) (inFlight : InFlight) (cell : Cell k start)
    {todo : List (Nat × Text)} (htodo : todo = chunkedPending cell.session source.declared source.idAt) :
    (evalCompleteChunked env source inFlight cell).2 = (chunksFrom env source inFlight todo todo.length 0 [] cell).2 ∧
      ChunkResult source (chunksFrom env source inFlight todo todo.length 0 [] cell).2.session
        (chunksFrom env source inFlight todo todo.length 0 [] cell).1 (evalCompleteChunked env source inFlight cell).1 := by
  subst htodo
  unfold evalCompleteChunked
  dsimp only
  split
  · next e cell' hrun =>
    rw [hrun]
    exact ⟨rfl, .stopped⟩
  · next cell' hrun =>
    rw [hrun]
    split
    · next e hcheck => exact ⟨rfl, .refused hcheck⟩
    · next hcheck => exact ⟨rfl, .complete hcheck⟩

end Pipette.Measurement
