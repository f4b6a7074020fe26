import Pipette.Measurement.Eval

/-!
# The trace of a sample in the log of a cell

`phase log id` is where a sample stands: not sent, in an attempt, lost beside others, or closed; `none` when it was not sent
once, or a second time alone after it was lost (`path_of_phase`). `Advance` says what a part of a run may do to the log: every
sample keeps a phase, and only those of the given samples change.
-/

namespace Pipette.Measurement

open Evals List

/-- `flying` in an attempt, alone or not, for the first time or again; `closed` with a row held by the session or with an
append that did not succeed. -/
inductive Phase where
  | fresh
  | flying (alone again : Bool)
  | lost
  | closed (held : Bool)
  deriving DecidableEq

/-- The sample an event is about. -/
def Event.id : Event → Option Text
  | .asked _ => none
  | .sent id _ | .lost id => some id
  | .row c | .unfit c | .torn c _ | .cut c _ => some c.id

/-- The process is killed in an append. -/
def Event.isCut : Event → Bool
  | .cut _ _ => true
  | _ => false

/-- The offset an event asks for. -/
def Event.offset : Event → Option Nat
  | .asked offset => some offset
  | _ => none

/-- The event that follows in the phase of the sample it is about. -/
def Phase.next : Phase → Event → Option Phase
  | .fresh, .sent _ alone => some (.flying alone false)
  | .lost, .sent _ true => some (.flying true true)
  | .flying false _, .lost _ => some .lost
  | .flying _ _, .row _ | .flying _ _, .unfit _ => some (.closed true)
  | .flying _ _, .torn _ _ | .flying _ _, .cut _ _ => some (.closed false)
  | _, _ => none

/-- Where a sample stands after a log. -/
def phase (log : List Event) (id : Text) : Option Phase :=
  log.foldl (fun p e => if e.id = some id then p.bind fun p => p.next e else p) (some .fresh)

/-- The events of a log about an id, in their order. -/
def about (log : List Event) (id : Text) : List Event := log.filter fun e => e.id = some id

/-- The offsets asked for in a log. -/
def asks (log : List Event) : List Nat := log.filterMap Event.offset

theorem about_append (log log' : List Event) (id : Text) : about (log ++ log') id = about log id ++ about log' id :=
  filter_append _ _

theorem phase_concat (log : List Event) (e : Event) (id : Text) :
    phase (log ++ [e]) id = if e.id = some id then (phase log id).bind fun p => p.next e else phase log id := by
  simp [phase]

/-- What an event does to the phase of its sample. -/
inductive Phase.Next : Phase → Event → Phase → Prop
  | first (id alone) : Next .fresh (.sent id alone) (.flying alone false)
  | again (id) : Next .lost (.sent id true) (.flying true true)
  | lost (id again) : Next (.flying false again) (.lost id) .lost
  | held {e c alone again} (h : e = .row c ∨ e = .unfit c) : Next (.flying alone again) e (.closed true)
  | unheld {e c n alone again} (h : e = .torn c n ∨ e = .cut c n) : Next (.flying alone again) e (.closed false)

variable {id : Text} {e : Event} {p q : Phase} {es : List Event} {alone again : Bool} {s : Sample}

/-- Where a sample stands is decided by the events about it. -/
theorem phase_eq_of_about {log log' : List Event} (h : about log id = about log' id) : phase log id = phase log' id := by
  have hphase : ∀ log, phase log id = (about log id).foldl (fun p e => p.bind fun p => p.next e) (some .fresh) := by
    intro log
    rw [about, foldl_filter]
    simp [phase]
  rw [hphase, hphase, h]

variable {log : List Event}

theorem phase_concat_of_ne (h : e.id ≠ some id) : phase (log ++ [e]) id = phase log id := by rw [phase_concat, if_neg h]

theorem phase_concat_of_eq (he : e.id = some id)
    (hp : phase log id = some p) (hq : p.next e = some q) : phase (log ++ [e]) id = some q := by
  rw [phase_concat, if_pos he, hp]
  exact hq

theorem Phase.next_cases (h : p.next e = some q) : p.Next e q := by
  unfold Phase.next at h
  split at h <;> cases h
  · exact .first _ _
  · exact .again _
  · exact .lost _ _
  · exact .held (.inl rfl)
  · exact .held (.inr rfl)
  · exact .unheld (.inl rfl)
  · exact .unheld (.inr rfl)

/-! ## The events about a sample -/

/-- The events about a sample that lead to a phase. -/
inductive Path (id : Text) : Phase → List Event → Prop
  | fresh : Path id .fresh []
  | next {p q : Phase} {es : List Event} {e : Event} : Path id p es → e.id = some id → p.next e = some q → Path id q (es ++ [e])

theorem path_of_phase (h : phase log id = some p) : Path id p (about log id) := by
  unfold about
  induction log using reverseRecOn generalizing p with
  | nil =>
    cases h
    exact .fresh
  | append_singleton log e ih =>
    rw [phase_concat] at h
    by_cases he : e.id = some id
    · rw [if_pos he] at h
      obtain ⟨q, hq, hnext⟩ := Option.bind_eq_some_iff.1 h
      simpa [he] using (ih hq).next he hnext
    · rw [if_neg he] at h
      simpa [he] using ih h

/-- No event is about a fresh sample. -/
theorem Path.of_fresh (h : Path id .fresh es) : es = [] := by
  cases h with
  | fresh => rfl
  | next _ _ hnext => cases Phase.next_cases hnext

/-- A sample in an attempt beside others was sent once. -/
theorem Path.flying_first (h : Path id (.flying alone false) es) : es = [.sent id alone] := by
  cases h with
  | next hes he hnext =>
    cases Phase.next_cases hnext
    cases he
    rw [hes.of_fresh, nil_append]

/-- No sample is sent again beside others. -/
theorem Path.flying_beside (h : Path id (.flying false again) es) : es = [.sent id false] := by
  cases again with
  | false => exact h.flying_first
  | true =>
    cases h with
    | next _ _ hnext => cases Phase.next_cases hnext

theorem Path.of_lost (h : Path id .lost es) : es = [.sent id false, .lost id] := by
  cases h with
  | next hes he hnext =>
    cases Phase.next_cases hnext
    cases he
    rw [hes.flying_beside, singleton_append]

/-- How a sample in an attempt came there. -/
theorem Path.flying_cases (h : Path id (.flying alone again) es) :
    es = [.sent id alone] ∨ es = [.sent id false, .lost id, .sent id true] := by
  cases h with
  | next hes he hnext =>
    cases Phase.next_cases hnext with
    | first =>
      cases he
      exact .inl (by rw [hes.of_fresh, nil_append])
    | again =>
      cases he
      exact .inr (by rw [hes.of_lost]; rfl)

/-- Sent once, or again alone after it is lost beside others, and then its row is recorded. -/
def SentIn (log : List Event) (id : Text) (c : Completion) : Prop :=
  c.id = id ∧ ∃ e, (e = .row c ∨ e = .unfit c) ∧
    ((∃ alone, about log id = [.sent id alone, e]) ∨ about log id = [.sent id false, .lost id, .sent id true, e])

/-- A sample with a row held was sent once, or again alone after it was lost, and its row was recorded last. -/
theorem sentIn_of_closed (h : phase log id = some (.closed true)) : ∃ c, SentIn log id c := by
  have hpath := path_of_phase h
  unfold SentIn
  generalize about log id = es at hpath
  cases hpath with
  | @next _ _ _ e hes he hnext =>
    cases Phase.next_cases hnext with
    | @held _ c alone _ hrow =>
      have hid : c.id = id := by rcases hrow with rfl | rfl <;> exact Option.some.inj he
      refine ⟨c, hid, e, hrow, ?_⟩
      rcases hes.flying_cases with rfl | rfl
      · exact .inl ⟨alone, rfl⟩
      · exact .inr rfl

/-- A sample is fresh exactly when no event is about it. -/
theorem about_eq_nil_iff : about log id = [] ↔ phase log id = some .fresh := by
  constructor
  · intro h
    have hphase : phase log id = phase [] id := phase_eq_of_about h
    exact hphase
  · intro h
    exact (path_of_phase h).of_fresh

/-! ## Parts of a run -/

/-- The log of a process that runs: every sample has a phase. -/
structure Open (log : List Event) : Prop where
  defined : ∀ id, (phase log id).isSome
  uncut : ∀ e ∈ log, e.isCut = false

/-- Every sample still has a phase, only those of `group` may change, and nothing follows the kill of the process. -/
structure Advance (group : List Sample) (killed : Prop) (log log' : List Event) : Prop where
  defined : ∀ id, (phase log' id).isSome
  unmoved : ∀ id, (∀ s ∈ group, s.id ≠ id) → about log' id = about log id
  grows : log <+: log'
  asks : asks log' = asks log
  cutLast : log'.Pairwise fun e _ => e.isCut = false
  uncut : ¬killed → ∀ e ∈ log', e.isCut = false

variable {group group' : List Sample} {killed killed' : Prop} {log log' log'' : List Event}

theorem Open.nil : Open [] := ⟨fun _ => rfl, nofun⟩

theorem Open.cutLast (h : Open log) : log.Pairwise fun e _ => e.isCut = false :=
  pairwise_of_forall_mem_list fun e he _ _ => h.uncut e he

theorem Advance.refl (h : Open log) : Advance group killed log log :=
  ⟨h.defined, fun _ _ => rfl, prefix_refl _, rfl, h.cutLast, fun _ => h.uncut⟩

variable (h : Advance group killed log log')
include h

theorem Advance.frame (hid : ∀ s ∈ group, s.id ≠ id) : phase log' id = phase log id :=
  phase_eq_of_about (h.unmoved id hid)

theorem Advance.toOpen (hk : ¬killed) : Open log' := ⟨h.defined, h.uncut hk⟩

theorem Advance.trans (h' : Advance group killed' log' log'') : Advance group killed' log log'' :=
  ⟨h'.defined, fun id hid => (h'.unmoved id hid).trans (h.unmoved id hid), h.grows.trans h'.grows, h'.asks.trans h.asks, h'.cutLast, h'.uncut⟩

theorem Advance.mono (hsub : ∀ s ∈ group, s ∈ group') (hk : killed → killed') :
    Advance group' killed' log log' :=
  ⟨h.defined, fun id hid => h.unmoved id fun s hs => hid s (hsub s hs), h.grows, h.asks, h.cutLast,
    fun hk' => h.uncut fun hkilled => hk' (hk hkilled)⟩

omit h

theorem Advance.emit (h : Open log) (hs : s ∈ group) (he : e.id = some s.id)
    (hp : phase log s.id = some p) (hq : p.next e = some q) (hcut : e.isCut → killed) :
    Advance group killed log (log ++ [e]) := by
  refine ⟨fun id => ?_, fun id hid => ?_, prefix_append _ _, ?_, ?_, fun hk => ?_⟩
  · by_cases hid : s.id = id
    · rw [phase_concat_of_eq (hid ▸ he) (hid ▸ hp) hq]
      rfl
    · rw [phase_concat_of_ne (by rw [he]; simpa using hid)]
      exact h.defined id
  · simpa [about, he] using hid s hs
  · cases e with
    | asked offset => cases he
    | _ => simp [Measurement.asks, Event.offset]
  · exact pairwise_append.2 ⟨h.cutLast, pairwise_singleton _ _, fun e he _ _ => h.uncut e he⟩
  · exact forall_mem_append.2 ⟨h.uncut, forall_mem_singleton.2 (eq_false_of_ne_true fun hc => hk (hcut hc))⟩

section

variable {k : Codec} {start : Session}

variable (cell : Cell k start)

@[simp] theorem Cell.emit_log (e : Event) : (cell.emit e).log = cell.log ++ [e] := rfl

@[simp] theorem Cell.emitAll_log (es : List Event) : (cell.emitAll es).log = cell.log ++ es := by
  induction es generalizing cell with
  | nil => simp [Cell.emitAll]
  | cons e es ih =>
    have hcons : cell.emitAll (e :: es) = (cell.emit e).emitAll es := rfl
    rw [hcons, ih, Cell.emit_log, append_assoc]
    rfl

end

/-- A sample that may go out: one not sent yet, or one lost beside others that goes out alone. -/
def Ready (log : List Event) (alone : Bool) (s : Sample) : Prop :=
  phase log s.id = some .fresh ∨ (phase log s.id = some .lost ∧ alone)

theorem Ready.next (h : Ready log alone s) :
    ∃ p again, phase log s.id = some p ∧ p.next (.sent s.id alone) = some (.flying alone again) := by
  rcases h with h | ⟨h, rfl⟩
  · exact ⟨_, _, h, rfl⟩
  · exact ⟨_, _, h, rfl⟩

/-- The samples of a group go out: each of them is in an attempt. -/
theorem advance_sent (h : Open log) (alone : Bool) (hnodup : (group.map (·.id)).Nodup) (hready : ∀ s ∈ group, Ready log alone s) :
    Advance group False log (log ++ group.map fun s => .sent s.id alone) ∧
      ∀ s ∈ group, ∃ again, phase (log ++ group.map fun s => .sent s.id alone) s.id = some (.flying alone again) := by
  induction group generalizing log with
  | nil =>
    refine ⟨?_, fun s hs => nomatch hs⟩
    rw [map_nil, append_nil]
    exact .refl h
  | cons s group ih =>
    obtain ⟨hs, hnodup⟩ := nodup_cons.1 hnodup
    have hne : ∀ t ∈ group, t.id ≠ s.id := fun t ht heq => hs (mem_map.2 ⟨t, ht, heq⟩)
    obtain ⟨p, again, hp, hq⟩ := (hready s (by simp)).next
    have hfirst : Advance (s :: group) False log (log ++ [.sent s.id alone]) :=
      .emit h (by simp) rfl hp hq fun hc => nomatch hc
    have hrest : ∀ t ∈ group, Ready (log ++ [.sent s.id alone]) alone t := by
      intro t ht
      unfold Ready
      rw [phase_concat_of_ne (by simpa [Event.id] using (hne t ht).symm)]
      exact hready t (by simp [ht])
    have hlog : (log ++ (s :: group).map fun s => Event.sent s.id alone) =
        (log ++ [.sent s.id alone]) ++ group.map fun s => .sent s.id alone := by simp
    obtain ⟨hadvance, hflying⟩ := ih (hfirst.toOpen id) hnodup hrest
    rw [hlog]
    refine ⟨hfirst.trans (hadvance.mono (fun t ht => by simp [ht]) id), forall_mem_cons.2 ⟨?_, hflying⟩⟩
    rw [hadvance.frame hne]
    exact ⟨again, phase_concat_of_eq rfl hp hq⟩

end Pipette.Measurement
