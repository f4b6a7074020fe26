import Pipette.Proxy.Fleet

/-!
# One process per phone

A phone is driven by one process at a time and no two phones share a directory, as long as the spellings agree on the
directories. A directory is named after the spelling, so two spellings of one phone are two locks, and two names that differ
only in a character that is not kept are one directory.
-/

namespace Pipette.Proxy.Fleet

open Threads List Protocol.Triple Locks

/-- At most one process drives a phone, and no directory was opened for two phones. -/
structure OnePerPhone (s : State) : Prop where
  alone : ∀ t u identifier, identifier ∈ s.driven t → identifier ∈ s.driven u → t = u
  apart : ∀ segment identifier identifier', (segment, identifier) ∈ s.homes → (segment, identifier') ∈ s.homes →
    identifier = identifier'

/-- Processes at their start, each with its verb, its entries and the attempts it makes. -/
structure Processes where
  verb : Tid → Verb
  entries : Tid → List (Option Text)
  attempts : Tid → Nat

def Processes.start (ps : Processes) : Pool Op Ans State :=
  ⟨.initial, fun t => runVerb (ps.verb t) (ps.entries t) (ps.attempts t)⟩

/-- Its own spelling, or the identifier of the one connected phone. -/
def Addresses (names : Text → Option Text) (requested : Option Text) (target : Text) : Prop :=
  (∃ raw, requested = some raw ∧ trimText raw ≠ [] ∧ target = trimText raw) ∨
    (∀ raw, requested = some raw → trimText raw = []) ∧ names target = some target

/-- A process addresses a phone by this spelling. -/
def Processes.Spells (ps : Processes) (names : Text → Option Text) (t : Tid) (target identifier : Text) : Prop :=
  names target = some identifier ∧ ∃ requested ∈ ps.entries t, Addresses names requested target

/-- Two processes that drive one phone spell it so that it has one directory, and spellings of one directory name one phone. -/
structure Processes.Consistent (ps : Processes) (names : Text → Option Text) : Prop where
  sameDirectory : ∀ t u target target' identifier, t ≠ u → (ps.verb t).isExclusive → (ps.verb u).isExclusive →
    ps.Spells names t target identifier → ps.Spells names u target' identifier →
    sanitizePathSegment target = sanitizePathSegment target'
  samePhone : ∀ t u target target' identifier identifier', ps.Spells names t target identifier →
    ps.Spells names u target' identifier' → sanitizePathSegment target = sanitizePathSegment target' → identifier = identifier'

/-! ## The protocol -/

section Protocols

variable {ps : Processes} {names : Text → Option Text} {t : Tid} {s s' : State}

/-- Every driven phone is locked, and every directory was opened for a phone whose spelling names it. -/
structure Inv (ps : Processes) (names : Text → Option Text) (s : State) : Prop where
  locked : ∀ t identifier, identifier ∈ s.driven t → (ps.verb t).isExclusive ∧
    ∃ target, ps.Spells names t target identifier ∧ s.locks (sanitizePathSegment target) = some t
  home : ∀ segment identifier, (segment, identifier) ∈ s.homes →
    ∃ t target, ps.Spells names t target identifier ∧ sanitizePathSegment target = segment

/-- A step of a process leaves the locks of the others. -/
def protocol (ps : Processes) (names : Text → Option Text) : Protocol State where
  inv := Inv ps names
  guar t s s' := ∀ u segment, u ≠ t → s.locks segment = some u → s'.locks segment = some u

theorem Inv.onePerPhone (h : Inv ps names s) (hps : ps.Consistent names) : OnePerPhone s := by
  refine ⟨fun t u identifier ht hu => ?_, fun segment identifier identifier' hi hi' => ?_⟩
  · by_contra hne
    obtain ⟨hverb, target, hspells, hlock⟩ := h.locked t identifier ht
    obtain ⟨hverb', target', hspells', hlock'⟩ := h.locked u identifier hu
    rw [hps.sameDirectory t u _ _ _ hne hverb hverb' hspells hspells', hlock'] at hlock
    exact hne (Option.some.inj hlock).symm
  · obtain ⟨t, target, hspells, rfl⟩ := h.home segment identifier hi
    obtain ⟨u, target', hspells', heq⟩ := h.home _ identifier' hi'
    exact hps.samePhone t u _ _ _ _ hspells hspells' heq.symm

theorem inv_initial : Inv ps names .initial := ⟨nofun, nofun⟩

theorem leave_keeps (h : Inv ps names s) : Inv ps names (s.leave t) ∧ (protocol ps names).guar t s (s.leave t) := by
  refine ⟨⟨fun u identifier hu => ?_, h.home⟩, fun u segment hne hlock => release_held hne hlock⟩
  have hne : u ≠ t := by
    rintro rfl
    simp [State.leave] at hu
  obtain ⟨hverb, target, hspells, hlock⟩ := h.locked u identifier (by simpa [State.leave, Function.update_of_ne hne] using hu)
  exact ⟨hverb, target, hspells, release_held hne hlock⟩

/-- What a process knows of the locks it holds. -/
def Holds (t : Tid) (phones : List Phone) (s : State) : Prop := ∀ phone ∈ phones, s.locks phone.segment = some t

theorem stable_holds (phones : List Phone) : (protocol ps names).Stable t (Holds t phones) :=
  fun _ _ _ hu _ _ hguar h phone hphone => hguar t _ hu.symm (h phone hphone)

/-- A phone that was resolved for a process. -/
def Resolved (ps : Processes) (names : Text → Option Text) (t : Tid) (phone : Phone) : Prop :=
  ps.Spells names t phone.target phone.identifier

/-- The program of the process keeps to the protocol. -/
abbrev Spec (ps : Processes) (names : Text → Option Text) (t : Tid) {α : Type} (A : State → Prop) (p : Act α)
    (Q : α → State → Prop) : Prop :=
  (protocol ps names).Triple (machine names) t A p Q

/-- It returns with `Q`, whatever the state. -/
def Yields (ps : Processes) (names : Text → Option Text) (t : Tid) {α : Type} (p : Act α) (Q : α → Prop) : Prop :=
  Spec ps names t (fun _ => True) p fun r _ => Q r

namespace Yields

theorem pure {α : Type} {a : α} {Q : α → Prop} (h : Q a) : Yields ps names t (Pure.pure a) Q := Protocol.Triple.pure fun _ _ => h

theorem bind {α β : Type} {p : Act α} {f : α → Act β} {Q : α → Prop} {R : β → Prop} (hp : Yields ps names t p Q)
    (hf : ∀ a, Q a → Yields ps names t (f a) R) : Yields ps names t (p >>= f) R :=
  Protocol.Triple.bind hp fun a s hs hq => hf a hq s hs trivial

theorem ask {o : Op} {Q : Ans o → Prop} (hstep : ∀ s r s', Fleet.Does names t o s r s' → s' = s ∧ Q r) :
    Yields ps names t (call o) Q := by
  refine .call (.const _) fun s r s' hs _ hdo => ?_
  obtain ⟨rfl, hq⟩ := hstep s r s' hdo
  exact ⟨hs, fun _ _ _ h => h, hq⟩

end Yields

theorem spec_enumerate : Yields ps names t enumerate fun r => ∀ target, r = some target → names target = some target := by
  refine .bind (.ask (Q := fun r => ∀ l, r = some l → ∀ identifier ∈ l, names identifier = some identifier) ?_)
    fun connected h => ?_
  · rintro s r s' hdo
    cases hdo with
    | listConnected h => exact ⟨rfl, h⟩
  · split
    · refine .pure ?_
      rintro target ⟨⟩
      exact h _ rfl _ (mem_singleton.2 rfl)
    · exact .pure nofun

theorem spec_resolveTarget (requested : Option Text) :
    Yields ps names t (resolveTarget requested) fun r => ∀ target, r = some target → Addresses names requested target := by
  have hlist (hblank : ∀ raw, requested = some raw → trimText raw = []) :
      Yields ps names t enumerate fun r => ∀ target, r = some target → Addresses names requested target :=
    post spec_enumerate fun r s h target htarget => .inr ⟨hblank, h target htarget⟩
  unfold resolveTarget
  split
  · next raw =>
    split
    · next hraw =>
      refine .pure ?_
      rintro _ ⟨⟩
      exact .inl ⟨raw, rfl, hraw, rfl⟩
    · next hraw =>
      refine hlist ?_
      rintro _ ⟨⟩
      simpa using hraw
  · exact hlist nofun

variable {requested : Option Text}

theorem spec_resolveOnce (hentry : requested ∈ ps.entries t) :
    Yields ps names t (resolveOnce requested) fun r => ∀ phone, r = some phone → Resolved ps names t phone := by
  refine .bind (spec_resolveTarget requested) fun target haddresses => ?_
  split
  · exact .pure nofun
  · next target =>
    refine .bind (.ask (Q := fun r => r = none ∨ r = names target) fun s r s' hdo => ?_) fun answer hanswer => ?_
    · cases hdo with
      | probe h => exact ⟨rfl, h⟩
    split
    · exact .pure nofun
    · refine .pure ?_
      rintro _ ⟨⟩
      exact ⟨(hanswer.resolve_left nofun).symm, requested, hentry, haddresses target rfl⟩

theorem spec_resolveDevice (hentry : requested ∈ ps.entries t) (waits : Bool) (attempts : Nat) :
    Yields ps names t (resolveDevice waits requested attempts) fun r => ∀ phone, r = some phone → Resolved ps names t phone := by
  induction attempts with
  | zero => exact .pure nofun
  | succ attempts ih =>
    refine .bind (spec_resolveOnce hentry) fun found hfound => ?_
    split
    · exact .pure hfound
    split
    · refine .bind (.ask (Q := fun _ => True) ?_) fun goesOn _ => ?_
      · rintro s r s' ⟨⟩
        exact ⟨rfl, trivial⟩
      · split
        · exact ih
        · exact .pure nofun
    · exact .pure nofun

theorem spec_preparePhones {entries : List (Option Text)} (hentries : ∀ requested ∈ entries, requested ∈ ps.entries t)
    (waits : Bool) (attempts : Nat) :
    Yields ps names t (preparePhones waits attempts entries)
      fun r => ∀ phones, r = some phones → ∀ phone ∈ phones, Resolved ps names t phone := by
  induction entries with
  | nil =>
    refine .pure ?_
    rintro _ ⟨⟩
    nofun
  | cons requested rest ih =>
    refine .bind (spec_resolveDevice (hentries requested (.head _)) waits attempts) fun found hresolved => ?_
    split
    · exact .pure nofun
    · next phone =>
      have hload : Yields ps names t (call (.loadState phone.segment phone.identifier)) fun _ => True := by
        refine .call (.const _) fun s r s' hs _ hdo => ?_
        cases hdo
        refine ⟨⟨hs.locked, fun segment identifier hmem => ?_⟩, fun _ _ _ h => h, trivial⟩
        rcases mem_cons.1 hmem with heq | hmem
        · cases heq
          exact ⟨t, phone.target, hresolved phone rfl, rfl⟩
        · exact hs.home segment identifier hmem
      refine .bind hload fun loaded _ => ?_
      split
      · refine .bind (ih fun r hr => hentries r (.tail _ hr)) fun phones hphones => ?_
        split
        · exact .pure nofun
        · next phones =>
          refine .pure ?_
          rintro _ ⟨⟩ phone' hphone'
          rcases mem_cons.1 hphone' with rfl | hphone'
          · exact hresolved _ rfl
          · exact hphones phones rfl phone' hphone'
      · exact .pure nofun

theorem spec_takeLocks (taken phones : List Phone) : Spec ps names t (Holds t taken) (takeLocks phones)
      fun r s => r → Holds t (taken ++ phones) s := by
  induction phones generalizing taken with
  | nil => exact .pure fun s h _ => by simpa using h
  | cons phone rest ih =>
    have hlock : Spec ps names t (Holds t taken) (call (.tryLock phone.segment))
        fun r s => r → Holds t (taken ++ [phone]) s := by
      refine .call (stable_holds _) fun s r s' hs htaken hdo => ?_
      cases hdo with
      | busy => exact ⟨hs, fun _ _ _ h => h, nofun⟩
      | taken hfree =>
        refine ⟨⟨fun u identifier hu => ?_, hs.home⟩, fun u segment _ h => take_held hfree h, fun _ phone' hphone' => ?_⟩
        · obtain ⟨hverb, target, hspells, hheld⟩ := hs.locked u identifier hu
          exact ⟨hverb, target, hspells, take_held hfree hheld⟩
        · rcases mem_append.1 hphone' with hphone' | hphone'
          · exact take_held hfree (htaken phone' hphone')
          · rw [mem_singleton.1 hphone']
            exact take_self
    refine .bind hlock fun locked => ?_
    split
    · next hlocked =>
      refine ((ih (taken ++ [phone])).pre fun s h => h hlocked).post fun r s h hr => ?_
      simpa using h hr
    · exact .pure fun _ _ => nofun

theorem spec_leaves {A : State → Prop} (hA : (protocol ps names).Stable t A) :
    Spec ps names t A (call .leaves) fun _ _ => True := by
  refine .call hA fun s r s' hs _ hdo => ?_
  cases hdo
  exact ⟨(leave_keeps hs).1, (leave_keeps hs).2, trivial⟩

/-- The phones that are driven were resolved, and their locks are held. -/
theorem spec_drives {phones : List Phone} (hverb : (ps.verb t).isExclusive) (hresolved : ∀ phone ∈ phones, Resolved ps names t phone) :
    Spec ps names t (Holds t phones) (call (.drives (phones.map (·.identifier)))) fun _ _ => True := by
  refine .call (stable_holds _) fun s r s' hs hheld hdo => ?_
  cases hdo
  refine ⟨⟨fun u identifier hu => ?_, hs.home⟩, fun _ _ _ h => h, trivial⟩
  by_cases hut : u = t
  · subst hut
    obtain ⟨phone, hphone, rfl⟩ : ∃ phone ∈ phones, phone.identifier = identifier := by simpa using hu
    exact ⟨hverb, phone.target, hresolved phone hphone, hheld phone hphone⟩
  · exact hs.locked u identifier (by simpa [Function.update_of_ne hut] using hu)

theorem spec_runVerb (attempts : Nat) : Yields ps names t (runVerb (ps.verb t) (ps.entries t) attempts) fun _ => True := by
  refine .bind (spec_preparePhones (fun _ h => h) (ps.verb t).waits attempts) fun prepared hresolved => ?_
  split
  · exact spec_leaves (.const _)
  · next phones =>
    split
    · exact spec_leaves (.const _)
    split
    · next hverb =>
      refine bind ((spec_takeLocks [] phones).pre fun _ _ => nofun) fun locked => ?_
      split
      · next hlocked =>
        exact .bind ((spec_drives hverb (hresolved phones rfl)).pre fun _ h => h hlocked) fun _ => spec_leaves (.const _)
      · exact spec_leaves (.imp fun _ => stable_holds _)
    · exact spec_leaves (.const _)

theorem holds_start (ps : Processes) (names : Text → Option Text) : ps.start.Holds (protocol ps names) (machine names) :=
  ⟨inv_initial, fun t => spec_runVerb (ps.attempts t) _ inv_initial trivial⟩

end Protocols

/-- In every interleaving of starts, exits and kills, for processes whose spellings agree on the directories. -/
theorem onePerPhone_of_consistent {ps : Processes} {names : Text → Option Text} (hps : ps.Consistent names)
    {p : Pool Op Ans State} (h : Reaches (machine names) ps.start p) : OnePerPhone p.state :=
  (h.holds (fun _ _ hs => leave_keeps hs) (holds_start ps names)).1.onePerPhone hps

/-! ## A bench with two phones -/

/-- Two phones, each with its identifier and its name. -/
def bench (spelling : Text) : Option Text :=
  if spelling = "00A" || spelling = "lab 1" then some "00A"
  else if spelling = "00B" || spelling = "lab_1" then some "00B"
  else none

/-- Two processes that run, each with one phone. -/
def twoRuns (spelling spelling' : String) : Processes where
  verb _ := .run
  entries
    | 0 => [some spelling.toList]
    | 1 => [some spelling'.toList]
    | _ => []
  attempts _ := 1

theorem Processes.Spells.of_twoRuns {spelling spelling' : String} {names : Text → Option Text} {t : Tid} {target identifier : Text}
    (h : (twoRuns spelling spelling').Spells names t target identifier) (hs : trimText spelling.toList ≠ [])
    (hs' : trimText spelling'.toList ≠ []) :
    names target = some identifier ∧ (target = trimText spelling.toList ∨ target = trimText spelling'.toList) := by
  obtain ⟨hnames, requested, hentry, haddresses⟩ := h
  refine ⟨hnames, ?_⟩
  have hraw : requested = some spelling.toList ∨ requested = some spelling'.toList := by
    match t, hentry with
    | 0, hentry => exact .inl (mem_singleton.1 hentry)
    | 1, hentry => exact .inr (mem_singleton.1 hentry)
  rcases haddresses with ⟨raw, rfl, -, rfl⟩ | ⟨hblank, -⟩
  · rcases hraw with h | h
    · cases h
      exact .inl rfl
    · cases h
      exact .inr rfl
  · rcases hraw with h | h
    · exact absurd (hblank _ h) hs
    · exact absurd (hblank _ h) hs'

/-- Both processes spell one phone alike. -/
theorem consistent_sameSpelling : (twoRuns "00A" "00A").Consistent bench := by
  have hspells : ∀ {t target identifier}, (twoRuns "00A" "00A").Spells bench t target identifier →
      target = "00A" ∧ identifier = "00A" := by
    intro t target identifier h
    obtain ⟨hnames, htarget⟩ := h.of_twoRuns (by decide) (by decide)
    obtain rfl : target = "00A" := htarget.elim id id
    exact ⟨rfl, (Option.some.inj hnames).symm⟩
  refine ⟨fun t u target target' identifier _ _ _ h h' => ?_, fun t u target target' identifier identifier' h h' _ => ?_⟩
  · rw [(hspells h).1, (hspells h').1]
  · rw [(hspells h).2, (hspells h').2]

def turn (t : Tid) (n : Nat) : List (Turn Unit) := replicate n (.run t ())

/-- A second process for a phone is turned away while the first drives it. -/
theorem onePerPhone_sameSpelling : ∃ p, Reaches (machine bench) (twoRuns "00A" "00A").start p ∧
    p.state.driven 0 = ["00A"] ∧ p.state.driven 1 = [] ∧ OnePerPhone p.state := by
  obtain ⟨p, hreach, hfirst, hsecond⟩ : ∃ p, Reaches (machine bench) (twoRuns "00A" "00A").start p ∧
      p.state.driven 0 = ["00A"] ∧ p.state.driven 1 = [] :=
    Pool.exists_of_play step_of_act (turn 0 4 ++ turn 1 4) (by decide)
  exact ⟨p, hreach, hfirst, hsecond, onePerPhone_of_consistent consistent_sameSpelling hreach⟩

/-- One process names a phone by its identifier, another by its name: both drive it. Two phones whose names differ in a blank
have one directory. -/
theorem not_onePerPhone_spellings :
    (∃ p, Reaches (machine bench) (twoRuns "00A" "lab 1").start p ∧ "00A".toList ∈ p.state.driven 0 ∧
      "00A".toList ∈ p.state.driven 1 ∧ ¬OnePerPhone p.state) ∧
    ∃ p, Reaches (machine bench) (twoRuns "lab 1" "lab_1").start p ∧ ("lab_1".toList, "00A".toList) ∈ p.state.homes ∧
      ("lab_1".toList, "00B".toList) ∈ p.state.homes ∧ ¬OnePerPhone p.state := by
  constructor
  · obtain ⟨p, hreach, h0, h1⟩ : ∃ p, Reaches (machine bench) (twoRuns "00A" "lab 1").start p ∧
        "00A".toList ∈ p.state.driven 0 ∧ "00A".toList ∈ p.state.driven 1 :=
      Pool.exists_of_play step_of_act (turn 0 4 ++ turn 1 4) (by decide)
    exact ⟨p, hreach, h0, h1, fun h => absurd (h.alone 0 1 _ h0 h1) (by decide)⟩
  · obtain ⟨p, hreach, h0, h1⟩ : ∃ p, Reaches (machine bench) (twoRuns "lab 1" "lab_1").start p ∧
        ("lab_1".toList, "00A".toList) ∈ p.state.homes ∧ ("lab_1".toList, "00B".toList) ∈ p.state.homes :=
      Pool.exists_of_play step_of_act (turn 0 4 ++ turn 1 2) (by decide)
    exact ⟨p, hreach, h0, h1, fun h => absurd (h.apart _ _ _ h0 h1) (by decide)⟩

end Pipette.Proxy.Fleet
