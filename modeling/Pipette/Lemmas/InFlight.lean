import Pipette.Worker.InFlight

/-!
# The protocol of the in-flight marker

The marker and the `closing` flag change only under the `closing` lock, and the flag never goes back. Other threads remove the
marker only with the flag set, and nobody writes it then. The job removes it at the end, when the heartbeat thread has
returned.
-/

namespace Pipette.Marker

open Threads List MarkerStore Function

variable {marker m : InFlight} {s s' : State} {t u : Tid}

/-! ## Invariant and guarantee -/

/-- A marker of this job: only `alive_at` may differ. -/
def OfJob (marker m : InFlight) : Prop := m = { marker with aliveAt := m.aliveAt }

/-- The marker of this job is in place. -/
def Own (marker : InFlight) (found : Option InFlight) : Prop := ∃ m, found = some m ∧ OfJob marker m

/-- A removal by the heartbeat or a teardown. -/
def Event.ByStop : Event → Prop
  | .removed t => t ≠ 0
  | .wrote _ _ _ => False

def Event.IsWrite : Event → Prop
  | .removed _ => False
  | .wrote _ _ _ => True

/-- What holds in every state. -/
structure Inv (marker : InFlight) (s : State) : Prop where
  /-- No write comes after a removal by the heartbeat or a teardown. -/
  silent : s.log.Pairwise fun e e' => e.ByStop → ¬e'.IsWrite
  /-- Where there was such a removal, the flag is set. -/
  closed : ∀ e ∈ s.log, e.ByStop → s.closing
  /-- The guard is dropped when the marker is gone and the heartbeat has returned. -/
  absent : s.dropped → s.marker = none ∧ s.beating = false
  /-- While the heartbeat runs and the flag is not set, the marker is in place. -/
  own : s.beating → s.closing = false → Own marker s.marker
  /-- The heartbeat wrote only over a marker of its own job. -/
  refreshed : ∀ before after, .wrote 1 before after ∈ s.log → Own marker before ∧ OfJob marker after

/-- What a step of thread `t` leaves to the others. -/
structure Guar (marker : InFlight) (t : Tid) (s s' : State) : Prop where
  closing : s.closing → s'.closing
  lock : ∀ u, u ≠ t → s.closingLock = some u → s'.closingLock = some u ∧ s'.closing = s.closing ∧ s'.marker = s.marker
  /-- Only the job starts the heartbeat, and only the heartbeat returns. -/
  started : t ≠ 0 → s'.beating → s.beating
  returned : t ≠ 1 → s.beating → s'.beating
  dropped : t ≠ 0 → s'.dropped = s.dropped
  /-- Only the job takes its marker away or brings one where the flag is not set. -/
  own : t ≠ 0 → (s.closing = false → Own marker s.marker) → s'.closing = false → Own marker s'.marker
  absent : t ≠ 0 → s.beating = false → s.marker = none → s'.marker = none
  tmp : ∀ u, u ≠ t → s'.tmp u = s.tmp u

def protocol (marker : InFlight) : Protocol State where
  inv := Inv marker
  guar := Guar marker

/-- What the thread knows is not changed by the others. -/
abbrev Lasts (marker : InFlight) (t : Tid) (A : State → Prop) : Prop := (protocol marker).Stable t A

/-- The program of the thread keeps to the protocol where no file operation fails. -/
abbrev Spec (marker : InFlight) (t : Tid) {α : Type} (A : State → Prop) (p : Act α) (Q : α → State → Prop) : Prop :=
  (protocol marker).Triple (machine true) t A p Q

/-- What a thread must know for an operation. -/
def Allowed (marker : InFlight) (t : Tid) : Op → State → Prop
  | .rename, s => s.closingLock = some t ∧ s.closing = false ∧ (∃ m, s.tmp t = some m ∧ OfJob marker m) ∧
      (t = 0 ∧ s.beating = false ∧ s.dropped = false ∨ t = 1 ∧ s.beating)
  | .removeMarker, s => s.closingLock = some t ∧ (t = 0 ∧ s.beating = false ∨ t ≠ 0 ∧ s.closing)
  | .setClosing, s => s.closingLock = some t
  | .unlockClosing, s => s.closingLock = some t
  | .spawn, s => t = 0 ∧ s.dropped = false ∧ (s.closing = false → Own marker s.marker)
  | .finish, _ => t = 1
  | .drop, s => t = 0 ∧ s.marker = none ∧ s.beating = false
  | _, _ => True

/-- A step that leaves alone what the protocol is about. -/
structure Quiet (t : Tid) (s s' : State) : Prop where
  closing : s'.closing = s.closing
  lock : ∀ u, u ≠ t → s.closingLock = some u → s'.closingLock = some u
  marker : s'.marker = s.marker
  beating : s'.beating = s.beating
  dropped : s'.dropped = s.dropped
  log : s'.log = s.log
  tmp : ∀ u, u ≠ t → s'.tmp u = s.tmp u

theorem Guar.refl (marker : InFlight) (t : Tid) (s : State) : Guar marker t s s :=
  ⟨id, fun _ _ h => ⟨h, rfl, rfl⟩, fun _ => id, fun _ => id, fun _ => rfl, fun _ => id, fun _ _ => id, fun _ _ => rfl⟩

theorem Quiet.keeps (h : Quiet t s s') (hs : Inv marker s) : Inv marker s' ∧ Guar marker t s s' := by
  obtain ⟨hclosing, hlock, hmarker, hbeating, hdropped, hlog, htmp⟩ := h
  cases s
  cases s'
  subst hclosing hmarker hbeating hdropped hlog
  exact ⟨{ hs with }, { Guar.refl marker t _ with lock := fun u hu hu' => ⟨hlock u hu hu', rfl, rfl⟩, tmp := htmp }⟩

theorem heldByOther {lock : Option Tid} (h : lock = some t) (hu : u ≠ t) (hlock : lock = some u) : False :=
  hu (Option.some.inj (hlock.symm.trans h))

theorem keeps_rename (hs : Inv marker s) (ha : Allowed marker t .rename s) (hm : s.tmp t = some m) :
    let s' := { s with marker := some m, tmp := update s.tmp t none, log := s.log ++ [.wrote t s.marker m] }
    Inv marker s' ∧ Guar marker t s s' := by
  obtain ⟨hlock, hclosing, ⟨m', hm', hof⟩, hwho⟩ := ha
  obtain rfl : m' = m := Option.some.inj (hm'.symm.trans hm)
  have hown : Own marker (some m') := ⟨m', rfl, hof⟩
  have hopen : ∀ e ∈ s.log, ¬e.ByStop := fun e he hstop => by
    rw [hs.closed e he hstop] at hclosing
    cases hclosing
  have hnotDropped : s.dropped = false := by
    rcases hwho with ⟨-, -, hdropped⟩ | ⟨-, hbeating⟩
    · exact hdropped
    · cases hdropped : s.dropped with
      | false => rfl
      | true => rw [(hs.absent hdropped).2] at hbeating; cases hbeating
  refine ⟨⟨?_, ?_, ?_, fun _ _ => hown, ?_⟩, { Guar.refl marker t s with
    lock := fun u hu hother => (heldByOther hlock hu hother).elim, own := fun _ _ _ => hown, absent := ?_, tmp := ?_ }⟩
  · refine pairwise_append.2 ⟨hs.silent, pairwise_singleton _ _, ?_⟩
    exact fun e he _ _ hstop => absurd hstop (hopen e he)
  · exact forall_mem_append.2 ⟨fun e he hstop => absurd hstop (hopen e he), forall_mem_singleton.2 nofun⟩
  · intro hdropped
    rw [hnotDropped] at hdropped
    cases hdropped
  · intro before after hwrote
    rcases mem_append.1 hwrote with hold | hnew
    · exact hs.refreshed before after hold
    cases mem_singleton.1 hnew
    rcases hwho with ⟨h01, -⟩ | ⟨-, hbeating⟩
    · cases h01
    · exact ⟨hs.own hbeating hclosing, hof⟩
  · intro ht hbeating
    rcases hwho with ⟨h0, -⟩ | ⟨-, hb⟩
    · exact absurd h0 ht
    · rw [hbeating] at hb
      cases hb
  · intro u hu
    simp [update_of_ne hu]

theorem keeps_removeMarker (hs : Inv marker s) (ha : Allowed marker t .removeMarker s) :
    let s' := { s with marker := none, log := s.log ++ [.removed t] }
    Inv marker s' ∧ Guar marker t s s' := by
  obtain ⟨hlock, hwho⟩ := ha
  have hidle : s.beating → s.closing = false → False := by
    intro hbeating hclosing
    rcases hwho with ⟨-, hb⟩ | ⟨-, hc⟩
    · rw [hbeating] at hb
      cases hb
    · rw [hclosing] at hc
      cases hc
  refine ⟨⟨?_, ?_, fun hdropped => ⟨rfl, (hs.absent hdropped).2⟩, fun hbeating hclosing => (hidle hbeating hclosing).elim, ?_⟩,
    { Guar.refl marker t s with
      lock := fun u hu hother => (heldByOther hlock hu hother).elim, own := ?_, absent := fun _ _ _ => rfl }⟩
  · refine pairwise_append.2 ⟨hs.silent, pairwise_singleton _ _, ?_⟩
    intro e _ e' he' _
    rw [mem_singleton.1 he']
    exact id
  · refine forall_mem_append.2 ⟨hs.closed, forall_mem_singleton.2 fun hstop => ?_⟩
    rcases hwho with ⟨h0, -⟩ | ⟨-, hc⟩
    · exact absurd h0 hstop
    · exact hc
  · intro before after hwrote
    rcases mem_append.1 hwrote with hold | hnew
    · exact hs.refreshed before after hold
    · cases mem_singleton.1 hnew
  · intro ht _ hclosing
    rcases hwho with ⟨h0, -⟩ | ⟨-, hc⟩
    · exact absurd h0 ht
    · rw [hc] at hclosing
      cases hclosing

variable {o : Op} {c : Choice} {r : Ans o}

/-- One operation of a thread that may do it keeps to the protocol. -/
theorem keeps_act (hs : Inv marker s) (ha : Allowed marker t o s)
    (hdo : act c t o s = some (r, s')) : Inv marker s' ∧ Guar marker t s s' := by
  cases o with
  | rename =>
    simp only [act] at hdo
    split at hdo <;> cases hdo
    · next hm => exact keeps_rename hs ha hm
    · exact ⟨hs, .refl marker t s⟩
  | removeMarker =>
    simp only [act] at hdo
    split at hdo <;> cases hdo
    · exact ⟨hs, .refl marker t s⟩
    · exact keeps_removeMarker hs ha
  | lockClosing =>
    simp only [act] at hdo
    split at hdo <;> cases hdo
    next hfree =>
    refine Quiet.keeps ⟨rfl, fun u _ hlock => ?_, rfl, rfl, rfl, rfl, fun _ _ => rfl⟩ hs
    rw [hfree] at hlock
    cases hlock
  | unlockClosing =>
    cases hdo
    exact Quiet.keeps ⟨rfl, fun u hu hlock => (heldByOther ha hu hlock).elim, rfl, rfl, rfl, rfl, fun _ _ => rfl⟩ hs
  | setClosing =>
    cases hdo
    exact ⟨{ hs with closed := fun _ _ _ => rfl, own := nofun }, { Guar.refl marker t s with
      closing := fun _ => rfl, lock := fun u hu hlock => (heldByOther ha hu hlock).elim, own := nofun }⟩
  | spawn =>
    obtain ⟨rfl, hdropped, hown⟩ := ha
    simp only [act] at hdo
    split at hdo <;> cases hdo
    · exact ⟨{ hs with absent := fun h => absurd (hdropped.symm.trans h) Bool.false_ne_true, own := fun _ => hown },
        { Guar.refl marker 0 s with started := fun h => absurd rfl h, returned := fun _ _ => rfl, absent := fun h => absurd rfl h }⟩
    · exact ⟨hs, .refl marker 0 s⟩
  | finish =>
    obtain rfl := ha
    cases hdo
    exact ⟨{ hs with absent := fun h => ⟨(hs.absent h).1, rfl⟩, own := nofun },
      { Guar.refl marker 1 s with started := nofun, returned := fun h => absurd rfl h }⟩
  | drop =>
    obtain ⟨rfl, hmarker, hbeating⟩ := ha
    cases hdo
    exact ⟨{ hs with absent := fun _ => ⟨hmarker, hbeating⟩ }, { Guar.refl marker 0 s with dropped := fun h => absurd rfl h }⟩
  | writeTmp m =>
    simp only [act] at hdo
    split at hdo <;> cases hdo
    · exact ⟨hs, .refl marker t s⟩
    · exact Quiet.keeps ⟨rfl, fun _ _ h => h, rfl, rfl, rfl, rfl, fun u hu => update_of_ne hu _ _⟩ hs
  | removeTmp =>
    cases hdo
    exact Quiet.keeps ⟨rfl, fun _ _ h => h, rfl, rfl, rfl, rfl, fun u hu => update_of_ne hu _ _⟩ hs
  | lockStopped | enter | join =>
    simp only [act] at hdo
    split at hdo <;> cases hdo
    exact Quiet.keeps ⟨rfl, fun _ _ h => h, rfl, rfl, rfl, rfl, fun _ _ => rfl⟩ hs
  | _ =>
    cases hdo
    exact Quiet.keeps ⟨rfl, fun _ _ h => h, rfl, rfl, rfl, rfl, fun _ _ => rfl⟩ hs

/-! ## What a thread knows -/

/-- The job before the heartbeat starts or after it has returned, its guard not dropped; the heartbeat while it runs; any
other thread. -/
def Active (t : Tid) (s : State) : Prop := (t = 0 → s.beating = false ∧ s.dropped = false) ∧ (t = 1 → s.beating)

/-- A thread that holds the `closing` lock. -/
def Inside (t : Tid) (s : State) : Prop := s.closingLock = some t ∧ Active t s

theorem stable_active : Lasts marker t (Active t) := by
  rintro u s s' hu - - hguar ⟨hjob, hheart⟩
  refine ⟨fun h0 => ?_, fun h1 => ?_⟩
  · obtain ⟨hbeating, hdropped⟩ := hjob h0
    subst h0
    refine ⟨?_, (hguar.dropped hu).trans hdropped⟩
    cases hb : s'.beating with
    | false => rfl
    | true => rw [hguar.started hu hb] at hbeating; cases hbeating
  · subst h1
    exact hguar.returned hu (hheart rfl)

/-- What the holder of the lock knows of the flag and the marker stays true. -/
theorem stable_inside (A : Bool → Option InFlight → Prop) : Lasts marker t fun s => Inside t s ∧ A s.closing s.marker := by
  rintro u s s' hu hs hs' hguar ⟨⟨hlock, hactive⟩, ha⟩
  obtain ⟨hlock', hclosing, hmarker⟩ := hguar.lock t hu.symm hlock
  rw [hclosing, hmarker]
  exact ⟨⟨hlock', stable_active u s s' hu hs hs' hguar hactive⟩, ha⟩

theorem stable_holding : Lasts marker t (Inside t) := by
  intro u s s' hu hs hs' hguar h
  exact (stable_inside (fun _ _ => True) u s s' hu hs hs' hguar ⟨h, trivial⟩).1

/-! ## Operations -/

/-- An operation on something else than the marker and its flags. -/
def Aside : Op → Bool
  | .register | .deregister | .takeTeardown | .readClosing | .lockStopped | .readStopped | .setStopped | .unlockStopped | .loadStop
  | .setStop | .syncDir | .due | .now => true
  | _ => false

/-- What the threads know of is the same. -/
structure Same (s s' : State) : Prop where
  closing : s'.closing = s.closing
  lock : s'.closingLock = s.closingLock
  marker : s'.marker = s.marker
  beating : s'.beating = s.beating
  dropped : s'.dropped = s.dropped

theorem Aside.allowed (h : Aside o) (s : State) : Allowed marker t o s := by cases o <;> trivial

theorem Aside.same (h : Aside o) (hdo : act c t o s = some (r, s')) : Same s s' := by
  cases o with
  | lockStopped =>
    simp only [act] at hdo
    split at hdo <;> cases hdo
    exact ⟨rfl, rfl, rfl, rfl, rfl⟩
  | register | deregister | takeTeardown | readClosing | readStopped | setStopped | unlockStopped | loadStop | setStop | syncDir | due
  | now =>
    cases hdo
    exact ⟨rfl, rfl, rfl, rfl, rfl⟩
  | _ => cases h

theorem Same.active (h : Same s s') (hs : Active t s) : Active t s' := by
  rw [Active, h.beating, h.dropped]
  exact hs

theorem Same.inside (h : Same s s') (hs : Inside t s) : Inside t s' := ⟨h.lock.trans hs.1, h.active hs.2⟩

section Specs

variable {A : State → Prop}

theorem spec_call {Q : Ans o → State → Prop} (hA : Lasts marker t A) (hallowed : ∀ s, A s → Allowed marker t o s)
    (hdo : ∀ c s r s', A s → c.fails = false → act c t o s = some (r, s') → Q r s') :
    Spec marker t A (call o) Q := by
  refine .call hA ?_
  rintro s r s' hs ha ⟨c, hreliable, hact⟩
  obtain ⟨hinv, hguar⟩ := keeps_act hs (hallowed s ha) hact
  exact ⟨hinv, hguar, hdo c s r s' ha (hreliable rfl) hact⟩

theorem spec_aside (ho : Aside o) (hA : Lasts marker t A) (hsame : ∀ s s', Same s s' → A s → A s') :
    Spec marker t A (call o) fun _ => A :=
  spec_call hA (fun s _ => Aside.allowed ho s) fun _ s _ s' ha _ hact => hsame s s' (Aside.same ho hact) ha

theorem spec_active (ho : Aside o) : Spec marker t (Active t) (call o) fun _ => Active t :=
  spec_aside ho stable_active fun _ _ h => h.active

/-- A file operation that has no effect on what is shared and does not fail. -/
theorem spec_ok (o : Op) (ok : Ans o) (hA : Lasts marker t A) (hallowed : ∀ s, Allowed marker t o s)
    (hdo : ∀ c s, c.fails = false → act c t o s = some (ok, s)) :
    Spec marker t A (call o) fun r s => r = ok ∧ A s := by
  refine spec_call hA (fun s _ => hallowed s) ?_
  intro c s r s' ha hfails hact
  rw [hdo c s hfails] at hact
  cases hact
  exact ⟨rfl, ha⟩

theorem spec_lockClosing : Spec marker t (Active t) (call .lockClosing) fun _ => Inside t := by
  refine spec_call stable_active (fun _ _ => trivial) ?_
  intro c s r s' hactive _ hact
  simp only [act] at hact
  split at hact <;> cases hact
  exact ⟨rfl, hactive⟩

/-- What the thread knows of the flag and the marker when it gives the lock back, if it lasts, is known after. -/
theorem spec_unlockClosing {B : Bool → Option InFlight → Prop} :
    Spec marker t (fun s => Inside t s ∧ B s.closing s.marker) (call .unlockClosing)
      fun _ s => Active t s ∧ B s.closing s.marker := by
  refine spec_call (stable_inside B) (fun _ h => h.1.1) ?_
  rintro c s r s' ⟨⟨-, hactive⟩, hb⟩ _ hact
  cases hact
  exact ⟨hactive, hb⟩

theorem spec_unlock : Spec marker t (Inside t) (call .unlockClosing) fun _ => Active t :=
  ((spec_unlockClosing (B := fun _ _ => True)).pre fun _ h => ⟨h, trivial⟩).post fun _ _ h => h.1

theorem spec_readClosing : Spec marker t (Inside t) (call .readClosing) fun r s => Inside t s ∧ s.closing = r := by
  refine spec_call stable_holding (fun _ _ => trivial) ?_
  intro c s r s' hinside _ hact
  cases hact
  exact ⟨hinside, rfl⟩

theorem spec_setClosing : Spec marker t (Inside t) (call .setClosing) fun _ s => Inside t s ∧ s.closing := by
  refine spec_call stable_holding (fun _ h => h.1) ?_
  intro c s r s' hinside _ hact
  cases hact
  exact ⟨hinside, rfl⟩

/-! ## The marker store -/

/-- The job and the heartbeat write the marker where the flag is not set. -/
theorem spec_write (ht : t = 0 ∨ t = 1) (hm : OfJob marker m) :
    Spec marker t (fun s => Inside t s ∧ s.closing = false) (write m)
      fun r s => r ∧ Inside t s ∧ s.closing = false ∧ Own marker s.marker := by
  have hopen : Lasts marker t fun s => Inside t s ∧ s.closing = false := stable_inside fun closing _ => closing = false
  have hfull : Lasts marker t fun s => (Inside t s ∧ s.closing = false) ∧ s.tmp t = some m :=
    hopen.and fun _ _ _ hu _ _ hguar h => (hguar.tmp t hu.symm).trans h
  have hdone : Lasts marker t fun s => Inside t s ∧ s.closing = false ∧ Own marker s.marker :=
    stable_inside fun closing found => closing = false ∧ Own marker found
  refine .bind_eq (spec_ok .createDir true hopen (fun _ => trivial) fun c s h => by simp [act, h]) ?_
  refine .bind_eq (a := true) (B := fun s => Inside t s ∧ s.closing = false ∧ Own marker s.marker) ?_ ?_
  · refine .bind_eq (spec_ok .createTmp true hopen (fun _ => trivial) fun c s h => by simp [act, h]) ?_
    refine .bind_eq (a := true) (B := fun s => (Inside t s ∧ s.closing = false) ∧ s.tmp t = some m) ?_ ?_
    · refine spec_call hopen (fun _ _ => trivial) ?_
      intro c s r s' hs hfails hact
      simp only [act, hfails] at hact
      cases hact
      exact ⟨rfl, hs, by simp⟩
    refine .bind_eq (spec_ok .syncTmp true hfull (fun _ => trivial) fun c s h => by simp [act, h]) ?_
    refine .bind_eq (a := true) (B := fun s => Inside t s ∧ s.closing = false ∧ Own marker s.marker) ?_ ?_
    · refine spec_call hfull ?_ ?_
      · rintro s ⟨⟨⟨hlock, hactive⟩, hclosing⟩, htmp⟩
        refine ⟨hlock, hclosing, ⟨m, htmp, hm⟩, ?_⟩
        rcases ht with rfl | rfl
        · exact .inl ⟨rfl, hactive.1 rfl⟩
        · exact .inr ⟨rfl, hactive.2 rfl⟩
      · rintro c s r s' ⟨⟨hinside, hclosing⟩, htmp⟩ hfails hact
        simp only [act, hfails, htmp] at hact
        cases hact
        exact ⟨rfl, hinside, hclosing, m, rfl, hm⟩
    exact spec_ok .syncDir true hdone (fun _ => trivial) fun c s h => by simp [act, h]
  · exact .pure fun _ h => ⟨rfl, h⟩

/-- The job removes the marker whenever it holds the lock, another thread where the flag is set. -/
theorem spec_remove : Spec marker t (fun s => Inside t s ∧ (t ≠ 0 → s.closing))
    remove fun _ s => Inside t s ∧ s.marker = none := by
  have hgone : Lasts marker t fun s => Inside t s ∧ s.marker = none := stable_inside fun _ found => found = none
  refine .bind (Q := fun _ s => Inside t s ∧ s.marker = none) ?_ fun removal => ?_
  · refine spec_call (stable_inside fun closing _ => t ≠ 0 → closing) ?_ ?_
    · rintro s ⟨⟨hlock, hactive⟩, hclosing⟩
      by_cases ht : t = 0
      · exact ⟨hlock, .inl ⟨ht, (hactive.1 ht).1⟩⟩
      · exact ⟨hlock, .inr ⟨ht, hclosing ht⟩⟩
    · rintro c s r s' ⟨hinside, -⟩ hfails hact
      simp only [act, hfails] at hact
      cases hact
      exact ⟨hinside, rfl⟩
  · split
    · exact spec_aside rfl hgone fun s s' h hs => ⟨h.inside hs.1, h.marker.trans hs.2⟩
    · exact .pure fun _ h => h
    · exact .pure fun _ h => h

theorem spec_removeClosed : Spec marker t (fun s => Inside t s ∧ s.closing) remove fun _ => Inside t :=
  (spec_remove.pre fun _ h => ⟨h.1, fun _ => h.2⟩).post fun _ _ h => h.1

/-! ## The job -/

theorem stable_notDropped : Lasts marker 0 fun s => s.dropped = false :=
  fun _ _ _ hu _ _ hguar h => (hguar.dropped hu).trans h

theorem spec_stopHeartbeat : Spec marker 0 (fun s => s.dropped = false) stopHeartbeat fun _ => Active 0 := by
  have haside : ∀ {o : Op}, Aside o →
      Spec marker 0 (fun s => s.dropped = false) (call o) fun _ s => s.dropped = false :=
    fun ho => spec_aside ho stable_notDropped fun _ _ h => h.dropped.trans
  refine .bind (haside rfl) fun _ => .bind (haside rfl) fun _ => .bind (haside rfl) fun _ => ?_
  refine spec_call stable_notDropped (fun _ _ => trivial) ?_
  intro c s r s' hdropped _ hact
  simp only [act] at hact
  split at hact <;> cases hact
  next hjoined => exact ⟨fun _ => ⟨by simpa using (Bool.and_eq_true_iff.1 hjoined).2, hdropped⟩, nofun⟩

/-- When the guard is dropped the marker is gone for good. -/
theorem spec_removeAtEnd : Spec marker 0 (Active 0) (dropRun false) fun _ _ => True := by
  have hgone : Lasts marker 0 fun s => Active 0 s ∧ s.marker = none := by
    rintro u s s' hu hs hs' hguar ⟨hactive, hmarker⟩
    exact ⟨stable_active u s s' hu hs hs' hguar hactive, hguar.absent hu (hactive.1 rfl).1 hmarker⟩
  have hremove : Spec marker 0 (Inside 0) remove fun _ s => Inside 0 s ∧ s.marker = none :=
    spec_remove.pre fun _ h => ⟨h, fun h => absurd rfl h⟩
  refine .bind spec_lockClosing fun _ => .bind hremove fun _ => ?_
  refine .bind (spec_unlockClosing (B := fun _ found => found = none)) fun _ => ?_
  refine .bind (spec_aside rfl hgone fun s s' h hs => ⟨h.active hs.1, h.marker.trans hs.2⟩) fun _ => ?_
  exact spec_call hgone (fun _ h => ⟨rfl, h.2, (h.1.1 rfl).1⟩) fun _ _ _ _ _ _ _ => trivial

theorem spec_startable : Spec marker t (Inside t) startable fun r s => Inside t s ∧ (r → s.closing = false) := by
  refine .bind spec_readClosing fun closing => ?_
  split
  · exact .pure fun _ h => ⟨h.1, nofun⟩
  · next hopen =>
    have hstable : Lasts marker t fun s => Inside t s ∧ s.closing = closing := stable_inside fun c _ => c = closing
    refine .bind (spec_aside rfl hstable fun s s' h hs => ⟨h.inside hs.1, h.closing.trans hs.2⟩) fun stop => ?_
    exact .pure fun _ h => ⟨h.1, fun _ => h.2.trans (Bool.eq_false_iff.2 hopen)⟩

/-- The job hands out its guard with the marker in place, or leaves nothing to be done. -/
theorem spec_startWithHeartbeat : Spec marker 0 (Active 0) (startWithHeartbeat marker)
    fun r s => r = true → s.dropped = false := by
  -- A teardown sets the flag before it removes the marker, so this stays true without the lock.
  have hplaced : Lasts marker 0 fun s => Active 0 s ∧ (s.closing = false → Own marker s.marker) := by
    rintro u s s' hu hs hs' hguar ⟨hactive, hown⟩
    exact ⟨stable_active u s s' hu hs hs' hguar hactive, hguar.own hu hown⟩
  refine .bind (spec_active rfl) fun _ => .bind spec_lockClosing fun _ => .bind spec_startable fun ready => ?_
  split
  · next hready =>
    have hof : OfJob marker marker := rfl
    refine .bind_eq ((spec_write (.inl rfl) hof).pre fun _ h => ⟨h.1, h.2 hready⟩) ?_
    refine .bind (Q := fun _ s => Active 0 s ∧ (s.closing = false → Own marker s.marker)) ?_ fun _ => ?_
    · exact (spec_unlockClosing (B := fun closing found => closing = false → Own marker found)).pre
        fun _ h => ⟨h.1, fun _ => h.2.2⟩
    refine .bind (Q := fun r s => (r = true → s.dropped = false) ∧ (r = false → Active 0 s)) ?_ fun spawned => ?_
    · refine spec_call hplaced (fun _ h => ⟨rfl, (h.1.1 rfl).2, h.2⟩) ?_
      rintro c s r s' ⟨hactive, -⟩ _ hact
      simp only [act] at hact
      split at hact <;> cases hact
      · exact ⟨fun _ => (hactive.1 rfl).2, nofun⟩
      · exact ⟨nofun, fun _ => hactive⟩
    · split
      · next hspawned => exact .pure fun _ h _ => h.1 hspawned
      · next hspawned =>
        refine .bind (spec_removeAtEnd.pre fun _ h => h.2 (Bool.eq_false_iff.2 hspawned)) fun _ => ?_
        exact .pure fun _ _ => nofun
  · refine .bind (spec_unlock.pre fun _ h => h.1) fun _ => ?_
    exact .bind (spec_active rfl) fun _ => .pure fun _ _ => nofun

theorem spec_job : Spec marker 0 (Active 0) (job marker) fun _ _ => True := by
  refine .bind spec_startWithHeartbeat fun handed => ?_
  split
  · next hhanded => exact .bind (spec_stopHeartbeat.pre fun _ h => h hhanded) fun _ => spec_removeAtEnd
  · exact .pure fun _ _ => trivial

/-! ## The heartbeat and the others -/

theorem spec_leave : Spec marker 1 (Active 1) leave fun _ _ => True := by
  refine .bind (spec_active rfl) fun _ => ?_
  exact spec_call stable_active (fun _ _ => rfl) fun _ _ _ _ _ _ _ => trivial

theorem spec_waitTimeoutWhile : Spec marker 1 (Active 1) waitTimeoutWhile fun _ => Active 1 := by
  refine .bind (spec_active rfl) fun stopped => ?_
  split
  · exact .pure fun _ h => h
  · exact .bind (spec_active rfl) fun _ => spec_active rfl

theorem spec_beat (rounds : Nat) (hm : OfJob marker m) : Spec marker 1 (Active 1) (beat m rounds) fun _ _ => True := by
  induction rounds generalizing m with
  | zero => exact .pure fun _ _ => trivial
  | succ rounds ih =>
    have haside : ∀ {o : Op}, Aside o → Spec marker 1
        (fun s => Inside 1 s ∧ s.closing = false) (call o) fun _ s => Inside 1 s ∧ s.closing = false := fun ho =>
      spec_aside ho (stable_inside fun closing _ => closing = false) fun _ _ h hs => ⟨h.inside hs.1, h.closing.trans hs.2⟩
    refine .bind spec_waitTimeoutWhile fun _ => .bind (spec_active rfl) fun stopped => ?_
    split
    · exact spec_leave
    refine .bind spec_lockClosing fun _ => .bind spec_readClosing fun closing => ?_
    split
    · exact .bind (spec_unlock.pre fun _ h => h.1) fun _ => spec_leave
    · next hopen =>
      refine .bind ((haside rfl).pre fun _ h => ⟨h.1, h.2.trans (Bool.eq_false_iff.2 hopen)⟩) fun stop => ?_
      split
      · refine .bind (spec_setClosing.pre fun _ h => h.1) fun _ => .bind spec_removeClosed fun _ => ?_
        exact .bind spec_unlock fun _ => spec_leave
      refine .bind (haside rfl) fun due => ?_
      split
      · refine .bind (haside rfl) fun now => ?_
        have hm' : OfJob marker { m with aliveAt := some now } := by rw [OfJob, hm]
        refine .bind (spec_write (.inr rfl) hm') fun _ => .bind (spec_unlock.pre fun _ h => h.2.1) fun _ => ih hm'
      · exact .bind (spec_unlock.pre fun _ h => h.1) fun _ => ih hm

theorem spec_heartbeat (rounds : Nat) : Spec marker 1 (fun _ => True) (heartbeat marker rounds) fun _ _ => True := by
  have hof : OfJob marker marker := rfl
  refine .bind ?_ fun _ => .bind (spec_active rfl) fun _ => spec_beat rounds hof
  refine spec_call (Protocol.Stable.const _) (fun _ _ => trivial) ?_
  intro c s r s' _ _ hact
  simp only [act] at hact
  split at hact <;> cases hact
  next hbeating => exact ⟨nofun, fun _ => hbeating⟩

theorem spec_role (role : Role) : Spec marker t (Active t) role.run fun _ _ => True := by
  cases role with
  | requestStop => exact (spec_active rfl).post fun _ _ _ => trivial
  | forceExit =>
    refine .bind (spec_active rfl) fun registered => ?_
    split
    · refine .bind spec_lockClosing fun _ => .bind spec_setClosing fun _ => .bind spec_removeClosed fun _ => ?_
      exact spec_unlock.post fun _ _ _ => trivial
    · exact .pure fun _ _ => trivial

end Specs

end Pipette.Marker
