import Pipette.Lemmas.PoolDevice

/-!
# The phones of a process in pool mode

The main thread loads the records of its phones and takes their locks. Until it starts their threads, nobody else changes what
belongs to a phone it has locked, and the directory stays as it is.
-/

namespace Pipette.Proxy.Bundles

open Threads List

variable {F : Formats} {ps : Processes F} {t : Tid} {p : Nat} {phones : List Phone} {dir : PoolDir} {index : BuildIndex F}
  {s s' : State F}

/-! ## What the other threads leave alone -/

/-- What stays of a process before it starts the threads of its phones. -/
structure Passed (p : Nat) (s s' : State F) : Prop where
  forked : s'.forked p = none
  running : p ∈ s'.running
  dir : s'.dir = s.dir
  locks : ∀ k, s.locks k = some p → s'.locks k = some p
  phones : ∀ phone, s.locks (.phone phone) = some p →
    s'.installed phone = s.installed phone ∧ s'.contents phone = s.contents phone
  worlds : ∀ phone, s'.world p phone = s.world p phone
  index : s.locks .pool = some p ∨ s.index.Complete s.dir → s'.index = s.index
  readings : s.readings ⊆ s'.readings

/-- The process has its directory and holds the locks of these phones. -/
structure Mine (p : Nat) (phones : List Phone) (dir : PoolDir) (s : State F) : Prop where
  forked : s.forked p = none
  running : p ∈ s.running
  dir : s.dir = dir
  held : ∀ q ∈ phones, s.locks (.phone q.dir) = some p

/-- What the process remembers of these phones is what their records say. -/
def Tracked (p : Nat) (phones : List Phone) (s : State F) : Prop :=
  ∀ q ∈ phones, (s.world p q.dir).memory = (s.installed q.dir).path

theorem Passed.mine (h : Passed p s s') (hs : Mine p phones dir s) : Mine p phones dir s' :=
  ⟨h.forked, h.running, h.dir.trans hs.dir, fun q hq => h.locks _ (hs.held q hq)⟩

theorem Passed.tracked (h : Passed p s s') {tracked : List Phone} (hs : Mine p phones dir s)
    (hsub : tracked ⊆ phones) (ht : Tracked p tracked s) : Tracked p tracked s' := by
  intro q hq
  rw [h.worlds, (h.phones q.dir (hs.held q (hsub hq))).1]
  exact ht q hq

theorem takeLock_keeps (hs : Inv ps s) {k : LockName} (hfree : s.locks k = none) (q : Nat) (outdated : Bool) :
    Inv ps { s with locks := s.locks.take q k, outdated := outdated } ∧
      Guar ps t s { s with locks := s.locks.take q k, outdated := outdated } := by
  constructor
  · refine { hs with driving := fun p' index hforked hrunning => ?_ }
    have hdriving := hs.driving p' index hforked hrunning
    exact { hdriving with held := fun phone hphone => Locks.take_held hfree (hdriving.held phone hphone) }
  · exact { Guar.refl with locks := fun k' p' _ hk' => Locks.take_held hfree hk' }

section Main

variable (hrole : ps.role t = .main p)

include hrole

theorem Guar.passed {u : Tid} (hu : u ≠ t) (hguar : Guar ps u s s')
    (hforked : s.forked p = none) (hrunning : p ∈ s.running) : Passed p s s' := by
  have hother : ps.role u ≠ .main p := fun h => hu (ps.once u t (by rw [h, hrole]) (by rw [h]; nofun))
  have htouches : ∀ phone, ¬(p = (ps.role u).process ∧ Touches ps u s phone) := by
    rintro phone ⟨hprocess, ⟨p', hmain, -⟩ | ⟨p', i, q, hdevice, hsome, -⟩⟩
    · rw [hmain] at hprocess
      exact hother (by rw [hmain, hprocess]; rfl)
    · rw [hdevice] at hprocess
      obtain rfl : p = p' := hprocess
      exact hsome hforked
  refine ⟨?_, hguar.running p hrunning hother, hguar.dir (ne_nil_of_mem hrunning), fun k => hguar.locks k p hother, ?_, ?_,
    ?_, hguar.readings⟩
  · rw [hguar.unforked p hother, hforked]
  · intro phone hlock
    refine hguar.phones phone fun h => htouches phone ⟨?_, h.2⟩
    rw [hlock] at h
    exact Option.some.inj h.1
  · exact fun phone => hguar.worlds p phone (htouches phone)
  · refine fun h => hguar.index fun hwrites => ?_
    rcases h with hpool | hcomplete
    · obtain ⟨hmain, hlock, -⟩ := hwrites
      rw [hpool] at hlock
      exact hother (by rw [hmain, ← Option.some.inj hlock])
    · exact hwrites.2.2 hcomplete

/-- What a process that has not started its threads knows, if no step of the others changes it. -/
theorem stable_passed {A : State F → Prop} (hA : ∀ s, A s → s.forked p = none ∧ p ∈ s.running)
    (hkeep : ∀ s s', Passed p s s' → A s → A s') : (protocol ps).Stable t A := by
  intro u s s' hu _ _ hguar hs
  obtain ⟨hforked, hrunning⟩ := hA s hs
  exact hkeep s s' (hguar.passed hrole hu hforked hrunning) hs

theorem stable_mine : (protocol ps).Stable t (Mine (F := F) p phones dir) :=
  stable_passed hrole (fun _ h => ⟨h.forked, h.running⟩) fun _ _ h => h.mine

theorem stable_mine_tracked : (protocol ps).Stable t fun s : State F => Mine p phones dir s ∧ Tracked p phones s :=
  stable_passed hrole (fun _ h => ⟨h.1.forked, h.1.running⟩)
    fun _ _ h hs => ⟨h.mine hs.1, h.tracked hs.1 (List.Subset.refl _) hs.2⟩

/-! ## Steps that concern the process alone -/

/-- While a process has not started its threads, what it remembers is its own. -/
theorem setWorld_keeps (hs : Inv ps s) (hforked : s.forked p = none) (phone : Text) (w : World F) :
    Inv ps (s.setWorld p phone w) ∧ Guar ps t s (s.setWorld p phone w) := by
  constructor
  · refine { hs with driving := fun p' index hforked' hrunning => ?_ }
    have hdriving := hs.driving p' index hforked' hrunning
    refine { hdriving with remembered := fun q hq => ?_ }
    have hne : p' ≠ p := by
      rintro rfl
      rw [show s.forked p' = some index from hforked'] at hforked
      cases hforked
    simpa [State.setWorld, Function.update_of_ne hne] using hdriving.remembered q hq
  · exact { Guar.refl with
      worlds := by
        intro p' phone' hnot
        have hne : p' ≠ p := by
          rintro rfl
          exact hnot ⟨by rw [hrole]; rfl, .inl ⟨p', hrole, hforked⟩⟩
        simp [State.setWorld, Function.update_of_ne hne] }

/-! ## The records and the locks of the phones -/

theorem triple_starts : Steady ps t (fun s => s.forked p = none) (call .starts)
      fun _ s => s.forked p = none ∧ p ∈ s.running := by
  have hother : ∀ {u}, u ≠ t → ps.role u ≠ .main p := fun hu h => hu (ps.once _ t (by rw [h, hrole]) (by rw [h]; nofun))
  refine .call ?_ fun s r s' hs hforked hstep => ?_
  · intro u s s' hu _ _ hguar h
    exact (hguar.unforked p (hother hu)).trans h
  · obtain ⟨hdo, -⟩ := hstep
    cases hdo
    rw [hrole]
    have hne : ∀ {q index}, s.forked q = some index → q ≠ p := by
      rintro q index h rfl
      rw [hforked] at h
      cases h
    refine ⟨{ hs with driving := fun q index hq hrunning => ?_ }, ?_, hforked, mem_cons_self⟩
    · exact { hs.driving q index hq ((mem_cons.1 hrunning).resolve_left (hne hq)) with }
    · exact { Guar.refl with
        started := forall_mem_cons.2 ⟨.inr hforked, fun _ => .inl⟩
        running := fun q hq _ => mem_cons_of_mem _ hq }

theorem triple_prepare (l : List Phone) : Steady ps t (Mine p [] dir) (prepare l) fun _ => Mine p [] dir := by
  induction l with
  | nil => exact .pure fun _ h => h
  | cons phone rest ih =>
    refine .bind (Q := fun _ => Mine p [] dir) ?_ fun loaded => ?_
    · refine .call (stable_mine hrole) fun s r s' hs hmine hstep => ?_
      obtain ⟨hdo, -⟩ := hstep
      cases hdo with
      | loadInstalled =>
        rw [hrole]
        obtain ⟨hinv, hguar⟩ := setWorld_keeps hrole hs hmine.forked phone.dir _
        exact ⟨hinv, hguar, { hmine with held := nofun }⟩
      | loadFailed => exact ⟨hs, .refl, hmine⟩
    · split
      · exact ih
      · exact .pure fun _ h => h

/-- Each lock is taken where it is free, and the phone's record has not changed since it was loaded. -/
theorem triple_tryLock (phone : Phone) :
    Steady ps t (fun s => Mine p phones dir s ∧ Tracked p phones s) (call (.tryLock phone.dir))
      fun r s => (Mine p [] dir s ∧ (r → phone.dir ∉ phones.map (·.dir))) ∧
        (r → Mine p (phones ++ [phone]) dir s ∧ Tracked p (phones ++ [phone]) s) := by
  refine .call (stable_mine_tracked hrole) fun s r s' hs hmine hstep => ?_
  obtain ⟨hmine, htracked⟩ := hmine
  obtain ⟨hdo, hundisturbed⟩ := hstep
  cases hdo with
  | busy => exact ⟨hs, .refl, ⟨{ hmine with held := nofun }, nofun⟩, nofun⟩
  | taken hfree =>
    rw [hrole] at hundisturbed ⊢
    obtain ⟨hinv, hguar⟩ := takeLock_keeps hs hfree p
      (s.outdated || decide ((s.world p phone.dir).memory ≠ (s.installed phone.dir).path))
    refine ⟨hinv, hguar, ⟨{ hmine with held := nofun }, fun _ hmem => ?_⟩, fun _ => ?_⟩
    · obtain ⟨q, hq, hdir⟩ := mem_map.1 hmem
      have hheld := hmine.held q hq
      rw [hdir, hfree] at hheld
      cases hheld
    · have hloaded : (s.world p phone.dir).memory = (s.installed phone.dir).path := by
        have hsame := (Bool.or_eq_false_iff.1 hundisturbed.2).2
        rw [Role.process] at hsame
        simpa using hsame
      refine ⟨{ hmine with held := forall_mem_append.2 ⟨fun q hq => ?_, ?_⟩ }, forall_mem_append.2 ⟨htracked, ?_⟩⟩
      · exact Locks.take_held hfree (hmine.held q hq)
      · exact forall_mem_singleton.2 Locks.take_self
      · exact forall_mem_singleton.2 hloaded

theorem triple_takeLocks (taken l : List Phone) (hdistinct : (taken.map (·.dir)).Nodup) :
    Steady ps t (fun s => Mine p taken dir s ∧ Tracked p taken s) (takeLocks l)
      fun r s => Mine p [] dir s ∧ (r → ((taken ++ l).map (·.dir)).Nodup) ∧
        (r → Mine p (taken ++ l) dir s ∧ Tracked p (taken ++ l) s) := by
  induction l generalizing taken with
  | nil =>
    rw [append_nil]
    exact .pure fun s h => ⟨{ h.1 with held := nofun }, fun _ => hdistinct, fun _ => h⟩
  | cons phone rest ih =>
    refine .bind (triple_tryLock hrole phone) fun locked => ?_
    split
    · next hlocked =>
      intro s hs h
      have hnew : ((taken ++ [phone]).map (·.dir)).Nodup := by
        rw [map_append, map_singleton, nodup_append_comm]
        exact nodup_cons.2 ⟨h.1.2 hlocked, hdistinct⟩
      have hrest := ih (taken ++ [phone]) hnew
      rw [append_assoc, singleton_append] at hrest
      exact hrest s hs (h.2 hlocked)
    · exact .pure fun s h => ⟨h.1.1, nofun, nofun⟩

end Main

end Pipette.Proxy.Bundles
