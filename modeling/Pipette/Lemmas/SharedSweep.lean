import Pipette.Lemmas.SharedEnsure

/-!
# Sweeping keeps to the protocol

A sweep removes a child of `.staging` only with the lock of the staged name, or when there is no lock file for a name that was
used before (`Taken`): none is ever made for it again. Any other child it moves to a fresh staged name, which is then taken.
-/

namespace Pipette.Shared

open Files Threads

variable {α μ : Type} {A : Artifacts α μ} {mode : Mode α} {t : Tid} {d d' : Disk μ} {k : StoreKind} {child : Text}

/-- The child of `.staging` belongs to a staged name only if that name was used. -/
def WasSeen (k : StoreKind) (child : Text) (d : Disk μ) : Prop :=
  IsStagedName (stagedBase child) → d.seen k (stagedBase child)

variable {u : Tid} {lock : Option Handle}

theorem Guar.keeps_wasSeen (hguar : Guar A mode u d d') (h : WasSeen k child d) : WasSeen k child d' :=
  fun hname => hguar.seen _ _ (h hname)

theorem lasts_wasSeen : Lasts A mode t (WasSeen k child) := fun _ _ _ _ _ _ hguar h => hguar.keeps_wasSeen h

/-- The lock of the staged name is held, or there is no lock file any more. -/
def Taken (t : Tid) (k : StoreKind) (child : Text) : Option Handle → Disk μ → Prop
  | some h => fun d => WasSeen k child d ∧ d.excl h = some t ∧
      (IsStagedName (stagedBase child) → h = ⟨stagedLockPath k (stagedBase child), d.gen (stagedLockPath k (stagedBase child))⟩)
  | none => fun d => WasSeen k child d ∧ (IsStagedName (stagedBase child) → d.tree (stagedLockPath k (stagedBase child)) = none)

theorem Guar.keeps_taken (hguar : Guar A mode u d d') (h : Taken t k child lock d)
    (hexcl : ∀ h, lock = some h → d'.excl h = some t) : Taken t k child lock d' := by
  cases lock with
  | some lock =>
    refine ⟨hguar.keeps_wasSeen h.1, hexcl lock rfl, fun hname => ?_⟩
    rw [hguar.stagedGen _ _ (h.1 hname)]
    exact h.2.2 hname
  | none =>
    refine ⟨hguar.keeps_wasSeen h.1, fun hname => ?_⟩
    rcases hguar.spent _ _ (h.1 hname) with hsame | hnone
    · exact hsame.trans (h.2 hname)
    · exact hnone

theorem lasts_taken (lock : Option Handle) : Lasts A mode t (Taken t k child lock) := by
  intro u d d' hu _ _ hguar h
  refine hguar.keeps_taken h fun lock' hlock => ?_
  subst hlock
  exact (hguar.excl lock' t hu.symm).2 h.2.1

/-- Nobody else holds the lock of a staged name that is taken. -/
theorem Taken.only (h : Taken t k child lock d) (hname : IsStagedName (stagedBase child))
    (hu : Holds d u (stagedLockPath k (stagedBase child))) : u = t := by
  cases lock with
  | some lock =>
    have hexcl := h.2.1
    rw [h.2.2 hname] at hexcl
    simpa using hu.2.symm.trans hexcl
  | none =>
    exact absurd (h.2 hname) (ne_none_of_fileAt hu.1)

/-- A child that is taken, or its lock file, can be removed. -/
theorem spec_remove_taken {x : Text} (hx : stagedBase x = stagedBase child) (fuel : Nat) :
    Spec A mode t (fun d => Idle t d ∧ Taken t k child lock d) (removePath (stagedPath k x) fuel)
      fun _ d => Idle t d ∧ Taken t k child lock d := by
  refine .removePath (lasts_idle.and (lasts_taken lock)) (fun d keep hinv hd => ?_) fuel
  have hok : Ok A mode t d (d.withTree (remove keep (stagedPath k x) d.tree)) := by
    refine ok_remove_staged hinv (fun hname u hu => ?_) (fun st hst => ?_) keep
    · rw [hx] at hname hu
      exact hd.2.only hname hu
    · exact nomatch hd.1.1.symm.trans hst
  refine ⟨hok, hd.1, hok.2.keeps_taken hd.2 fun h hlock => ?_⟩
  subst hlock
  exact hd.2.2.1

theorem spec_takeStagingLock : Spec A mode t (fun d => Idle t d ∧ WasSeen k child d) (takeStagingLock k child) fun r => match r with
    | some lock => fun d => Idle t d ∧ Taken t k child lock d
    | none => Idle t := by
  have hpre : Lasts A mode t fun d => Idle t d ∧ WasSeen k child d := lasts_idle.and lasts_wasSeen
  -- what is known of the file that was opened: the generation it has stays that of the staged name's lock
  have hopen : ∀ g : Nat, Lasts A mode t fun d => (Idle t d ∧ WasSeen k child d) ∧
      (IsStagedName (stagedBase child) → d.gen (stagedLockPath k (stagedBase child)) = g) := by
    refine fun g => fun u d d' hu hinv hinv' hguar h => ⟨hpre u d d' hu hinv hinv' hguar h.1, fun hname => ?_⟩
    exact (hguar.stagedGen _ _ (h.1.2 hname)).trans (h.2 hname)
  refine .bind (Q := fun r => match r with
    | .opened g => fun d => (Idle t d ∧ WasSeen k child d) ∧
        (IsStagedName (stagedBase child) → d.gen (stagedLockPath k (stagedBase child)) = g)
    | .failed => Idle t
    | .notFound => fun d => Idle t d ∧ Taken t k child none d)
    (.look hpre (fun _ _ _ h => h.1) ?_) fun r => ?_
  · rintro d r hinv hd ⟨-, ⟨rfl, -⟩ | ⟨rfl, hnone⟩ | rfl⟩
    · exact ⟨hd, fun _ => by rw [stagingLockOf_eq]⟩
    · exact ⟨hd.1, hd.2, fun _ => by rw [← stagingLockOf_eq]; exact hnone⟩
    · exact hd.1
  cases r with
  | notFound | failed => exact .same rfl
  | opened g =>
    refine .bind (Q := fun r => match r with
      | .failed | .unsupported | .wouldBlock => Idle t
      | .locked => fun d => Idle t d ∧ Taken t k child (some ⟨stagingLockOf k child, g⟩) d) (.op (hopen g) ?_) fun r => ?_
    · rintro d r d' hinv ⟨⟨hidle, hseen⟩, hgen⟩ ((⟨rfl, -, hfree, rfl⟩ | ⟨-, hsupp, -⟩ | ⟨rfl, rfl⟩) | ⟨rfl, -, -, rfl⟩)
      · refine ⟨ok_lockExcl hinv hfree, hidle, hseen, Function.update_self _ _ _, fun hname => ?_⟩
        rw [stagingLockOf_eq]
        exact congrArg (Handle.mk _) (hgen hname).symm
      · cases hsupp
      · exact ⟨ok_refl hinv, hidle⟩
      · exact ⟨ok_refl hinv, hidle⟩
    · cases r <;> exact .same rfl

/-! ## Surveying -/

/-- A target that a survey can name. -/
def Sweepable : Target → Disk μ → Prop
  | .staged k child => WasSeen k child
  | .child k name => fun _ => (Entry.mk k name).Proper

theorem Guar.keeps_sweepable (hguar : Guar A mode u d d') {x : Target} (h : Sweepable x d) : Sweepable x d' := by
  cases x with
  | staged k child => exact hguar.keeps_wasSeen h
  | child k name => exact h

/-- A thread between two fetches that knows its targets. -/
def Knows (t : Tid) (targets : List Target) (d : Disk μ) : Prop := Idle t d ∧ ∀ x ∈ targets, Sweepable x d

theorem lasts_knows (targets : List Target) : Lasts A mode t (Knows t targets) :=
  lasts_idle.and fun _ _ _ _ _ _ hguar h x hx => hguar.keeps_sweepable (h x hx)

/-- The children of `.staging` that can go were all seen. -/
theorem spec_stagingOrphans (children : List Text) :
    Spec A mode t (fun d => Idle t d ∧ ∀ c ∈ children, WasSeen k c d) (stagingOrphans k children) fun r => Knows t r := by
  induction children with
  | nil => exact .ret fun _ hd => ⟨hd.1, fun _ hx => nomatch hx⟩
  | cons child children ih =>
    have hkeep : ∀ u (d d' : Disk μ), Guar A mode u d d' → (∀ c ∈ child :: children, WasSeen k c d) →
        ∀ c ∈ child :: children, WasSeen k c d' := fun u d d' hguar h c hc => hguar.keeps_wasSeen (h c hc)
    have hseen : Lasts A mode t fun d => Idle t d ∧ ∀ c ∈ child :: children, WasSeen k c d :=
      lasts_idle.and fun u d d' _ _ _ hguar h => hkeep u d d' hguar h
    refine .bind (((@spec_takeStagingLock α μ A mode t k child).frame hkeep).pre
      fun d hd => ⟨⟨hd.1, hd.2 child (by simp)⟩, hd.2⟩) fun r => ?_
    cases r with
    | none => exact ih.pre fun d hd => ⟨hd.1, fun c hc => hd.2 c (by simp [hc])⟩
    | some lock =>
      refine .bind (((spec_release lock).frame hkeep).pre fun d hd => ⟨hd.1.1, hd.2⟩) fun _ => ?_
      have hrest : ∀ beside : Bool, Spec A mode t (fun d => Idle t d ∧ ∀ c ∈ child :: children, WasSeen k c d) (do
          let orphans ← stagingOrphans k children
          return if beside then orphans else .staged k child :: orphans) fun r => Knows t r := by
        intro beside
        refine .bind ((ih.frame fun u d d' hguar h => hguar.keeps_wasSeen h).pre
          fun d hd => ⟨⟨hd.1, fun c hc => hd.2 c (by simp [hc])⟩, hd.2 child (by simp)⟩) fun orphans => ?_
        cases beside with
        | true => exact .ret fun _ hd => hd.1
        | false =>
          exact .ret fun d hd => ⟨hd.1.1, List.forall_mem_cons.2 ⟨hd.2, hd.1.2⟩⟩
      cases stagedDirOfLock child with
      | none => exact hrest false
      | some dir => exact .bind (.still hseen fun _ _ _ h => h.1) hrest

/-- Every child of a store root that can go is a staged one that was seen, or an entry. -/
theorem spec_scanChildren (names : List Text) (hnames : ∀ name ∈ names, IsName name) :
    Spec A mode t (Idle t) (scanChildren k names) fun r => Knows t r := by
  induction names with
  | nil => exact .ret fun _ hd => ⟨hd, fun _ hx => nomatch hx⟩
  | cons name names ih =>
    have hrest : ∀ found : List Target, Spec A mode t (Knows t found) (do
        return found ++ (← scanChildren k names)) fun r => Knows t r := by
      intro found
      refine .bind ((ih fun n hn => hnames n (by simp [hn])).frame
        fun u d d' hguar h x hx => hguar.keeps_sweepable (h x hx)) fun rest => ?_
      exact .ret fun d hd => ⟨hd.1.1, List.forall_mem_append.2 ⟨hd.2, hd.1.2⟩⟩
    rw [scanChildren]
    split
    · refine .bind
        (.look lasts_idle (fun _ _ _ h => h.1) fun d r hinv hd hdo => ⟨hd, fun c hc hname => ?_⟩) fun children =>
          .bind (spec_stagingOrphans children) hrest
      exact hinv.seen k c hname (hdo.2 c hc).2
    · next hstaging =>
      refine (hrest _).pre fun d hd => ⟨hd, fun x hx => ?_⟩
      split at hx
      · cases hx
      · next hlocks =>
        obtain rfl := List.mem_singleton.1 hx
        exact ⟨hnames name (by simp), hstaging, hlocks⟩

theorem spec_scanStore : Spec A mode t (Idle t) (scanStore k) fun r => Knows t r := by
  refine .bind (Q := fun r d => (∀ name ∈ r, IsName name) ∧ Idle t d)
    (.look lasts_idle (fun _ _ _ h => h.1) fun d r _ hd hdo => ?_) fun names => ?_
  · exact ⟨fun name hname => (hdo.2 name hname).1, hd⟩
  · exact .of_imp fun hnames => spec_scanChildren names hnames

/-! ## Removing -/

section Remove

variable {e : Entry} (he : e.Proper) (hcalm : ∀ a, mode ≠ .calm a)

theorem spec_takeInUseLock (e : Entry) : Spec A mode t (Idle t) (takeInUseLock e) fun r => match r with
    | some h => fun d => h.path = e.usePath ∧ Idle t d ∧ Has t h d
    | none => Idle t := by
  refine .bind (spec_openEntryLock e.store e.key useSuffix) fun r => ?_
  cases r with
  | none => exact .same rfl
  | some h =>
    obtain ⟨p, g⟩ := h
    refine .of_imp fun hp => ?_
    obtain rfl : p = entryLockPath e.store e.key useSuffix := hp
    refine .bind spec_tryLock fun tried => ?_
    cases tried with
    | locked => exact .ret fun _ hd => ⟨rfl, hd⟩
    | unsupported => exact .of_false
    | failed | wouldBlock => exact .ret fun _ hd => hd.1

include he hcalm

/-- The entry moves to a staged name for which there is no lock file. -/
theorem spec_moveOut {g : Nat} :
    Spec A mode t (fun d => Idle t d ∧ Has t ⟨e.usePath, g⟩ d) (call (.moveOut (storeRoot e.store ++ [e.key]) e.store e.key))
      fun r => match r with
      | .moved doomed => fun d => Idle t d ∧ Taken t e.store doomed none d
      | .notFound | .failed => Idle t := by
  refine .op (lasts_idle.and (lasts_has _ _ _ g)) ?_
  rintro d r d' hinv hd (⟨x, hx, hunseen, -, -, -, rfl, rfl⟩ | ⟨rfl, -, rfl⟩ | ⟨rfl, rfl⟩)
  · have hname : IsStagedName (stagedName e.key x) := ⟨e.key, x, hx, rfl⟩
    rw [← he.dir_eq]
    have hok : Ok A mode t d ((d.withTree (move e.dir (stagedPath e.store (stagedName e.key x)) d.tree)).use e.store (stagedName e.key x)) :=
      ok_moveOut hinv he hname hunseen (fun _ => hd.2.holds) hcalm
    refine ⟨hok, hd.1, fun _ => ?_, fun _ => ?_⟩
    · rw [hname.base]
      simp [Disk.use]
    · -- a lock file for the fresh name would have made it a used one
      rw [hname.base]
      have hold : d.tree (stagedLockPath e.store (stagedName e.key x)) = none := by
        by_contra hsome
        have hseen := hinv.seen e.store (stagedName e.key x ++ lockSuffix)
        rw [stagedBase_lock] at hseen
        rw [hseen hname (Option.isSome_iff_ne_none.2 hsome)] at hunseen
        cases hunseen
      have hoff := not_below_entry he
      have hoff' := not_below_staged (k := e.store) hname
      exact (move_within _ _ _ _ (not_or.2 ⟨hoff.2 _ _, hoff'.2.1 _ _⟩)).trans hold
  · exact ⟨ok_refl hinv, hd.1⟩
  · exact ⟨ok_refl hinv, hd.1⟩

theorem spec_moveOutAndRemove (fuel : Nat) : Spec A mode t (Idle t) (moveOutAndRemove fuel e.store e.key) fun _ => Idle t := by
  refine .bind (spec_takeInUseLock ⟨e.store, e.key⟩) fun r => ?_
  cases r with
  | none => exact .same rfl
  | some lock =>
    obtain ⟨p, g⟩ := lock
    refine .of_imp fun hp => ?_
    obtain rfl : p = e.usePath := hp
    have hhas : Lasts A mode t fun d => Idle t d ∧ Has t ⟨e.usePath, g⟩ d := lasts_idle.and (lasts_has _ _ _ g)
    refine .bind (Q := fun _ d => Idle t d ∧ Has t ⟨e.usePath, g⟩ d) (.op hhas ?_) fun made => ?_
    · rintro d r d' hinv hd ⟨q, hq, -, rfl, -⟩
      have hok : Ok A mode t d (d.withTree (mkdirAll q d.tree)) := ok_mkdirs hinv (.inl rfl) hq
      exact ⟨hok, hd.1, hok.2.keeps_open hd.2.1, hd.2.2⟩
    cases made with
    | false => exact (spec_unlock_idle _).pre fun _ hd => hd.1
    | true =>
      refine .bind (spec_moveOut he hcalm) fun r => ?_
      cases r with
      | failed | notFound => exact spec_unlock_idle _
      | moved doomed =>
        have hunlock : Spec A mode t (fun d => Idle t d ∧ Taken t e.store doomed none d) (call (.unlock ⟨e.usePath, g⟩))
            fun _ d => Idle t d ∧ Taken t e.store doomed none d :=
          (spec_unlock_idle _).frame fun u d d' hguar h => hguar.keeps_taken h fun _ hlock => nomatch hlock
        refine .bind hunlock fun _ => ?_
        refine .bind (spec_remove_taken rfl fuel) fun _ => ?_
        exact .ret fun _ hd => hd.1

end Remove

section Sweep

variable (hcalm : ∀ a, mode ≠ .calm a)

include hcalm

theorem spec_removeEntry (x : Target) (fuel : Nat) : Spec A mode t (fun d => Idle t d ∧ Sweepable x d) (removeEntry fuel x) fun _ => Idle t := by
  cases x with
  | child k name =>
    refine (Spec.of_imp fun he => spec_moveOutAndRemove (e := ⟨k, name⟩) he hcalm fuel).pre fun d hd => ⟨hd.2, hd.1⟩
  | staged k child =>
    refine .bind (@spec_takeStagingLock α μ A mode t k child) fun r => ?_
    cases r with
    | none => exact .same rfl
    | some lock =>
      refine .bind (spec_remove_taken rfl fuel) fun removed => ?_
      have hrelease : Spec A mode t (fun d => Idle t d ∧ Taken t k child lock d) (release lock) fun _ => Idle t :=
        (spec_release lock).pre fun _ hd => hd.1
      cases removed with
      | false => exact hrelease
      | true =>
        rw [stagingLockOf_eq]
        exact .bind (spec_remove_taken (stagedBase_lock _) fuel) fun _ => hrelease

theorem spec_applySweep (targets : List Target) (fuel : Nat) : Spec A mode t (Knows t targets) (applySweep fuel targets) fun _ => Idle t := by
  induction targets with
  | nil => exact .ret fun _ hd => hd.1
  | cons x targets ih =>
    refine .bind (((spec_removeEntry hcalm x fuel).frame
      fun u d d' hguar h y hy => hguar.keeps_sweepable (h y hy)).pre
        fun d hd => ⟨⟨hd.1, hd.2 x (by simp)⟩, fun y hy => hd.2 y (by simp [hy])⟩) fun _ => ih

theorem spec_sweep (fuel rounds : Nat) : Spec A mode t (Idle t) (sweep fuel rounds) fun _ => Idle t := by
  induction rounds with
  | zero => exact .same rfl
  | succ rounds ih =>
    refine .bind spec_scanStore fun models => ?_
    refine .bind (spec_scanStore.frame
      fun u d d' hguar h x hx => hguar.keeps_sweepable (h x hx)) fun runtimes => ?_
    refine .bind (Q := fun r => Knows t r) (.look
      (((lasts_knows runtimes).and fun u d d' _ _ _ hguar h x hx => hguar.keeps_sweepable (h x hx)))
      (fun _ _ _ h => h.1) fun d r _ hd hdo => ⟨hd.1.1, fun x hx => ?_⟩) fun chosen => ?_
    · rcases List.mem_append.1 (hdo.2 x hx) with hx | hx
      · exact hd.2 x hx
      · exact hd.1.2 x hx
    · exact .bind (spec_applySweep hcalm chosen fuel) fun _ => ih

end Sweep

/-! ## Every job -/

/-- The jobs the mode allows: proper keys, and where one artifact's publishes are followed, that artifact. -/
def Allowed (A : Artifacts α μ) (mode : Mode α) (job : Job α) : Prop :=
  (∀ a, job.artifact = some a → (entryOf A a).Proper) ∧
    ∀ b, mode = .calm b → (∀ a, job.artifact = some a → b = a) ∧ ∀ rounds, job ≠ .sweep rounds

theorem spec_program {job : Job α} (h : Allowed A mode job) (fuel : Nat) :
    Spec A mode t (Idle t) (job.program A fuel) fun _ _ => True := by
  cases job with
  | resolve a => exact spec_resolve (h.1 a rfl) (fun b hb => (h.2 b hb).1 a rfl) fuel
  | ensure a => exact spec_ensureOnce (h.1 a rfl) (fun b hb => (h.2 b hb).1 a rfl) fuel
  | sweep rounds => exact (spec_sweep (fun b hb => (h.2 b hb).2 rounds rfl) fuel rounds).post fun _ _ _ => trivial
  | idle => exact .ret fun _ _ => trivial

end Pipette.Shared
