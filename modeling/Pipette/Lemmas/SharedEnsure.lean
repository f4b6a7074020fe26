import Pipette.Lemmas.SharedFetch

/-!
# Ensuring and resolving keep to the protocol

Look, lock, look again, fetch; then take the in-use lock and look once more. What a look finds stays true as long as the lock
taken before it is held.
-/

namespace Pipette.Shared

open Files Threads Function

variable {α μ : Type} {A : Artifacts α μ} {mode : Mode α} {t : Tid} {d d' : Disk μ} {a : α} {g : Nat} {m : μ}

/-- The thread is between two fetches. -/
def Idle (t : Tid) (d : Disk μ) : Prop := Notes t none none d

theorem lasts_idle : Lasts A mode t (Idle t) := lasts_notes none none

/-- What is known of a manifest that a look has found. -/
def Known (A : Artifacts α μ) (mode : Mode α) (a : α) (m : μ) (d : Disk μ) : Prop :=
  (A.policy m ∧ A.fits a m ∧ (mode ≠ .base → A.home m = A.key a)) ∧ Got A mode m d

/-- What is known of the manifest that was got, if one was. -/
theorem Guar.keeps_got_of {u : Tid} (r : Option μ) (hguar : Guar A mode u d d') (h : ∀ m, r = some m → Got A mode m d) :
    ∀ m, r = some m → Got A mode m d' :=
  fun m hm => hguar.keeps_got (h m hm)

theorem lasts_known : Lasts A mode t (Known A mode a m) := (Protocol.Stable.const _).and (lasts_got m)

theorem spec_unlock_idle (h : Handle) : Spec A mode t (Idle t) (call (.unlock h)) fun _ => Idle t := by
  refine .op lasts_idle ?_
  rintro d r d' hinv hidle rfl
  exact ⟨ok_unlock hinv hidle.1 (fun e he => nomatch hidle.2.1.symm.trans he) hidle.2.2, hidle⟩

theorem spec_release (lock : Option Handle) : Spec A mode t (Idle t) (release lock) fun _ => Idle t := by
  cases lock with
  | none => exact .same rfl
  | some h => exact spec_unlock_idle h

/-! ## Lock files of entries -/

theorem spec_openEntryLock (k : StoreKind) (key suffix : Text) :
    Spec A mode t (Idle t) (openEntryLock k (entryLockPath k key suffix)) fun r => match r with
    | some h => fun d => h.path = entryLockPath k key suffix ∧ Idle t d ∧ Open h d
    | none => Idle t := by
  refine .bind (Q := fun _ => Idle t) (.op lasts_idle ?_) fun made => ?_
  · rintro d r d' hinv hd ⟨q, hq, -, rfl, -⟩
    exact ⟨ok_mkdirs hinv (.inr rfl) hq, hd⟩
  cases made with
  | false => exact .same rfl
  | true =>
    refine .bind (Q := fun r => match r with
      | some g => fun d => Idle t d ∧ Open ⟨entryLockPath k key suffix, g⟩ d
      | none => Idle t) (.op lasts_idle ?_) fun r => ?_
    · rintro d r d' hinv hd (⟨rfl, hfile, rfl⟩ | ⟨rfl, hnone, -, rfl⟩ | ⟨rfl, rfl⟩)
      · exact ⟨ok_refl hinv, hd, hfile, rfl⟩
      · refine ⟨ok_create_lock hinv hnone, hd, ?_, update_self _ _ _⟩
        simp [Disk.create, fileAt, write, Node.isFile]
      · exact ⟨ok_refl hinv, hd⟩
    · cases r with
      | none => exact .same rfl
      | some g => exact .ret fun _ hd => ⟨rfl, hd⟩

/-- What taking a lock on a file that is open ends with. -/
def Taking (t : Tid) (h : Handle) : Locked → Disk μ → Prop
  | .locked => fun d => Idle t d ∧ Has t h d
  | .unsupported => fun _ => False
  | .wouldBlock | .failed => fun d => Idle t d ∧ Open h d

section Taking

variable {k : StoreKind} {key suffix : Text}

theorem lasts_idle_open : Lasts A mode t fun d => Idle t d ∧ Open ⟨entryLockPath k key suffix, g⟩ d :=
  lasts_idle.and (lasts_open k key suffix g)

theorem taking_of_locking (hinv : Inv A mode d) {h : Handle} (hd : Idle t d ∧ Open h d) {r : Locked}
    (hdo : locking true (d.Free h) (d.lockExcl t h) d r d') : Ok A mode t d d' ∧ Taking t h r d' := by
  rcases hdo with ⟨rfl, -, hfree, rfl⟩ | ⟨-, hsupp, -⟩ | ⟨rfl, rfl⟩
  · exact ⟨ok_lockExcl hinv hfree, hd.1, hd.2, update_self _ _ _⟩
  · cases hsupp
  · exact ⟨ok_refl hinv, hd⟩

theorem spec_tryLock : Spec A mode t (fun d => Idle t d ∧ Open ⟨entryLockPath k key suffix, g⟩ d)
    (call (.tryLock ⟨entryLockPath k key suffix, g⟩)) (Taking t ⟨entryLockPath k key suffix, g⟩) := by
  refine .op lasts_idle_open fun d r d' hinv hd hdo => ?_
  rcases hdo with hdo | ⟨rfl, -, -, rfl⟩
  · exact taking_of_locking hinv hd hdo
  · exact ⟨ok_refl hinv, hd⟩

end Taking

theorem spec_lockEntry (e : Entry) : Spec A mode t (Idle t) (lockEntry e) fun r => match r with
    | some h => fun d => h.path = e.lockPath ∧ Idle t d ∧ Has t h d
    | none => Idle t := by
  refine .bind (spec_openEntryLock e.store e.key lockSuffix) fun r => ?_
  cases r with
  | none => exact .same rfl
  | some h =>
    obtain ⟨p, g⟩ := h
    refine .of_imp fun hp => ?_
    obtain rfl : p = entryLockPath e.store e.key lockSuffix := hp
    refine .bind spec_tryLock fun tried => ?_
    cases tried with
    | locked => exact .ret fun _ hd => ⟨rfl, hd⟩
    | unsupported => exact .of_false
    | failed => exact .ret fun _ hd => hd.1
    | wouldBlock =>
      refine .bind (.op lasts_idle_open fun _ _ _ hinv hd hdo => taking_of_locking hinv hd hdo) fun waited => ?_
      cases waited with
      | locked => exact .ret fun _ hd => ⟨rfl, hd⟩
      | unsupported => exact .of_false
      | failed | wouldBlock => exact .ret fun _ hd => hd.1

/-! ## In-use locks -/

/-- What is known of the in-use lock of an entry that was asked for. -/
def Using (t : Tid) (e : Entry) : Option Handle → Disk μ → Prop
  | some h => fun d => h.path = e.usePath ∧ Idle t d ∧ HasShared t h d
  | none => Idle t

theorem lasts_using (e : Entry) (lock : Option Handle) : Lasts A mode t (Using t e lock) := by
  rcases lock with _ | ⟨p, g⟩
  · exact lasts_idle
  · intro u d d' hu hinv hinv' hguar h
    obtain ⟨rfl, hidle, hshared⟩ := h
    exact ⟨rfl, (lasts_idle.and (lasts_hasShared _ _ _ g)) u d d' hu hinv hinv' hguar ⟨hidle, hshared⟩⟩

theorem Using.idle {e : Entry} {lock : Option Handle} (h : Using t e lock d) : Idle t d := by
  cases lock with
  | none => exact h
  | some _ => exact h.2.1

theorem spec_share (e : Entry) : Spec A mode t (fun d => Idle t d ∧ Open ⟨e.usePath, g⟩ d) (holdEntry.share ⟨e.usePath, g⟩) (Using t e) := by
  have hpre : Lasts A mode t fun d => Idle t d ∧ Open ⟨e.usePath, g⟩ d := lasts_idle_open
  refine .bind (Q := fun r => match r with
    | .locked => Using t e (some ⟨e.usePath, g⟩)
    | .wouldBlock | .unsupported | .failed => Idle t) (.op hpre ?_) fun r => ?_
  · rintro d r d' hinv hd (⟨rfl, -, hfree, rfl⟩ | ⟨-, hsupp, -⟩ | ⟨rfl, rfl⟩)
    · exact ⟨ok_lockShared hinv hfree, rfl, hd.1, hd.2, by simp [Disk.lockShared]⟩
    · cases hsupp
    · exact ⟨ok_refl hinv, hd.1⟩
  · cases r <;> exact .same rfl

theorem spec_holdEntry (e : Entry) : Spec A mode t (Idle t) (holdEntry e) (Using t e) := by
  refine .bind (Q := fun r => match r with
    | .notFound | .failed => Idle t
    | .opened g => fun d => Idle t d ∧ Open ⟨e.usePath, g⟩ d) (.look lasts_idle (fun _ _ _ h => h.1) ?_) fun r => ?_
  · rintro d r hinv hd ⟨-, ⟨rfl, hfile⟩ | ⟨rfl, -⟩ | rfl⟩
    · exact ⟨hd, hfile, rfl⟩
    · exact hd
    · exact hd
  · cases r with
    | opened g => exact spec_share e
    | notFound | failed =>
      refine .bind (spec_openEntryLock e.store e.key useSuffix) fun r => ?_
      cases r with
      | none => exact .same rfl
      | some h =>
        obtain ⟨p, g⟩ := h
        refine .of_imp fun hp => ?_
        obtain rfl : p = e.usePath := hp
        exact spec_share e

/-- What is known of an entry that was found with its in-use lock held. -/
def Holding (A : Artifacts α μ) (mode : Mode α) (t : Tid) (e : Entry) (lock : Option Handle) (d : Disk μ) : Prop :=
  Using t e lock d ∧ (mode = .tidy → lock ≠ none → Readable A d.tree e)

/-! ## Looking -/

section Look

variable (he : (entryOf A a).Proper) (hmode : ∀ b, mode = .calm b → b = a)

include he hmode

/-- A manifest is whole where entries or publishes are followed. -/
theorem Inv.base_of_bytes (hinv : Inv A mode d) (h : d.tree (entryOf A a).manifest = some (.file .bytes)) : mode = .base := by
  cases mode with
  | base => rfl
  | tidy =>
    rcases hinv.whole rfl _ he with habsent | ⟨-, m, hm, -⟩
    · exact absurd ((habsent _ (List.prefix_append _ _)).symm.trans h) (by simp)
    · exact nomatch hm.symm.trans h
  | calm b =>
    obtain rfl := hmode b rfl
    rcases hinv.once b rfl with ⟨-, hnone⟩ | ⟨-, m, -, hm, -⟩
    · exact nomatch hnone.symm.trans h
    · exact nomatch hm.symm.trans h

theorem Inv.known (hinv : Inv A mode d) (h : d.tree (entryOf A a).manifest = some (.file (.manifest m)))
    (hpolicy : A.policy m) (hfits : A.fits a m) : Known A mode a m d := by
  cases mode with
  | base => exact ⟨⟨hpolicy, hfits, fun hne => absurd rfl hne⟩, fun b hb => nomatch hb⟩
  | tidy =>
    refine ⟨⟨hpolicy, hfits, fun _ => ?_⟩, fun b hb => nomatch hb⟩
    rcases hinv.whole rfl _ he with habsent | ⟨-, m', hm, -, hhome⟩
    · exact absurd ((habsent _ (List.prefix_append _ _)).symm.trans h) (by simp)
    · cases hm.symm.trans h
      exact hhome
  | calm b =>
    obtain rfl := hmode b rfl
    rcases hinv.once b rfl with ⟨-, hnone⟩ | ⟨m₀, m', hpub, hm, -, -, hhome, hstamped⟩
    · exact nomatch hnone.symm.trans h
    cases hm.symm.trans h
    refine ⟨⟨hpolicy, hfits, fun _ => hhome⟩, fun b' hb' => ?_⟩
    cases hb'
    exact ⟨m₀, hpub, hstamped⟩

theorem Inv.missing (hinv : Inv A mode d) (h : d.tree (entryOf A a).manifest = none) : Missing A mode a d := by
  refine ⟨fun htidy => ?_, fun b hb => ?_⟩
  · rcases hinv.whole htidy _ he with habsent | ⟨-, m, hm, -⟩
    · exact habsent
    · exact nomatch hm.symm.trans h
  · obtain rfl := hmode b hb
    rcases hinv.once b hb with ⟨hpub, -⟩ | ⟨-, m, -, hm, -⟩
    · exact ⟨rfl, hpub⟩
    · exact nomatch hm.symm.trans h

/-- A look ends with what is known at the moment of the look. -/
theorem spec_find {I C : Disk μ → Prop} {F : μ → Disk μ → Prop} (hI : Lasts A mode t I)
    (hfound : ∀ d m, Inv A mode d → I d → d.tree (entryOf A a).manifest = some (.file (.manifest m)) → Known A mode a m d → F m d)
    (habsent : ∀ d, Inv A mode d → I d → d.tree (entryOf A a).manifest = none → C d) :
    Spec A mode t I (find A a) fun r => match r with
    | .found m => F m
    | .absent => C
    | .torn => fun d => mode = .base ∧ I d
    | .failed => I := by
  refine .bind (Q := fun there => match there with | true => I | false => C) (.exists hI ?_) fun there => ?_
  · intro d hinv hd
    cases h : d.tree (entryOf A a).manifest with
    | none => exact habsent d hinv hd h
    | some node => exact hd
  cases there with
  | false => exact .same rfl
  | true =>
    refine .bind (Q := fun r => match r with
      | .manifest m => fun d => I d ∧ (A.policy m ∧ A.fits a m → F m d)
      | .bytes => fun d => mode = .base ∧ I d
      | .failed => I)
      (.look hI (fun _ _ _ h => h.1) fun d r hinv hd hdo => ?_) fun r => ?_
    · rcases hdo.2 with rfl | ⟨c, hc, rfl⟩
      · exact hd
      · cases c with
        | bytes => exact ⟨hinv.base_of_bytes he hmode hc, hd⟩
        | manifest m => exact ⟨hd, fun h => hfound d m hinv hd hc (hinv.known he hmode hc h.1 h.2)⟩
    · cases r with
      | failed | bytes => exact .same rfl
      | manifest m =>
        by_cases h : (A.policy m && A.fits a m)
        · simp only [h, if_true]
          exact .ret fun _ hd => hd.2 (by simpa using h)
        · simp only [h]
          exact .ret fun _ hd => hd.1

/-! ## Stamping -/

/-- Rewriting the manifest of the artifact that it declares. -/
theorem ok_touched (hinv : Inv A mode d) (hknown : Known A mode a m d) (now : Int)
    (hdir : d.tree (Entry.mk (A.store a) (A.home m)).manifest.dropLast = some .dir) :
    Ok A mode t d
      (d.withTree (write (Entry.mk (A.store a) (A.home m)).manifest (.file (.manifest (A.stamp now m))) d.tree)) := by
  by_cases hbase : mode = .base
  · subst hbase
    exact ok_replace_base hinv _ _ _
  obtain ⟨⟨hpolicy, hfits, hhome⟩, hgot⟩ := hknown
  have hentry : Entry.mk (A.store a) (A.home m) = entryOf A a := by rw [hhome hbase, entryOf]
  rw [hentry] at hdir ⊢
  rw [Entry.manifest, List.dropLast_concat] at hdir
  refine ok_replace hinv he ((A.policy_stamp now m).trans hpolicy) ?_ hdir fun b hb => ?_
  · exact (A.home_stamp now m).trans (hhome hbase)
  · obtain rfl := hmode b hb
    exact ⟨rfl, (A.fits_stamp b now m).trans hfits, hgot.stamp now b hb⟩

theorem spec_touched (m : μ) :
    Spec A mode t (fun d => Idle t d ∧ Known A mode a m d) (touched A a m) fun r d => Idle t d ∧ Got A mode r d := by
  have hpre : Lasts A mode t fun d => Idle t d ∧ Known A mode a m d := lasts_idle.and lasts_known
  refine .bind (.still hpre fun _ _ _ h => h) fun now => ?_
  refine .bind (.op hpre ?_) fun _ => .same rfl
  rintro d r d' hinv ⟨hidle, hknown⟩ (⟨hdir, -, rfl⟩ | rfl)
  · exact ⟨ok_touched he hmode hinv hknown now hdir, hidle, hknown.2.stamp now⟩
  · exact ⟨ok_refl hinv, hidle, hknown.2.stamp now⟩

/-! ## Ensuring -/

omit hmode in
theorem spec_ensureLocked_fetch (fuel : Nat) :
    Spec A mode t (fun d => Idle t d ∧ Has t ⟨(entryOf A a).lockPath, g⟩ d ∧ Missing A mode a d) (ensureLocked.fetch A fuel a)
      fun r d => Idle t d ∧ ∀ m, r = some m → Got A mode m d := by
  have hpre : Lasts A mode t fun d => Idle t d ∧ Has t ⟨(entryOf A a).lockPath, g⟩ d ∧ Missing A mode a d :=
    lasts_idle.and (lasts_missing he g)
  refine .bind (Q := fun _ => InFetch A mode t a g none) (.op hpre ?_) fun _ => ?_
  · rintro d r d' hinv ⟨hidle, hhas, hmissing⟩ rfl
    have hok : Ok A mode t d (d.noted t (.fetching (entryOf A a))) := ok_note hinv hhas.holds
    exact ⟨hok, ⟨hidle.1, update_self _ _ _, hidle.2.2⟩, hhas, hmissing⟩
  refine .bind (spec_fetchAndPublish he fuel) fun fetched => ?_
  refine .bind (Spec.frame (.op (lasts_atEntry _) ?_) fun _ _ _ => Guar.keeps_got_of fetched) fun _ => .same rfl
  rintro d r d' hinv hat rfl
  exact ⟨ok_note hinv trivial, hat.1.1, update_self _ _ _, hat.1.2.2⟩

omit hmode in
/-- A torn entry can be deleted, since none are followed where there are any. -/
theorem spec_removeEntryDir (hbase : mode = .base) (fuel : Nat) :
    Spec A mode t (fun d => Idle t d ∧ Has t ⟨(entryOf A a).lockPath, g⟩ d) (removeEntryDir A fuel a)
      fun _ d => Idle t d ∧ Has t ⟨(entryOf A a).lockPath, g⟩ d ∧ Missing A mode a d := by
  have hpre : Lasts A mode t fun d => Idle t d ∧ Has t ⟨(entryOf A a).lockPath, g⟩ d := lasts_idle.and (lasts_has _ _ _ g)
  have hmissing : ∀ d : Disk μ, Missing A mode a d := fun d => ⟨fun h => by simp [hbase] at h, fun b h => by simp [hbase] at h⟩
  refine .bind (.still hpre fun _ _ _ h => h.1) fun there => ?_
  cases there with
  | false => exact .ret fun d hd => ⟨hd.1, hd.2, hmissing d⟩
  | true =>
    refine (Spec.removePath hpre (fun d keep hinv hd => ?_) fuel).post fun _ d hd => ⟨hd.1, hd.2, hmissing d⟩
    have hok : Ok A mode t d (d.withTree (remove keep (entryOf A a).dir d.tree)) :=
      ok_remove_entry hinv he (fun h => by simp [hbase] at h) (fun b h => by simp [hbase] at h) keep
    exact ⟨hok, hd.1, hok.2.keeps_open hd.2.1, hd.2.2⟩

theorem spec_ensureLocked (fuel : Nat) :
    Spec A mode t (fun d => Idle t d ∧ Has t ⟨(entryOf A a).lockPath, g⟩ d) (ensureLocked A fuel a)
      fun r d => Idle t d ∧ ∀ m, r = some m → Got A mode m d := by
  have hpre : Lasts A mode t fun d => Idle t d ∧ Has t ⟨(entryOf A a).lockPath, g⟩ d := lasts_idle.and (lasts_has _ _ _ g)
  refine .bind (spec_find he hmode hpre (F := fun m d => Idle t d ∧ Known A mode a m d)
    (C := fun d => Idle t d ∧ Has t ⟨(entryOf A a).lockPath, g⟩ d ∧ Missing A mode a d) (fun d m _ hd _ hknown => ⟨hd.1, hknown⟩)
    fun d hinv hd hnone => ⟨hd.1, hd.2, hinv.missing he hmode hnone⟩) fun r => ?_
  cases r with
  | failed => exact .ret fun _ hd => ⟨hd.1, nofun⟩
  | found m =>
    refine .bind (spec_touched he hmode m) fun m' => ?_
    refine .ret fun d hd => ⟨hd.1, fun m'' hm => ?_⟩
    cases hm
    exact hd.2
  | absent => exact spec_ensureLocked_fetch he fuel
  | torn =>
    refine .of_imp fun hbase => ?_
    refine .bind (spec_removeEntryDir he hbase fuel) fun removed => ?_
    cases removed with
    | true => exact spec_ensureLocked_fetch he fuel
    | false => exact .ret fun _ hd => ⟨hd.1, nofun⟩

theorem spec_ensure (fuel : Nat) :
    Spec A mode t (Idle t) (ensure A fuel a) fun r d => Idle t d ∧ ∀ m, r = some m → Got A mode m d := by
  refine .bind (spec_find he hmode lasts_idle (F := fun m d => Idle t d ∧ Known A mode a m d)
    (fun d m _ hd _ hknown => ⟨hd, hknown⟩) fun d _ hd _ => hd) fun r => ?_
  cases r with
  | failed => exact .ret fun _ hd => ⟨hd, fun _ h => by cases h⟩
  | found m =>
    refine .bind (spec_touched he hmode m) fun m' => ?_
    refine .ret fun d hd => ⟨hd.1, fun m'' hm => ?_⟩
    cases hm
    exact hd.2
  | torn | absent =>
    refine .bind ((spec_lockEntry (entryOf A a)).pre fun d hd => by first | exact hd | exact hd.2) fun r => ?_
    cases r with
    | none => exact .ret fun _ hd => ⟨hd, fun _ h => by cases h⟩
    | some lock =>
      obtain ⟨p, g⟩ := lock
      refine .of_imp fun hp => ?_
      obtain rfl : p = (entryOf A a).lockPath := hp
      refine .bind (spec_ensureLocked he hmode fuel) fun got => ?_
      exact .bind ((spec_unlock_idle _).frame fun _ _ _ => Guar.keeps_got_of got) fun _ => .same rfl

/-- A process that ensures the artifact keeps to the protocol. -/
theorem spec_ensureOnce (fuel : Nat) : Spec A mode t (Idle t) (ensureOnce A fuel a) fun _ _ => True := by
  refine .bind (spec_ensure he hmode fuel) fun r => ?_
  cases r with
  | none => exact .ret fun _ _ => trivial
  | some m =>
    refine .op (lasts_idle.and fun _ _ _ _ _ _ => Guar.keeps_got_of _) ?_
    rintro d r d' hinv ⟨-, hgot⟩ rfl
    exact ⟨ok_note hinv (hgot m rfl), trivial⟩

/-! ## Resolving -/

omit hmode in
theorem lasts_holding (lock : Option Handle) : Lasts A mode t (Holding A mode t (entryOf A a) lock) := by
  intro u d d' hu hinv hinv' hguar h
  refine ⟨lasts_using _ lock u d d' hu hinv hinv' hguar h.1, fun htidy hlock => ?_⟩
  rcases lock with _ | ⟨p, g⟩
  · exact absurd rfl hlock
  · obtain ⟨rfl, -, hshared⟩ := h.1
    exact (lasts_readable he g u d d' hu hinv hinv' hguar ⟨hshared, fun _ => h.2 htidy hlock⟩).2 htidy

/-- The lock, then the look: what is found stays while the lock is held. -/
theorem spec_hold : Spec A mode t (Idle t) (hold A a) fun r => match r with
    | some (some lock) => Holding A mode t (entryOf A a) lock
    | some none | none => Idle t := by
  refine .bind (spec_holdEntry (entryOf A a)) fun lock => ?_
  refine .bind (spec_find he hmode (lasts_using _ lock) (F := fun _ => Holding A mode t (entryOf A a) lock)
    (fun d m hinv hd hm _ => ⟨hd, fun htidy _ => ?_⟩) fun d _ hd _ => hd) fun r => ?_
  · rcases hinv.whole htidy _ he with habsent | hreadable
    · exact absurd ((habsent _ (List.prefix_append _ _)).symm.trans hm) (by simp)
    · exact hreadable
  have hrelease : Spec A mode t (Using t (entryOf A a) lock) (release lock) fun _ => Idle t :=
    (spec_release lock).pre fun _ hd => hd.idle
  cases r with
  | found m => exact .same rfl
  | absent | failed => exact .bind hrelease fun _ => .same rfl
  | torn => exact .bind (hrelease.pre fun _ hd => hd.2) fun _ => .same rfl

theorem spec_resolveLoop (fuel rounds : Nat) : Spec A mode t (Idle t) (resolveLoop A fuel a rounds) fun r => match r with
    | some (_, lock) => Holding A mode t (entryOf A a) lock
    | none => Idle t := by
  induction rounds with
  | zero => exact .same rfl
  | succ rounds ih =>
    refine .bind (spec_ensure he hmode fuel) fun r => ?_
    cases r with
    | none => exact .ret fun _ hd => hd.1
    | some m =>
      refine .bind ((spec_hold he hmode).pre fun _ hd => hd.1) fun held => ?_
      rcases held with _ | _ | lock
      · exact .same rfl
      · exact ih
      · exact .same rfl

/-- A run that resolves the artifact keeps to the protocol. -/
theorem spec_resolve (fuel : Nat) : Spec A mode t (Idle t) (resolve A fuel a) fun _ _ => True := by
  -- while the entry is in use, only the note of it stands
  have hfree : Lasts A mode t fun d => d.given t = none ∧ d.fetching t = none := fun u d d' hu _ _ hguar h =>
    ⟨(hguar.given t hu.symm).trans h.1, (hguar.fetching t hu.symm).trans h.2⟩
  refine .bind (spec_resolveLoop he hmode fuel fuel) fun r => ?_
  rcases r with _ | ⟨m, _ | lock⟩
  · exact .ret fun _ _ => trivial
  · exact .ret fun _ _ => trivial
  refine .bind (Q := fun _ d => d.given t = none ∧ d.fetching t = none) (.op (lasts_holding he _) ?_) fun _ => ?_
  · rintro d r d' hinv ⟨⟨hpath, hidle, hshared⟩, hreadable⟩ rfl
    obtain ⟨p, g⟩ := lock
    obtain rfl : p = (entryOf A a).usePath := hpath
    have hgen : d.gen (entryOf A a).usePath = g := hshared.1.2
    refine ⟨ok_note hinv fun htidy => ⟨he, by rw [hgen], hshared.shares, hreadable htidy (by simp)⟩, hidle.1, hidle.2.1⟩
  refine .bind (Q := fun _ => Idle t) (.op hfree ?_) fun _ => ?_
  · rintro d r d' hinv hd rfl
    exact ⟨ok_note hinv trivial, hd.1, hd.2, update_self _ _ _⟩
  · exact (spec_unlock_idle lock).post fun _ _ _ => trivial

end Look

end Pipette.Shared
