import Pipette.Lemmas.SharedKnown

/-!
# A fetch keeps to the protocol

A fetch runs under the lock of its entry, which is missing (`InFetch`). It fills a staged directory of its own (`Staging`) and
renames it into place; up to the rename nothing of the entry changes.
-/

namespace Pipette.Shared

open Files Threads List Function Disk

variable {α μ : Type} {A : Artifacts α μ} {mode : Mode α} {t : Tid} {d d' : Disk μ} {a : α} {g : Nat} {given : Option Staged} {st : Staged}

/-- A fetch of the artifact under the lock of its entry, of which nothing is there. -/
def InFetch (A : Artifacts α μ) (mode : Mode α) (t : Tid) (a : α) (g : Nat) (given : Option Staged) (d : Disk μ) : Prop :=
  Notes t given (some (entryOf A a)) d ∧ Has t ⟨(entryOf A a).lockPath, g⟩ d ∧ Missing A mode a d

/-- A fetch of the entry under its lock, whatever is there. -/
def AtEntry (t : Tid) (e : Entry) (g : Nat) (given : Option Staged) (d : Disk μ) : Prop :=
  Notes t given (some e) d ∧ Has t ⟨e.lockPath, g⟩ d

/-- A fetch that holds a staged directory. -/
def Staging (A : Artifacts α μ) (mode : Mode α) (t : Tid) (a : α) (g : Nat) (given : Option Staged) (st : Staged) (d : Disk μ) : Prop :=
  InFetch A mode t a g given d ∧ Held t st d

/-- What a try at a staged directory ends with. -/
def Tried (A : Artifacts α μ) (mode : Mode α) (t : Tid) (a : α) (g : Nat) : Option (Option Staged) → Disk μ → Prop
  | some (some st) => Staging A mode t a g none st
  | some none | none => InFetch A mode t a g none

/-- The staged directory holds a whole entry with the manifest. -/
def Ready (st : Staged) (m : μ) (tr : Tree Text (Data μ)) : Prop :=
  tr st.dir = some .dir ∧ tr (st.dir ++ [manifestName]) = some (.file (.manifest m))

/-- The manifest is one of the artifact's. -/
def Valid (A : Artifacts α μ) (a : α) (m : μ) : Prop := A.policy m ∧ A.fits a m ∧ A.home m = A.key a

/-- A fetch that holds a staged directory ready to be published. -/
def StagedReady (A : Artifacts α μ) (mode : Mode α) (t : Tid) (a : α) (g : Nat) (st : Staged) (m : μ) (d : Disk μ) : Prop :=
  InFetch A mode t a g (some st) d ∧ Held t st d ∧ Ready st m d.tree

/-- What a rename into place ends with: the artifact is published, or all is as before. -/
def Renamed (A : Artifacts α μ) (mode : Mode α) (t : Tid) (a : α) (g : Nat) (st : Staged) (m : μ) : Bool → Disk μ → Prop
  | true => fun d => AtEntry t (entryOf A a) g (some st) d ∧ Own t st d ∧ Got A mode m d
  | false => StagedReady A mode t a g st m

variable {p : StorePath} {tr : Tree Text (Data μ)} {m : μ} {q r : StorePath} {k : StoreKind}

theorem Entry.Proper.off_staging {e : Entry} (he : e.Proper) (hp : e.dir <+: p) (k : StoreKind) :
    ¬staging k <+: p ∧ ¬p <+: staging k :=
  ⟨he.not_staging hp, fun h => he.not_staging (hp.trans h) prefix_rfl⟩

theorem InFetch.step {given' : Option Staged} (h : InFetch A mode t a g given d) (hguar : Guar A mode t d d')
    (hnotes : Notes t given' (some (entryOf A a)) d') (hexcl : d'.excl ⟨(entryOf A a).lockPath, g⟩ = some t)
    (hpub : d'.published = d.published) (htree : mode = .tidy → ∀ p, (entryOf A a).dir <+: p → d'.tree p = d.tree p) :
    InFetch A mode t a g given' d' := by
  refine ⟨hnotes, ⟨hguar.keeps_open h.2.1.1, hexcl⟩, fun htidy p hp => ?_, fun b hb => ?_⟩
  · exact (htree htidy p hp).trans (h.2.2.1 htidy p hp)
  · exact ⟨(h.2.2.2 b hb).1, hpub.trans (h.2.2.2 b hb).2⟩

theorem InFetch.files (h : InFetch A mode t a g given d) (hguar : Guar A mode t d (d.withTree tr))
    (htree : mode = .tidy → ∀ p, (entryOf A a).dir <+: p → tr p = d.tree p) : InFetch A mode t a g given (d.withTree tr) :=
  h.step hguar h.1 h.2.1.2 rfl htree

theorem Held.files (h : Held t st d) (hlock : tr st.lockPath = d.tree st.lockPath) : Held t st (d.withTree tr) := by
  have hfile : fileAt tr st.lockPath := (fileAt_congr hlock).trans h.2
  exact ⟨⟨⟨h.1.1.name, h.1.1.seen, h.1.1.gen, .inl hfile⟩, h.1.2⟩, hfile⟩

theorem StagedReady.files (h : StagedReady A mode t a g st m d)
    (hfetch : InFetch A mode t a g (some st) (d.withTree tr)) (hsame : ∀ p, InStaged st.store st.name p → tr p = d.tree p) :
    StagedReady A mode t a g st m (d.withTree tr) := by
  refine ⟨hfetch, h.2.1.files (hsame _ (.inr prefix_rfl)), ?_, ?_⟩
  · exact (hsame _ (.inl prefix_rfl)).trans h.2.2.1
  · exact (hsame _ (.inl (prefix_append _ _))).trans h.2.2.2

theorem lasts_atEntry (e : Entry) : Lasts A mode t (AtEntry t e g given) := (lasts_notes _ _).and (lasts_has _ _ _ g)

theorem entryLock_ne_stagedLock (k k' : StoreKind) (key suffix name : Text) : entryLockPath k key suffix ≠ stagedLockPath k' name := by
  intro heq
  have hlocks : locks k <+: stagedLockPath k' name := heq ▸ prefix_append _ _
  exact not_locks_of_staging (prefix_append _ _) hlocks

theorem entryLock_ne_lock : (⟨(entryOf A a).lockPath, g⟩ : Handle) ≠ st.lock :=
  fun heq => entryLock_ne_stagedLock _ _ _ _ _ (congrArg Handle.path heq)

theorem mkdirAll_inDir (hq : q <+: st.dir ++ r) (tr : Tree Text (Data μ)) : Within (InDir st) tr (mkdirAll q tr) := by
  refine (mkdirAll_within q tr).mono fun p hp => ?_
  rcases prefix_or_prefix_of_prefix (hp.trans hq) (prefix_append st.dir r) with h | h
  · rcases prefix_concat_iff.1 h with heq | h
    · exact .inl (by rw [heq]; exact prefix_rfl)
    · exact .inr h
  · exact .inl h

/-- Removing its lock file and dropping the lock, when no note speaks of it. -/
theorem spec_dropStaged {I : Disk μ → Prop} (hI : Lasts A mode t I) (hnotes : ∀ d, I d → d.given t = none ∧ d.inUse t = none)
    (hremove : ∀ d keep, Guar A mode t d (d.withTree (remove keep st.lockPath d.tree)) → I d →
      I (d.withTree (remove keep st.lockPath d.tree)))
    (hunlock : ∀ d, Guar A mode t d (d.unlock t st.lock) → I d → I (d.unlock t st.lock)) :
    Spec A mode t (fun d => I d ∧ Own t st d) (dropStaged st) fun _ => I := by
  refine .bind (.op (hI.and (lasts_own st)) ?_) fun _ => .op hI ?_
  · rintro d r d' hinv ⟨hd, hown⟩ ⟨keep, rfl, -⟩
    have hok : Ok A mode t d (d.withTree (remove keep (stagedPath st.store (st.name ++ lockSuffix)) d.tree)) := by
      refine ok_remove_staged hinv (fun _ u hu => ?_) (fun st' hst => ?_) keep
      · rw [stagedBase_lock] at hu
        exact hown.only hu
      · rw [(hnotes d hd).1] at hst
        cases hst
    exact ⟨hok, hremove d keep hok.2 hd⟩
  · rintro d r d' hinv hd rfl
    have hok : Ok A mode t d (d.unlock t st.lock) :=
      ok_unlock hinv (hnotes d hd).1 (fun e _ => entryLock_ne_stagedLock _ _ _ _ _) (hnotes d hd).2
    exact ⟨hok, hunlock d hok.2 hd⟩

theorem InFetch.unlock (h : InFetch A mode t a g given d) (hguar : Guar A mode t d (d.unlock t st.lock)) :
    InFetch A mode t a g given (d.unlock t st.lock) := by
  refine h.step hguar h.1 ?_ rfl fun _ _ _ => rfl
  simp only [Disk.unlock, entryLock_ne_lock, false_and, if_false]
  exact h.2.1.2

theorem spec_note_dropped : Spec A mode t (fun d => AtEntry t (entryOf A a) g (some st) d ∧ Own t st d) (call (.note .dropped))
    fun _ d => AtEntry t (entryOf A a) g none d ∧ Own t st d := by
  refine .op ((lasts_atEntry _).and (lasts_own st)) ?_
  rintro d r d' hinv ⟨hat, hown⟩ rfl
  have hok : Ok A mode t d (d.noted t .dropped) := ok_note hinv trivial
  exact ⟨hok, ⟨⟨update_self _ _ _, hat.1.2⟩, hat.2⟩, hok.2.keeps_fresh hown.1, hown.2⟩

theorem spec_dropStaged_atEntry : Spec A mode t (fun d => AtEntry t (entryOf A a) g none d ∧ Own t st d) (dropStaged st)
    fun _ => AtEntry t (entryOf A a) g none := by
  refine spec_dropStaged (lasts_atEntry _) (fun _ hd => ⟨hd.1.1, hd.1.2.2⟩) ?_ ?_
  · exact fun d keep hguar hd => ⟨hd.1, hguar.keeps_open hd.2.1, hd.2.2⟩
  · intro d hguar hd
    refine ⟨hd.1, hguar.keeps_open hd.2.1, ?_⟩
    simp only [unlock, entryLock_ne_lock, false_and, if_false]
    exact hd.2.2

section Fetch

variable (he : (entryOf A a).Proper)

include he

theorem lasts_inFetch : Lasts A mode t (InFetch A mode t a g given) := (lasts_notes _ _).and (lasts_missing he g)

theorem lasts_staging : Lasts A mode t (Staging A mode t a g given st) := by
  have hheld : Lasts A mode t fun d => Held t st d ∧ True := lasts_held (C := fun _ => True) fun _ _ _ h => h
  exact (lasts_inFetch he).and fun u d d' hu hinv hinv' hguar h => (hheld u d d' hu hinv hinv' hguar ⟨h, trivial⟩).1

theorem Staging.inDir (h : Staging A mode t a g given st d) (hinv : Inv A mode d)
    (hw : Within (InDir st) d.tree tr) : Ok A mode t d (d.withTree tr) ∧ Staging A mode t a g given st (d.withTree tr) := by
  have hok : Ok A mode t d (d.withTree tr) := ok_inDir hinv h.2.1.1.name h.2.1.1.seen (fun u => h.2.1.only) hw
  refine ⟨hok, h.1.files hok.2 fun _ p hp => hw p ?_, h.2.files (hw _ (not_inDir_lock h.2.1.1.name _ _))⟩
  rintro (hst | hst)
  · exact (he.off_staging hp st.store).1 ((prefix_append _ _).trans hst)
  · exact (he.off_staging hp st.store).2 hst

theorem spec_mkdirs_inDir (hp : p <+: st.dir ++ r) :
    Spec A mode t (Staging A mode t a g given st) (call (.mkdirs p)) fun _ => Staging A mode t a g given st := by
  refine .op (lasts_staging he) ?_
  rintro d r' d' hinv hd ⟨q, hq, -, rfl, -⟩
  exact hd.inDir he hinv (mkdirAll_inDir (hq.trans hp) _)

/-! ## Making the staged directory -/

theorem InFetch.removeLock (h : InFetch A mode t a g given d) (keep : StorePath → Bool)
    (hguar : Guar A mode t d (d.withTree (remove keep st.lockPath d.tree))) :
    InFetch A mode t a g given (d.withTree (remove keep st.lockPath d.tree)) :=
  h.files hguar fun _ _ hp => remove_within _ _ _ _ fun hlock =>
    (he.off_staging hp st.store).1 ((prefix_append _ _).trans hlock)

theorem spec_dropStaged_inFetch :
    Spec A mode t (fun d => InFetch A mode t a g none d ∧ Own t st d) (dropStaged st) fun _ => InFetch A mode t a g none :=
  spec_dropStaged (lasts_inFetch he) (fun _ hd => ⟨hd.1.1, hd.1.2.2⟩) (fun _ keep hguar hd => hd.removeLock he keep hguar)
    fun _ hguar hd => hd.unlock hguar

/-- Locking the lock file makes it the thread's own. -/
theorem spec_lock_fresh : Spec A mode t (fun d => InFetch A mode t a g none d ∧ Fresh st d) (call (.lock st.lock)) fun r => match r with
    | .locked => fun d => InFetch A mode t a g none d ∧ Own t st d
    | .unsupported => fun _ => False
    | .failed | .wouldBlock => InFetch A mode t a g none := by
  refine .op ((lasts_inFetch he).and (lasts_fresh st)) fun d r d' hinv hd hdo => ?_
  rcases hdo with ⟨rfl, -, hfree, rfl⟩ | ⟨-, hsupp, -⟩ | ⟨rfl, rfl⟩
  · have hok : Ok A mode t d (d.lockExcl t st.lock) := ok_lockExcl hinv hfree
    refine ⟨hok, hd.1.step hok.2 hd.1.1 ?_ rfl fun _ _ _ => rfl, ⟨hd.2.name, hd.2.seen, hd.2.gen, hd.2.file⟩, ?_⟩
    · exact (update_of_ne entryLock_ne_lock _ _).trans hd.1.2.1.2
    · exact update_self _ _ _
  · cases hsupp
  · exact ⟨ok_refl hinv, hd.1⟩

/-- A lock file of the thread's own that is still there is held. -/
theorem spec_exists_own :
    Spec A mode t (fun d => InFetch A mode t a g none d ∧ Own t st d) (call (.exists st.lockPath)) fun r => match r with
    | true => Staging A mode t a g none st
    | false => fun d => InFetch A mode t a g none d ∧ Own t st d := by
  refine .exists ((lasts_inFetch he).and (lasts_own st)) fun d _ hd => ?_
  -- the file that was made is at its path or gone, so what is there is the file
  rcases hd.2.1.file with hfile | hnone
  · rw [Option.isSome_iff_ne_none.2 (ne_none_of_fileAt hfile)]
    exact ⟨hd.1, hd.2, hfile⟩
  · rw [hnone]
    exact hd

theorem spec_unlock_staged :
    Spec A mode t (InFetch A mode t a g none) (call (.unlock st.lock)) fun _ => InFetch A mode t a g none := by
  refine .op (lasts_inFetch he) ?_
  rintro d r d' hinv hd rfl
  have hok : Ok A mode t d (d.unlock t st.lock) :=
    ok_unlock hinv hd.1.1 (fun e _ => entryLock_ne_stagedLock _ _ _ _ _) hd.1.2.2
  exact ⟨hok, hd.unlock hok.2⟩

theorem spec_lockStaged :
    Spec A mode t (fun d => InFetch A mode t a g none d ∧ Fresh st d) (lockStaged st) (Tried A mode t a g) := by
  refine .bind (spec_lock_fresh he) fun r => ?_
  cases r with
  | locked =>
    refine .bind (spec_exists_own he) fun there => ?_
    cases there with
    | true =>
      refine .bind (spec_mkdirs_inDir he (r := []) (by simp)) fun made => ?_
      cases made with
      | true => exact .same rfl
      | false =>
        refine .bind ((spec_dropStaged_inFetch he).pre fun d hd => ⟨hd.1, hd.2.1⟩) fun _ => ?_
        exact .same rfl
    | false =>
      refine .bind ((spec_unlock_staged he).pre fun d hd => hd.1) fun _ => ?_
      exact .same rfl
  | unsupported => exact .of_false
  | failed | wouldBlock => exact .same rfl

/-- A fresh staged name, and a lock file for it. -/
theorem spec_createStagingLock (k : StoreKind) (key : Text) :
    Spec A mode t (InFetch A mode t a g none) (call (.createStagingLock k key)) fun r => match r with
    | some st => fun d => InFetch A mode t a g none d ∧ Fresh st d
    | none => InFetch A mode t a g none := by
  refine .op (lasts_inFetch he) fun d r d' hinv hd hdo => ?_
  rcases hdo with ⟨x, hx, hunseen, hnone, -, rfl, rfl⟩ | ⟨rfl, rfl⟩
  · have hok : Ok A mode t d ((d.create (stagedLockPath k (stagedName key x))).use k (stagedName key x)) :=
      ok_create_staged hinv hunseen hnone
    refine ⟨hok, hd.step hok.2 hd.1 hd.2.1.2 rfl fun _ p hp => (create_apply ?_).1, ⟨key, x, hx, rfl⟩, ?_, ?_, .inl ?_⟩
    · rintro rfl
      exact (he.off_staging hp k).1 (prefix_append _ _)
    · simp [use]
    · exact update_self _ _ _
    · simp [use, create, Staged.lockPath, fileAt, write, Node.isFile]
  · exact ⟨ok_refl hinv, hd⟩

theorem spec_createStaged (k : StoreKind) (key : Text) :
    Spec A mode t (InFetch A mode t a g none) (createStaged k key) (Tried A mode t a g) := by
  refine .bind (spec_createStagingLock he k key) fun r => ?_
  cases r with
  | none => exact .same rfl
  | some st => exact spec_lockStaged he

theorem spec_createStagedDirLoop (k : StoreKind) (key : Text) (attempts : Nat) :
    Spec A mode t (InFetch A mode t a g none) (createStagedDirLoop k key attempts) fun r => Tried A mode t a g (some r) := by
  induction attempts with
  | zero => exact .same rfl
  | succ attempts ih =>
    refine .bind (spec_createStaged he k key) fun r => ?_
    rcases r with _ | _ | st
    · exact .same rfl
    · exact ih
    · exact .same rfl

theorem InFetch.mkdirs (h : InFetch A mode t a g given d) (hinv : Inv A mode d) (hq : q <+: staging k) :
    Ok A mode t d (d.withTree (mkdirAll q d.tree)) ∧ InFetch A mode t a g given (d.withTree (mkdirAll q d.tree)) := by
  have hok : Ok A mode t d (d.withTree (mkdirAll q d.tree)) := ok_mkdirs hinv (.inl rfl) hq
  exact ⟨hok, h.files hok.2 fun _ p hp => mkdirAll_within _ _ _ fun h => (he.off_staging hp k).2 (h.trans hq)⟩

theorem spec_createStagedDir (k : StoreKind) (key : Text) :
    Spec A mode t (InFetch A mode t a g none) (createStagedDir k key) fun r => Tried A mode t a g (some r) := by
  refine .bind (Q := fun _ => InFetch A mode t a g none) (.op (lasts_inFetch he) ?_) fun made => ?_
  · rintro d r d' hinv hd ⟨q, hq, -, rfl, -⟩
    exact hd.mkdirs he hinv hq
  · cases made with
    | true => exact spec_createStagedDirLoop he k key _
    | false => exact .same rfl

/-! ## Filling it -/

theorem lasts_stagedReady : Lasts A mode t (StagedReady A mode t a g st m) := by
  refine (lasts_inFetch he).and (lasts_held fun tr tr' hsame h => ?_)
  exact ⟨(hsame _ prefix_rfl).trans h.1, (hsame _ (prefix_append _ _)).trans h.2⟩

theorem spec_note_given :
    Spec A mode t (Staging A mode t a g none st) (call (.note (.given st))) fun _ => Staging A mode t a g (some st) st := by
  refine .op (lasts_staging he) ?_
  rintro d r d' hinv hd rfl
  have hok : Ok A mode t d (d.noted t (.given st)) := ok_note hinv ⟨hd.2.1.1.name, hd.2.1.1.gen, hd.2.holds⟩
  exact ⟨hok, hd.1.step hok.2 ⟨update_self _ _ _, hd.1.1.2⟩ hd.1.2.1.2 rfl fun _ _ _ => rfl,
    ⟨hok.2.keeps_fresh hd.2.1.1, hd.2.1.2⟩, hd.2.2⟩

/-- Writing the manifest makes the staged directory ready. -/
theorem spec_write_manifest (m : μ) : Spec A mode t (Staging A mode t a g (some st) st) (call (.write (st.dir ++ [manifestName]) m))
    fun r => match r with
    | true => StagedReady A mode t a g st m
    | false => Staging A mode t a g (some st) st := by
  refine .op (lasts_staging he) fun d r d' hinv hd hdo => ?_
  have hwrite : ∀ node, Within (InDir st) d.tree (write (st.dir ++ [manifestName]) node d.tree) := fun node =>
    (write_within _ node d.tree).mono fun p hp => .inl (by rw [hp]; exact prefix_append _ _)
  rcases hdo with ⟨hparent, -, rfl | ⟨rfl, rfl⟩⟩ | ⟨rfl, rfl⟩
  · obtain ⟨hok, hstaging⟩ := hd.inDir he hinv (hwrite (.file (.manifest m)))
    refine ⟨hok, ?_⟩
    cases r with
    | true =>
      refine ⟨hstaging.1, hstaging.2, ?_, by simp [withTree, write]⟩
      rw [dropLast_concat] at hparent
      exact (write_within _ _ _ _ (by simp)).trans hparent
    | false => exact hstaging
  · exact hd.inDir he hinv (hwrite (.file .bytes))
  · exact ⟨ok_refl hinv, hd⟩

theorem spec_prepare (hbinds : A.binds a) (now : Int) : Spec A mode t (Staging A mode t a g (some st) st) (prepare A a now st) fun r => match r with
    | some m => fun d => StagedReady A mode t a g st m d ∧ Valid A a m
    | none => Staging A mode t a g (some st) st := by
  have hstaging : Lasts A mode t (Staging A mode t a g (some st) st) := lasts_staging he
  refine .bind (spec_mkdirs_inDir he prefix_rfl) fun made => ?_
  cases made with
  | false => exact .same rfl
  | true =>
    refine .bind (Q := fun _ => Staging A mode t a g (some st) st) (.op hstaging ?_) fun filled => ?_
    · rintro d r d' hinv hd (⟨-, tr, hw, rfl⟩ | ⟨-, rfl⟩)
      · exact hd.inDir he hinv (hw.mono fun p hp => .inl ((prefix_append _ _).trans hp.1))
      · exact ⟨ok_refl hinv, hd⟩
    cases filled with
    | false => exact .same rfl
    | true =>
      refine .bind (.still hstaging fun _ _ _ h => h) fun bytes => ?_
      refine .bind (.still hstaging fun _ _ _ h => h.1) fun there => ?_
      cases there with
      | true => exact .same rfl
      | false =>
        refine .bind (spec_write_manifest he _) fun written => ?_
        cases written with
        | true =>
          exact .ret fun _ hd =>
            ⟨hd, A.policy_make a now bytes hbinds, A.fits_make a now bytes, A.home_make a now bytes⟩
        | false => exact .same rfl

/-! ## Renaming it into place -/

/-- Removing what is at the entry, which is none of what is followed. -/
theorem StagedReady.removeEntry (h : StagedReady A mode t a g st m d) (hinv : Inv A mode d) (keep : StorePath → Bool) :
    Ok A mode t d (d.withTree (remove keep (entryOf A a).dir d.tree)) ∧
      StagedReady A mode t a g st m (d.withTree (remove keep (entryOf A a).dir d.tree)) := by
  have hmissing := h.1.2.2
  have hok : Ok A mode t d (d.withTree (remove keep (entryOf A a).dir d.tree)) :=
    ok_remove_entry hinv he hmissing.1 (fun b hb => (hmissing.2 b hb).2) keep
  refine ⟨hok, h.files (h.1.files hok.2 fun htidy p hp => ?_) fun p hin => remove_within _ _ _ _ fun hp => ?_⟩
  · rw [remove_eq_none (hmissing.1 htidy p hp), hmissing.1 htidy p hp]
  · exact (he.off_staging hp st.store).1 hin.below

theorem StagedReady.mkdirs (h : StagedReady A mode t a g st m d) (hinv : Inv A mode d)
    (hq : q <+: staging k) : Ok A mode t d (d.withTree (mkdirAll q d.tree)) ∧
      StagedReady A mode t a g st m (d.withTree (mkdirAll q d.tree)) := by
  obtain ⟨hok, hfetch⟩ := h.1.mkdirs he hinv hq
  refine ⟨hok, h.files hfetch fun p hin => mkdirAll_within _ _ _ fun hp => ?_⟩
  obtain ⟨hout, -⟩ := outside_of_child (.inl rfl) (hp.trans hq)
  exact hin.child.elim (hout _)

/-- The rename publishes the staged directory. -/
theorem spec_rename (hvalid : Valid A a m) :
    Spec A mode t (StagedReady A mode t a g st m) (call (.rename st.dir (entryOf A a).dir)) (Renamed A mode t a g st m) := by
  refine .op (lasts_stagedReady he) fun d r d' hinv hd hdo => ?_
  obtain ⟨hfetch, hheld, hdir, hm⟩ := hd
  rcases hdo with ⟨rfl, -, -, -, -, rfl⟩ | ⟨rfl, rfl⟩
  · have hok : Ok A mode t d (d.renamed st.dir (entryOf A a).dir) :=
      ok_publish hinv he hheld.1.1.name (fun u => hheld.1.only) hfetch.2.1.holds hfetch.2.2.1 hfetch.2.2.2 hdir hm hvalid.1 hvalid.2.1
        hvalid.2.2
    refine ⟨hok, ⟨hfetch.1, hok.2.keeps_open hfetch.2.1.1, hfetch.2.1.2⟩, ⟨hok.2.keeps_fresh hheld.1.1, hheld.1.2⟩, fun b hb => ?_⟩
    obtain ⟨rfl, hpub⟩ := hfetch.2.2.2 b hb
    exact ⟨m, by simp [renamed, hm, hpub], .refl⟩
  · exact ⟨ok_refl hinv, hfetch, hheld, hdir, hm⟩

theorem spec_replaceStagedPath (hvalid : Valid A a m) (fuel : Nat) :
    Spec A mode t (StagedReady A mode t a g st m) (replaceStagedPath fuel st.dir (entryOf A a).dir) (Renamed A mode t a g st m) := by
  have hready : Lasts A mode t (StagedReady A mode t a g st m) := lasts_stagedReady he
  have hparent : (entryOf A a).dir.dropLast <+: staging (entryOf A a).store := by
    rw [he.dir_eq, dropLast_concat]
    exact prefix_append _ _
  refine .bind (Q := fun _ => StagedReady A mode t a g st m) (.op hready ?_) fun made => ?_
  · rintro d r d' hinv hd ⟨q, hq, -, rfl, -⟩
    exact hd.mkdirs he hinv (hq.trans hparent)
  cases made with
  | false => exact .same rfl
  | true =>
    refine .bind (.still hready fun _ _ _ h => h.1) fun there => ?_
    cases there with
    | false => exact spec_rename he hvalid
    | true =>
      refine .bind (.removePath hready (fun d keep hinv hd => hd.removeEntry he hinv keep) fuel) fun removed => ?_
      cases removed with
      | true => exact spec_rename he hvalid
      | false => exact .same rfl

theorem spec_remove_staged (fuel : Nat) :
    Spec A mode t (Staging A mode t a g given st) (removePath st.dir fuel) fun _ => Staging A mode t a g given st :=
  .removePath (lasts_staging he) (fun d keep hinv hd => hd.inDir he hinv ((remove_within keep st.dir d.tree).mono fun _ hp => .inl hp))
    fuel

theorem spec_publish (hvalid : Valid A a m) (fuel : Nat) :
    Spec A mode t (StagedReady A mode t a g st m) (publish fuel st (entryOf A a).dir) fun r d =>
      (AtEntry t (entryOf A a) g (some st) d ∧ Own t st d) ∧ (r → Got A mode m d) := by
  refine .bind (spec_replaceStagedPath he hvalid fuel) fun done => ?_
  cases done with
  | true => exact .ret fun _ hd => ⟨⟨hd.1, hd.2.1⟩, fun _ => hd.2.2⟩
  | false =>
    refine .bind (.removePath (lasts_stagedReady he) (fun d keep hinv hd => hd.removeEntry he hinv keep) fuel) fun _ => ?_
    refine .bind ((spec_remove_staged he fuel).pre fun d hd => ⟨hd.1, hd.2.1⟩) fun _ => ?_
    exact .ret fun _ hd => ⟨⟨⟨hd.1.1, hd.1.2.1⟩, hd.2.1⟩, nofun⟩

/-! ## The whole fetch -/

theorem spec_fetchAndPublish (fuel : Nat) : Spec A mode t (InFetch A mode t a g none) (fetchAndPublish A fuel a) fun r d =>
      AtEntry t (entryOf A a) g none d ∧ ∀ m, r = some m → Got A mode m d := by
  refine .bind (.still (lasts_inFetch he) fun _ _ _ h => h) fun now => ?_
  cases hbinds : A.binds a with
  | false => exact .ret fun _ hd => ⟨⟨hd.1, hd.2.1⟩, nofun⟩
  | true =>
    refine .bind (spec_createStagedDir he _ _) fun r => ?_
    cases r with
    | none => exact .ret fun _ hd => ⟨⟨hd.1, hd.2.1⟩, nofun⟩
    | some st =>
      refine .bind (spec_note_given he) fun _ => ?_
      refine .bind (spec_prepare he hbinds now) fun r => ?_
      cases r with
      | none =>
        refine .bind (spec_remove_staged he fuel) fun _ => ?_
        refine .bind (spec_note_dropped.pre fun d hd => ⟨⟨hd.1.1, hd.1.2.1⟩, hd.2.1⟩) fun _ => ?_
        refine .bind spec_dropStaged_atEntry fun _ => ?_
        exact .ret fun _ hd => ⟨hd, nofun⟩
      | some m =>
        refine .bind (fun d hinv hd => spec_publish he hd.2 fuel d hinv hd.1) fun done => ?_
        have hkeep : ∀ (u : Tid) (d d' : Disk μ), Guar A mode u d d' → (done → Got A mode m d) → done → Got A mode m d' :=
          fun _ _ _ hguar h hdone => hguar.keeps_got (h hdone)
        refine .bind (spec_note_dropped.frame hkeep) fun _ => ?_
        refine .bind (spec_dropStaged_atEntry.frame hkeep) fun _ => ?_
        refine .ret fun d hd => ⟨hd.1, fun m' hm => ?_⟩
        cases done with
        | true =>
          cases hm
          exact hd.2 rfl
        | false => cases hm

end Fetch

end Pipette.Shared
