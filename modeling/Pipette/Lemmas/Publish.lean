import Pipette.Lemmas.ModelStore

/-!
# Where an `ensure` writes

For a key that is a proper name, a publish writes only in the entry of that name and in the scratch directories: `Own key`.
Scratch files are named apart from a manifest and a payload, so even an entry that stands where the scratch directories do
keeps both (`not_own_of_entryPath`).
-/

namespace Pipette

open Files List Within ModelStorageKey

theorem entryDir_of_isName {t : Text} (h : IsName t) : entryDir t = modelsDir ++ [t] := by simp [entryDir, h.1, h.2.1, h.2.2]

variable {k n : Text} {p : StorePath} {key : Text} {staged target : StorePath} {declared : Model} {unique : Text}

/-- A key that is no name leads to the store root or above it. -/
theorem entryDir_prefix_of_not_isName (h : ¬IsName k) (p : StorePath) : entryDir k <+: modelsDir ++ p := by
  have hk : k = [] ∨ k = ['.'] ∨ k = ['.', '.'] := by
    unfold IsName at h
    tauto
  rcases hk with rfl | rfl | rfl
  · exact prefix_append _ _
  · exact prefix_append _ _
  · exact nil_prefix

/-- A target that does not hold the staging directory is a proper name other than `.staging`. -/
theorem isName_of_target (h : ¬entryDir k <+: stagingDir) : IsName k ∧ k ≠ stagingName := by
  have hname : IsName k := by
    by_contra hn
    refine h (List.IsPrefix.trans ?_ (prefix_append modelsDir [stagingName]))
    simpa using entryDir_prefix_of_not_isName hn []
  refine ⟨hname, ?_⟩
  rintro rfl
  rw [entryDir_of_isName hname] at h
  exact h prefix_rfl

/-- The manifest and the payload of the entry `n`. -/
def EntryPath (n : Text) (p : StorePath) : Prop := p = modelsDir ++ [n, manifestName] ∨ modelsDir ++ [n, blobsName] <+: p

/-- The entry `n` has the same manifest and payload. -/
def SameEntry (n : Text) (a b : StoreTree) : Prop := ∀ p, EntryPath n p → b p = a p

/-- Where an `ensure` of the key may write: the entry, the directories of the store, and scratch files. -/
def Own (key : Text) (p : StorePath) : Prop :=
  p <+: locksDir ∨ p <+: stagingDir ∨ modelsDir ++ [key] <+: p ∨
    ∃ name, name ≠ manifestName ∧ name ≠ blobsName ∧ (locksDir ++ [name] <+: p ∨ stagingDir ++ [name] <+: p)

theorem EntryPath.exists_tail (h : EntryPath n p) :
    ∃ name rest, p = modelsDir ++ n :: name :: rest ∧ (name = manifestName ∨ name = blobsName) := by
  rcases h with rfl | ⟨rest, rfl⟩
  · exact ⟨manifestName, [], rfl, .inl rfl⟩
  · exact ⟨blobsName, rest, rfl, .inr rfl⟩

/-- An `ensure` of another key does not write to an entry's manifest or payload. -/
theorem not_own_of_entryPath (hne : n ≠ key) (h : EntryPath n p) : ¬Own key p := by
  obtain ⟨name, rest, rfl, hname⟩ := h.exists_tail
  rintro (hlen | hlen | ⟨tail, htail⟩ | ⟨scratch, hm, hb, ⟨tail, htail⟩ | ⟨tail, htail⟩⟩)
  · exact absurd hlen.length_le (by simp [modelsDir, locksDir])
  · exact absurd hlen.length_le (by simp [modelsDir, stagingDir])
  · simp [modelsDir] at htail
    exact hne htail.1.symm
  · simp [modelsDir, locksDir] at htail
    rcases hname with rfl | rfl
    · exact hm htail.2.1
    · exact hb htail.2.1
  · simp [modelsDir, stagingDir] at htail
    rcases hname with rfl | rfl
    · exact hm htail.2.1
    · exact hb htail.2.1

theorem SameEntry.of_within {a b : StoreTree} (hne : n ≠ key) (h : Within (Own key) a b) : SameEntry n a b :=
  fun p hp => h p (not_own_of_entryPath hne hp)

/-- A staged name is neither a manifest's name nor a payload's: it has a dash. -/
theorem stagedName_ne (key unique : Text) {suffix : Text} :
    stagedName key unique ++ suffix ≠ manifestName ∧ stagedName key unique ++ suffix ≠ blobsName := by
  have hdash : '-' ∈ stagedName key unique ++ suffix := by simp [stagedName]
  constructor <;> intro h <;> rw [h] at hdash <;> exact absurd hdash (by decide)

section Within

variable {S : StorePath → Prop} {fs : StoreTree}

variable (os : PublishOs)

theorem moveIntoPlace_within (hs : ∀ p, staged <+: p → S p)
    (ht : ∀ p, target <+: p → S p) : Within S fs (moveIntoPlace os staged target fs).2 := by
  unfold moveIntoPlace
  split
  · exact (move_within _ _ _).mono fun p hp => hp.elim (hs p) (ht p)
  · exact refl _ _

theorem replaceStagedPath_within (hs : ∀ p, staged <+: p → S p)
    (ht : ∀ p, target <+: p → S p) : Within S fs (replaceStagedPath os staged target fs).2 := by
  unfold replaceStagedPath
  split
  · split
    · exact (remove_within _ _ _).mono ht
    · exact ((remove_within _ _ _).mono ht).trans (moveIntoPlace_within os hs ht)
  · exact moveIntoPlace_within os hs ht

theorem dropStagedLock_within {lock : StorePath} (hl : ∀ p, lock <+: p → S p) :
    Within S fs (dropStagedLock os lock fs) := by
  unfold dropStagedLock
  split
  · exact refl _ _
  · exact (remove_within _ _ _).mono hl

/-- Filling the staged directory writes there and to its lock file. -/
theorem fillStaged_within (key : Text) (hroot : ∀ p, p <+: stagingDir → S p)
    (hdir : ∀ p, stagedDir os key <+: p → S p) (hlock : ∀ p, stagedLock os key <+: p → S p) :
    Within S fs (fillStaged os key fs) := by
  have hlocked : Within S fs (write (stagedLock os key) (.file (.bytes [])) fs) :=
    (write_within _ _ _).mono fun p hp => hlock p (hp ▸ prefix_rfl)
  have hblobs : ∀ a : StoreTree, Within S a (mkdirAll (stagedDir os key ++ [blobsName]) a) := by
    intro a
    refine (mkdirAll_within _ _).mono fun p hp => ?_
    rcases prefix_or_prefix_of_prefix hp (prefix_append _ [blobsName]) with h | h
    · rcases prefix_concat_iff.1 h with heq | hstaging
      · exact hdir p (heq ▸ prefix_rfl)
      · exact hroot p hstaging
    · exact hdir p h
  have hgraft : ∀ a : StoreTree, Within S a (graft (stagedDir os key ++ [blobsName]) os.payload a) := fun a =>
    (graft_within _ _ _).mono fun p hp => hdir p ((prefix_append _ _).trans hp)
  exact (hlocked.trans (hblobs _)).trans (hgraft _)

theorem publishStaged_within (key : Text) (hdir : ∀ p, stagedDir os key <+: p → S p)
    (hlock : ∀ p, stagedLock os key <+: p → S p) (ht : ∀ p, target <+: p → S p) :
    Within S fs (publishStaged os key target fs).2 := by
  have hreplaced : Within S fs (replaceStagedPath os (stagedDir os key) target fs).2 := replaceStagedPath_within os hdir ht
  unfold publishStaged
  split
  · next heq =>
    rw [heq] at hreplaced
    exact hreplaced.trans (dropStagedLock_within os hlock)
  · next heq =>
    rw [heq] at hreplaced
    have hcleaned := (hreplaced.trans ((remove_within os.cleanupTargetKeeps target _).mono ht)).trans
      ((remove_within os.cleanupStagedKeeps (stagedDir os key) _).mono hdir)
    exact hcleaned.trans (dropStagedLock_within os hlock)

/-- A publish changes the tree only where staging, target and scratch directories are. -/
theorem installDir_within (key : Text) (manifest : ModelManifest) (hroot : ∀ p, p <+: stagingDir → S p)
    (hscratch : ∀ name p, name ≠ manifestName → name ≠ blobsName → stagingDir ++ [name] <+: p → S p)
    (ht : ∀ p, target <+: p → S p) : Within S fs (installDir os key target manifest fs).2 := by
  have hdir : ∀ p, stagedDir os key <+: p → S p := by
    intro p hp
    have hne := @stagedName_ne key os.unique []
    rw [append_nil] at hne
    exact hscratch _ p hne.1 hne.2 hp
  have hlock : ∀ p, stagedLock os key <+: p → S p := fun p hp => hscratch _ p (stagedName_ne _ _).1 (stagedName_ne _ _).2 hp
  have hstaging : Within S fs (mkdirAll stagingDir fs) := (mkdirAll_within _ _).mono hroot
  have hfilled := hstaging.trans (fillStaged_within os key hroot hdir hlock)
  unfold installDir
  dsimp only
  split
  · exact refl _ _
  split
  · exact hstaging
  split
  · exact (hfilled.trans ((remove_within _ _ _).mono hdir)).trans (dropStagedLock_within os hlock)
  · have hwritten := hfilled.trans ((write_within (stagedDir os key ++ [manifestName])
      (.file (.manifest manifest)) _).mono fun p hp => hdir p (hp ▸ prefix_append _ _))
    exact hwritten.trans (publishStaged_within os key hdir hlock ht)

end Within

section Own

variable {fs : StoreTree}

theorem lockEntry_within (how : LockOutcome) (key k : Text) : Within (Own key) fs (lockEntry how k fs).2 := by
  intro p hp
  refine lockEntry_apply how ?_ ?_
  · intro hpre
    exact hp (.inl hpre)
  · rintro rfl
    exact hp (.inr (.inr (.inr ⟨k ++ lockSuffix, (append_lockSuffix_ne k).1, (append_lockSuffix_ne k).2, .inl prefix_rfl⟩)))

theorem removeEntryDir_within (keeps : Option (StorePath → Bool)) (hkey : IsName key) :
    Within (Own key) fs (removeEntryDir keeps key fs).2 := by
  have hown : ∀ p, entryDir key <+: p → Own key p := by
    intro p hp
    rw [entryDir_of_isName hkey] at hp
    exact .inr (.inr (.inl hp))
  unfold removeEntryDir
  split
  · exact refl _ _
  · split
    · exact (remove_within _ _ _).mono hown
    · exact (remove_within _ _ _).mono hown

theorem fetchAndPublish_within (os : PublishOs) {key : ModelStorageKey}
    (hkey : of declared = some key) (hname : IsName key.text) :
    Within (Own key.text) fs (fetchAndPublish os declared fs).2 := by
  cases hstored : toStored declared.withoutAuthToken key.blobsDir with
  | error err =>
    rw [fetchAndPublish_unresolved os hkey hstored]
    exact refl _ _
  | ok stored =>
    rw [fetchAndPublish_eq os hkey hstored]
    refine installDir_within os key.text _ (fun p hp => .inr (.inl hp)) ?_ ?_
    · intro name p hm hb hp
      exact .inr (.inr (.inr ⟨name, hm, hb, .inr hp⟩))
    · intro p hp
      rw [entryDir_of_isName hname] at hp
      exact .inr (.inr (.inl hp))

/-- An `ensure` that finds nothing under a proper name writes only where that key may. -/
theorem ensure_within (os : EnsureOs) {key : ModelStorageKey} (hkey : of declared = some key)
    (hname : IsName key.text) (hfind : ∀ m, find fs declared ≠ .ok (some m)) :
    Within (Own key.text) fs (ensure os declared fs).2 := by
  have hlock : Within (Own key.text) fs (lockEntry os.lock key.text fs).2 := lockEntry_within _ _ _
  cases hfound : find fs declared with
  | ok found =>
    cases found with
    | some m => exact absurd hfound (hfind m)
    | none =>
      rw [ensure_miss os hkey hfound]
      split
      · exact hlock.trans (fetchAndPublish_within _ hkey hname)
      · exact hlock
  | error err =>
    by_cases hparse : ∃ path, err = .parse path
    · obtain ⟨path, rfl⟩ := hparse
      have hremoved := hlock.trans (removeEntryDir_within os.tornKeeps hname)
      rw [ensure_torn os hkey hfound]
      dsimp only
      split
      · split
        · exact hremoved.trans (fetchAndPublish_within _ hkey hname)
        · exact hremoved
      · exact hlock
    · rw [ensure_error os hfound fun path hp => hparse ⟨path, hp⟩]
      exact refl _ _

/-- Rewriting the manifest of another entry leaves this one as it was. -/
theorem touch_sameEntry (now : Int) (how : Rewrite) {manifest : ModelManifest}
    (hother : ∀ key, of manifest.declared = some key → key.text ≠ n) :
    SameEntry n fs (touch now how manifest fs).2 := by
  intro p hp
  obtain ⟨name, rest, rfl, hname⟩ := hp.exists_tail
  unfold touch
  dsimp only
  split
  · rfl
  · next key hkey =>
    have hne : ∀ x : Text, modelsDir ++ n :: name :: rest ≠ entryDir key.text ++ [x] := by
      intro x heq
      rcases entryDir_cases key.text with h | h | h <;> rw [h] at heq <;> simp [modelsDir] at heq
      exact hother key hkey heq.1.symm
    unfold rewriteManifest
    split
    · rfl
    split
    · split
      · rfl
      · exact write_within _ _ _ _ (hne _)
    · rfl
    · exact write_within _ _ _ _ (hne _)

end Own

/-! ## Locking and staging -/

section Staging

variable {fs : StoreTree}

/-- Whether the entry lock's file can be opened. -/
def Lockable (fs : StoreTree) (key : Text) : Prop :=
  clear locksDir fs ∧ fs (locksDir ++ [key ++ lockSuffix]) ≠ some .dir

/-- Without its file the lock is not got, and nothing changes. -/
theorem lockEntry_of_not_lockable (how : LockOutcome) (h : ¬Lockable fs k) : lockEntry how k fs = (false, fs) := by
  have hcond : clear locksDir fs = false ∨ fs (locksDir ++ [k ++ lockSuffix]) = some .dir ∨ how = .unopened := by
    by_contra hn
    simp only [not_or] at hn
    exact h ⟨by simpa using hn.1, hn.2.1⟩
  simp only [lockEntry, hcond, if_true]

theorem clear_lockEntry (how : LockOutcome) (k : Text) : clear stagingDir (lockEntry how k fs).2 = clear stagingDir fs := by
  have hfile : ∀ q ∈ stagingDir.inits, fileAt (lockEntry how k fs).2 q = fileAt fs q := by
    intro q hq
    have hne : q ≠ locksDir ++ [k ++ lockSuffix] := by
      rintro rfl
      have hlen := ((mem_inits _ _).1 hq).length_le
      simp [stagingDir, locksDir, modelsDir] at hlen
    unfold lockEntry
    dsimp only
    split
    · rfl
    split
    · exact fileAt_mkdirAll _ _ _
    · have hwrite : write (locksDir ++ [k ++ lockSuffix]) (.file (.bytes [])) (mkdirAll locksDir fs) q =
          mkdirAll locksDir fs q := write_within _ _ _ q hne
      exact (congrArg (fun node => node.elim false Node.isFile) hwrite).trans (fileAt_mkdirAll _ _ _)
  rw [clear, clear, Bool.eq_iff_iff, all_eq_true, all_eq_true]
  exact forall₂_congr fun q hq => by rw [hfile q hq]

theorem lockEntry_locked (h : Lockable fs k) :
    (lockEntry .locked k fs).1 ∧ ∀ p, p <+: locksDir → ((lockEntry .locked k fs).2 p).isSome := by
  have hcond : ¬(clear locksDir fs = false ∨ fs (locksDir ++ [k ++ lockSuffix]) = some .dir ∨
      LockOutcome.locked = .unopened) := by
    simp [h.1, h.2]
  unfold lockEntry
  dsimp only
  rw [if_neg hcond]
  refine ⟨rfl, fun p hp => ?_⟩
  have hmk := mkdirAll_above hp fs
  split
  · exact hmk
  dsimp only [write]
  split
  · rfl
  · exact hmk

/-- Filling the staged directory takes nothing off the paths above it. -/
theorem fillStaged_isSome (os : PublishOs) (k : Text) (hlen : p.length ≤ 2) (h : (fs p).isSome) :
    (fillStaged os k fs p).isSome := by
  have hgraft : ¬stagedDir os k ++ [blobsName] <+: p := fun hp => by
    have := hp.length_le
    simp [stagedDir, stagingDir, modelsDir] at this
    omega
  have hlock : p ≠ stagedLock os k := by
    rintro rfl
    simp [stagedLock, stagingDir, modelsDir] at hlen
  have hwrite : write (stagedLock os k) (.file (.bytes [])) fs p = fs p := write_within _ _ _ p hlock
  unfold fillStaged
  rw [graft_within _ _ _ p hgraft, mkdirAll, hwrite]
  split
  · rfl
  · exact h

/-- The staged name with this unique part is free. -/
structure FreeName (fs : StoreTree) (key unique : Text) : Prop where
  lock : fs (stagingDir ++ [stagedName key unique ++ lockSuffix]) = none
  dir : ∀ p, stagingDir ++ [stagedName key unique] <+: p → fs p = none

/-- An `ensure` in which every operation works; whether the directory is staged is left open. -/
def goodOs (now : Int) (unique : Text) (staged : Bool) : EnsureOs where
  now := now
  rewrite := .written
  lock := .locked
  tornKeeps := none
  publish :=
    { fetchedAt := now
      unique := unique
      staged := staged
      prepared := true
      payload := fun _ => some .dir
      blobsBytes := 0
      targetKeeps := none
      renamed := true
      cleanupTargetKeeps := keepNone
      cleanupStagedKeeps := keepNone
      lockLeft := false }

theorem stagingDir_append_not_lock (k name : Text) (hp : stagingDir ++ [name] <+: p) :
    ¬p <+: locksDir ∧ p ≠ locksDir ++ [k] := by
  obtain ⟨rest, rfl⟩ := hp
  constructor
  · intro hpre
    have := hpre.length_le
    simp [stagingDir, locksDir, modelsDir] at this
  · intro heq
    have hsecond : some stagingName = some locksName := congrArg (fun q : StorePath => q.drop 1 |>.head?) heq
    exact absurd hsecond (by decide)

theorem FreeName.lockEntry (h : FreeName fs key unique) (how : LockOutcome) (k : Text) :
    FreeName (Pipette.lockEntry how k fs).2 key unique where
  lock := by
    obtain ⟨hlocks, hlock⟩ := stagingDir_append_not_lock (k ++ lockSuffix) (stagedName key unique ++ lockSuffix) prefix_rfl
    exact (lockEntry_apply how hlocks hlock).trans h.lock
  dir p hp := by
    obtain ⟨hlocks, hlock⟩ := stagingDir_append_not_lock (k ++ lockSuffix) _ hp
    exact (lockEntry_apply how hlocks hlock).trans (h.dir p hp)

theorem not_prefix_stagingDir {name : Text} (hp : stagingDir ++ [name] <+: p) : ¬p <+: stagingDir := by
  intro hpre
  have := (hp.trans hpre).length_le
  simp [stagingDir, modelsDir] at this

theorem FreeName.mkdirAll (h : FreeName fs key unique) : FreeName (Files.mkdirAll stagingDir fs) key unique where
  lock := (mkdirAll_within _ _ _ (not_prefix_stagingDir prefix_rfl)).trans h.lock
  dir p hp := (mkdirAll_within _ _ _ (not_prefix_stagingDir hp)).trans (h.dir p hp)

/-- Nothing but the payload is put in the staged directory before the manifest. -/
theorem fillStaged_manifest (os : PublishOs) (k : Text) (h : fs (stagedDir os k ++ [manifestName]) = none) :
    fillStaged os k fs (stagedDir os k ++ [manifestName]) = none := by
  have hne : manifestName ≠ blobsName := by decide
  have hgraft : ¬stagedDir os k ++ [blobsName] <+: stagedDir os k ++ [manifestName] := by
    rw [prefix_append_right_inj]
    simpa using hne.symm
  have hmkdir : ¬stagedDir os k ++ [manifestName] <+: stagedDir os k ++ [blobsName] := by
    rw [prefix_append_right_inj]
    simpa using hne
  have hlock : stagedDir os k ++ [manifestName] ≠ stagedLock os k := by
    intro heq
    simpa [stagedDir, stagedLock] using congrArg length heq
  unfold fillStaged
  rw [graft_within _ _ _ _ hgraft, mkdirAll_within _ _ _ hmkdir, write_within _ _ _ _ hlock, h]

/-- When everything works and the staged name is free, it comes to the publish. -/
theorem installDir_good {now : Int} (hclear : clear stagingDir fs) (hfree : FreeName fs k unique)
    (target : StorePath) (manifest : ModelManifest) :
    installDir (goodOs now unique true).publish k target manifest fs = publishStaged (goodOs now unique true).publish k target
        (write (stagedDir (goodOs now unique true).publish k ++ [manifestName]) (.file (.manifest manifest))
          (fillStaged (goodOs now unique true).publish k (mkdirAll stagingDir fs))) := by
  have hfree' := hfree.mkdirAll
  have hlock : mkdirAll stagingDir fs (stagedLock (goodOs now unique true).publish k) = none := hfree'.lock
  have hdir : ∀ p, stagedDir (goodOs now unique true).publish k <+: p → mkdirAll stagingDir fs p = none := hfree'.dir
  have hcan : canStage (goodOs now unique true).publish k (mkdirAll stagingDir fs) := by
    rw [canStage, hlock, fileAt, hdir _ prefix_rfl]
    rfl
  have hnone := fillStaged_manifest (goodOs now unique true).publish k (hdir _ (prefix_append _ _))
  have hready : ¬((goodOs now unique true).publish.prepared = false ∨ (fillStaged (goodOs now unique true).publish k
      (mkdirAll stagingDir fs) (stagedDir (goodOs now unique true).publish k ++ [manifestName])).isSome) := by
    rw [hnone]
    exact not_or.2 ⟨Bool.false_ne_true.symm, Bool.false_ne_true⟩
  unfold installDir
  rw [if_neg (by simp [hclear]), if_neg (by simp [hcan]), if_neg hready]

end Staging

end Pipette
