import Pipette.Lemmas.Publish

/-!
# A publish that succeeds

What was staged stands under the key, and the manifest returned is the one read back (`fetchAndPublish_stands`). A key that
leads to the store root or to `.staging` is never published (`isName_of_installDir`); any other with a stored form can be
(`ensure_good`).
-/

namespace Pipette

open Files List ModelStorageKey

section Success

variable {fs fs' : StoreTree} {os : PublishOs} {k : Text} {target : StorePath} {manifest : ModelManifest} {unique : Text}

/-- The tree as a publish finds it: the staged directory filled, its manifest written. -/
def readyTree (os : PublishOs) (k : Text) (manifest : ModelManifest) (fs : StoreTree) : StoreTree :=
  write (stagedDir os k ++ [manifestName]) (.file (.manifest manifest)) (fillStaged os k (mkdirAll stagingDir fs))

/-- A rename that succeeds finds the staged directory, after the target was removed. -/
theorem replaceStagedPath_true {staged : StorePath} (h : replaceStagedPath os staged target fs = (true, fs')) :
    ∃ cleared, (cleared = fs ∧ (fs target).isNone ∨ cleared = remove keepNone target fs) ∧
      (cleared staged).isSome ∧ fs' = move staged target cleared := by
  have hmove : ∀ {t : StoreTree}, moveIntoPlace os staged target t = (true, fs') →
      (t staged).isSome ∧ fs' = move staged target t := by
    intro t ht
    unfold moveIntoPlace at ht
    split at ht
    · next hcond =>
      rw [Bool.and_eq_true] at hcond
      exact ⟨hcond.2, (congrArg Prod.snd ht).symm⟩
    · cases ht
  unfold replaceStagedPath at h
  split at h
  · split at h
    · cases h
    · exact ⟨_, .inr rfl, hmove h⟩
  · next hnone => exact ⟨fs, .inl ⟨rfl, by simpa using hnone⟩, hmove h⟩

/-- An install that succeeds staged a fresh directory and renamed it. -/
theorem installDir_true (h : installDir os k target manifest fs = (true, fs')) :
    clear stagingDir fs ∧ fileAt (mkdirAll stagingDir fs) (stagedDir os k) = false ∧
      ∃ moved, replaceStagedPath os (stagedDir os k) target (readyTree os k manifest fs) = (true, moved) ∧
        fs' = dropStagedLock os (stagedLock os k) moved := by
  unfold installDir at h
  dsimp only at h
  split at h
  · cases h
  · next hclear =>
    split at h
    · cases h
    · next hcan =>
      split at h
      · cases h
      simp only [canStage, Bool.not_eq_false, Bool.and_eq_true, Bool.not_eq_true'] at hclear hcan
      refine ⟨hclear, hcan.2, ?_⟩
      unfold publishStaged at h
      split at h
      · next moved heq => exact ⟨moved, heq, (congrArg Prod.snd h).symm⟩
      · cases h

/-- A publish whose target holds the staging directory removes what it is to publish, so one that succeeds has a proper name. -/
theorem isName_of_installDir (h : (installDir os k (entryDir k) manifest fs).1) : IsName k ∧ k ≠ stagingName := by
  refine isName_of_target fun ht => ?_
  obtain ⟨_, _, moved, hreplace, _⟩ := installDir_true (Prod.ext h rfl)
  obtain ⟨cleared, hcleared, hstaged, _⟩ := replaceStagedPath_true hreplace
  have hthere : (readyTree os k manifest fs (entryDir k)).isSome := by
    unfold readyTree write
    split
    · rfl
    · exact fillStaged_isSome os k ht.length_le (mkdirAll_above ht fs)
  rcases hcleared with ⟨_, hnone⟩ | rfl
  · simp [Option.isNone_iff_eq_none.1 hnone] at hthere
  · have hgone := remove_below (ht.trans (prefix_append _ [stagedName k os.unique])) (readyTree os k manifest fs)
    rw [show remove keepNone (entryDir k) (readyTree os k manifest fs) (stagedDir os k) = none from hgone] at hstaged
    cases hstaged

/-- The staged directory as a publish finds it. -/
theorem readyTree_staged (hfile : fileAt (mkdirAll stagingDir fs) (stagedDir os k) = false) :
    readyTree os k manifest fs (stagedDir os k) = some .dir ∧
      readyTree os k manifest fs (stagedDir os k ++ [manifestName]) = some (.file (.manifest manifest)) ∧
      ∀ q, readyTree os k manifest fs (stagedDir os k ++ blobsName :: q) = os.payload q := by
  refine ⟨?_, by simp [readyTree, write], ?_⟩
  · have hne : stagedDir os k ≠ stagedDir os k ++ [manifestName] := fun h => by simpa using congrArg length h
    have hgraft : ¬stagedDir os k ++ [blobsName] <+: stagedDir os k := fun h => absurd h.length_le (by simp)
    have hlock : stagedDir os k ≠ stagedLock os k := by
      intro h
      have hname : stagedName k os.unique = stagedName k os.unique ++ lockSuffix := by simpa [stagedDir, stagedLock] using h
      simpa [lockSuffix] using congrArg length hname
    unfold readyTree
    rw [write_within _ _ _ _ hne, fillStaged, graft_within _ _ _ _ hgraft, mkdirAll, write_within _ _ _ _ hlock]
    cases hnode : mkdirAll stagingDir fs (stagedDir os k) with
    | none => simp
    | some node =>
      cases node with
      | dir => simp
      | file c => simp [fileAt, hnode, Node.isFile] at hfile
  · intro q
    have hne : stagedDir os k ++ blobsName :: q ≠ stagedDir os k ++ [manifestName] := by
      intro h
      have hhead : blobsName = manifestName := (cons.inj (append_cancel_left h)).1
      exact absurd hhead (by decide)
    have hpath : stagedDir os k ++ blobsName :: q = stagedDir os k ++ [blobsName] ++ q := by simp
    unfold readyTree
    rw [write_within _ _ _ _ hne, fillStaged, hpath, graft, if_pos (prefix_append _ _), drop_left]

/-- A publish under a proper name other than `.staging` puts there what was staged. -/
theorem installDir_published (hname : k ≠ stagingName) (h : installDir os k (modelsDir ++ [k]) manifest fs = (true, fs')) :
    fs' (modelsDir ++ [k]) = some .dir ∧ fs' (modelsDir ++ [k, manifestName]) = some (.file (.manifest manifest)) ∧
      ∀ q, fs' (modelsDir ++ k :: blobsName :: q) = os.payload q := by
  obtain ⟨_, hfile, moved, hreplace, rfl⟩ := installDir_true h
  obtain ⟨cleared, hcleared, _, rfl⟩ := replaceStagedPath_true hreplace
  have hstaging : ∀ p, stagingDir <+: p → ¬modelsDir ++ [k] <+: p := by
    rintro p ⟨r, rfl⟩ ⟨s, hs⟩
    have hk : k = stagingName := by simpa [stagingDir, modelsDir] using congrArg (fun q : StorePath => q.drop 1 |>.head?) hs
    exact hname hk
  have hkept : ∀ r, cleared (stagedDir os k ++ r) = readyTree os k manifest fs (stagedDir os k ++ r) := by
    intro r
    rcases hcleared with ⟨rfl, _⟩ | rfl
    · rfl
    · exact remove_within _ _ _ _ (hstaging _ ⟨[stagedName k os.unique] ++ r, by simp [stagedDir]⟩)
  have hput : ∀ r, dropStagedLock os (stagedLock os k) (move (stagedDir os k) (modelsDir ++ [k]) cleared) (modelsDir ++ [k] ++ r) =
      readyTree os k manifest fs (stagedDir os k ++ r) := by
    intro r
    have hlock : ¬stagedLock os k <+: modelsDir ++ [k] ++ r := fun hp =>
      hstaging (modelsDir ++ [k] ++ r) ((prefix_append _ _).trans hp) (prefix_append _ _)
    have hdrop : dropStagedLock os (stagedLock os k) (move (stagedDir os k) (modelsDir ++ [k]) cleared) (modelsDir ++ [k] ++ r) =
        move (stagedDir os k) (modelsDir ++ [k]) cleared (modelsDir ++ [k] ++ r) :=
      dropStagedLock_within os (fun p hp => hp) _ hlock
    rw [hdrop, move, if_pos (prefix_append _ _), drop_left, hkept]
  obtain ⟨hdir, hmanifest, hpayload⟩ := readyTree_staged hfile
  refine ⟨?_, ?_, ?_⟩
  · simpa using (hput []).trans (by simpa using hdir)
  · simpa using (hput [manifestName]).trans hmanifest
  · intro q
    simpa using (hput (blobsName :: q)).trans (hpayload q)

/-- With every operation working, a publish under a proper name other than `.staging` succeeds. -/
theorem publishStaged_good {now : Int} (hname : k ≠ stagingName)
    (hstaged : (fs (stagedDir (goodOs now unique true).publish k)).isSome) :
    (publishStaged (goodOs now unique true).publish k (modelsDir ++ [k]) fs).1 := by
  have hkept : remove keepNone (modelsDir ++ [k]) fs (stagedDir (goodOs now unique true).publish k) =
      fs (stagedDir (goodOs now unique true).publish k) := by
    refine remove_within _ _ _ _ ?_
    rintro ⟨rest, hrest⟩
    exact hname (by simpa [stagedDir, stagingDir, modelsDir] using congrArg (fun q : StorePath => q.drop 1 |>.head?) hrest)
  have hreplace : ∃ moved, replaceStagedPath (goodOs now unique true).publish (stagedDir (goodOs now unique true).publish k)
      (modelsDir ++ [k]) fs = (true, moved) := by
    unfold replaceStagedPath
    split
    · refine ⟨move (stagedDir (goodOs now unique true).publish k) (modelsDir ++ [k]) (remove keepNone (modelsDir ++ [k]) fs), ?_⟩
      rw [moveIntoPlace, hkept, hstaged]
      rfl
    · refine ⟨move (stagedDir (goodOs now unique true).publish k) (modelsDir ++ [k]) fs, ?_⟩
      rw [moveIntoPlace, hstaged]
      rfl
  obtain ⟨moved, hmoved⟩ := hreplace
  simp only [publishStaged, hmoved]

theorem installDir_succeeds {now : Int} (hname : k ≠ stagingName) (hclear : clear stagingDir fs)
    (hfree : FreeName fs k unique) : (installDir (goodOs now unique true).publish k (modelsDir ++ [k]) manifest fs).1 := by
  rw [installDir_good hclear hfree]
  refine publishStaged_good hname ?_
  have hfile : fileAt (mkdirAll stagingDir fs) (stagedDir (goodOs now unique true).publish k) = false := by
    have hnone : mkdirAll stagingDir fs (stagedDir (goodOs now unique true).publish k) = none :=
      hfree.mkdirAll.dir _ prefix_rfl
    rw [fileAt, hnone]
    rfl
  exact Option.isSome_iff_exists.2 ⟨_, (@readyTree_staged fs _ _ manifest hfile).1⟩

end Success

/-! ## What an `ensure` leaves under the model's key -/

/-- The entry at `key` is a directory whose manifest reads as `m`. -/
def Stands (fs : StoreTree) (key : ModelStorageKey) (m : ModelManifest) : Prop :=
  fs (modelsDir ++ [key.text]) = some .dir ∧ readManifest fs (modelsDir ++ [key.text, manifestName]) = .ok m

section Stands

variable {fs fs' : StoreTree} {declared : Model} {key : ModelStorageKey} {m manifest : ModelManifest}

/-- What a fetch publishes stands under the model's key, as it was returned. -/
theorem fetchAndPublish_stands {os : PublishOs} (hkey : of declared = some key)
    (h : fetchAndPublish os declared fs = (.ok manifest, fs')) :
    Stands fs' key manifest ∧ of manifest.declared = some key := by
  cases hstored : toStored declared.withoutAuthToken key.blobsDir with
  | error err =>
    rw [fetchAndPublish_unresolved os hkey hstored] at h
    cases h
  | ok stored =>
    rw [fetchAndPublish_eq os hkey hstored, Prod.mk.injEq] at h
    obtain ⟨hresult, htree⟩ := h
    split at hresult
    · next hdone =>
      cases hresult
      obtain ⟨hname, hstaging⟩ := isName_of_installDir hdone
      rw [entryDir_of_isName hname] at hdone htree
      obtain ⟨hdir, hmanifest, _⟩ := installDir_published hstaging (Prod.ext hdone htree)
      refine ⟨⟨hdir, readManifest_of_file hmanifest ?_ rfl ?_ hstored⟩, ?_⟩
      · exact Model.withoutAuthToken_idem declared
      · simpa [newManifest] using hkey
      · simpa [newManifest] using hkey
    · cases hresult

/-- A model of the type that stands under its key is found. -/
theorem find_of_stands (hkey : of declared = some key) (hname : IsName key.text) (hs : Stands fs key m)
    (htype : ModelType.of m.declared = ModelType.of declared) : find fs declared = .ok (some m) := by
  have hpath : manifestPath key = modelsDir ++ [key.text, manifestName] := by simp [manifestPath, entryDir_of_isName hname]
  obtain ⟨record, hfile, _⟩ := readManifest_ok hs.2
  simp [find, hkey, hpath, hfile, hs.2, htype]

end Stands

/-- A fetch of the model can be published: its key is a proper name other than `.staging`, and it has a stored form. -/
def Publishable (declared : Model) : Prop :=
  ∃ key stored, of declared = some key ∧ IsName key.text ∧ key.text ≠ stagingName ∧
    toStored declared.withoutAuthToken key.blobsDir = .ok stored

/-- A workspace without a store. -/
def bareWorkspace : StoreTree := ofNodes [([], .dir)]

theorem bareWorkspace_models (q : StorePath) : bareWorkspace (modelsDir ++ q) = none := ofNodes_eq_none (by simp [modelsDir])

/-- What can be published is, when it is the first and everything works. -/
theorem ensure_good {declared : Model} (h : Publishable declared) (now : Int) :
    ∃ manifest, (ensure (goodOs now [] true) declared bareWorkspace).1 = .ok manifest ∧
      manifest.declared = declared.withoutAuthToken := by
  obtain ⟨key, stored, hkey, hname, hstaging, hstored⟩ := h
  have hfind : find bareWorkspace declared = .ok none := by
    rw [find_ok_none_iff hkey, manifestPath, entryDir_of_isName hname, append_assoc]
    exact bareWorkspace_models _
  have hlockable : Lockable bareWorkspace key.text := by
    refine ⟨by decide, ?_⟩
    rw [show locksDir ++ [key.text ++ lockSuffix] = modelsDir ++ [locksName, key.text ++ lockSuffix] from rfl,
      bareWorkspace_models]
    simp
  have hfree : FreeName bareWorkspace key.text [] := by
    have hnone : ∀ p, stagingDir <+: p → bareWorkspace p = none := by
      rintro p ⟨rest, rfl⟩
      exact bareWorkspace_models (stagingName :: rest)
    exact ⟨hnone _ (prefix_append _ _), fun p hp => hnone p ((prefix_append _ _).trans hp)⟩
  have hclear : clear stagingDir (lockEntry (goodOs now [] true).lock key.text bareWorkspace).2 :=
    (clear_lockEntry _ _).trans (by decide)
  have hgot : (lockEntry (goodOs now [] true).lock key.text bareWorkspace).1 := (lockEntry_locked hlockable).1
  refine ⟨newManifest (goodOs now [] true).publish declared.withoutAuthToken stored, ?_, rfl⟩
  rw [ensure_miss _ hkey hfind, if_pos hgot, fetchAndPublish_eq _ hkey hstored, entryDir_of_isName hname]
  exact if_pos (installDir_succeeds hstaging hclear (hfree.lockEntry _ _))

end Pipette
