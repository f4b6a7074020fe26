import Pipette.Lemmas.Published

/-!
# The manifests an `ensure` leaves

Wherever the store looks for a manifest, the one that stands there after an `ensure` stood there before, is the one it found,
stamped, or the one it published (`ensure_manifest`).
-/

namespace Pipette

open Files ModelStorageKey

/-- Where the store looks for manifests. -/
def Watched (p : StorePath) : Prop :=
  p = [manifestName] ∨ p = modelsDir ++ [manifestName] ∨ ∃ n, p = modelsDir ++ [n, manifestName]

/-- A manifest that stands at `p` in `b` stood there in `a`. -/
def NoNew (p : StorePath) (a b : StoreTree) : Prop :=
  ∀ record, b p = some (.file (.manifest record)) → a p = some (.file (.manifest record))

theorem Watched.length_le {p : StorePath} (h : Watched p) : p.length ≤ 3 := by
  rcases h with rfl | rfl | ⟨n, rfl⟩ <;> simp [modelsDir]

theorem manifestPath_watched (key : ModelStorageKey) : Watched (manifestPath key) := by
  unfold manifestPath
  rcases entryDir_cases key.text with h | h | h <;> rw [h]
  · exact .inr (.inl rfl)
  · exact .inl rfl
  · exact .inr (.inr ⟨key.text, by simp⟩)

/-- A watched path ends in the manifest's name. -/
theorem Watched.getLast {p : StorePath} (h : Watched p) : p.getLast? = some manifestName := by
  rcases h with rfl | rfl | ⟨n, rfl⟩ <;> simp

section NoNew

variable {p : StorePath} {a b c fs : StoreTree}

theorem NoNew.refl (p : StorePath) (a : StoreTree) : NoNew p a a := fun _ h => h

theorem NoNew.trans (hab : NoNew p a b) (hbc : NoNew p b c) : NoNew p a c := fun record h => hab record (hbc record h)

theorem NoNew.of_eq (h : b p = a p) : NoNew p a b := fun _ hb => h ▸ hb

theorem noNew_remove (keep : StorePath → Bool) (q : StorePath) : NoNew p fs (remove keep q fs) := by
  intro record h
  unfold remove at h
  split at h
  · cases h
  · exact h

theorem noNew_mkdirAll (q : StorePath) : NoNew p fs (mkdirAll q fs) := by
  intro record h
  unfold mkdirAll at h
  split at h
  · cases h
  · exact h

theorem noNew_write_bytes (q : StorePath) (raw : Text) : NoNew p fs (write q (.file (.bytes raw)) fs) := by
  intro record h
  unfold write at h
  split at h
  · cases h
  · exact h

theorem noNew_lockEntry (how : LockOutcome) (k : Text) : NoNew p fs (lockEntry how k fs).2 := by
  unfold lockEntry
  dsimp only
  split
  · exact NoNew.refl _ _
  · split
    · exact noNew_mkdirAll _
    · exact (noNew_mkdirAll _).trans (noNew_write_bytes _ _)

theorem noNew_removeEntryDir (keeps : Option (StorePath → Bool)) (k : Text) : NoNew p fs (removeEntryDir keeps k fs).2 := by
  unfold removeEntryDir
  split
  · exact NoNew.refl _ _
  · split <;> exact noNew_remove _ _

theorem noNew_dropStagedLock (os : PublishOs) (lock : StorePath) : NoNew p fs (dropStagedLock os lock fs) := by
  unfold dropStagedLock
  split
  · exact NoNew.refl _ _
  · exact noNew_remove _ _

/-- Staging puts its manifest and its payload deeper than the store looks. -/
theorem noNew_fillStaged (hp : Watched p) (os : PublishOs) (k : Text) : NoNew p fs (fillStaged os k fs) := by
  have hdeep : ¬stagedDir os k ++ [blobsName] <+: p := by
    intro hpre
    have hlen := hpre.length_le.trans hp.length_le
    simp [stagedDir, stagingDir, modelsDir] at hlen
  exact ((noNew_write_bytes _ _).trans (noNew_mkdirAll _)).trans (NoNew.of_eq (graft_within _ _ _ _ hdeep))

theorem noNew_readyTree (hp : Watched p) (os : PublishOs) (k : Text) (manifest : ModelManifest) :
    NoNew p fs (readyTree os k manifest fs) := by
  have hne : p ≠ stagedDir os k ++ [manifestName] := by
    rintro rfl
    have hlen := hp.length_le
    simp [stagedDir, stagingDir, modelsDir] at hlen
  exact ((noNew_mkdirAll _).trans (noNew_fillStaged hp os k)).trans (NoNew.of_eq (write_within _ _ _ _ hne))

variable {os : PublishOs} {target : StorePath} {k : Text} {manifest : ModelManifest}

/-- A replacement that fails moves nothing. -/
theorem noNew_replaceStagedPath {staged : StorePath} (h : replaceStagedPath os staged target fs = (false, b)) : NoNew p fs b := by
  have hmove : ∀ {t : StoreTree}, moveIntoPlace os staged target t = (false, b) → b = t := by
    intro t ht
    unfold moveIntoPlace at ht
    split at ht
    · cases ht
    · exact (congrArg Prod.snd ht).symm
  unfold replaceStagedPath at h
  split at h
  · split at h
    · cases h
      exact noNew_remove _ _
    · rw [hmove h]
      exact noNew_remove _ _
  · rw [hmove h]
    exact NoNew.refl _ _

theorem noNew_publishStaged (h : publishStaged os k target fs = (false, b)) : NoNew p fs b := by
  unfold publishStaged at h
  split at h
  · cases h
  · next cleared heq =>
    cases h
    exact (((noNew_replaceStagedPath heq).trans (noNew_remove _ _)).trans (noNew_remove _ _)).trans (noNew_dropStagedLock _ _)

/-- An install that fails leaves no manifest where the store looks. -/
theorem noNew_installDir (hp : Watched p) (h : installDir os k target manifest fs = (false, b)) : NoNew p fs b := by
  unfold installDir at h
  dsimp only at h
  split at h
  · cases h
    exact NoNew.refl _ _
  split at h
  · cases h
    exact noNew_mkdirAll _
  split at h
  · cases h
    have hfilled : NoNew p fs (fillStaged os k (mkdirAll stagingDir fs)) := (noNew_mkdirAll _).trans (noNew_fillStaged hp os k)
    exact (hfilled.trans (noNew_remove _ _)).trans (noNew_dropStagedLock _ _)
  · exact (noNew_readyTree hp os k manifest).trans (noNew_publishStaged h)

end NoNew

section Publishing

variable {p : StorePath} {fs : StoreTree} {declared : Model} {key : ModelStorageKey} {record : ModelManifest}

/-- A publish puts its manifest at its own entry and no other where the store looks. -/
theorem installDir_manifest (hp : Watched p)
    (h : (installDir os k (entryDir k) manifest fs).2 p = some (.file (.manifest record))) :
    fs p = some (.file (.manifest record)) ∨
      p = modelsDir ++ [k, manifestName] ∧ record = manifest ∧ (installDir os k (entryDir k) manifest fs).1 := by
  cases hok : (installDir os k (entryDir k) manifest fs).1 with
  | false => exact .inl (noNew_installDir hp (Prod.ext hok rfl) record h)
  | true =>
    obtain ⟨hname, hstaging⟩ := isName_of_installDir hok
    rw [entryDir_of_isName hname] at h hok
    have hin : installDir os k (modelsDir ++ [k]) manifest fs = (true, _) := Prod.ext hok rfl
    obtain ⟨hdir, hmanifest, _⟩ := installDir_published hstaging hin
    by_cases hbelow : modelsDir ++ [k] <+: p
    · rcases hp with rfl | rfl | ⟨n, rfl⟩
      · exact absurd hbelow.length_le (by simp [modelsDir])
      · -- an entry of the manifest's own name is a directory
        obtain rfl : k = manifestName := by simpa [List.prefix_append_right_inj] using hbelow
        cases hdir.symm.trans h
      · obtain rfl : k = n := by simpa [List.prefix_append_right_inj] using hbelow
        cases hmanifest.symm.trans h
        exact .inr ⟨rfl, rfl, rfl⟩
    obtain ⟨_, _, moved, hreplace, htree⟩ := installDir_true hin
    obtain ⟨cleared, hcleared, _, rfl⟩ := replaceStagedPath_true hreplace
    have hmoved := noNew_dropStagedLock os _ record ((congrFun htree p).symm.trans h)
    rw [move, if_neg hbelow] at hmoved
    split at hmoved
    · cases hmoved
    refine .inl (noNew_readyTree hp os k manifest record ?_)
    rcases hcleared with ⟨rfl, _⟩ | rfl
    · exact hmoved
    · exact noNew_remove _ _ record hmoved

theorem fetchAndPublish_manifest (hp : Watched p) (hkey : of declared = some key)
    (h : (fetchAndPublish os declared fs).2 p = some (.file (.manifest record))) :
    fs p = some (.file (.manifest record)) ∨
      p = modelsDir ++ [key.text, manifestName] ∧ record.declared = declared.withoutAuthToken ∧ Publishable declared := by
  cases hstored : toStored declared.withoutAuthToken key.blobsDir with
  | error err =>
    rw [fetchAndPublish_unresolved os hkey hstored] at h
    exact .inl h
  | ok stored =>
    rw [fetchAndPublish_eq os hkey hstored] at h
    rcases installDir_manifest hp h with hold | ⟨hpath, rfl, hok⟩
    · exact .inl hold
    obtain ⟨hname, hstaging⟩ := isName_of_installDir hok
    exact .inr ⟨hpath, rfl, key, stored, hkey, hname, hstaging, hstored⟩

/-- Stamping a manifest writes it where its declared model is keyed to. -/
theorem touch_manifest {now : Int} {how : Rewrite} {m : ModelManifest} (hp : Watched p)
    (h : (touch now how m fs).2 p = some (.file (.manifest record))) :
    fs p = some (.file (.manifest record)) ∨
      record.declared = m.declared ∧ ∃ k, of m.declared = some k ∧ p = manifestPath k := by
  cases hk : of m.declared with
  | none =>
    simp only [touch, hk] at h
    exact .inl h
  | some k =>
    simp only [touch, hk] at h
    unfold rewriteManifest at h
    split at h
    · exact .inl h
    split at h
    · split at h
      · exact .inl h
      · by_cases hpath : p = entryDir k.text ++ [manifestName]
        · rw [hpath, write, if_pos rfl] at h
          cases h
          exact .inr ⟨rfl, k, rfl, hpath⟩
        · rw [write_within _ _ _ _ hpath] at h
          exact .inl h
    · exact .inl h
    · next unique =>
      have hpath : p ≠ entryDir k.text ++ [manifestName ++ '.' :: unique ++ ".tmp"] := by
        rintro rfl
        have hname : manifestName ++ '.' :: unique ++ ".tmp" = manifestName := by simpa using hp.getLast
        simpa using congrArg List.length hname
      rw [write_within _ _ _ _ hpath] at h
      exact .inl h

/-- A manifest where the store looks, after an `ensure`: it stood there, was found there, or was published. -/
theorem ensure_manifest {os : EnsureOs} (hp : Watched p) (hkey : of declared = some key)
    (h : (ensure os declared fs).2 p = some (.file (.manifest record))) :
    fs p = some (.file (.manifest record)) ∨
      (∃ m k, find fs declared = .ok (some m) ∧ record.declared = m.declared ∧ of m.declared = some k ∧
        p = manifestPath k) ∨
      p = modelsDir ++ [key.text, manifestName] ∧ record.declared = declared.withoutAuthToken ∧ Publishable declared := by
  have hlock : NoNew p fs (lockEntry os.lock key.text fs).2 := noNew_lockEntry _ _
  cases hfound : find fs declared with
  | ok found =>
    cases found with
    | some m =>
      rw [ensure_hit os hfound] at h
      rcases touch_manifest hp h with hold | ⟨hrecord, k, hk, hpath⟩
      · exact .inl hold
      · exact .inr (.inl ⟨m, k, rfl, hrecord, hk, hpath⟩)
    | none =>
      rw [ensure_miss os hkey hfound] at h
      split at h
      · exact (fetchAndPublish_manifest hp hkey h).imp (hlock record) .inr
      · exact .inl (hlock record h)
  | error err =>
    by_cases hparse : ∃ path, err = .parse path
    · obtain ⟨path, rfl⟩ := hparse
      have hremoved := hlock.trans (noNew_removeEntryDir os.tornKeeps key.text)
      rw [ensure_torn os hkey hfound] at h
      dsimp only at h
      split at h
      · split at h
        · exact (fetchAndPublish_manifest hp hkey h).imp (hremoved record) .inr
        · exact .inl (hremoved record h)
      · exact .inl (hlock record h)
    · rw [ensure_error os hfound fun path hp => hparse ⟨path, hp⟩] at h
      exact .inl h

end Publishing

end Pipette
