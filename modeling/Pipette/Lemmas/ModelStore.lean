import Pipette.Store.ModelStore

/-!
# One `ensure`, case by case

What `find` answers decides the course of an `ensure`: `ensure_error`, `ensure_hit`, `ensure_torn` and `ensure_miss`. Taking
the entry's lock does not change it (`find_lockEntry`).
-/

namespace Pipette

open Files ModelStorageKey

/-! ## Credentials name nothing -/

theorem dirSegments_withoutAuthToken (source : ModelSource) : dirSegments source.withoutAuthToken = dirSegments source := by
  cases source <;> rfl

variable (model : Model) (os : EnsureOs)

theorem identitySegments_withoutAuthToken : identitySegments model.withoutAuthToken = identitySegments model := by
  cases model with
  | ggufText source | ggufVision source | ggufVisionSpeculative source => cases source <;> rfl
  | mlx source | appleCoreAi source | torch source | openvino source | onnxGenai source =>
    exact dirSegments_withoutAuthToken source
  | mlxSpeculative target draft | torchSpeculative target draft =>
    simp [identitySegments, Model.withoutAuthToken, speculativeSegments, dirSegments_withoutAuthToken]
  | appleFoundationText => rfl

@[simp] theorem ModelStorageKey.of_withoutAuthToken :
    of model.withoutAuthToken = of model := by
  rw [of, identitySegments_withoutAuthToken, of]

@[simp] theorem ModelType.of_withoutAuthToken : ModelType.of model.withoutAuthToken = ModelType.of model := by
  cases model with
  | ggufText source | ggufVision source | ggufVisionSpeculative source => cases source <;> rfl
  | _ => rfl

@[simp] theorem ModelSource.withoutAuthToken_idem (source : ModelSource) :
    source.withoutAuthToken.withoutAuthToken = source.withoutAuthToken := by
  cases source <;> rfl

@[simp] theorem Model.withoutAuthToken_idem : model.withoutAuthToken.withoutAuthToken = model.withoutAuthToken := by
  cases model with
  | ggufText source | ggufVision source | ggufVisionSpeculative source => cases source <;> rfl
  | mlx source | appleCoreAi source | torch source | openvino source | onnxGenai source | mlxSpeculative target draft
  | torchSpeculative target draft => simp [Model.withoutAuthToken]
  | appleFoundationText => rfl

/-! ## Looking depends on one path -/

section Find

variable {fs fs' : StoreTree} {declared : Model} {key : ModelStorageKey} {path : StorePath} {m manifest : ModelManifest}

theorem readManifest_congr (h : fs' path = fs path) : readManifest fs' path = readManifest fs path := by
  simp only [readManifest, h]

/-- A manifest that is read stood there, up to the credential of its declared model. -/
theorem readManifest_ok (h : readManifest fs path = .ok m) :
    ∃ record, fs path = some (.file (.manifest record)) ∧ m = { record with declared := record.declared.withoutAuthToken } ∧
      m.manifestVersion = manifestVersion ∧
      ∃ key, of m.declared = some key ∧ toStored m.declared key.blobsDir = .ok m.stored := by
  unfold readManifest at h
  split at h
  · cases h
  · cases h
  · cases h
  · next record hfs =>
    refine ⟨record, hfs, ?_⟩
    dsimp only at h
    split at h
    · cases h
    · next hversion =>
      split at h
      · cases h
      · next key hkey =>
        split at h
        · cases h
        · next expected hexpected =>
          split at h
          · cases h
          · next hstored =>
            cases h
            exact ⟨rfl, not_not.1 hversion, key, hkey, by rw [hexpected, ← not_not.1 hstored]⟩

/-- A manifest under policy is read back as it is. -/
theorem readManifest_of_file (hfs : fs path = some (.file (.manifest m)))
    (hauth : m.declared.withoutAuthToken = m.declared) (hversion : m.manifestVersion = manifestVersion)
    (hkey : of m.declared = some key) (hstored : toStored m.declared key.blobsDir = .ok m.stored) :
    readManifest fs path = .ok m := by
  obtain ⟨version, fetchedAt, lastUsedAt, declared, stored, blobsBytes⟩ := m
  simp only at hauth hversion hkey hstored
  simp [readManifest, hfs, hauth, hversion, hkey, hstored]

theorem find_ok_some (hkey : of declared = some key) (h : find fs declared = .ok (some m)) :
    readManifest fs (manifestPath key) = .ok m ∧ ModelType.of m.declared = ModelType.of declared := by
  simp only [find, hkey] at h
  split at h
  · cases h
  split at h
  · cases h
  · next manifest hread =>
    split at h
    · cases h
    · next htype =>
      cases h
      exact ⟨hread, by simpa using htype⟩

theorem find_ok_none_iff (hkey : of declared = some key) :
    find fs declared = .ok none ↔ fs (manifestPath key) = none := by
  constructor
  · intro h
    simp only [find, hkey] at h
    split at h
    · next hnone => simpa using hnone
    · split at h
      · cases h
      · split at h <;> cases h
  · intro h
    simp [find, hkey, h]

end Find

/-! ## The course of an `ensure` -/

section Ensure

variable {fs : StoreTree} {declared : Model} {key : ModelStorageKey}

/-- A key leads to the store root, to the workspace above it, or to a child of its own name. -/
theorem entryDir_cases (k : Text) : entryDir k = modelsDir ∨ entryDir k = [] ∨ entryDir k = modelsDir ++ [k] := by
  unfold entryDir
  split
  · exact .inl rfl
  · split
    · exact .inr (.inl rfl)
    · exact .inr (.inr rfl)

/-- A text that ends in the lock suffix is neither the manifest's name nor the payload's. -/
theorem append_lockSuffix_ne (t : Text) : t ++ lockSuffix ≠ manifestName ∧ t ++ lockSuffix ≠ blobsName := by
  have hlast : (t ++ lockSuffix).getLast? = some 'k' := by simp [lockSuffix]
  constructor <;> intro h <;> rw [h] at hlast <;> exact absurd hlast (by decide)

theorem lockEntry_apply (how : LockOutcome) {k : Text} {p : StorePath} (hlocks : ¬p <+: locksDir)
    (hlock : p ≠ locksDir ++ [k ++ lockSuffix]) : (lockEntry how k fs).2 p = fs p := by
  have hmk : mkdirAll locksDir fs p = fs p := mkdirAll_within _ _ p hlocks
  unfold lockEntry
  dsimp only
  split
  · rfl
  · split
    · exact hmk
    · exact (write_within _ _ _ p hlock).trans hmk

theorem manifestPath_not_lock (key : ModelStorageKey) (k : Text) :
    ¬manifestPath key <+: locksDir ∧ manifestPath key ≠ locksDir ++ [k ++ lockSuffix] := by
  have hlen : ∀ t : Text, (locksDir ++ [t]).length = 3 := fun _ => rfl
  unfold manifestPath
  rcases entryDir_cases key.text with h | h | h <;> rw [h]
  · exact ⟨by decide, fun heq => absurd ((congrArg List.length heq).trans (hlen _)) (by decide)⟩
  · exact ⟨by decide, fun heq => absurd ((congrArg List.length heq).trans (hlen _)) (by decide)⟩
  refine ⟨fun hpre => absurd hpre.length_le (by simp [modelsDir, locksDir]), fun heq => ?_⟩
  have hname : manifestName = k ++ lockSuffix := by simpa [modelsDir, locksDir] using congrArg List.getLast? heq
  exact (append_lockSuffix_ne k).1 hname.symm

/-- Taking the entry's lock does not change what is found. -/
theorem find_lockEntry (how : LockOutcome) (k : Text) (declared : Model) :
    find (lockEntry how k fs).2 declared = find fs declared := by
  cases hkey : of declared with
  | none => simp [find, hkey]
  | some key =>
    obtain ⟨hlocks, hlock⟩ := manifestPath_not_lock key k
    have h := @lockEntry_apply fs how k _ hlocks hlock
    simp only [find, hkey, h, readManifest_congr h]

theorem ensure_error {err : ModelStoreError} (hfind : find fs declared = .error err)
    (hparse : ∀ path, err ≠ .parse path) : ensure os declared fs = (.error err, fs) := by
  have hintact : findIntact fs declared = .error err := by
    cases err with
    | parse path => exact absurd rfl (hparse path)
    | _ => simp [findIntact, hfind]
  simp [ensure, hintact]

theorem ensure_hit (hfind : find fs declared = .ok (some manifest)) :
    ensure os declared fs = (.ok (touch os.now os.rewrite manifest fs).1, (touch os.now os.rewrite manifest fs).2) := by
  simp [ensure, findIntact, hfind]

theorem ensure_miss (hkey : of declared = some key) (hfind : find fs declared = .ok none) :
    ensure os declared fs =
      if (lockEntry os.lock key.text fs).1 then fetchAndPublish os.publish declared (lockEntry os.lock key.text fs).2
      else (.error .fetch, (lockEntry os.lock key.text fs).2) := by
  have hagain : find (lockEntry os.lock key.text fs).2 declared = .ok none := (find_lockEntry _ _ _).trans hfind
  cases hl : lockEntry os.lock key.text fs with
  | mk got fs' =>
    rw [hl] at hagain
    cases got <;> simp [ensure, findIntact, hfind, hkey, hl, hagain]

theorem ensure_torn (hkey : of declared = some key) (hfind : find fs declared = .error (.parse path)) :
    ensure os declared fs = if (lockEntry os.lock key.text fs).1 then
        let removed := removeEntryDir os.tornKeeps key.text (lockEntry os.lock key.text fs).2
        if removed.1 then fetchAndPublish os.publish declared removed.2 else (.error .io, removed.2)
      else (.error .fetch, (lockEntry os.lock key.text fs).2) := by
  have hagain : find (lockEntry os.lock key.text fs).2 declared = .error (.parse path) := (find_lockEntry _ _ _).trans hfind
  cases hl : lockEntry os.lock key.text fs with
  | mk got fs' =>
    rw [hl] at hagain
    cases got with
    | false => simp [ensure, findIntact, hfind, hkey, hl]
    | true =>
      cases hr : removeEntryDir os.tornKeeps key.text fs' with
      | mk gone fs'' => cases gone <;> simp [ensure, findIntact, hfind, hkey, hl, hagain, hr]

@[simp] theorem touch_fst (now : Int) (how : Rewrite) (m : ModelManifest) :
    (touch now how m fs).1 = { m with lastUsedAt := now } := by
  simp only [touch]
  split <;> rfl

/-- An `ensure` that succeeds found the model, or fetched it. -/
theorem ensure_ok {os : EnsureOs} {fs' : StoreTree} (hkey : of declared = some key)
    (h : ensure os declared fs = (.ok manifest, fs')) :
    (∃ m, find fs declared = .ok (some m) ∧ touch os.now os.rewrite m fs = (manifest, fs')) ∨
      (∀ m, find fs declared ≠ .ok (some m)) ∧ ∃ fs₁, fetchAndPublish os.publish declared fs₁ = (.ok manifest, fs') := by
  cases hfind : find fs declared with
  | ok found =>
    cases found with
    | some m =>
      rw [ensure_hit os hfind, Prod.mk.injEq] at h
      exact .inl ⟨m, rfl, Prod.ext (Except.ok.inj h.1) h.2⟩
    | none =>
      rw [ensure_miss os hkey hfind] at h
      split at h
      · exact .inr ⟨fun m => by simp, _, h⟩
      · cases h
  | error err =>
    refine .inr ⟨fun m => by simp, ?_⟩
    by_cases hparse : ∃ path, err = .parse path
    · obtain ⟨path, rfl⟩ := hparse
      rw [ensure_torn os hkey hfind] at h
      split at h
      · dsimp only at h
        split at h
        · exact ⟨_, h⟩
        · cases h
      · cases h
    · rw [ensure_error os hfind fun path hp => hparse ⟨path, hp⟩] at h
      cases h

theorem fetchAndPublish_unresolved (os : PublishOs) {err : ModelStoredError} (hkey : of declared = some key)
    (hstored : toStored declared.withoutAuthToken key.blobsDir = .error err) :
    fetchAndPublish os declared fs = (.error (.unresolvedPath err), fs) := by
  simp [fetchAndPublish, hkey, hstored]

theorem fetchAndPublish_eq (os : PublishOs) {stored : Model} (hkey : of declared = some key)
    (hstored : toStored declared.withoutAuthToken key.blobsDir = .ok stored) :
    fetchAndPublish os declared fs = let manifest := newManifest os declared.withoutAuthToken stored
      let out := installDir os key.text (entryDir key.text) manifest fs
      (if out.1 then .ok manifest else .error .fetch, out.2) := by
  simp only [fetchAndPublish, of_withoutAuthToken, hkey, hstored]
  cases installDir os key.text (entryDir key.text) (newManifest os declared.withoutAuthToken stored) fs with
  | mk ok fs' => cases ok <;> rfl

end Ensure

end Pipette
