import Pipette.Lemmas.ModelStore
import Pipette.Store.Processes

/-!
# Models as artifacts of a shared store

The model store as an instance of the stores that processes share: its keys, the checks on a manifest that is read, and the
manifest that a fetch writes.
-/

namespace Pipette

open Files ModelStorageKey

/-- A model that has a storage key. -/
structure StorableModel where
  declared : Model
  key : ModelStorageKey
  keyed : of declared = some key

namespace StorableModel

/-- The stored form of the model, if it has one. -/
def stored (a : StorableModel) : Except ModelStoredError Model := toStored a.declared.withoutAuthToken a.key.blobsDir

/-- The manifest of a fetch of the model. -/
def manifest (a : StorableModel) (now : Int) (blobsBytes : Nat) : ModelManifest where
  manifestVersion := manifestVersion
  fetchedAt := now
  lastUsedAt := now
  declared := a.declared.withoutAuthToken
  stored := a.stored.toOption.getD a.declared
  blobsBytes := some blobsBytes

end StorableModel

/-- The checks of a manifest: its version, that its model can be stored, and that the stored form is that model's. -/
def checkManifest (m : ModelManifest) : Bool :=
  m.manifestVersion = manifestVersion &&
    match of m.declared with
    | none => false
    | some key => (toStored m.declared key.blobsDir).toOption = some m.stored

namespace Shared

/-- The models of the store. -/
def modelArtifacts : Artifacts StorableModel ModelManifest where
  store _ := .models
  key a := a.key.text
  policy := checkManifest
  fits a m := ModelType.of m.declared = ModelType.of a.declared
  home m := (of m.declared).elim [] (·.text)
  binds a := a.stored.toOption.isSome
  make a now n := a.manifest now n
  stamp now m := { m with lastUsedAt := now }
  policy_make a now n hbinds := by
    obtain ⟨stored, hstored⟩ := Option.isSome_iff_exists.1 hbinds
    have hform : (toStored a.declared.withoutAuthToken a.key.blobsDir).toOption = some stored := hstored
    simp [checkManifest, StorableModel.manifest, of_withoutAuthToken, a.keyed, hform, hstored]
  fits_make a now n := by simp [StorableModel.manifest, ModelType.of_withoutAuthToken]
  home_make a now n := by simp [StorableModel.manifest, of_withoutAuthToken, a.keyed]
  policy_stamp _ _ := rfl
  fits_stamp _ _ _ := rfl
  home_stamp _ _ := rfl

end Shared

end Pipette
