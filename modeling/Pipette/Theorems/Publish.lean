import Pipette.Lemmas.Publish

/-!
# What an `ensure` does to other entries

A publish removes what its key leads to before it renames, and a hit rewrites the manifest of the entry its declared model is
keyed to. So another entry keeps its manifest and payload exactly when the key is a proper name, or nothing gets as far as the
removal, and a manifest found was not filed away from its own key.
-/

namespace Pipette

open Files ModelStorageKey

/-- An entry of the store: a directory with a manifest. -/
def Published (fs : StoreTree) (n : Text) : Prop :=
  IsName n ∧ fs (modelsDir ++ [n]) = some .dir ∧ ∃ c, fs (modelsDir ++ [n, manifestName]) = some (.file c)

/-- Ensuring `declared` spares the entry `n`: a manifest found is not keyed to `n`, and where the entry is fetched its key is
a proper name, or nothing can be locked, stored or staged. -/
def Spares (fs : StoreTree) (declared : Model) (key : ModelStorageKey) (n : Text) : Prop :=
  match find fs declared with
  | .ok (some manifest) => ∀ k, of manifest.declared = some k → k.text ≠ n
  | .ok none =>
    IsName key.text ∨ ¬Lockable fs key.text ∨ (∃ err, toStored declared.withoutAuthToken key.blobsDir = .error err) ∨
      clear stagingDir fs = false
  | .error (.parse _) => IsName key.text ∨ ¬Lockable fs key.text
  | .error _ => True

section Sufficient

variable {fs : StoreTree} {declared : Model} {key : ModelStorageKey} {n u k : Text}

/-- Under `Spares` the entry keeps its manifest and payload however the `ensure` goes. -/
theorem sameEntry_of_spares (hkey : of declared = some key) (hne : n ≠ key.text)
    (h : Spares fs declared key n) (os : EnsureOs) : SameEntry n fs (ensure os declared fs).2 := by
  have hnamed : IsName key.text → (∀ m, find fs declared ≠ .ok (some m)) → SameEntry n fs (ensure os declared fs).2 :=
    fun hname hfind => SameEntry.of_within hne (ensure_within os hkey hname hfind)
  have hlock : SameEntry n fs (lockEntry os.lock key.text fs).2 := SameEntry.of_within hne (lockEntry_within _ _ _)
  unfold Spares at h
  split at h
  · next manifest hfind =>
    rw [ensure_hit os hfind]
    exact touch_sameEntry _ _ h
  · next hfind =>
    rcases h with hname | hlockable | ⟨err, hstored⟩ | hclear
    · exact hnamed hname fun m hm => by simp [hfind] at hm
    · rw [ensure_miss os hkey hfind, lockEntry_of_not_lockable _ hlockable]
      exact fun p _ => rfl
    · rw [ensure_miss os hkey hfind, fetchAndPublish_unresolved _ hkey hstored]
      split <;> exact hlock
    rw [ensure_miss os hkey hfind]
    split
    · cases hstored : toStored declared.withoutAuthToken key.blobsDir with
      | error err =>
        rw [fetchAndPublish_unresolved _ hkey hstored]
        exact hlock
      | ok stored =>
        rw [fetchAndPublish_eq _ hkey hstored]
        have hblocked := (clear_lockEntry os.lock key.text).trans hclear
        simp only [installDir, hblocked, if_true]
        exact hlock
    · exact hlock
  · next path hfind =>
    rcases h with hname | hlockable
    · exact hnamed hname fun m hm => by simp [hfind] at hm
    · rw [ensure_torn os hkey hfind, lockEntry_of_not_lockable _ hlockable]
      exact fun p _ => rfl
  · next err hfind =>
    rw [ensure_error os hfind (by assumption)]
    exact fun p _ => rfl

end Sufficient

section Necessary

variable {fs : StoreTree} {declared : Model} {key : ModelStorageKey}

/-- With the target at the store root or above, the staged directory is gone before the rename, and every entry. -/
theorem publishStaged_wipes (now : Int) (hk : ¬IsName k) (hthere : (fs (entryDir k)).isSome) (p : StorePath) :
    (publishStaged (goodOs now u true).publish k (entryDir k) fs).2 (modelsDir ++ p) = none := by
  have htarget := entryDir_prefix_of_not_isName hk
  have hgone : ∀ q, remove keepNone (entryDir k) fs (modelsDir ++ q) = none := fun q => remove_below (htarget q) fs
  have hstaged : remove keepNone (entryDir k) fs (stagedDir (goodOs now u true).publish k) = none := hgone _
  have hreplace : replaceStagedPath (goodOs now u true).publish (stagedDir (goodOs now u true).publish k) (entryDir k) fs =
      (false, remove keepNone (entryDir k) fs) := by
    unfold replaceStagedPath
    rw [if_pos hthere]
    rw [moveIntoPlace, hstaged]
    rfl
  unfold publishStaged
  rw [hreplace]
  exact remove_eq_none (remove_eq_none (remove_eq_none (hgone p) _ _) _ _) _ _

theorem installDir_wipes (now : Int) (manifest : ModelManifest) (hk : ¬IsName k)
    (hclear : clear stagingDir fs) (hfree : FreeName fs k u) (p : StorePath) :
    (installDir (goodOs now u true).publish k (entryDir k) manifest fs).2 (modelsDir ++ p) = none := by
  have htarget : entryDir k <+: modelsDir := by simpa using entryDir_prefix_of_not_isName hk []
  have hlen : (entryDir k).length ≤ 2 := htarget.length_le.trans (by decide)
  have hmade : (mkdirAll stagingDir fs (entryDir k)).isSome :=
    mkdirAll_above (htarget.trans (List.prefix_append _ _)) fs
  have hthere := fillStaged_isSome (goodOs now u true).publish k hlen hmade
  rw [installDir_good hclear hfree]
  refine publishStaged_wipes now hk ?_ p
  unfold write
  split
  · rfl
  · exact hthere

/-- A hit stamps the entry its manifest's declared model is keyed to. -/
theorem ensure_hit_stamps (hpub : Published fs n) {manifest : ModelManifest} {k : ModelStorageKey}
    (hfind : find fs declared = .ok (some manifest)) (hk : of manifest.declared = some k) (hkn : k.text = n)
    (now : Int) (u : Text) : (ensure (goodOs now u true) declared fs).2 (modelsDir ++ [n, manifestName]) =
      some (.file (.manifest { manifest with lastUsedAt := now })) := by
  obtain ⟨hname, hdir, c, hfile⟩ := hpub
  have hentry : entryDir k.text = modelsDir ++ [n] := by rw [hkn, entryDir_of_isName hname]
  have hpath : modelsDir ++ [n] ++ [manifestName] = modelsDir ++ [n, manifestName] := by simp
  rw [ensure_hit _ hfind]
  simp only [touch, hk, hentry, rewriteManifest, hdir, hpath, hfile, goodOs]
  simp [write]

variable (hkey : of declared = some key)
include hkey

/-- A miss under a key that is no name empties the store. -/
theorem ensure_miss_wipes (hfind : find fs declared = .ok none)
    (hk : ¬IsName key.text) (hlockable : Lockable fs key.text) {stored : Model}
    (hstored : toStored declared.withoutAuthToken key.blobsDir = .ok stored) (hclear : clear stagingDir fs)
    (hfree : FreeName fs key.text u) (p : StorePath) : (ensure (goodOs 0 u true) declared fs).2 (modelsDir ++ p) = none := by
  have hgot : (lockEntry (goodOs 0 u true).lock key.text fs).1 := (lockEntry_locked hlockable).1
  rw [ensure_miss _ hkey hfind, if_pos hgot, fetchAndPublish_eq _ hkey hstored]
  exact installDir_wipes 0 _ hk ((clear_lockEntry _ _).trans hclear) (hfree.lockEntry _ _) p

/-- A torn manifest under a key that is no name has the whole store removed, even when nothing can be staged. -/
theorem ensure_torn_wipes {path : StorePath}
    (hfind : find fs declared = .error (.parse path)) (hk : ¬IsName key.text) (hlockable : Lockable fs key.text)
    {p : StorePath} (hp : 2 ≤ p.length) : (ensure (goodOs 0 [] false) declared fs).2 (modelsDir ++ p) = none := by
  obtain ⟨hgot, hdirs⟩ := lockEntry_locked hlockable
  have htarget := entryDir_prefix_of_not_isName hk
  have hthere : ((lockEntry .locked key.text fs).2 (entryDir key.text)).isSome :=
    hdirs _ ((by simpa using htarget [] : entryDir key.text <+: modelsDir).trans (List.prefix_append _ _))
  have hremoved : removeEntryDir none key.text (lockEntry .locked key.text fs).2 =
      (true, remove keepNone (entryDir key.text) (lockEntry .locked key.text fs).2) := by
    rw [removeEntryDir, if_neg (by simpa using Option.isSome_iff_ne_none.1 hthere)]
  have hgone := @remove_below _ _ _ _ _ (htarget p) (lockEntry .locked key.text fs).2
  rw [ensure_torn _ hkey hfind]
  simp only [goodOs, hgot, if_true, hremoved]
  cases hstored : toStored declared.withoutAuthToken key.blobsDir with
  | error err =>
    rw [fetchAndPublish_unresolved _ hkey hstored]
    exact hgone
  | ok stored =>
    rw [fetchAndPublish_eq _ hkey hstored]
    have hlen : ¬modelsDir ++ p <+: stagingDir := fun hpre => by
      have := hpre.length_le
      simp [modelsDir, stagingDir] at this
      omega
    simp only [installDir, canStage, Bool.false_and, if_true]
    split
    · exact hgone
    · exact (mkdirAll_within _ _ _ hlen).trans hgone

/-- Where an `ensure` does not spare an entry, some course of it changes the entry's manifest. -/
theorem spares_of_sameEntry (hpub : Published fs n)
    (hfree : FreeName fs key.text u) (h : ∀ os, SameEntry n fs (ensure os declared fs).2) : Spares fs declared key n := by
  obtain ⟨c, hfile⟩ := hpub.2.2
  have hsame : ∀ os, (ensure os declared fs).2 (modelsDir ++ [n, manifestName]) = some (.file c) := fun os =>
    (h os _ (.inl rfl)).trans hfile
  unfold Spares
  split
  · next manifest hfind =>
    intro k hk hkn
    -- two hits at different times cannot both leave the same manifest
    have h0 := (ensure_hit_stamps hpub hfind hk hkn 0 u).symm.trans (hsame _)
    have h1 := (ensure_hit_stamps hpub hfind hk hkn 1 u).symm.trans (hsame _)
    have hstamps := h0.trans h1.symm
    simp at hstamps
  · next hfind =>
    by_contra hn
    simp only [not_or, not_not] at hn
    obtain ⟨hnot, hlockable, hstored, hclear⟩ := hn
    cases hst : toStored declared.withoutAuthToken key.blobsDir with
    | error err => exact hstored ⟨err, hst⟩
    | ok stored =>
      have hgone := ensure_miss_wipes hkey hfind hnot hlockable hst (by simpa using hclear) hfree [n, manifestName]
      rw [hsame] at hgone
      cases hgone
  · next path hfind =>
    by_contra hn
    simp only [not_or, not_not] at hn
    have hgone := @ensure_torn_wipes fs declared key hkey path hfind hn.1 hn.2 [n, manifestName] (by simp)
    rw [hsame] at hgone
    cases hgone
  · trivial

omit hkey

end Necessary

/-- However its ensure goes, a model leaves another entry's manifest and payload as they were exactly when it spares it. -/
theorem ensure_keeps_entry_iff {fs : StoreTree} {declared : Model} {key : ModelStorageKey} {n u : Text}
    (hkey : of declared = some key) (hpub : Published fs n) (hne : n ≠ key.text)
    (hfree : FreeName fs key.text u) : (∀ os, SameEntry n fs (ensure os declared fs).2) ↔ Spares fs declared key n :=
  ⟨spares_of_sameEntry hkey hpub hfree, fun h os => sameEntry_of_spares hkey hne h os⟩

/-! ## A path without a safe character -/

/-- A weights file of a hub repo. -/
def hubWeights : Model :=
  .ggufText (.huggingFace ⟨⟨"meta", by decide⟩, ⟨"llama", by decide⟩, none, none⟩ ⟨"Q4.gguf", by decide⟩ none)

/-- Another weights file of the same repo. -/
def otherWeights : Model :=
  .ggufText (.huggingFace ⟨⟨"meta", by decide⟩, ⟨"llama", by decide⟩, none, none⟩ ⟨"Q8.gguf", by decide⟩ none)

def otherKey : ModelStorageKey := ⟨"meta__llama__Q8.gguf", List.all_eq_true.1 rfl⟩

/-- A weights file on the local disk none of whose characters is safe. -/
def localWeights : Model := .ggufText (.absoluteFile ⟨"/日本語", by decide⟩)

def hubWeightsName : Text := "meta__llama__Q4.gguf"

/-- The manifest of the weights of the hub. -/
def hubManifest : ModelManifest :=
  newManifest (goodOs 1 [] true).publish hubWeights
    (.ggufText (.relativeFile ⟨"meta__llama__Q4.gguf/blobs/Q4.gguf", by decide⟩))

/-- What stands in a store with the weights of the hub published in it. -/
def hubNodes : List (StorePath × Node Content) := [ ([], .dir), (modelsDir, .dir), (modelsDir ++ [hubWeightsName], .dir),
  (modelsDir ++ [hubWeightsName, manifestName], .file (.manifest hubManifest)),
  (modelsDir ++ [hubWeightsName, blobsName], .dir),
  (modelsDir ++ [hubWeightsName, blobsName, "Q4.gguf"], .file (.bytes "weights"))]

def hubStore : StoreTree := ofNodes hubNodes

theorem hubStore_published : Published hubStore hubWeightsName := ⟨by decide, by decide, .manifest hubManifest, by decide⟩

/-- Nothing is staged in it. -/
theorem hubStore_freeName (key : Text) : FreeName hubStore key [] := by
  have hnone : ∀ p, stagingDir <+: p → hubStore p = none := by
    intro p hp
    have hnodes : ∀ x ∈ hubNodes, ¬stagingDir <+: x.1 := by decide
    exact ofNodes_eq_none fun x hx hxp => hnodes x hx (hxp ▸ hp)
  exact ⟨hnone _ (List.prefix_append _ _), fun p hp => hnone p ((List.prefix_append _ _).trans hp)⟩

/-- The key is empty, so publishing removes the store root, and with it the published model. -/
theorem local_weights_empty_the_store : find hubStore hubWeights = .ok (some hubManifest) ∧
    (of localWeights).map (·.text) = some [] ∧ Published hubStore hubWeightsName ∧
    ¬SameEntry hubWeightsName hubStore (ensure (goodOs 2 [] true) localWeights hubStore).2 := by
  refine ⟨by decide, by decide, hubStore_published, ?_⟩
  intro hsame
  have hkept := hsame (modelsDir ++ [hubWeightsName, manifestName]) (.inl rfl)
  have hgone : (ensure (goodOs 2 [] true) localWeights hubStore).2 (modelsDir ++ [hubWeightsName, manifestName]) = none := by
    decide
  rw [hgone] at hkept
  obtain ⟨c, hfile⟩ := hubStore_published.2.2
  rw [hfile] at hkept
  cases hkept

/-- Fetching another file of the repo leaves the first as it was. -/
theorem other_weights_spare_entry : SameEntry hubWeightsName hubStore (ensure (goodOs 2 [] true) otherWeights hubStore).2 := by
  have hfind : find hubStore otherWeights = .ok none := by decide
  have hspares : Spares hubStore otherWeights otherKey hubWeightsName := by
    rw [Spares, hfind]
    exact .inl (by decide)
  have hiff := @ensure_keeps_entry_iff hubStore otherWeights otherKey hubWeightsName []
    (by decide) hubStore_published (by decide) (hubStore_freeName _)
  exact hiff.2 hspares (goodOs 2 [] true)

end Pipette
