import Pipette.Lemmas.Key
import Pipette.Lemmas.Manifests

/-!
# Which models a lookup serves

The key does not tell two models apart whose identities flatten to one slug. From an empty store on, every manifest stands
under the key of its declared model, which was ensured (`Filed`); so lookups among a set of models serve only the model asked
for exactly when no two of one type and different identity clash (`lookup_serves_iff`).
-/

namespace Pipette

open Files List ModelStorageKey Option Model

/-! ## What a model names -/

/-- No grant. -/
def VaultGrant.none : VaultGrant := ⟨[], .none⟩

/-- What the source names: without digests, credentials and grants. -/
def GgufTextSource.identity : GgufTextSource → GgufTextSource
  | .huggingFace repo path _ => .huggingFace repo.withoutAuthToken path none
  | .url link _ => .url link none
  | .vaultUrl link _ _ => .vaultUrl link none .none
  | source => source

@[inherit_doc GgufTextSource.identity]
def GgufVisionSource.identity : GgufVisionSource → GgufVisionSource
  | .huggingFace repo model mmproj _ _ => .huggingFace repo.withoutAuthToken model mmproj none none
  | .url model mmproj _ _ => .url model mmproj none none
  | .vaultUrl model mmproj _ _ _ => .vaultUrl model mmproj none none .none
  | source => source

@[inherit_doc GgufTextSource.identity]
def GgufVisionSpeculativeSource.identity : GgufVisionSpeculativeSource → GgufVisionSpeculativeSource
  | .huggingFace repo model mmproj _ _ draft _ => .huggingFace repo.withoutAuthToken model mmproj none none draft none
  | .url model mmproj _ _ draft _ => .url model mmproj none none draft none
  | .vaultUrl model mmproj _ _ _ draft _ => .vaultUrl model mmproj none none .none draft none
  | source => source

@[inherit_doc GgufTextSource.identity]
def ModelSource.identity : ModelSource → ModelSource
  | .huggingFace repo subdir => .huggingFace repo.withoutAuthToken subdir
  | .vaultArchive url _ _ => .vaultArchive url none .none
  | source => source

/-- The type and what the sources name. -/
def Model.identity : Model → Model
  | .ggufText source => .ggufText source.identity
  | .ggufVision source => .ggufVision source.identity
  | .ggufVisionSpeculative source => .ggufVisionSpeculative source.identity
  | .mlx source => .mlx source.identity
  | .mlxSpeculative target draft => .mlxSpeculative target.identity draft.identity
  | .appleCoreAi source => .appleCoreAi source.identity
  | .torch source => .torch source.identity
  | .torchSpeculative target draft => .torchSpeculative target.identity draft.identity
  | .openvino source => .openvino source.identity
  | .onnxGenai source => .onnxGenai source.identity
  | .appleFoundationText => .appleFoundationText

theorem ModelSource.identity_withoutAuthToken (source : ModelSource) : source.withoutAuthToken.identity = source.identity := by
  cases source <;> rfl

theorem Model.identity_withoutAuthToken (model : Model) : model.withoutAuthToken.identity = model.identity := by
  cases model with
  | ggufText source | ggufVision source | ggufVisionSpeculative source => cases source <;> rfl
  | appleFoundationText => rfl
  | _ => simp [withoutAuthToken, identity, ModelSource.identity_withoutAuthToken]

/-- The flattened identity of a model. -/
def slugOf (model : Model) : Option Text := (identitySegments model).map slugFrom

theorem ModelStorageKey.of_slug {model : Model} {key : ModelStorageKey} (h : of model = some key) :
    ∃ slug, slugOf model = some slug ∧ key.text = bound slug := by
  obtain ⟨segments, hsegments, rfl⟩ := map_eq_some_iff.1 h
  exact ⟨slugFrom segments, by simp [slugOf, hsegments], rfl⟩

theorem ModelStorageKey.of_of_slug {model : Model} {slug : Text} (h : slugOf model = some slug) :
    ∃ key, of model = some key ∧ key.text = bound slug := by
  obtain ⟨segments, hsegments, rfl⟩ := map_eq_some_iff.1 h
  exact ⟨.ofSegments segments, by simp [of, hsegments], rfl⟩

/-! ## Runs -/

/-- The store after these ensures, each with what the operating system and the fetch answered. -/
def ensures (steps : List (EnsureOs × Model)) (fs : StoreTree) : StoreTree :=
  steps.foldl (fun fs step => (ensure step.1 step.2 fs).2) fs

/-- Nothing below the store root, and no manifest beside it. -/
def EmptyStore (fs : StoreTree) : Prop := (∀ name q, fs (modelsDir ++ name :: q) = none) ∧ fs [manifestName] = none

/-- However models of `S` are ensured from an empty store, a lookup for one finds that model or none. -/
def ServesOnly (S : Model → Prop) : Prop :=
  ∀ fs, EmptyStore fs → ∀ steps : List (EnsureOs × Model), (∀ step ∈ steps, S step.2) → ∀ declared, S declared →
    ∀ m, find (ensures steps fs) declared = .ok (some m) →
      ModelType.of m.declared = ModelType.of declared ∧ m.declared.identity = declared.identity

/-- No two models of `S` of one type, the first of which can be published, have clashing slugs unless they name the same. -/
def NoClash (S : Model → Prop) : Prop :=
  ∀ a b, S a → S b → ModelType.of a = ModelType.of b → Publishable a →
    ∀ s t, slugOf a = some s → slugOf b = some t → Clash s t → a.identity = b.identity

/-- Every manifest where the store looks is that of a model of `S`, under its key. -/
def Filed (S : Model → Prop) (fs : StoreTree) : Prop :=
  ∀ p, Watched p → ∀ record, fs p = some (.file (.manifest record)) →
    ∃ a key, S a ∧ Publishable a ∧ ModelStorageKey.of a = some key ∧ p = modelsDir ++ [key.text, manifestName] ∧
      record.declared = a.withoutAuthToken

section Filed

variable {S : Model → Prop} {fs : StoreTree} {declared : Model} {key : ModelStorageKey} {m : ModelManifest}

theorem filed_of_emptyStore (h : EmptyStore fs) : Filed S fs := by
  intro p hp record hfile
  rcases hp with rfl | rfl | ⟨n, rfl⟩
  · simp [h.2] at hfile
  · simp [h.1 manifestName []] at hfile
  · simp [h.1 n [manifestName]] at hfile

/-- What a lookup finds is the manifest of a model of `S` with the key asked for. -/
theorem Filed.find (h : Filed S fs) (hkey : of declared = some key)
    (hfind : Pipette.find fs declared = .ok (some m)) :
    ∃ a, S a ∧ Publishable a ∧ of a = some key ∧ IsName key.text ∧ m.declared = a.withoutAuthToken := by
  obtain ⟨record, hfile, hm, _⟩ := readManifest_ok (find_ok_some hkey hfind).1
  obtain ⟨a, ka, hS, hpub, hka, hpath, hrecord⟩ := h _ (manifestPath_watched key) record hfile
  have hdir : entryDir key.text = modelsDir ++ [ka.text] := by
    have hsplit : entryDir key.text ++ [manifestName] = (modelsDir ++ [ka.text]) ++ [manifestName] := by
      simpa [manifestPath] using hpath
    exact append_cancel_right hsplit
  have hname : key = ka := by
    rcases entryDir_cases key.text with he | he | he <;> rw [he] at hdir
    · cases congrArg length hdir
    · cases congrArg length hdir
    · exact ModelStorageKey.ext (by simpa using hdir)
  subst hname
  have hisName : IsName key.text := by
    obtain ⟨key', _, hkey', hisName, _⟩ := hpub
    rwa [some.inj (hka.symm.trans hkey')]
  refine ⟨a, hS, hpub, hka, hisName, ?_⟩
  rw [hm]
  exact (congrArg withoutAuthToken hrecord).trans (withoutAuthToken_idem a)

/-- One `ensure` of a model of `S` keeps every manifest filed. -/
theorem Filed.ensure (h : Filed S fs) (os : EnsureOs) (hS : S declared) : Filed S (Pipette.ensure os declared fs).2 := by
  cases hkey : of declared with
  | none =>
    have hfind : Pipette.find fs declared = .error .notStorable := by simp [Pipette.find, hkey]
    rw [ensure_error os hfind fun path hp => by cases hp]
    exact h
  | some key =>
    intro p hp record hfile
    rcases ensure_manifest hp hkey hfile with hold | ⟨m, k, hfind, hrecord, hk, hpath⟩ | ⟨hpath, hrecord, hpub⟩
    · exact h p hp record hold
    · obtain ⟨a, hSa, hpub, hka, hname, hm⟩ := h.find hkey hfind
      obtain rfl : key = k := by
        rw [hm, of_withoutAuthToken, hka] at hk
        exact some.inj hk
      refine ⟨a, key, hSa, hpub, hka, ?_, hrecord.trans hm⟩
      rw [hpath, manifestPath, entryDir_of_isName hname, append_assoc]
      rfl
    · exact ⟨declared, key, hS, hpub, hkey, hpath, hrecord⟩

/-- A run of ensures of models of `S` keeps every manifest filed. -/
theorem Filed.ensures (h : Filed S fs) {steps : List (EnsureOs × Model)} (hS : ∀ step ∈ steps, S step.2) :
    Filed S (Pipette.ensures steps fs) := by
  induction steps generalizing fs with
  | nil => exact h
  | cons step steps ih => exact ih (h.ensure step.1 (hS step mem_cons_self)) fun s hs => hS s (mem_cons_of_mem _ hs)

end Filed

section Serving

variable {S : Model → Prop}

/-- Models that share a key clash, if their hashes tell their slugs apart; and then they share it. -/
theorem of_eq_of_iff {a b : Model} {s t : Text} (hs : slugOf a = some s) (ht : slugOf b = some t)
    (hhash : hashTail s = hashTail t → s = t) : of a = of b ↔ Clash s t := by
  obtain ⟨ka, hka, hta⟩ := of_of_slug hs
  obtain ⟨kb, hkb, htb⟩ := of_of_slug ht
  rw [← bound_eq_iff hhash, hka, hkb, some.injEq, ModelStorageKey.ext_iff, hta, htb]

theorem servesOnly_of_noClash (hhash : ∀ a b, S a → S b → ∀ s t, slugOf a = some s → slugOf b = some t →
    hashTail s = hashTail t → s = t) (h : NoClash S) : ServesOnly S := by
  intro fs hempty steps hsteps declared hS m hfind
  cases hkey : of declared with
  | none => simp [find, hkey] at hfind
  | some key =>
    have hfiled : Filed S (ensures steps fs) := (filed_of_emptyStore hempty).ensures hsteps
    obtain ⟨a, hSa, hpub, hka, _, hm⟩ := hfiled.find hkey hfind
    have htype := (find_ok_some hkey hfind).2
    obtain ⟨s, hs, _⟩ := of_slug hka
    obtain ⟨t, ht, _⟩ := of_slug hkey
    have hclash : Clash s t := (of_eq_of_iff hs ht (hhash a declared hSa hS s t hs ht)).1 (hka.trans hkey.symm)
    have hatype : ModelType.of a = ModelType.of declared := by rw [← htype, hm, ModelType.of_withoutAuthToken]
    refine ⟨htype, ?_⟩
    rw [hm, identity_withoutAuthToken]
    exact h a declared hSa hS hatype hpub s t hs ht hclash

/-- Ensuring one of two models that clash makes a lookup for the other find it. -/
theorem noClash_of_servesOnly (h : ServesOnly S) : NoClash S := by
  intro a b hSa hSb htype hpub s t hs ht hclash
  obtain ⟨ka, hka, hta⟩ := of_of_slug hs
  obtain ⟨kb, hkb, htb⟩ := of_of_slug ht
  obtain rfl : ka = kb := ModelStorageKey.ext (by rw [hta, htb, bound_eq_of_clash hclash])
  have hname : IsName ka.text := by
    obtain ⟨key, _, hkey, hname, _⟩ := hpub
    rwa [some.inj (hka.symm.trans hkey)]
  obtain ⟨m, hok, hm⟩ := ensure_good hpub 0
  have hfind : find bareWorkspace a = .ok none := by
    rw [find_ok_none_iff hka, manifestPath, entryDir_of_isName hname, append_assoc]
    exact bareWorkspace_models _
  have hstands : Stands (ensure (goodOs 0 [] true) a bareWorkspace).2 ka m := by
    rcases ensure_ok hka (Prod.ext hok rfl) with ⟨found, hfound, _⟩ | ⟨_, fs₁, hpublished⟩
    · simp [hfind] at hfound
    · exact (fetchAndPublish_stands hka hpublished).1
  have hserved := find_of_stands hkb hname hstands (by rw [hm, ModelType.of_withoutAuthToken, htype])
  have hempty : EmptyStore bareWorkspace := ⟨fun name q => bareWorkspace_models (name :: q), by decide⟩
  have hsame := (h bareWorkspace hempty [(goodOs 0 [] true, a)] (by simpa using hSa) b hSb m hserved).2
  rwa [hm, identity_withoutAuthToken] at hsame

end Serving

/-- Lookups among the models of `S`, after any ensures of them from an empty store, serve only the model asked for exactly
when no two of them clash. -/
theorem lookup_serves_iff {S : Model → Prop} (hhash : ∀ a b, S a → S b → ∀ s t, slugOf a = some s → slugOf b = some t →
    hashTail s = hashTail t → s = t) : ServesOnly S ↔ NoClash S :=
  ⟨noClash_of_servesOnly, servesOnly_of_noClash hhash⟩

/-! ## A revision and a subdirectory -/

/-- The repo at a revision. -/
def atRevision : Model :=
  .torch (.huggingFace ⟨⟨"org", by decide⟩, ⟨"repo", by decide⟩, some ⟨"x", by decide⟩, none⟩ none)

/-- The subdirectory of that name. -/
def inSubdir : Model :=
  .torch (.huggingFace ⟨⟨"org", by decide⟩, ⟨"repo", by decide⟩, none, none⟩ (some ⟨"x", by decide⟩))

/-- Both flatten to `org__repo__x`: once the revision is stored, the subdirectory is served from it. -/
theorem revision_served_for_subdir :
    ∃ m, find (ensures [(goodOs 0 [] true, atRevision)] bareWorkspace) inSubdir = .ok (some m) ∧
      EmptyStore bareWorkspace ∧ m.declared.identity ≠ inSubdir.identity := by
  refine ⟨newManifest (goodOs 0 [] true).publish atRevision
    (.torch (.relativeDir ⟨"org__repo__x/blobs", by decide⟩)), by decide, ?_, by decide⟩
  exact ⟨fun name q => bareWorkspace_models (name :: q), by decide⟩

/-- The whole repo. -/
def wholeRepo : Model := .torch (.huggingFace ⟨⟨"org", by decide⟩, ⟨"repo", by decide⟩, none, none⟩ none)

/-- A revision and the whole repo do not clash, so neither is served for the other. -/
theorem revision_and_repo_served : ServesOnly (· ∈ [atRevision, wholeRepo]) := by
  have hrev : slugOf atRevision = some "org__repo__x" := by decide
  have hrepo : slugOf wholeRepo = some "org__repo" := by decide
  have hslugs : ∀ a ∈ [atRevision, wholeRepo], ∀ s, slugOf a = some s →
      a = atRevision ∧ s = "org__repo__x" ∨ a = wholeRepo ∧ s = "org__repo" := by
    intro a ha s hs
    rcases mem_cons.1 ha with rfl | ha
    · exact .inl ⟨rfl, some.inj (hs.symm.trans hrev)⟩
    · obtain rfl := mem_singleton.1 ha
      exact .inr ⟨rfl, some.inj (hs.symm.trans hrepo)⟩
  have hhash : hashTail "org__repo__x" ≠ hashTail "org__repo" := by decide
  refine (lookup_serves_iff ?_).2 ?_
  · intro a b ha hb s t hs ht heq
    rcases hslugs a ha s hs with ⟨_, rfl⟩ | ⟨_, rfl⟩ <;> rcases hslugs b hb t ht with ⟨_, rfl⟩ | ⟨_, rfl⟩
    · rfl
    · exact absurd heq hhash
    · exact absurd heq.symm hhash
    · rfl
  · intro a b ha hb _ _ s t hs ht hclash
    rcases hslugs a ha s hs with ⟨rfl, rfl⟩ | ⟨rfl, rfl⟩ <;> rcases hslugs b hb t ht with ⟨rfl, rfl⟩ | ⟨rfl, rfl⟩
    · rfl
    · exact absurd hclash (by decide)
    · exact absurd hclash (by decide)
    · rfl

end Pipette
