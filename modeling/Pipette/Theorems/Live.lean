import Pipette.Lemmas.Key
import Pipette.Lemmas.Published
import Pipette.Lemmas.Spared
import Pipette.Store.Survey

/-!
# Whether a published model counts as live

The survey and the listing take a name that begins with a dot for one of the store's own, and the key of a manifest for that
of its declared model. So after an `ensure` the survey, a sweep that pins the model and the listing see its entry exactly when
its key begins with another character and no manifest found under it was another model's (`counted_live_iff`).
-/

namespace Pipette

open Files List ModelStorageKey

/-- What the survey scans are the children of the store root. -/
def Scan.Lists (scan : Scan) (fs : StoreTree) : Prop :=
  ∀ name, name ∈ scan.names ↔ IsName name ∧ (fs (modelsDir ++ [name])).isSome

/-- The same manifest but for when it was last used. -/
def SameRecord (a b : ModelManifest) : Prop := { b with lastUsedAt := a.lastUsedAt } = a

/-- Where the entry of the model `key` stands. -/
def modelPlace (key : ModelStorageKey) : Place := .child .models key.text

/-- The listing has the manifest, or fails over another entry's. -/
def Listed (fs : StoreTree) (names : List Text) (key : ModelStorageKey) (manifest : ModelManifest) : Prop :=
  ∀ display, match list fs names display with
    | .ok manifests => ∃ m ∈ manifests, SameRecord m manifest
    | .error err => ∃ name ∈ names, name ≠ key.text ∧ readManifest fs (modelsDir ++ [name, manifestName]) = .error err

/-- The survey finds a model with this key there and no garbage, no sweep that pins the key removes it, whatever the runtimes
store holds, and the listing has it. -/
structure CountedLive (fs : StoreTree) (scan : Scan) (key : ModelStorageKey) (manifest : ModelManifest) : Prop where
  surveyed : ∃ e ∈ scanStore fs scan, e.path = modelPlace key ∧ ∃ used, e.kind = .model key.text used manifest.fetchedAt
  noGarbage : ∀ e ∈ scanStore fs scan, e.path = modelPlace key → e.kind.isGarbage = false
  pinned : ∀ (os : Removals) (quota fuel : Nat) (pins : SweepPins) (runtimes : List StorageEntry)
    (out : SweepPlan × SweepReport × List StorageEntry), key.text ∈ pins.models → (∀ e ∈ runtimes, e.path ≠ modelPlace key) →
    sweep os quota pins fuel (scanStore fs scan ++ runtimes) = some out → ∀ e ∈ out.2.1.removed, e.path ≠ modelPlace key
  listed : Listed fs scan.names key manifest

/-- The key begins with a character other than a dot. -/
def Visible (key : ModelStorageKey) : Prop := key.text ≠ [] ∧ key.text.head? ≠ some '.'

section Reading

variable {fs : StoreTree} {scan : Scan} {key : ModelStorageKey} {m manifest : ModelManifest}

theorem Visible.isName (h : Visible key) : IsName key.text := by
  refine ⟨h.1, ?_, ?_⟩ <;> intro hk <;> exact h.2 (by rw [hk]; rfl)

theorem Visible.not_own (h : Visible key) : key.text ≠ stagingName ∧ key.text ≠ locksName := by
  constructor <;> intro hk <;> exact h.2 (by rw [hk]; rfl)

/-- What the survey makes of a child that is none of the store's own directories. -/
def surveyed (fs : StoreTree) (scan : Scan) (name : Text) : StorageEntry :=
  (nonEntry fs scan name).getD (modelEntry fs scan name)

theorem surveyed_path (fs : StoreTree) (scan : Scan) (name : Text) : (surveyed fs scan name).path = .child .models name := by
  unfold surveyed nonEntry modelEntry
  repeat' split
  all_goals rfl

variable {e : StorageEntry} {now : Int} {how : Rewrite}

/-- Crashed fetches are garbage, below `.staging`. -/
theorem mem_stagingOrphans (h : e ∈ stagingOrphans fs scan) : e.path.isStaged := by
  obtain ⟨name, _, heq⟩ := mem_filterMap.1 h
  split at heq
  · cases heq
    rfl
  split at heq
  · cases heq
  · cases heq
    rfl

/-- A child of the root that the survey finds is what it made of that name. -/
theorem mem_scanStore_child {name : Text} (hpath : e.path = .child .models name) :
    e ∈ scanStore fs scan ↔ name ∈ scan.names ∧ name ≠ stagingName ∧ name ≠ locksName ∧ e = surveyed fs scan name := by
  constructor
  · intro h
    obtain ⟨n, hn, he⟩ := mem_flatMap.1 h
    split at he
    · have hstaged := mem_stagingOrphans he
      rw [hpath] at hstaged
      cases hstaged
    · next hstaging =>
      split at he
      · simp at he
      · next hlocks =>
        obtain rfl := mem_singleton.1 he
        have hname : n = name := by
          have hchild := (surveyed_path fs scan n).symm.trans hpath
          cases hchild
          rfl
        subst hname
        exact ⟨hn, hstaging, hlocks, rfl⟩
  · rintro ⟨hn, hstaging, hlocks, rfl⟩
    refine mem_flatMap.2 ⟨name, hn, ?_⟩
    rw [if_neg hstaging, if_neg hlocks]
    exact mem_singleton.2 rfl

/-- A visible entry with its own model's manifest and the payload there is a model to the survey. -/
theorem surveyed_of_stands (hv : Visible key) (hs : Stands fs key m) (hk : of m.declared = some key)
    (hpay : payloadPresent fs m) : (surveyed fs scan key.text).kind = .model key.text m.lastUsedAt m.fetchedAt := by
  obtain ⟨hdir, hread⟩ := hs
  obtain ⟨record, hfile, _⟩ := readManifest_ok hread
  have hentry : nonEntry fs scan key.text = none := by simp [nonEntry, hdir, hv.2, hfile]
  simp [surveyed, hentry, modelEntry, hread, hk, hpay]

/-- What the survey takes for a model has a visible name and a manifest of a model with that key. -/
theorem stands_of_surveyed {k : Text} {used fetched : Int} (h : (surveyed fs scan key.text).kind = .model k used fetched) :
    key.text.head? ≠ some '.' ∧ ∃ m key', readManifest fs (modelsDir ++ [key.text, manifestName]) = .ok m ∧
      of m.declared = some key' ∧ key'.text = k := by
  unfold surveyed nonEntry at h
  split at h
  · cases h
  split at h
  · cases h
  · next hdot =>
    split at h
    · cases h
    refine ⟨hdot, ?_⟩
    unfold modelEntry at h
    split at h
    · cases h
    · next m hread =>
      split at h
      · cases h
      · next key' hkey' =>
        split at h
        · cases h
        · cases h
          exact ⟨m, key', hread, hkey', rfl⟩

/-- Reading a list of manifests gives one for each name, or the error of one of them. -/
theorem mapM_except {α β ε : Type} (f : α → Except ε β) (xs : List α) :
    match xs.mapM f with
    | .ok ys => ∀ x ∈ xs, ∃ y ∈ ys, f x = .ok y
    | .error err => ∃ x ∈ xs, f x = .error err := by
  induction xs with
  | nil => simp [pure, Except.pure]
  | cons x xs ih =>
    rw [mapM_cons]
    cases hx : f x with
    | error err => exact ⟨x, mem_cons_self, hx⟩
    | ok y =>
      cases hxs : xs.mapM f with
      | error err =>
        rw [hxs] at ih
        exact ih.imp fun z hz => ⟨mem_cons_of_mem _ hz.1, hz.2⟩
      | ok ys =>
        rw [hxs] at ih
        refine forall_mem_cons.2 ⟨⟨y, mem_cons_self, hx⟩, fun z hz => ?_⟩
        exact (ih z hz).imp fun w hw => ⟨mem_cons_of_mem _ hw.1, hw.2⟩

theorem listed_of_stands (hv : Visible key) (hs : Stands fs key m) (hsame : SameRecord m manifest) {names : List Text}
    (hmem : key.text ∈ names) : Listed fs names key manifest := by
  intro display
  obtain ⟨record, hfile, _⟩ := readManifest_ok hs.2
  unfold list
  set kept := names.filter fun name => name.head? ≠ some '.' && (fs (modelsDir ++ [name, manifestName])).isSome
  have hkept : key.text ∈ kept := mem_filter.2 ⟨hmem, by simp [hv.2, hfile]⟩
  have hread := mapM_except (fun name => readManifest fs (modelsDir ++ [name, manifestName])) kept
  cases hmap : kept.mapM fun name => readManifest fs (modelsDir ++ [name, manifestName]) with
  | error err =>
    rw [hmap] at hread
    obtain ⟨name, hname, herr⟩ := hread
    refine ⟨name, mem_of_mem_filter hname, ?_, herr⟩
    rintro rfl
    rw [hs.2] at herr
    cases herr
  | ok manifests =>
    rw [hmap] at hread
    obtain ⟨m', hm', hok⟩ := hread _ hkept
    cases hs.2.symm.trans hok
    exact ⟨m, mem_mergeSort.2 hm', hsame⟩

/-- A visible entry that stands with its own model's manifest and its payload counts as live. -/
theorem countedLive_of_stands (hscan : scan.Lists fs) (hv : Visible key) (hs : Stands fs key m)
    (hk : of m.declared = some key) (hpay : payloadPresent fs m) (hsame : SameRecord m manifest) :
    CountedLive fs scan key manifest := by
  have hmem : key.text ∈ scan.names := (hscan _).2 ⟨hv.isName, by simp [hs.1]⟩
  have hkind := @surveyed_of_stands fs scan key m hv hs hk hpay
  have hfetched : m.fetchedAt = manifest.fetchedAt := (congrArg ModelManifest.fetchedAt hsame).symm
  have honly : ∀ e ∈ scanStore fs scan, e.path = modelPlace key → e.kind = .model key.text m.lastUsedAt m.fetchedAt := by
    intro e he hpath
    obtain ⟨_, _, _, rfl⟩ := (mem_scanStore_child hpath).1 he
    exact hkind
  refine ⟨⟨surveyed fs scan key.text, ?_, surveyed_path _ _ _, m.lastUsedAt, ?_⟩, ?_, ?_, listed_of_stands hv hs hsame hmem⟩
  · exact (mem_scanStore_child (surveyed_path _ _ _)).2 ⟨hmem, hv.not_own.1, hv.not_own.2, rfl⟩
  · rw [hkind, hfetched]
  · intro e he hpath
    rw [honly e he hpath]
    rfl
  · intro os quota fuel pins runtimes out hpin hruntimes hrun
    refine sweepLoop_spares rfl ?_ (by simp [SweepReport.empty]) hrun
    refine forall_mem_append.2 ⟨fun e he hpath => ?_, fun e he hpath => absurd hpath (hruntimes e he)⟩
    simp [isCandidate, honly e he hpath, hpin]

end Reading

section Ensuring

variable {fs fs' : StoreTree} {declared : Model} {key : ModelStorageKey} {m manifest : ModelManifest}

/-- A manifest found, stamped or not, stands under its key, if that is where it was found. -/
theorem touch_stands (hfs : Rooted fs) (hv : Visible key)
    (hread : readManifest fs (modelsDir ++ [key.text, manifestName]) = .ok m) (hk : of m.declared = some key)
    (h : touch now how m fs = (manifest, fs')) : ∃ m', Stands fs' key m' ∧ SameRecord m' manifest := by
  obtain ⟨record, hfile, hm, hversion, key', hkey', hstored⟩ := readManifest_ok hread
  cases hk.symm.trans hkey'
  have hdir : fs (modelsDir ++ [key.text]) = some .dir := hfs _ manifestName (by simp [hfile])
  have hpath : modelsDir ++ [key.text] ++ [manifestName] = modelsDir ++ [key.text, manifestName] := by simp
  have hauth : m.declared.withoutAuthToken = m.declared := by rw [hm]; exact Model.withoutAuthToken_idem _
  simp only [touch, hk, Prod.mk.injEq] at h
  obtain ⟨rfl, rfl⟩ := h
  rw [entryDir_of_isName hv.isName]
  unfold rewriteManifest
  rw [if_neg (by simp [hdir]), hpath]
  have hother : ∀ x : Text, modelsDir ++ [key.text] ≠ modelsDir ++ [key.text] ++ [x] := fun x hx => by
    simpa using congrArg length hx
  split
  · rw [if_neg (by simp [hfile])]
    refine ⟨{ m with lastUsedAt := now }, ⟨?_, ?_⟩, rfl⟩
    · rw [write_within _ _ _ _ (by rw [← hpath]; exact hother _), hdir]
    · exact readManifest_of_file (by simp [write]) hauth hversion hk hstored
  · exact ⟨m, ⟨hdir, hread⟩, rfl⟩
  · next unique =>
    have htemp : modelsDir ++ [key.text, manifestName] ≠
        modelsDir ++ [key.text] ++ [manifestName ++ '.' :: unique ++ ".tmp"] := by
      intro hx
      have hname : manifestName = manifestName ++ '.' :: unique ++ ".tmp" := by
        simpa [modelsDir] using congrArg getLast? hx
      simpa using congrArg length hname
    refine ⟨m, ⟨?_, ?_⟩, rfl⟩
    · rw [write_within _ _ _ _ (hother _), hdir]
    · exact (readManifest_congr (write_within _ _ _ _ htemp)).trans hread

theorem visible_iff (hkey : of declared = some key) :
    Visible key ↔ ∃ c, leadingChar declared = some c ∧ c ≠ '.' := by
  rw [Visible, ← of_head hkey]
  cases key.text with
  | nil => simp
  | cons c cs => simp

theorem find_visible (hkey : of declared = some key) (hv : Visible key)
    (hfind : find fs declared = .ok (some m)) : readManifest fs (modelsDir ++ [key.text, manifestName]) = .ok m := by
  have hread := (find_ok_some hkey hfind).1
  rwa [manifestPath, entryDir_of_isName hv.isName, append_assoc] at hread

variable {scan : Scan}

/-- An entry that counts as live has a visible name and a manifest of its own model. -/
theorem CountedLive.own (hscan : scan.Lists fs') (h : CountedLive fs' scan key manifest) :
    Visible key ∧ ∃ m, readManifest fs' (modelsDir ++ [key.text, manifestName]) = .ok m ∧
      of m.declared = some key := by
  obtain ⟨e, he, hpath, used, hkind⟩ := h.surveyed
  obtain ⟨hname, _, _, rfl⟩ := (mem_scanStore_child hpath).1 he
  obtain ⟨hdot, m, key', hread, hk, htext⟩ := stands_of_surveyed hkind
  obtain rfl : key' = key := ModelStorageKey.ext htext
  exact ⟨⟨((hscan _).1 hname).1.1, hdot⟩, m, hread, hk⟩

end Ensuring

/-- A model ensured with its payload on disk counts as live exactly when the first safe character of its identity is not a dot
and a manifest found under its key was its own. -/
theorem counted_live_iff {fs fs' : StoreTree} {os : EnsureOs} {declared : Model} {key : ModelStorageKey}
    {manifest : ModelManifest} {scan : Scan} (hfs : Rooted fs) (hkey : ModelStorageKey.of declared = some key)
    (hens : ensure os declared fs = (.ok manifest, fs')) (hpay : payloadPresent fs' manifest) (hscan : scan.Lists fs') :
    CountedLive fs' scan key manifest ↔ (∃ c, leadingChar declared = some c ∧ c ≠ '.') ∧
      ∀ m, find fs declared = .ok (some m) → ModelStorageKey.of m.declared = some key := by
  rw [← visible_iff hkey]
  constructor
  · intro hlive
    obtain ⟨hv, m₂, hread₂, hk₂⟩ := hlive.own hscan
    refine ⟨hv, fun m hfind => ?_⟩
    by_contra hother
    have hsame : SameEntry key.text fs (touch os.now os.rewrite m fs).2 :=
      touch_sameEntry _ _ fun k hk htext => hother (hk.trans (congrArg some (ModelStorageKey.ext htext)))
    have hread := (readManifest_congr (hsame _ (.inl rfl))).trans (find_visible hkey hv hfind)
    rw [ensure_hit os hfind, Prod.mk.injEq] at hens
    rw [hens.2, hread₂] at hread
    exact hother (Except.ok.inj hread ▸ hk₂)
  · rintro ⟨hv, hown⟩
    rcases ensure_ok hkey hens with ⟨m, hfind, htouch⟩ | ⟨_, fs₁, hpublished⟩
    · obtain ⟨m', hstands, hsame⟩ := touch_stands hfs hv (find_visible hkey hv hfind) (hown m hfind) htouch
      have hmanifest : manifest = { m with lastUsedAt := os.now } := by rw [← touch_fst os.now os.rewrite m, htouch]
      have hdeclared : m'.declared = m.declared := by rw [← hsame, hmanifest]
      have hpay' : payloadPresent fs' m' := by
        rw [← hsame]
        exact hpay
      exact countedLive_of_stands hscan hv hstands (hdeclared ▸ hown m hfind) hpay' hsame
    · obtain ⟨hstands, hk⟩ := fetchAndPublish_stands hkey hpublished
      exact countedLive_of_stands hscan hv hstands hk hpay rfl

/-! ## A path that begins with a dot -/

/-- A fetch of `w.gguf` in which everything works. -/
def weightsOs : EnsureOs :=
  { goodOs 5 [] true with
    publish :=
      { (goodOs 5 [] true).publish with
        payload := ofNodes [([], .dir), (["w.gguf"], .file (.bytes "weights"))]
        blobsBytes := 7 } }

/-- A scan of the store whose first entry is `key`, with nothing staged. -/
def firstScan (key : Text) : Scan where
  names := [locksName, stagingName, key]
  staged := []
  lockFree _ := true
  size _ := 7

/-- After the first `ensure` the store has its own directories and the entry. -/
theorem firstScan_lists {os : EnsureOs} {declared : Model} {key : ModelStorageKey} (hkey : of declared = some key)
    (hname : IsName key.text) (hthere : ∀ name ∈ [locksName, stagingName, key.text],
      ((ensure os declared bareWorkspace).2 (modelsDir ++ [name])).isSome) :
    (firstScan key.text).Lists (ensure os declared bareWorkspace).2 := by
  have hfind : find bareWorkspace declared = .ok none := by
    rw [find_ok_none_iff hkey, manifestPath, entryDir_of_isName hname, append_assoc]
    exact bareWorkspace_models _
  have hmiss : ∀ m, find bareWorkspace declared ≠ .ok (some m) := by simp [hfind]
  have hwithin := ensure_within os hkey hname hmiss
  intro name
  constructor
  · intro hmem
    refine ⟨?_, hthere name hmem⟩
    rcases mem_cons.1 hmem with rfl | hmem
    · decide
    rcases mem_cons.1 hmem with rfl | hmem
    · decide
    rwa [mem_singleton.1 hmem]
  · rintro ⟨_, hsome⟩
    by_contra hmem
    have hnot : ¬Own key.text (modelsDir ++ [name]) := by
      simp only [firstScan, mem_cons, not_mem_nil, or_false, not_or] at hmem
      rintro (h | h | h | ⟨scratch, _, _, h | h⟩)
      · exact hmem.1 (by simpa [locksDir, prefix_append_right_inj] using h)
      · exact hmem.2.1 (by simpa [stagingDir, prefix_append_right_inj] using h)
      · exact hmem.2.2 (by simpa [prefix_append_right_inj, eq_comm] using h)
      · exact absurd h.length_le (by simp [locksDir, modelsDir])
      · exact absurd h.length_le (by simp [stagingDir, modelsDir])
    rw [hwithin _ hnot, bareWorkspace_models] at hsome
    cases hsome

/-- A weights file under a hidden directory. -/
def hiddenWeights : Model := .ggufText (.absoluteFile ⟨"/.cache/w.gguf", by decide⟩)

def hiddenKey : ModelStorageKey := ⟨".cache_w.gguf", all_eq_true.1 rfl⟩

/-- A sweep in which every removal works. -/
def allRemovals : Removals := ⟨fun _ => none, fun _ => none, fun _ => none⟩

/-- The key begins with a dot: the sweep removes the entry as garbage though it is pinned, and the listing skips it. -/
theorem hidden_weights_swept : ∃ manifest fs', ensure weightsOs hiddenWeights bareWorkspace = (.ok manifest, fs') ∧
    payloadPresent fs' manifest ∧ (firstScan hiddenKey.text).Lists fs' ∧
    ¬CountedLive fs' (firstScan hiddenKey.text) hiddenKey manifest ∧
    (sweep allRemovals 100 ⟨[hiddenKey.text], []⟩ 2 (scanStore fs' (firstScan hiddenKey.text))).map
      (fun out => out.2.1.removed.map (·.path)) = some [modelPlace hiddenKey] ∧
    list fs' (firstScan hiddenKey.text).names (fun _ => []) = .ok [] := by
  have hkey : of hiddenWeights = some hiddenKey := by decide
  have hdone : (ensure weightsOs hiddenWeights bareWorkspace).1 = .ok (newManifest weightsOs.publish hiddenWeights
        (.ggufText (.relativeFile ⟨".cache_w.gguf/blobs/w.gguf", by decide⟩))) := by decide
  have hlists := @firstScan_lists weightsOs _ _ hkey (by decide) (by decide)
  refine ⟨_, _, Prod.ext hdone rfl, by decide, hlists, ?_, by decide +kernel, by decide +kernel⟩
  intro hlive
  exact absurd (hlive.own hlists).1.2 (by decide)

/-- The same file outside the hidden directory. -/
def shownWeights : Model := .ggufText (.absoluteFile ⟨"/w.gguf", by decide⟩)

def shownKey : ModelStorageKey := ⟨"w.gguf", all_eq_true.1 rfl⟩

theorem shown_weights_counted : CountedLive (ensure weightsOs shownWeights bareWorkspace).2 (firstScan shownKey.text) shownKey
      (newManifest weightsOs.publish shownWeights (.ggufText (.relativeFile ⟨"w.gguf/blobs/w.gguf", by decide⟩))) := by
  have hkey : of shownWeights = some shownKey := by decide
  have hdone : (ensure weightsOs shownWeights bareWorkspace).1 = .ok (newManifest weightsOs.publish shownWeights
        (.ggufText (.relativeFile ⟨"w.gguf/blobs/w.gguf", by decide⟩))) := by decide
  have hfind : find bareWorkspace shownWeights = .ok none := by decide
  have hfs : Rooted bareWorkspace := rooted_ofNodes (by decide)
  have hlists := @firstScan_lists weightsOs _ _ hkey (by decide) (by decide)
  refine (counted_live_iff hfs hkey (Prod.ext hdone rfl) (by decide) hlists).2 ⟨⟨'w', by decide, by decide⟩, ?_⟩
  intro m hm
  rw [hfind] at hm
  cases hm

end Pipette
