import Pipette.Lib.Traverse
import Pipette.Proxy.Catalog

/-!
# What a whole listing has read

A listing is whole when it skipped no object that looks like a build and read every candidate as one. Both are counts in the
source; here they are facts about each object.
-/

namespace Pipette.Proxy

open List Option

/-- Where `q` implies `p`, and `p` holds no more often than `q`, the two agree. -/
theorem of_countP_le {α : Type} {p q : α → Bool} {l : List α} (hq : ∀ a, q a → p a) (h : l.countP p ≤ l.countP q) :
    ∀ a ∈ l, p a → q a := by
  have hsame : l.filter q = l.filter p :=
    (monotone_filter_right l hq).eq_of_length_le (by rwa [← countP_eq_length_filter, ← countP_eq_length_filter])
  intro a ha hp
  have hmem : a ∈ l.filter p := mem_filter.2 ⟨ha, hp⟩
  rw [← hsame] at hmem
  exact (mem_filter.1 hmem).2

/-! ## Candidates -/

variable {object : Object}

theorem looksLikeArchive_of_archive {a : Archive} (h : archive object = some a) :
    looksLikeArchive object.key := by
  simp only [archive, bind_eq_bind, bind_eq_some_iff, dropPrefix?_eq_some_iff,
    dropSuffix?_eq_some_iff, beq_iff_eq] at h
  obtain ⟨rest, ⟨p, hname, rfl⟩, raw, ⟨s, rfl, rfl⟩, -⟩ := h
  simp only [looksLikeArchive, hname, Bool.and_eq_true, isPrefixOf_iff_prefix, isSuffixOf_iff_suffix]
  exact ⟨prefix_append _ _, ⟨archivePrefix ++ raw, by simp⟩⟩

variable {c : Candidate} {objects : List Object}

/-- A candidate has the version and key of its archive, and no other key publishes the version. -/
theorem toCandidate_some {a : Archive} (h : toCandidate objects a = some c) :
    c.version = a.version ∧ c.key = a.object.key ∧ keysPerVersion (objects.filterMap archive) a.version ≤ 1 := by
  simp only [toCandidate] at h
  split at h
  · cases h
  · next hkeys =>
    split at h
    · cases h
    split at h
    · split at h
      · cases h
      · cases h
        exact ⟨rfl, rfl, not_lt.1 hkeys⟩
    · cases h

/-- The candidate an object of a listing is, if it is one. -/
def candidateOf (objects : List Object) (object : Object) : Option Candidate := (archive object).bind (toCandidate objects)

theorem found_eq (objects : List Object) : (candidates objects).found = objects.filterMap (candidateOf objects) := by
  simp only [candidates, filterMap_filterMap]
  rfl

/-- If nothing was skipped, every object that looks like a build is a candidate. -/
theorem candidate_of_skipped_eq_zero (h : (candidates objects).skipped = 0)
    (ho : object ∈ objects) (hlooks : looksLikeArchive object.key) : ∃ c, candidateOf objects object = some c := by
  have hcount : objects.countP (fun object => looksLikeArchive object.key) ≤
      objects.countP fun object => (candidateOf objects object).isSome := by
    rw [← length_filterMap_eq_countP, ← found_eq]
    exact Nat.sub_eq_zero_iff_le.1 h
  refine isSome_iff_exists.1 (of_countP_le (fun object hsome => ?_) hcount object ho hlooks)
  obtain ⟨c, hc⟩ := isSome_iff_exists.1 hsome
  obtain ⟨a, ha, -⟩ := bind_eq_some_iff.1 hc
  exact looksLikeArchive_of_archive ha

theorem found_versions_nodup (objects : List Object) : ((candidates objects).found.map (·.version)).Nodup := by
  refine nodup_iff_count_le_one.2 fun v => ?_
  by_cases hv : v ∈ (candidates objects).found.map (·.version)
  · obtain ⟨c, hc, rfl⟩ := mem_map.1 hv
    obtain ⟨a, -, hac⟩ := mem_filterMap.1 hc
    obtain ⟨hversion, -, hone⟩ := toCandidate_some hac
    calc ((candidates objects).found.map (·.version)).count c.version
        = (candidates objects).found.countP (·.version = c.version) := by
          rw [count, countP_map]
          exact countP_congr fun b _ => by simp
      _ ≤ keysPerVersion (objects.filterMap archive) c.version := by
          change ((objects.filterMap archive).filterMap (toCandidate objects)).countP _ ≤ (objects.filterMap archive).countP _
          rw [countP_filterMap]
          refine countP_mono_left fun b _ hb => ?_
          cases hcand : toCandidate objects b with
          | none => simp [hcand] at hb
          | some d =>
            rw [← (toCandidate_some hcand).1]
            simpa [hcand] using hb
      _ ≤ 1 := by rw [hversion]; exact hone
  · rw [count_eq_zero_of_not_mem hv]
    omega

/-! ## Reading the candidates -/

variable {F : Formats} {bucket : Answers} {build : Build F} {reach : Reach} {cs : List Candidate}

theorem verify_some (h : verify F bucket c = .ok (some build)) :
    build.version = c.version ∧ ∃ body, getBytes bucket (manifestKey c.key) manifestMaxBytes = .ok body ∧
      F.readManifest body = some (build.version.text, build.runtimes) := by
  unfold verify at h
  cases hside : getBytes bucket (c.key ++ sidecarSuffix) sidecarMaxBytes with
  | error e => simp [hside, bind, Except.bind] at h
  | ok body =>
    cases hmani : getBytes bucket (manifestKey c.key) manifestMaxBytes with
    | error e => cases hd : sidecarDigest body <;> simp [hside, hmani, hd, bind, Except.bind, pure, Except.pure] at h
    | ok manifest =>
      simp only [hside, hmani, bind, Except.bind, pure, Except.pure] at h
      split at h
      · simp at h
      split at h
      · simp at h
      · next version runtimes hread =>
        split at h
        · simp at h
        · next hversion =>
          cases h
          exact ⟨rfl, manifest, rfl, by rw [hread, not_not.1 hversion]⟩

theorem verifyOrSkip_some (h : verifyOrSkip F bucket c = some build) :
    verify F bucket c = .ok (some build) := by
  unfold verifyOrSkip at h
  cases hv : verify F bucket c with
  | error e => simp [hv, Except.toOption] at h
  | ok read =>
    rw [hv] at h
    simpa [Except.toOption] using h

/-- The newest builds that were read are those of the candidates that were read as one. -/
theorem readNewest_eq {builds : List (Build F)} (h : readNewest F bucket cs = .ok builds) :
    builds = cs.filterMap (verifyOrSkip F bucket) := by
  induction cs generalizing builds with
  | nil =>
    cases h
    rfl
  | cons c cs ih =>
    simp only [readNewest] at h
    split at h
    · next e he =>
      split at h
      · simpa [verifyOrSkip, he, Except.toOption] using ih h
      · cases h
    · next he => simpa [verifyOrSkip, he, Except.toOption] using ih h
    · next build he =>
      cases hrest : readNewest F bucket cs with
      | error e => simp [hrest, Except.map] at h
      | ok rest =>
        rw [hrest] at h
        cases h
        simp [verifyOrSkip, he, Except.toOption, ← ih hrest]

theorem perm_newestOf_olderOf (keep : Nat) (also : Option BuildVersion) (found : List Candidate) :
    (newestOf keep also found ++ olderOf keep also found).Perm found := by
  rw [newestOf, olderOf, ← map_append]
  refine ((filter_append_perm (isNewest keep also) found.zipIdx).map Prod.fst).trans ?_
  rw [zipIdx_map_fst]

/-- If as many builds were read as there are candidates, every candidate was read as one. -/
theorem verify_of_length_eq (h : (cs.filterMap (verifyOrSkip F bucket)).length = cs.length)
    (hc : c ∈ cs) : ∃ build ∈ cs.filterMap (verifyOrSkip F bucket), verify F bucket c = .ok (some build) := by
  rw [length_filterMap_eq_countP] at h
  obtain ⟨build, hb⟩ := isSome_iff_exists.1 (countP_eq_length.1 h c hc)
  exact ⟨build, mem_filterMap.2 ⟨c, hc, hb⟩, verifyOrSkip_some hb⟩

/-- An object of a listing was read as a build, with the runtimes that the manifest beside it names. -/
def ReadAs (bucket : Answers) (objects : List Object) (object : Object) (build : Build F) : Prop :=
  (∃ c, candidateOf objects object = some c ∧ verify F bucket c = .ok (some build)) ∧
    ∃ body, getBytes bucket (manifestKey object.key) manifestMaxBytes = .ok body ∧
      F.readManifest body = some (build.version.text, build.runtimes)

theorem ReadAs.of_verify (hc : candidateOf objects object = some c) (h : verify F bucket c = .ok (some build)) :
    ReadAs bucket objects object build := by
  refine ⟨⟨c, hc, h⟩, ?_⟩
  obtain ⟨a, ha, hcand⟩ := bind_eq_some_iff.1 hc
  obtain rfl : a.object = object := by
    simp only [archive, bind_eq_bind, bind_eq_some_iff] at ha
    obtain ⟨_, -, _, -, _, -, ⟨⟩⟩ := ha
    rfl
  rw [← (toCandidate_some hcand).2.1]
  exact (verify_some h).2

/-- What a listing that succeeded has read. -/
theorem listNewest_ok {keep : Nat} {also : Option BuildVersion} {listing : Listing F}
    (h : listNewest F bucket keep also reach = .ok listing) :
    ∃ objects, listObjects bucket = .ok objects ∧
      (∀ build ∈ listing.newest ++ listing.older, ∃ object ∈ objects, ReadAs bucket objects object build) ∧
      ((listing.newest ++ listing.older).map (·.version)).Nodup ∧
      (listing.whole → ∀ object ∈ objects, looksLikeArchive object.key →
        ∃ build ∈ listing.newest ++ listing.older, ReadAs bucket objects object build) := by
  cases hobjects : listObjects bucket with
  | error e => simp [listNewest, listedCandidates, hobjects, Except.map, bind, Except.bind] at h
  | ok objects =>
    set sorted := (candidates objects).found.insertionSort Candidate.NotAfter with hsorted
    have hperm : (newestOf keep also sorted ++ olderOf keep also sorted).Perm (candidates objects).found :=
      (perm_newestOf_olderOf keep also sorted).trans (perm_insertionSort _ _)
    cases hnewest : readNewest F bucket (newestOf keep also sorted) with
    | error e => simp [listNewest, listedCandidates, hobjects, Except.map, bind, Except.bind, ← hsorted, hnewest] at h
    | ok builds =>
      simp only [listNewest, listedCandidates, hobjects, Except.map, bind, Except.bind, ← hsorted, hnewest, pure,
        Except.pure, Except.ok.injEq] at h
      have hbuilds := readNewest_eq hnewest
      -- what was read comes from the candidates, in either reach
      have hsub : (listing.newest ++ listing.older).Sublist
          ((newestOf keep also sorted ++ olderOf keep also sorted).filterMap (verifyOrSkip F bucket)) := by
        rw [filterMap_append, ← hbuilds, ← h]
        cases reach with
        | newest => simp
        | whole => exact List.Sublist.refl _
      have hfrom : ∀ build ∈ listing.newest ++ listing.older, ∃ object ∈ objects, ReadAs bucket objects object build := by
        intro build hb
        obtain ⟨c, hc, hread⟩ := mem_filterMap.1 (hsub.subset hb)
        have hfound := hperm.subset hc
        rw [found_eq] at hfound
        obtain ⟨object, ho, hcand⟩ := mem_filterMap.1 hfound
        exact ⟨object, ho, .of_verify hcand (verifyOrSkip_some hread)⟩
      have hnodup : ((listing.newest ++ listing.older).map (·.version)).Nodup := by
        have hall := (hperm.map (·.version)).nodup_iff.2 (found_versions_nodup objects)
        refine (hsub.map _).nodup ?_
        rw [Nodup, pairwise_map] at hall ⊢
        refine pairwise_filterMap.2 (hall.imp fun hne b hb b' hb' => ?_)
        rwa [(verify_some (verifyOrSkip_some hb)).1, (verify_some (verifyOrSkip_some hb')).1]
      refine ⟨objects, rfl, hfrom, hnodup, fun hwhole object ho hlooks => ?_⟩
      rw [← h] at hwhole ⊢
      simp only [Bool.and_eq_true, decide_eq_true_eq] at hwhole
      obtain ⟨⟨hskipped, hlen⟩, hlen'⟩ := hwhole
      obtain ⟨c, hc⟩ := candidate_of_skipped_eq_zero hskipped ho hlooks
      have hmem : c ∈ newestOf keep also sorted ++ olderOf keep also sorted := by
        rw [hperm.mem_iff, found_eq]
        exact mem_filterMap.2 ⟨object, ho, hc⟩
      rcases mem_append.1 hmem with hc' | hc'
      · rw [hbuilds] at hlen ⊢
        obtain ⟨build, hb, hread⟩ := verify_of_length_eq hlen hc'
        exact ⟨build, mem_append_left _ hb, .of_verify hc hread⟩
      cases reach with
      | newest =>
        simp only [length_nil] at hlen'
        rw [length_eq_zero_iff.1 hlen'.symm] at hc'
        cases hc'
      | whole =>
        obtain ⟨build, hb, hread⟩ := verify_of_length_eq hlen' hc'
        exact ⟨build, mem_append_right _ hb, .of_verify hc hread⟩

/-! ## The catalog -/

/-- What a listing that succeeded has put into the catalog. -/
theorem list_ok {catalog catalog' : Catalog F} {around : Surroundings}
    (h : catalog.list around reach = .ok catalog') :
    ∃ objects, listObjects around.bucket = .ok objects ∧
      (∀ build ∈ catalog'.listed, ∃ object ∈ objects, ReadAs around.bucket objects object build) ∧
      (catalog'.listed.map (·.version)).Nodup ∧
      (catalog'.whole → ∀ object ∈ objects, looksLikeArchive object.key →
        ∃ build ∈ catalog'.listed, ReadAs around.bucket objects object build) := by
  simp only [Catalog.list] at h
  split at h
  · cases h
  · next records hrecords =>
    split at h
    · cases h
    · next listing hlisting =>
      split at h
      · cases h
      cases h
      obtain ⟨objects, hobjects, hfrom, hnodup, hwhole⟩ := listNewest_ok hlisting
      set isChanged := fun build : Build F => (records.held around.isDir build).isChanged
      -- the newest builds are only parted into those that changed and the others
      have hperm : (listing.newest.filter (fun build => !isChanged build) ++ listing.newest.filter isChanged ++
          listing.older).Perm (listing.newest ++ listing.older) :=
        (perm_append_comm.trans (filter_append_perm isChanged listing.newest)).append_right _
      refine ⟨objects, hobjects, fun build hb => hfrom build (hperm.subset hb), ?_, fun hw object ho hlooks => ?_⟩
      · exact (hperm.map _).nodup_iff.2 hnodup
      · obtain ⟨build, hb, hread⟩ := hwhole hw object ho hlooks
        exact ⟨build, hperm.symm.subset hb, hread⟩

/-- Every build a listing reads names the runtimes of its version, whenever it is taken. -/
def Unchanging (manifest : Text → List F.Json) (around : Surroundings) : Prop :=
  ∀ objects object (build : Build F), listObjects around.bucket = .ok objects → object ∈ objects →
    ReadAs around.bucket objects object build → build.runtimes = manifest build.version.text

/-- The builds of the catalog name the runtimes of their versions. -/
def Catalog.Faithful (manifest : Text → List F.Json) (catalog : Catalog F) : Prop :=
  ∀ build ∈ catalog.builds, build.runtimes = manifest build.version.text

variable {manifest : Text → List F.Json} {catalog catalog' : Catalog F} {around : Surroundings}

theorem Catalog.Faithful.of_list (haround : Unchanging manifest around)
    (h : catalog.list around reach = .ok catalog') : catalog'.Faithful manifest := by
  obtain ⟨objects, hobjects, hread, -⟩ := list_ok h
  intro build hb
  obtain ⟨object, ho, has⟩ := hread build (mem_append_left _ (mem_append_left _ hb))
  exact haround objects object build hobjects ho has

theorem relist_faithful {around : Surroundings} (hcatalog : catalog.Faithful manifest) (haround : Unchanging manifest around) :
    ((catalog.relist around).toOption.getD catalog).Faithful manifest := by
  cases hlist : catalog.relist around with
  | error e => exact hcatalog
  | ok relisted => exact .of_list haround hlist

section Choice

variable [DecidableEq F.Runtime]

theorem mem_builds_of_offered (h : build ∈ catalog.offered) : build ∈ catalog.builds := by
  obtain ⟨⟨b, i⟩, hx, rfl⟩ := mem_map.1 h
  exact fst_mem_of_mem_zipIdx (mem_filter.1 hx).1

variable {admitted : Option (List Text)} {choice : Chosen F}

/-- The build a claim gets is offered, admitted, and names its runtime. -/
theorem choose_ok {runtime : Option F.Runtime} (h : catalog.choose admitted runtime = .ok choice) :
    choice.build ∈ catalog.offered ∧ admitsBuild admitted choice.build ∧ runtime.all choice.build.carries := by
  simp only [Catalog.choose] at h
  split at h
  · cases h
  have hmem : ∀ build ∈ (catalog.offered.filter (admitsBuild admitted)).filter (fun build => runtime.all build.carries),
      build ∈ catalog.offered ∧ admitsBuild admitted build ∧ runtime.all build.carries := by
    intro build hb
    obtain ⟨hb, hcarries⟩ := mem_filter.1 hb
    exact ⟨(mem_filter.1 hb).1, (mem_filter.1 hb).2, hcarries⟩
  split at h
  · next build hfind =>
    cases h
    exact hmem build (mem_of_find?_eq_some hfind)
  split at h
  · next build rest hcarrying =>
    cases h
    exact hmem build (by rw [hcarrying]; exact .head _)
  · cases h

variable [DecidableEq F.RuntimeType] {plan : LaunchPlan F}

theorem chooseBuild_faithful (h : catalog.Faithful manifest)
    (haround : Unchanging manifest around) : (chooseBuild catalog around admitted plan).2.Faithful manifest := by
  simp only [chooseBuild, recheck]
  split
  · split
    · next hlist => exact .of_list haround hlist
    · exact h
  · exact h

theorem chooseBuild_ok
    (h : chooseBuild catalog around admitted plan = (.ok choice, catalog')) :
    choice.build ∈ catalog'.offered ∧ admitsBuild admitted choice.build ∧ choice.build.carries plan.runtime := by
  simp only [chooseBuild, Prod.mk.injEq] at h
  obtain ⟨hsettle, rfl⟩ := h
  simp only [settleChoice] at hsettle
  split at hsettle
  · next hchoose =>
    cases hsettle
    obtain ⟨hoffered, hadmits, hcarries⟩ := choose_ok hchoose
    exact ⟨hoffered, hadmits, by simpa using hcarries⟩
  · cases hsettle
  · split at hsettle
    · split at hsettle <;> cases hsettle
    · cases hsettle

end Choice

end Pipette.Proxy
