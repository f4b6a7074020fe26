import Pipette.Lemmas.Listing

/-!
# A job is failed for good only if no build carries its runtime

A phone lists the bucket, withdraws builds and takes claims in any order, and any listing or read may fail. A claim fails for
good only if a listing taken during it shows that no build of the bucket carries the runtime.
-/

namespace Pipette.Proxy

open List

variable {F : Formats} [DecidableEq F.Runtime] [DecidableEq F.RuntimeType]

/-! ## Histories of a catalog -/

/-- What happens to the catalog of a phone: a refresh, a build withdrawn, a claim's choice. -/
inductive CatalogEvent (F : Formats) where
  | relist (around : Surroundings)
  | withdraw (version : BuildVersion)
  | claim (around : Surroundings) (admitted : Option (List Text)) (plan : LaunchPlan F)

def Catalog.after (catalog : Catalog F) : CatalogEvent F → Catalog F
  | .relist around => (catalog.relist around).toOption.getD catalog
  | .withdraw version => catalog.withdraw version
  | .claim around admitted plan => (chooseBuild catalog around admitted plan).2

/-- The catalog of a phone after a history, from the start of its process. -/
def Catalog.run (default : Option BuildVersion) (history : List (CatalogEvent F)) : Catalog F :=
  history.foldl Catalog.after (.new default)

/-- The cause of a choice that failed. -/
def causeOf {α : Type} : Except JobFailure α → Option FailureCause
  | .error failure => some failure.cause
  | .ok _ => none

/-- A listing read every object that looks like a build as one, every admitted version among them, and every descriptor in
them is readable and names another runtime. -/
def ShowsNoneCarries (bucket : Answers) (admitted : List Text) (runtime : F.Runtime) : Prop :=
  ∃ (objects : List Object) (builds : List (Build F)), listObjects bucket = .ok objects ∧
    (∀ build ∈ builds, ∃ object ∈ objects, ReadAs bucket objects object build) ∧
    (∀ object ∈ objects, looksLikeArchive object.key → ∃ build ∈ builds, ReadAs bucket objects object build) ∧
    (∀ version ∈ admitted, ∃ build ∈ builds, build.version.text = version) ∧
    ∀ build ∈ builds, ∀ raw ∈ build.runtimes, ∃ named, F.readRuntime raw = some named ∧ named ≠ runtime

/-! ## What the listing of the claim has shown -/

variable {admitted : List Text} {runtime : F.Runtime} {carried : List F.Runtime} {builds : List (Build F)}
  {catalog : Catalog F} {plan : LaunchPlan F}

omit [DecidableEq F.RuntimeType] in
theorem carriedBy_some {carried' : List F.Runtime} (h : carriedBy admitted runtime carried builds = some carried') :
    ∀ build ∈ builds, ∀ raw ∈ build.runtimes, ∃ named, F.readRuntime raw = some named ∧ named ≠ runtime := by
  induction builds generalizing carried with
  | nil => simp
  | cons build builds ih =>
    simp only [carriedBy] at h
    split at h
    · cases h
    · next named hnamed =>
      split at h
      · cases h
      · next hnot =>
        have hrest : ∀ build ∈ builds, ∀ raw ∈ build.runtimes, ∃ named, F.readRuntime raw = some named ∧ named ≠ runtime := by
          split at h <;> exact ih h
        refine forall_mem_cons.2 ⟨fun raw hraw => ?_, hrest⟩
        obtain ⟨one, hone, hread⟩ := mem_map.1 (mapM_eq_some_iff.1 hnamed ▸ mem_map_of_mem hraw)
        exact ⟨one, hread.symm, fun heq => hnot (heq ▸ hone)⟩

omit [DecidableEq F.RuntimeType] in
/-- What the listing proves when it names the runtimes that are carried instead. -/
theorem carriedInstead_some (h : catalog.carriedInstead admitted runtime = some carried) :
    catalog.whole ∧ admitted.length ≤ catalog.listed.countP (fun build => admitted.contains build.version.text) ∧
      ∀ build ∈ catalog.listed, ∀ raw ∈ build.runtimes, ∃ named, F.readRuntime raw = some named ∧ named ≠ runtime := by
  simp only [Catalog.carriedInstead] at h
  split at h
  · cases h
  · next hpre =>
    simp only [Bool.or_eq_true, Bool.not_eq_true', decide_eq_true_eq, not_or, not_lt, Bool.not_eq_false] at hpre
    exact ⟨hpre.1.1, hpre.2, carriedBy_some h⟩

omit [DecidableEq F.Runtime] [DecidableEq F.RuntimeType] in
/-- If as many distinct listed builds are admitted as there are versions, every version is listed. -/
theorem admitted_listed (hnodup : (builds.map (·.version)).Nodup)
    (h : admitted.length ≤ builds.countP (fun build => admitted.contains build.version.text)) :
    ∀ version ∈ admitted, ∃ build ∈ builds, build.version.text = version := by
  set those := (builds.filter fun build => admitted.contains build.version.text).map (·.version.text) with hthose
  have hsub : those ⊆ admitted := by
    intro version hv
    obtain ⟨build, hb, rfl⟩ := mem_map.1 hv
    simpa using (mem_filter.1 hb).2
  have hdistinct : those.Nodup := by
    have htexts : (builds.map (·.version.text)).Nodup := by
      have hmap := List.Nodup.map_on (f := BuildVersion.text) (fun v _ w _ heq => by cases v; cases w; simpa using heq) hnodup
      rwa [map_map] at hmap
    exact (filter_sublist.map _).nodup htexts
  have hlen : admitted.length ≤ those.length := by rwa [hthose, length_map, ← countP_eq_length_filter]
  intro version hv
  have hsame := (subperm_of_subset hdistinct hsub).perm_of_length_le hlen
  obtain ⟨build, hb, rfl⟩ := mem_map.1 (hsame.mem_iff.2 hv)
  exact ⟨build, (mem_filter.1 hb).1, rfl⟩

omit [DecidableEq F.RuntimeType] in
theorem recheck_fresh {around : Surroundings} {admitted : Option (List Text)} (h : (recheck catalog around admitted plan).1) :
    catalog.relistWhole around = .ok (recheck catalog around admitted plan).2 := by
  cases hchoose : catalog.choose admitted (some plan.runtime) with
  | ok choice => simp [recheck, hchoose] at h
  | error reason =>
    cases reason with
    | noneAdmitted => simp [recheck, hchoose] at h
    | runtimeNotCarried offered =>
      cases hlist : catalog.relistWhole around with
      | error e => simp [recheck, hchoose, hlist] at h
      | ok listed => simp [recheck, hchoose, hlist]

theorem settleChoice_cause {fresh : Bool} {admitted : Option (List Text)}
    (h : causeOf (settleChoice fresh catalog admitted plan) = some .noBuildCarriesRuntime) :
    fresh ∧ ∃ versions carried, admitted = some versions ∧ catalog.carriedInstead versions plan.runtime = some carried := by
  unfold settleChoice at h
  split at h
  · cases h
  · cases h
  split at h
  · split at h
    · next carried hcarried => exact ⟨rfl, _, carried, rfl, hcarried⟩
    · cases h
  · cases h

/-- After any history of a phone's catalog, a claim that fails for good has listed the bucket, and the listing shows that no
build of it carries the runtime. -/
theorem showsNoneCarries_of_cause (default : Option BuildVersion) (history : List (CatalogEvent F)) (around : Surroundings)
    (admitted : Option (List Text)) (plan : LaunchPlan F)
    (h : causeOf (chooseBuild (Catalog.run default history) around admitted plan).1 = some .noBuildCarriesRuntime) :
    ∃ versions, admitted = some versions ∧ ShowsNoneCarries around.bucket versions plan.runtime := by
  obtain ⟨hfresh, versions, carried, hadmitted, hcarried⟩ := settleChoice_cause h
  obtain ⟨objects, hobjects, hfrom, hnodup, hwhole⟩ := list_ok (recheck_fresh hfresh)
  obtain ⟨hw, hcount, hreadable⟩ := carriedInstead_some hcarried
  exact ⟨versions, hadmitted, objects, _, hobjects, hfrom, hwhole hw, admitted_listed hnodup hcount, hreadable⟩

/-! ## A bucket with one build -/

theorem showsNoneCarries_oneBuild :
    causeOf (chooseBuild (Catalog.run (F := numbered) none [.relist oneBuild]) oneBuild (some [['a']]) ⟨[], [], 1⟩).1 =
      some .noBuildCarriesRuntime ∧
    ∃ versions, some [['a']] = some versions ∧ ShowsNoneCarries (F := numbered) oneBuild.bucket versions 1 :=
  ⟨by decide,
    showsNoneCarries_of_cause (F := numbered) none [.relist oneBuild] oneBuild (some [['a']]) ⟨[], [], 1⟩ (by decide)⟩

end Pipette.Proxy
