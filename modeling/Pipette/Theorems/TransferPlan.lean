import Pipette.Phone.HubTransferPlanner

/-!
# What a frozen plan lays out

A path is followed below the payload directory as the volume does (`place`): `.` stays, `..` goes up, and names are compared
in lower case. The check of the destinations compares whole texts, so it sees neither a `.` segment nor that one path runs
through another.
-/

namespace Pipette.Phone.Hub

open List

variable {L : Lowercase} {source : HubMetadataSource} {names : List Text} {paths : List Text} {path : Text}

/-- The names from the payload directory down to where the segments lead, if not out of it. -/
def walk (L : Lowercase) : List Text → List Text → Option (List Text)
  | dir, [] => some dir
  | dir, seg :: segs =>
    if seg = [] ∨ seg = ['.'] then walk L dir segs
    else if seg = ['.', '.'] then if dir = [] then none else walk L dir.dropLast segs
    else walk L (dir ++ [L.lowercased seg]) segs

def place (L : Lowercase) (path : Text) : Option (List Text) := walk L [] (path.splitOn '/')

/-- A plan is for one file per listed path: below the payload directory, none the place or a directory of another, each with
the length and the digest reported for its commit. -/
structure LaysOut (L : Lowercase) (source : HubMetadataSource) (names : List Text) (plan : ResolvedTransfer) : Prop where
  covers : (plan.files.map PlannedFile.path).Perm names ∧ names.Nodup
  inside : ∀ path ∈ names, ∃ dest, place L path = some dest ∧ dest ≠ []
  apart : ∀ p ∈ names, ∀ q ∈ names, p ≠ q → ∀ dest dest', place L p = some dest → place L q = some dest' → ¬dest <+: dest'
  reported : ∀ file ∈ plan.files, ∃ metadata, source.metadata file.path = .ok metadata ∧ metadata.commitHash = some plan.commit ∧
    metadata.sizeBytes = some file.sizeBytes ∧ metadata.sha256 = file.sha256

/-- The segments of a path without those that stay where they are. -/
def steps (L : Lowercase) (path : Text) : List Text := ((path.splitOn '/').filter (· ≠ ['.'])).map L.lowercased

/-- A path of `.` segments only, a `.` segment that makes two paths one, a path that runs through another, and an answer that
names no commit. -/
structure Sound (L : Lowercase) (source : HubMetadataSource) (names : List Text) : Prop where
  named : ∀ path ∈ names, ∃ seg ∈ path.splitOn '/', seg ≠ ['.']
  dotted : ∀ p ∈ names, ∀ q ∈ names, p ≠ q → ['.'] ∈ p.splitOn '/' → steps L p ≠ steps L q
  nested : ∀ p ∈ names, ∀ q ∈ names, steps L p <+: steps L q → steps L p = steps L q
  committed : ∀ path ∈ names, ∀ metadata, source.metadata path = .ok metadata → metadata.commitHash ≠ none

theorem place_of_safe (h : isUnsafe path = false) : place L path = some (steps L path) := by
  have hwalk : ∀ segs dir, (∀ seg ∈ segs, seg ≠ [] ∧ seg ≠ ['.', '.']) →
      walk L dir segs = some (dir ++ (segs.filter (· ≠ ['.'])).map L.lowercased) := by
    intro segs
    induction segs with
    | nil => simp [walk]
    | cons seg segs ih =>
      intro dir hsegs
      obtain ⟨⟨hempty, hup⟩, hsegs⟩ := forall_mem_cons.1 hsegs
      by_cases hdot : seg = ['.'] <;> simp [walk, hdot, hempty, hup, ih _ hsegs]
  refine hwalk _ [] fun seg hseg => ?_
  simp only [isUnsafe, Bool.or_eq_false_iff, decide_eq_false_iff_not] at h
  exact ⟨fun heq => h.1.2 (heq ▸ hseg), fun heq => h.1.1.2 (heq ▸ hseg)⟩

/-- Without `.` segments the steps say the whole text in lower case. -/
theorem lowercased_eq_intercalate (h : ['.'] ∉ path.splitOn '/') : L.lowercased path = ['/'].intercalate (steps L path) := by
  have hjoin : ∀ segs : List Text, L.lowercased (['/'].intercalate segs) = ['/'].intercalate (segs.map L.lowercased) := by
    intro segs
    induction segs with
    | nil => rfl
    | cons seg segs ih =>
      cases segs with
      | nil => simp [Lowercase.lowercased, intercalate]
      | cons next segs =>
        rw [intercalate_cons_cons, map_cons, map_cons, intercalate_cons_cons, ← map_cons, ← ih]
        simp [Lowercase.lowercased, L.slash]
  have hall : (path.splitOn '/').filter (· ≠ ['.']) = path.splitOn '/' :=
    filter_eq_self.2 fun seg hseg => by simpa using fun heq : seg = ['.'] => h (heq ▸ hseg)
  rw [steps, hall, ← hjoin, intercalate_splitOn]

theorem checkDestinations_ok {seen : List (Text × Text)} (h : checkDestinations L seen paths = .ok ()) :
    (∀ path ∈ paths, isUnsafe path = false ∧ L.lowercased path ∉ seen.map Prod.fst) ∧ (paths.map L.lowercased).Nodup := by
  induction paths generalizing seen with
  | nil => simp
  | cons path paths ih =>
    simp only [checkDestinations] at h
    split at h
    · cases h
    split at h
    · cases h
    · next hsafe _ hnew =>
      obtain ⟨hpaths, hnodup⟩ := ih h
      simp only [map_cons, mem_cons, not_or] at hpaths
      refine ⟨forall_mem_cons.2 ⟨⟨by simpa using hsafe, fun hmem => ?_⟩, ?_⟩, ?_⟩
      · obtain ⟨x, hx, heq⟩ := mem_map.1 hmem
        simpa [heq] using lookup_eq_none_iff.1 hnew x hx
      · exact fun other hother => ⟨(hpaths other hother).1, (hpaths other hother).2.2⟩
      · rw [map_cons, nodup_cons]
        exact ⟨by simpa using fun other hother => (hpaths other hother).2.1, hnodup⟩

/-- Every path is planned, as its metadata says. -/
theorem planFiles_ok {planned : List (PlannedFile × Option Text)} (h : planFiles source paths = .ok planned) :
    planned.map (fun x => x.1.path) = paths ∧ ∀ x ∈ planned, ∃ metadata, source.metadata x.1.path = .ok metadata ∧
      metadata.commitHash = x.2 ∧ metadata.sizeBytes = some x.1.sizeBytes ∧ metadata.sha256 = x.1.sha256 := by
  induction paths generalizing planned with
  | nil =>
    cases h
    simp
  | cons path paths ih =>
    simp only [planFiles] at h
    split at h
    · cases h
    split at h
    · cases h
    split at h <;> cases h
    next metadata hmetadata _ size hsize _ planned hplanned =>
    obtain ⟨hpaths, hreported⟩ := ih hplanned
    exact ⟨by simp [hpaths], forall_mem_cons.2 ⟨⟨metadata, hmetadata, rfl, hsize, rfl⟩, hreported⟩⟩

/-- A plan lays out one file per path exactly when nothing the planner does not look at goes wrong. -/
theorem resolve_laysOut_iff (le : Text → Text → Bool) (coordinate : Text) {plan : ResolvedTransfer}
    (hnames : source.filenames = .ok names) (hplan : resolve L le coordinate source = .ok plan) :
    LaysOut L source names plan ↔ Sound L source names := by
  simp only [resolve, hnames] at hplan
  split at hplan
  · cases hplan
  split at hplan
  · cases hplan
  next hchecked =>
  split at hplan
  · cases hplan
  split at hplan <;> cases hplan
  · next planned hplanned _ commit hcommits =>
    have hperm := perm_insertionSort (fun a b => le a b) names
    obtain ⟨hsafe, hnodup⟩ := checkDestinations_ok hchecked
    obtain ⟨hpaths, hreported⟩ := planFiles_ok hplanned
    have hplace : ∀ path ∈ names, place L path = some (steps L path) := fun path hpath =>
      place_of_safe (hsafe path (hperm.mem_iff.2 hpath)).1
    have hsteps : ∀ path, steps L path ≠ [] ↔ ∃ seg ∈ path.splitOn '/', seg ≠ ['.'] := by
      intro path
      simp [steps, filter_eq_nil_iff]
    constructor
    · intro h
      refine ⟨fun path hpath => ?_, fun p hp q hq hne _ heq => ?_, fun p hp q hq hpre => ?_, fun path hpath metadata hmetadata hnone => ?_⟩
      · obtain ⟨dest, hdest, hne⟩ := h.inside path hpath
        cases (hplace path hpath).symm.trans hdest
        exact (hsteps path).1 hne
      · exact h.apart p hp q hq hne _ _ (hplace p hp) (hplace q hq) (heq ▸ prefix_rfl)
      · by_contra hne
        exact h.apart p hp q hq (fun heq => hne (heq ▸ rfl)) _ _ (hplace p hp) (hplace q hq) hpre
      · obtain ⟨file, hfile, rfl⟩ := mem_map.1 (h.covers.1.mem_iff.2 hpath)
        obtain ⟨metadata', hmetadata', hcommit, -⟩ := h.reported file hfile
        cases hmetadata.symm.trans hmetadata'
        simp [hnone] at hcommit
    · intro h
      have hcovers : ((planned.map Prod.fst).map PlannedFile.path).Perm names := by simpa [Function.comp_def, hpaths] using hperm
      refine ⟨⟨hcovers, hperm.nodup_iff.1 hnodup.of_map⟩, fun path hpath => ⟨_, hplace path hpath, (hsteps path).2 (h.named path hpath)⟩,
        fun p hp q hq hne dest dest' hdest hdest' hpre => ?_, fun file hfile => ?_⟩
      · cases (hplace p hp).symm.trans hdest
        cases (hplace q hq).symm.trans hdest'
        have heq := h.nested p hp q hq hpre
        -- the check saw the two texts apart, so one of them has a segment that stays where it is
        by_cases hdot : ['.'] ∈ p.splitOn '/'
        · exact h.dotted p hp q hq hne hdot heq
        by_cases hdot' : ['.'] ∈ q.splitOn '/'
        · exact h.dotted q hq p hp hne.symm hdot' heq.symm
        refine hne (inj_on_of_nodup_map hnodup (hperm.mem_iff.2 hp) (hperm.mem_iff.2 hq) ?_)
        rw [lowercased_eq_intercalate hdot, lowercased_eq_intercalate hdot', heq]
      · have hpath := hcovers.mem_iff.1 (mem_map_of_mem hfile)
        obtain ⟨x, hx, rfl⟩ := mem_map.1 hfile
        obtain ⟨metadata, hmetadata, hcommit, hsize⟩ := hreported x hx
        obtain ⟨commit', hcommit'⟩ := Option.ne_none_iff_exists'.1 (h.committed _ hpath metadata hmetadata)
        have hmem : commit' ∈ (planned.filterMap Prod.snd).eraseDups := mem_eraseDups.2 (mem_filterMap.2 ⟨x, hx, hcommit.symm.trans hcommit'⟩)
        rw [hcommits, mem_singleton] at hmem
        exact ⟨metadata, hmetadata, hmem ▸ hcommit', hsize⟩

def ascii : Lowercase := ⟨fun c => [c.toLower], rfl⟩

/-- A Hub with these files, each of one byte and all at one commit. -/
def hubOf (names : List Text) : HubMetadataSource := ⟨.ok names, fun _ => .ok ⟨some 1, some ['c'], none, none⟩⟩

/-- Two files of one directory. -/
def twoFiles : List Text := ["a/b", "A/c"]

theorem laysOut_twoFiles : ∃ plan, resolve ascii (fun _ _ => true) [] (hubOf twoFiles) = .ok plan ∧
    LaysOut ascii (hubOf twoFiles) twoFiles plan :=
  ⟨_, rfl, (resolve_laysOut_iff (fun _ _ => true) [] rfl rfl).2 ⟨by decide, by decide, by decide, by simp [hubOf]⟩⟩

/-- A file beside a directory of its name in another case is planned. -/
theorem plan_through_file : ∃ plan, resolve ascii (fun _ _ => true) [] (hubOf [['a'], "A/b"]) = .ok plan ∧
    ¬LaysOut ascii (hubOf [['a'], "A/b"]) [['a'], "A/b"] plan := by
  refine ⟨_, rfl, fun h => ?_⟩
  exact h.apart ['a'] (by simp) "A/b" (by simp) (by decide) [['a']] [['a'], ['b']] rfl rfl (by decide)

end Pipette.Phone.Hub
