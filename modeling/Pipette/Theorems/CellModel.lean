import Pipette.Android.Provision

/-!
# The files a cell is given

A lookup gives the stored path, the file below the models that it names, or the only file of its name. The file a cell names
is what it is given exactly if each lookup for it finds this file or nothing.
-/

namespace Pipette.Android

open Device Option

variable (dev : Device) {file : List Text} {disk : Disk}

/-- Where a file of a repository is kept. -/
def Device.own (file : HfRepo × GgufFilename) : List Text := dev.models ++ modelRelativePath file.1 file.2

/-! ## One lookup -/

theorem foldl_enter_of_entries {names : List Text} (h : ∀ name ∈ names, IsEntry name) (start : List Text) :
    names.foldl enter start = start ++ names := by
  induction names generalizing start with
  | nil => simp
  | cons name names ih =>
    have hname : enter start name = start ++ [name] := by
      obtain ⟨hempty, hdot, hdots⟩ := h name (by simp)
      simp [enter, hempty, hdot, hdots]
    rw [List.foldl_cons, hname, ih fun n hn => h n (List.mem_cons_of_mem _ hn)]
    simp

theorem real_absolutePath (h : file ∈ disk.files) : dev.real (absolutePath file) = file := by
  have hfold := foldl_enter_of_entries (disk.named file h) []
  by_cases hroot : file = []
  · simp [real, absolutePath, enter, hroot]
  · simpa [real, absolutePath, enter, hroot] using hfold

theorem mem_of_modelsNamed {name : Text} (h : dev.modelsNamed disk name = [file]) :
    file ∈ disk.files := by
  have hmem : file ∈ dev.modelsNamed disk name := by simp [h]
  unfold modelsNamed at hmem
  split at hmem
  · exact (List.mem_filter.1 hmem).1
  · cases hmem

/-- The disk leads a lookup to no other file: the stored path is not there or is the file, else what its end names below the
models is not there or is the file, else the file is the only model of its name unless none or several have it. -/
structure Device.Leads (own : List Text) (disk : Disk) (storedPath : Path) : Prop where
  stored : dev.exists disk storedPath → dev.real storedPath = own
  candidate : dev.exists disk storedPath = false → ∀ path, dev.candidate (components storedPath) = some path →
    dev.exists disk path → dev.real path = own
  named : dev.exists disk storedPath = false →
    (∀ path, dev.candidate (components storedPath) = some path → dev.exists disk path = false) →
    ∀ name file, (components storedPath).getLast? = some name → dev.modelsNamed disk name = [file] → file = own

/-- A lookup finds the file or nothing exactly if the disk does not lead it elsewhere. -/
theorem resolveModelPath_own_iff (own : List Text) (disk : Disk) (storedPath : Path) :
    (∀ path, dev.resolveModelPath disk storedPath = some path → dev.real path = own) ↔ dev.Leads own disk storedPath := by
  constructor
  · refine fun h => ⟨fun hthere => h _ (by simp [resolveModelPath, hthere]), ?_, ?_⟩
    · intro hgone path hpath hthere
      have hlast : ∃ name, (components storedPath).getLast? = some name := by
        rw [← ne_none_iff_exists', Ne, List.getLast?_eq_none_iff]
        intro hnil
        simp [candidate, hnil] at hpath
      have hcand : (dev.candidate (components storedPath)).filter (fun path => dev.exists disk path) = some path := by
        simp [hpath, filter_some, hthere]
      obtain ⟨name, hname⟩ := hlast
      exact h path (by simp [resolveModelPath, resolveBelow, hgone, hname, hcand])
    · intro hgone hpath name file hname hfile
      have hcand : (dev.candidate (components storedPath)).filter (fun path => dev.exists disk path) = none := by
        simpa [filter_eq_none_iff] using hpath
      rw [← real_absolutePath dev (mem_of_modelsNamed dev hfile)]
      exact h _ (by simp [resolveModelPath, resolveBelow, hgone, hname, hcand, hfile])
  · intro h path hpath
    unfold resolveModelPath at hpath
    split at hpath
    · next hthere =>
      cases hpath
      exact h.stored hthere
    · next hgone =>
      rw [Bool.not_eq_true] at hgone
      unfold resolveBelow at hpath
      split at hpath
      · cases hpath
      · next name hname =>
        split at hpath
        · next found hfound =>
          cases hpath
          obtain ⟨hcand, hthere⟩ := filter_eq_some_iff.1 hfound
          exact h.candidate hgone path hcand hthere
        · next hnone =>
          split at hpath
          · next file hfile =>
            cases hpath
            rw [real_absolutePath dev (mem_of_modelsNamed dev hfile)]
            exact h.named hgone (by simpa [filter_eq_none_iff] using hnone) name file hname hfile
          · cases hpath

/-! ## The lookups of one errand -/

/-- The polls that `await` makes. -/
def Device.polled (dev : Device) (key : Path) (filename : Text) (started : Int) : List Moment → List Moment
  | [] => []
  | m :: polls => m :: if dev.await key filename started [m] = none then dev.polled key filename started polls else []

variable (key : Path) (filename : Text) (started : Int)

theorem await_cons (m : Moment) (polls : List Moment) : dev.await key filename started (m :: polls) =
      (dev.await key filename started [m]).or (dev.await key filename started polls) := by
  simp only [await]
  repeat' split
  all_goals simp

theorem await_single_iff (m : Moment) (path : Path) :
    dev.await key filename started [m] = some (.ok path) ↔ dev.resolveModelPath m.disk key = some path := by
  simp only [await]
  repeat' split
  all_goals simp_all

theorem await_ok_iff (polls : List Moment) (path : Path) : dev.await key filename started polls = some (.ok path) ↔
      ∃ m ∈ dev.polled key filename started polls, dev.resolveModelPath m.disk key = some path := by
  induction polls with
  | nil => simp [await, polled]
  | cons m polls ih =>
    have hm := await_single_iff dev key filename started m path
    rw [await_cons, polled]
    cases hone : dev.await key filename started [m] with
    | none => simp_all
    | some answer => simp_all

/-- The lookups that are made for one file, each with the disk it sees. -/
def Device.lookups (stored : Option Path) (wanted : Option (HfRepo × GgufFilename)) (e : Errand) : List (Disk × Path) :=
  stored.toList.map (e.first.disk, ·) ++
    match stored.bind (dev.resolveModelPath e.first.disk), wanted with
    | none, some (repo, filename) =>
      let key := modelRelativePath repo filename
      (e.second.disk, key) :: if dev.ensureOne repo filename { e with polls := [] } = none then
          (dev.polled key filename.value e.started e.polls).map (·.disk, key)
        else []
    | _, _ => []

theorem ensureOne_ok_iff (repo : HfRepo) (filename : GgufFilename) (e : Errand) (path : Path) :
    dev.ensureOne repo filename e = some (.ok path) ↔
      dev.resolveModelPath e.second.disk (modelRelativePath repo filename) = some path ∨
      dev.ensureOne repo filename { e with polls := [] } = none ∧
        ∃ m ∈ dev.polled (modelRelativePath repo filename) filename.value e.started e.polls,
          dev.resolveModelPath m.disk (modelRelativePath repo filename) = some path := by
  rw [← await_ok_iff]
  simp only [ensureOne]
  repeat' split
  all_goals simp_all [await]

/-- A path is provided exactly if a lookup finds it. -/
theorem provide_ok_iff (stored : Option Path) (wanted : Option (HfRepo × GgufFilename)) (e : Errand) (path : Path) :
    dev.provide stored wanted e = some (.ok path) ↔
      ∃ x ∈ dev.lookups stored wanted e, dev.resolveModelPath x.1 x.2 = some path := by
  have hstored : (∃ x ∈ stored.toList.map (e.first.disk, ·), dev.resolveModelPath x.1 x.2 = some path) ↔
      stored.bind (dev.resolveModelPath e.first.disk) = some path := by
    cases stored <;> simp
  have hfetched (repo : HfRepo) (filename : GgufFilename) :
      (dev.ensureOne repo filename e).map (Except.mapError some) = some (.ok path) ↔
        dev.ensureOne repo filename e = some (.ok path) := by
    rcases dev.ensureOne repo filename e with _ | _ | _ <;> simp [Except.mapError]
  simp only [lookups, List.mem_append, or_and_right, exists_or, hstored]
  unfold provide
  split
  · next found hfound => simp [hfound]
  · next hnone => simp [hnone]
  · next repo filename hnone =>
    rw [hfetched, ensureOne_ok_iff, hnone]
    by_cases hwaits : dev.ensureOne repo filename { e with polls := [] } = none <;> simp [hwaits]

/-! ## The files of a cell -/

/-- A cell that names its model is given the weights and the projector it names, whenever it is given any, exactly if the disk
leads none of the lookups for them to another file. -/
theorem provided_own_iff (dev : Device) (modelPath : Path) (mmprojPath : Option Path) (ref : Model) (weights projector : Errand) :
    ((∀ path, dev.weightsPath ⟨modelPath, mmprojPath, some ref⟩ weights = some (.ok path) → dev.real path = dev.own ref.weights) ∧
      ∀ file, ref.mmproj = some file → ∀ path,
        dev.projectorPath ⟨modelPath, mmprojPath, some ref⟩ projector = some (.ok path) → dev.real path = dev.own file) ↔
    (∀ x ∈ dev.lookups (some modelPath) (some ref.weights) weights, dev.Leads (dev.own ref.weights) x.1 x.2) ∧
      ∀ file, ref.mmproj = some file → ∀ x ∈ dev.lookups mmprojPath (some file) projector, dev.Leads (dev.own file) x.1 x.2 := by
  have hone (stored : Option Path) (file : HfRepo × GgufFilename) (e : Errand) :
      (∀ path, dev.provide stored (some file) e = some (.ok path) → dev.real path = dev.own file) ↔
        ∀ x ∈ dev.lookups stored (some file) e, dev.Leads (dev.own file) x.1 x.2 := by
    simp only [provide_ok_iff, ← resolveModelPath_own_iff]
    exact ⟨fun h x hx path hpath => h path ⟨x, hx, hpath⟩, fun h path ⟨x, hx, hpath⟩ => h x hx path hpath⟩
  refine and_congr (hone _ _ _) (forall_congr' fun file => forall_congr' fun hfile => ?_)
  simp only [projectorPath, bind_some, hfile]
  exact hone _ _ _

/-- A device whose only model is the file `f.gguf` of the repository `b/r`. -/
def otherRepoDisk : Disk where
  files := [["models", "b", "r", "f.gguf"]]
  dirs := [["models"], ["models", "b"], ["models", "b", "r"]]
  nodup := by decide
  named := by decide

def otherRepoErrand : Errand where
  first := ⟨otherRepoDisk, [], 0, true⟩
  second := ⟨otherRepoDisk, [], 0, true⟩
  parsed := .ok ()
  enqueued := .ok ()
  started := 0
  polls := []

/-- A cell that names `f.gguf` of `a/r`, which is not downloaded, is run on `f.gguf` of `b/r`. -/
theorem runs_other_repository : let dev : Device := ⟨[], ["models"]⟩
    let ref := Model.ggufText ⟨"a", "r", by decide⟩ ⟨"f.gguf", by decide⟩
    dev.execute ⟨absolutePath (dev.own ref.weights), none, some ref⟩ otherRepoErrand otherRepoErrand =
        some (.ok (absolutePath ["models", "b", "r", "f.gguf"], none)) ∧
      dev.own ref.weights = ["models", "a", "r", "f.gguf"] := by
  decide

end Pipette.Android
