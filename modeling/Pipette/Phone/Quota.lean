import Pipette.Path

/-!
# The storage quota of the phone

Classify (`survey`), decide (`plan`) and delete (`applySweep`), over the children of the model store and of the hub cache. A
`Child` is what the survey reads of one child of the root, a `Disk` what one walk finds. Byte counts are `Int`: a sum that
overflows ends the process in the source, except where `usedBytes` saturates.
-/

namespace Pipette.Phone

/-- What an entry under the store root is, for accounting purposes. -/
inductive EntryKind where
  | garbage (reason : Text)
  | model (key : Text) (lastUsedAt fetchedAt : Int)
  deriving DecidableEq

namespace EntryKind

def lastUsedAt : EntryKind → Option Int
  | .garbage _ => none
  | .model _ lastUsedAt _ => some lastUsedAt

def fetchedAt : EntryKind → Option Int
  | .garbage _ => none
  | .model _ _ fetchedAt => some fetchedAt

/-- Sweep rank: garbage, then models. -/
def rank : EntryKind → Nat
  | .garbage _ => 0
  | .model .. => 1

end EntryKind

/-- A child of the store root, a child of `.staging`, a snapshot of the hub cache, or the shared cache. -/
inductive StorePath where
  | entry (name : Text)
  | staged (name : Text)
  | hub (org repo : Text)
  | sharedHf
  deriving DecidableEq

structure StorageEntry where
  path : StorePath
  label : Text
  sizeBytes : Int
  kind : EntryKind

/-- `Date.distantPast`, in seconds. -/
def distantPast : Int := -62135769600

/-- `Int64.max`. -/
def int64Max : Int := 2 ^ 63 - 1

/-- `addingReportingOverflow`, with `Int64.max` for a sum that overflows. -/
def saturatingSum (total size : Int) : Int :=
  if -2 ^ 63 ≤ total + size ∧ total + size ≤ int64Max then total + size else int64Max

/-- Whether `a` sorts strictly before `b`: by rank, then least recently used, then first fetched. -/
def sweepsBefore (a b : StorageEntry) : Bool :=
  let used (e : StorageEntry) := e.kind.lastUsedAt.getD distantPast
  let fetched (e : StorageEntry) := e.kind.fetchedAt.getD distantPast
  a.kind.rank < b.kind.rank || (a.kind.rank = b.kind.rank &&
    (used a < used b || (used a = used b && fetched a < fetched b)))

/-- The entries of the store, in sweep order, and what they occupy. -/
structure StorageSurvey where
  entries : List StorageEntry
  usedBytes : Int

def StorageSurvey.new (entries : List StorageEntry) : StorageSurvey where
  entries := entries.insertionSort fun a b => sweepsBefore b a = false
  usedBytes := entries.foldl (fun total entry => saturatingSum total entry.sizeBytes) 0

structure SweepPlan where
  evictions : List StorageEntry
  freedBytes : Int
  stillOverByBytes : Option Int

structure SweepReport where
  removed : List StorageEntry
  failed : List (StorageEntry × Text)
  freedBytes : Int

/-- Never evicted: model keys, the `org/repo` slugs of running pulls, and the staging children a live transfer owns. -/
structure SweepPins where
  models : List Text
  hubRepos : List Text
  stagingAttempts : List Text

variable (pins : SweepPins)

def isCandidate (entry : StorageEntry) : Bool :=
  match entry.kind with
  | .garbage _ => true
  | .model key _ _ => key ∉ pins.models

/-- The loop of `plan`: what it evicts and the bytes it counts as freed. A live entry reached while the store fits ends it. -/
def planLoop (usedBytes quotaBytes : Int) (pins : SweepPins) : Int → List StorageEntry → List StorageEntry × Int
  | freed, [] => ([], freed)
  | freed, entry :: entries =>
    if ¬quotaBytes < usedBytes - freed ∧ entry.kind.rank ≠ 0 then ([], freed)
    else if isCandidate pins entry = false then planLoop usedBytes quotaBytes pins freed entries
    else
      let (evictions, total) := planLoop usedBytes quotaBytes pins (freed + entry.sizeBytes) entries
      (entry :: evictions, total)

/-- Every piece of garbage, then unpinned models least recently used first until the store fits. -/
def plan (survey : StorageSurvey) (quotaBytes : Int) (pins : SweepPins) : SweepPlan :=
  let (evictions, freedBytes) := planLoop survey.usedBytes quotaBytes pins 0 survey.entries
  let remaining := survey.usedBytes - freedBytes
  { evictions, freedBytes, stillOverByBytes := if quotaBytes < remaining then some (remaining - quotaBytes) else none }

variable (fails : StorePath → Option Text)

/-- Delete the planned entries one by one; `fails` is why a removal fails, if it does. -/
def applySweep (plan : SweepPlan) : SweepReport :=
  plan.evictions.foldl (fun report entry =>
    match fails entry.path with
    | none =>
      { report with freedBytes := report.freedBytes + entry.sizeBytes, removed := report.removed ++ [entry] }
    | some reason => { report with failed := report.failed ++ [(entry, reason)] }) ⟨[], [], 0⟩

/-! ## Reading the store -/

/-- What the survey reads of a manifest; `key` is the declared model's, if it has one. -/
structure Manifest where
  key : Option Text
  description : Text
  blobsBytes : Option Int
  lastUsedAt : Int
  fetchedAt : Int
  deriving DecidableEq

/-- At the path of a manifest: nothing, a file that does not decode and why, or a manifest. -/
inductive ManifestFile where
  | missing
  | unreadable (reason : Text)
  | readable (manifest : Manifest)
  deriving DecidableEq

/-- A child of the store root: its size and that of its `blobs`, and whether the declared payload is there (`bound`). -/
structure Child where
  name : Text
  isDir : Bool
  manifest : ManifestFile
  bound : Bool
  sizeBytes : Int
  blobsSizeBytes : Int

/-- A child of `.staging`, or of an organisation's directory in the hub cache. -/
structure Sized where
  name : Text
  sizeBytes : Int

/-- A child of the store root as `survey` meets it. -/
inductive StoreChild where
  | staging (attempts : List Sized)
  | other (child : Child)

/-- What one walk over the store root and the hub cache finds. -/
structure Disk where
  children : List StoreChild
  hub : List (Text × List Sized)
  sharedHf : Option Int

def stagingDirName : Text := ".staging"

/-- Garbage under a label, the last path component unless another is given. -/
def garbage (path : StorePath) (label : Text) (sizeBytes : Int) (reason : Text) : StorageEntry :=
  { path, label, sizeBytes, kind := .garbage reason }

/-- One garbage entry per crashed fetch, leaving out what the pins name. -/
def stagingOrphans (attempts : List Sized) : List StorageEntry :=
  attempts.filterMap fun child =>
    if child.name ∈ pins.stagingAttempts ∨ child.name ∈ pins.models then none
    else some (garbage (.staged child.name) (stagingDirName ++ '/' :: child.name) child.sizeBytes "orphaned staging dir")

/-- A file, a hidden directory, or a directory with no manifest; `none` otherwise. -/
def nonEntry (child : Child) : Option StorageEntry :=
  if child.isDir = false ∨ child.name.head? = some '.' then
    some (garbage (.entry child.name) child.name child.sizeBytes "not a store entry")
  else if child.manifest = .missing then
    some (garbage (.entry child.name) child.name child.sizeBytes "no manifest")
  else none

/-- Garbage unless the manifest reads and, pins aside, its payload binds. A manifest gone since `nonEntry` looked cannot be
read. -/
def modelEntry (child : Child) : StorageEntry :=
  let junk (reason : Text) := garbage (.entry child.name) child.name child.sizeBytes reason
  match child.manifest with
  | .missing => junk "unreadable manifest: "
  | .unreadable reason => junk ("unreadable manifest: " ++ reason)
  | .readable manifest =>
    match manifest.key with
    | none => junk "declared model has no storage key"
    | some key =>
      if key ∉ pins.models ∧ child.bound = false then junk "manifest without its payload"
      else
        { path := .entry child.name, label := manifest.description,
          sizeBytes := manifest.blobsBytes.getD child.blobsSizeBytes,
          kind := .model key manifest.lastUsedAt manifest.fetchedAt }

/-- The entries of one child of the store root. -/
def classify : StoreChild → List StorageEntry
  | .staging attempts => stagingOrphans pins attempts
  | .other child => [(nonEntry child).getD (modelEntry pins child)]

def survey (disk : Disk) : StorageSurvey :=
  StorageSurvey.new (disk.children.flatMap (classify pins))

/-! ## The hub cache -/

variable (liveRepos : List Text)

/-- The snapshots that no running pull owns, as `(org, snapshot)`. -/
def strandedRepos (hub : List (Text × List Sized)) : List (Text × Sized) :=
  hub.flatMap fun (org, repos) =>
    (repos.filter fun repo => org ++ '/' :: repo.name ∉ liveRepos).map fun repo => (org, repo)

/-- Hub-cache bytes no live grant covers. -/
def hubBytes (disk : Disk) : Int :=
  (strandedRepos liveRepos disk.hub).foldl (fun total repo => total + repo.2.sizeBytes) 0

def reclaimHubRemnants (disk : Disk) : List StorageEntry :=
  (applySweep fails
    { evictions := (strandedRepos liveRepos disk.hub).map fun (org, repo) =>
        garbage (.hub org repo.name) (org ++ '/' :: repo.name) repo.sizeBytes "hub-cache remnant",
      freedBytes := 0, stillOverByBytes := none }).removed

def reclaimSharedHfCache (disk : Disk) : List StorageEntry :=
  match disk.sharedHf with
  | none => []
  | some sizeBytes =>
    (applySweep fails
      { evictions := [garbage .sharedHf "hub" sizeBytes "shared HF cache"],
        freedBytes := 0, stillOverByBytes := none }).removed

/-- `applySweep` and the hub-cache phase. -/
def reclaim (plan : SweepPlan) (pins : SweepPins) (disk : Disk) : SweepReport :=
  let report := applySweep fails plan
  { report with
    removed := report.removed ++ reclaimHubRemnants fails pins.hubRepos disk ++ reclaimSharedHfCache fails disk }

/-- The disk without what a report says is gone. -/
def Disk.after (disk : Disk) (report : SweepReport) : Disk :=
  let gone := report.removed.map StorageEntry.path
  { children := disk.children.filterMap fun child =>
      match child with
      | .staging attempts => some (.staging (attempts.filter fun child => .staged child.name ∉ gone))
      | .other child => if .entry child.name ∈ gone then none else some (.other child)
    hub := disk.hub.map fun (org, repos) => (org, repos.filter fun repo => .hub org repo.name ∉ gone)
    sharedHf := if .sharedHf ∈ gone then none else disk.sharedHf }

end Pipette.Phone
