import Pipette.Path

/-!
# The storage quota

`survey`, `plan`, `apply_sweep` and `sweep` over the entries of the two stores, in discovery order; what the operating system
answers to a removal is given per path by `Removals`. One that fails can leave the entry where it was, moved under `.staging`,
or a part of it; one that succeeds can leave the lock file of a staged directory. `removeEntry` says what the next survey
finds in each case.
-/

namespace Pipette

/-- The two artifact stores. -/
inductive StoreKind where
  | models
  | runtimes
  deriving DecidableEq

/-- A child of the root, a child of `.staging`, the lock file of one, or the fresh name under `.staging` that the child `name`
is moved to before it is deleted. -/
inductive Place where
  | child (store : StoreKind) (name : Text)
  | staging (store : StoreKind) (name : Text)
  | stagingLock (store : StoreKind) (name : Text)
  | doomed (store : StoreKind) (name : Text)
  deriving DecidableEq

/-- Whether the path is a child of `.staging`. -/
def Place.isStaged : Place → Bool
  | .child .. => false
  | .staging .. | .stagingLock .. | .doomed .. => true

/-- The lock of a staging child: itself for a lock file, the file beside it for a directory. A directory moved out for
deletion has none. -/
def Place.stagingLockOf : Place → Option Place
  | .staging store name => some (.stagingLock store name)
  | .stagingLock store name => some (.stagingLock store name)
  | .child .. | .doomed .. => none

/-- What an entry under a store root is, for accounting purposes. -/
inductive EntryKind where
  | garbage (reason : Text)
  | model (key : Text) (lastUsedAt fetchedAt : Int)
  | runtime (key : Text) (lastUsedAt fetchedAt : Int) (evictable : Bool)
  deriving DecidableEq

namespace EntryKind

def isGarbage : EntryKind → Bool
  | .garbage _ => true
  | .model .. | .runtime .. => false

/-- Sweep rank: garbage, then models, then runtimes. -/
def rank : EntryKind → Nat
  | .garbage _ => 0
  | .model .. => 1
  | .runtime .. => 2

/-- The eviction timestamp; garbage has none. -/
def lastUsedAt : EntryKind → Option Int
  | .garbage _ => none
  | .model _ lastUsed _ => some lastUsed
  | .runtime _ lastUsed _ _ => some lastUsed

/-- Publish time; garbage has none. -/
def fetchedAt : EntryKind → Option Int
  | .garbage _ => none
  | .model _ _ fetched => some fetched
  | .runtime _ _ fetched _ => some fetched

end EntryKind

/-- One thing under a store root that occupies disk. -/
structure StorageEntry where
  path : Place
  sizeBytes : Nat
  kind : EntryKind
  deriving DecidableEq

/-- The order of `Option`: nothing is before everything. -/
def optLe : Option Int → Option Int → Bool
  | none, _ => true
  | some _, none => false
  | some a, some b => a ≤ b

/-- The sweep order: by rank, then least recently used, then first fetched. -/
def sweepLe (a b : StorageEntry) : Bool :=
  a.kind.rank < b.kind.rank || (a.kind.rank = b.kind.rank &&
    (!optLe b.kind.lastUsedAt a.kind.lastUsedAt || (a.kind.lastUsedAt = b.kind.lastUsedAt &&
      optLe a.kind.fetchedAt b.kind.fetchedAt)))

/-- Everything under both store roots, in sweep order. -/
structure StorageSurvey where
  entries : List StorageEntry
  usedBytes : Nat

/-- The entries as the sweep would reclaim them, ties in discovery order, and their total size. -/
def StorageSurvey.new (entries : List StorageEntry) : StorageSurvey :=
  let entries := entries.insertionSort fun a b => sweepLe a b
  { entries, usedBytes := entries.foldl (fun total entry => satAdd total entry.sizeBytes) 0 }

/-- The never-evict set. -/
structure SweepPins where
  models : List Text
  runtimes : List Text

/-- What a sweep would drop to bring the store back under the cap. -/
structure SweepPlan where
  evictions : List StorageEntry
  freedBytes : Nat
  stillOverByBytes : Option Nat

def isCandidate (pins : SweepPins) (entry : StorageEntry) : Bool :=
  match entry.kind with
  | .garbage _ => true
  | .model key _ _ => key ∉ pins.models
  | .runtime key _ _ evictable => evictable && key ∉ pins.runtimes

/-- The loop of `plan`: what it evicts and the bytes it counts as freed. A live entry reached while the store fits ends it. -/
def planLoop (usedBytes quotaBytes : Nat) (pins : SweepPins) : Nat → List StorageEntry → List StorageEntry × Nat
  | freed, [] => ([], freed)
  | freed, entry :: entries =>
    if ¬quotaBytes < usedBytes - freed ∧ entry.kind.isGarbage = false then ([], freed)
    else if isCandidate pins entry = false then planLoop usedBytes quotaBytes pins freed entries
    else
      let (evictions, total) := planLoop usedBytes quotaBytes pins (satAdd freed entry.sizeBytes) entries
      (entry :: evictions, total)

/-- Every piece of garbage, then live entries least recently used first until the survey fits the quota. -/
def plan (survey : StorageSurvey) (quotaBytes : Nat) (pins : SweepPins) : SweepPlan :=
  let (evictions, freedBytes) := planLoop survey.usedBytes quotaBytes pins 0 survey.entries
  let remaining := survey.usedBytes - freedBytes
  { evictions, freedBytes, stillOverByBytes := if quotaBytes < remaining then some (remaining - quotaBytes) else none }

/-! ## Removing an entry -/

/-- Why a planned entry could not be removed. -/
inductive RemoveError where
  | locked
  | inUse
  | entryLock
  | io
  deriving DecidableEq

/-- What the operations of a removal are answered, path by path. `stagingLock` and `moveOut` keep the entry: the lock of a
staging child cannot be taken, or the in-use lock, the staging directory or the rename fails. `delete` breaks off, with
the bytes it leaves. -/
structure Removals where
  stagingLock : Place → Option RemoveError
  moveOut : Place → Option RemoveError
  delete : Place → Option Nat

/-- The garbage a removal leaves at `path`. -/
def orphan (path : Place) (sizeBytes : Nat) (reason : String) : StorageEntry :=
  { path, sizeBytes, kind := .garbage reason.toList }

variable (os : Removals)

/-- Remove a staging child under its lock, then its lock file. What is left is a part of the directory, or the lock file. -/
def removeStaged (entry : StorageEntry) : Option RemoveError × List StorageEntry :=
  match os.stagingLock entry.path with
  | some err => (some err, [entry])
  | none =>
    match os.delete entry.path with
    | some left => (some .io, [{ entry with sizeBytes := left }])
    | none =>
      match entry.path.stagingLockOf.bind fun lock => (os.delete lock).map fun left => (lock, left) with
      | some (lock, left) => (none, [orphan lock left "orphaned staging lock"])
      | none => (none, [])

/-- Move the entry under `.staging` under its in-use lock, then delete it there. One whose delete fails is an orphan. -/
def moveOutAndRemove (store : StoreKind) (name : Text) (entry : StorageEntry) :
    Option RemoveError × List StorageEntry :=
  match os.moveOut entry.path with
  | some err => (some err, [entry])
  | none =>
    match os.delete (.doomed store name) with
    | some left => (some .io, [orphan (.doomed store name) left "orphaned staging dir"])
    | none => (none, [])

/-- Remove an entry: the error, if it fails, and what the next survey finds of it. -/
def removeEntry (entry : StorageEntry) : Option RemoveError × List StorageEntry :=
  match entry.path with
  | .child store name => moveOutAndRemove os store name entry
  | .staging .. | .stagingLock .. | .doomed .. => removeStaged os entry

/-- What a sweep actually did. -/
structure SweepReport where
  removed : List StorageEntry
  failed : List (StorageEntry × RemoveError)
  freedBytes : Nat

def SweepReport.empty : SweepReport := { removed := [], failed := [], freedBytes := 0 }

/-- The entries once the one at `path` has been replaced by what a removal left of it. -/
def replaceAt (path : Place) (left : List StorageEntry) (disk : List StorageEntry) : List StorageEntry :=
  disk.flatMap fun entry => if entry.path = path then left else [entry]

/-- Delete the planned entries one by one, skipping any that cannot be removed. -/
def applySweep (os : Removals) : List StorageEntry → SweepReport → List StorageEntry → SweepReport × List StorageEntry
  | [], report, disk => (report, disk)
  | entry :: entries, report, disk =>
    match removeEntry os entry with
    | (none, left) =>
      applySweep os entries
        { report with removed := report.removed ++ [entry], freedBytes := satAdd report.freedBytes entry.sizeBytes }
        (replaceAt entry.path left disk)
    | (some err, left) =>
      applySweep os entries { report with failed := report.failed ++ [(entry, err)] } (replaceAt entry.path left disk)

/-- Pin every live entry the report could not remove; whether any was new. -/
def SweepPins.pinFailed : List (StorageEntry × RemoveError) → SweepPins → Bool × SweepPins
  | [], pins => (false, pins)
  | (entry, _) :: failed, pins =>
    let (new, pins) : Bool × SweepPins :=
      match entry.kind with
      | .model key _ _ => (key ∉ pins.models, { pins with models := key :: pins.models })
      | .runtime key _ _ _ => (key ∉ pins.runtimes, { pins with runtimes := key :: pins.runtimes })
      | .garbage _ => (false, pins)
    let (more, pins) := pinFailed failed pins
    (new || more, pins)

/-- Add what one round did to the report; a path that failed before is not reported again. -/
def SweepReport.extend (done report : SweepReport) : SweepReport :=
  { removed := done.removed ++ report.removed
    failed := done.failed ++ report.failed.filter fun f => !done.failed.any fun kept => kept.1.path = f.1.path
    freedBytes := satAdd done.freedBytes report.freedBytes }

/-- Survey, plan and apply until no live entry newly failed; nothing when the fuel runs out first. -/
def sweepLoop (os : Removals) (quotaBytes : Nat) :
    Nat → SweepPins → SweepReport → List StorageEntry → Option (SweepPlan × SweepReport × List StorageEntry)
  | 0, _, _, _ => none
  | fuel + 1, pins, done, disk =>
    let plan := plan (.new disk) quotaBytes pins
    let (report, disk) := applySweep os plan.evictions .empty disk
    let (again, pins) := pins.pinFailed report.failed
    let done := done.extend report
    if again then sweepLoop os quotaBytes fuel pins done disk else some (plan, done, disk)

/-- The last plan, every removal and failure, and the entries left. -/
def sweep (quotaBytes : Nat) (pins : SweepPins) (fuel : Nat) (disk : List StorageEntry) :
    Option (SweepPlan × SweepReport × List StorageEntry) :=
  sweepLoop os quotaBytes fuel pins .empty disk

end Pipette
