import Pipette.Store.ModelStore
import Pipette.Store.Quota

/-!
# The survey of the model store

`scan_store` over the models root: every child is a live entry, garbage, or one of the store's own directories. The names
`read_dir` gives, the locks of staged directories and the sizes on disk are part of what is scanned.
-/

namespace Pipette

open Files

/-- What the operating system says of a store root while it is scanned. -/
structure Scan where
  /-- The children of the root, in the order of `read_dir`. -/
  names : List Text
  /-- The children of `.staging`. -/
  staged : List Text
  /-- Whether the lock guarding a child of `.staging` can be taken. -/
  lockFree : Text → Bool
  /-- The bytes at or below a path. -/
  size : StorePath → Nat

/-- Where a stored path of the manifest leads. -/
def storedPath (path : RelativePath) : StorePath := modelsDir ++ path.1.splitOn '/'

/-- The paths a stored model's payload should be at. Only these three kinds list any. -/
def payloadPaths : Model → List StorePath
  | .ggufText (.relativeFile path) => [storedPath path]
  | .ggufVision (.relativeFiles model mmproj) => [storedPath model, storedPath mmproj]
  | .mlx (.relativeDir dir) => [storedPath dir]
  | _ => []

variable (fs : StoreTree)

/-- Whether the entry's payload is on disk. -/
def payloadPresent (manifest : ModelManifest) : Bool :=
  (payloadPaths manifest.stored).all fun path => (fs path).isSome

def garbageChild (scan : Scan) (name : Text) (reason : String) : StorageEntry :=
  { path := .child .models name, sizeBytes := scan.size (modelsDir ++ [name]), kind := .garbage reason.toList }

/-- A child that is no live entry, and why. -/
def nonEntry (scan : Scan) (name : Text) : Option StorageEntry :=
  if fs (modelsDir ++ [name]) ≠ some .dir then some (garbageChild scan name "not a store entry")
  else if name.head? = some '.' then some (garbageChild scan name "not a store entry")
  else if (fs (modelsDir ++ [name, manifestName])).isNone then some (garbageChild scan name "no manifest")
  else none

/-- A child with a manifest: a model, if the manifest is readable and its payload is there. -/
def modelEntry (scan : Scan) (name : Text) : StorageEntry :=
  match readManifest fs (modelsDir ++ [name, manifestName]) with
  | .error _ => garbageChild scan name "unreadable manifest"
  | .ok manifest =>
    match ModelStorageKey.of manifest.declared with
    | none => garbageChild scan name "declared model has no storage key"
    | some key =>
      if payloadPresent fs manifest = false then garbageChild scan name "manifest without its payload"
      else
        { path := .child .models name
          sizeBytes := manifest.blobsBytes.getD (scan.size (modelsDir ++ [name, blobsName]))
          kind := .model key.text manifest.lastUsedAt manifest.fetchedAt }

/-- The staged directory a lock file belongs to. -/
def stagedDirOfLock (name : Text) : Option Text :=
  if lockSuffix.isSuffixOf name then some (name.take (name.length - lockSuffix.length)) else none

/-- Each crashed fetch is its own garbage entry unless its lock is held. A lock file goes with its directory. -/
def stagingOrphans (scan : Scan) : List StorageEntry :=
  (scan.staged.filter scan.lockFree).filterMap fun name =>
    match stagedDirOfLock name with
    | none => some (orphan (.staging .models name) (scan.size (stagingDir ++ [name])) "orphaned staging dir")
    | some dir =>
      if (fs (stagingDir ++ [dir])).isSome then none
      else some (orphan (.stagingLock .models dir) (scan.size (stagingDir ++ [name])) "orphaned staging lock")

/-- Every child of the models root; the directory of the entry locks is skipped. -/
def scanStore (scan : Scan) : List StorageEntry :=
  scan.names.flatMap fun name =>
    if name = stagingName then stagingOrphans fs scan
    else if name = locksName then []
    else [(nonEntry fs scan name).getD (modelEntry fs scan name)]

end Pipette
