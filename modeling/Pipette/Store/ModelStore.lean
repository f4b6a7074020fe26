import Pipette.Lib.Files
import Pipette.Store.Stored

/-!
# The model store

`ModelArtifactStore`: `find`, `list`, `remove`, `touch` and `ensure` over a file tree. Paths are relative to the workspace.
What the operating system and the fetch answer to one `ensure` is an `EnsureOs`; a removal that fails keeps an arbitrary part
of what it was to remove.
-/

namespace Pipette

open Files ModelStorageKey

abbrev StorePath := List Text

def modelsDir : StorePath := ["models"]
def manifestName : Text := "manifest.toml"
def blobsName : Text := "blobs"
def stagingName : Text := ".staging"
def locksName : Text := ".locks"
def lockSuffix : Text := ".lock"

def stagingDir : StorePath := modelsDir ++ [stagingName]
def locksDir : StorePath := modelsDir ++ [locksName]

def manifestVersion : Nat := 2

/-- The record at the root of a stored model's entry. -/
structure ModelManifest where
  manifestVersion : Nat
  fetchedAt : Int
  lastUsedAt : Int
  declared : Model
  stored : Model
  blobsBytes : Option Nat
  deriving DecidableEq

/-- The bytes of a file: those that parse as a manifest, and all others. -/
inductive Content where
  | manifest (record : ModelManifest)
  | bytes (raw : Text)
  deriving DecidableEq

abbrev StoreTree := Tree Text Content

inductive ModelStoreError where
  | notStorable
  | unresolvedPath (err : ModelStoredError)
  | unsupportedVersion (version : Nat)
  | storedDrifted
  | fetch
  | io
  | parse (path : StorePath)
  | typeCollision (key : Text) (stored requested : ModelType)
  deriving DecidableEq

/-- Where `models/<key>` leads: the file system resolves an empty name, `.` and `..`. -/
def entryDir (key : Text) : StorePath :=
  if key = [] ∨ key = ['.'] then modelsDir
  else if key = ['.', '.'] then modelsDir.dropLast
  else modelsDir ++ [key]

/-- A text that names a child of a directory. -/
def IsName (t : Text) : Prop := t ≠ [] ∧ t ≠ ['.'] ∧ t ≠ ['.', '.']

instance (t : Text) : Decidable (IsName t) := inferInstanceAs (Decidable (_ ∧ _))

/-- `<key>/blobs`, relative to the store root. -/
def ModelStorageKey.blobsDir (key : ModelStorageKey) : Text := joinPath key.text blobsName

/-! ## Looking -/

variable (fs : StoreTree)

/-- Decode the manifest and enforce store policy on it. -/
def readManifest (path : StorePath) : Except ModelStoreError ModelManifest :=
  match fs path with
  | none | some .dir => .error .io
  | some (.file (.bytes _)) => .error (.parse path)
  | some (.file (.manifest record)) =>
    let m := { record with declared := record.declared.withoutAuthToken }
    if m.manifestVersion ≠ manifestVersion then .error (.unsupportedVersion m.manifestVersion)
    else
      match of m.declared with
      | none => .error .notStorable
      | some key =>
        match toStored m.declared key.blobsDir with
        | .error err => .error (.unresolvedPath err)
        | .ok expected => if m.stored ≠ expected then .error .storedDrifted else .ok m

def manifestPath (key : ModelStorageKey) : StorePath := entryDir key.text ++ [manifestName]

/-- The stored manifest for `declared`, or nothing if it is not stored. -/
def find (declared : Model) : Except ModelStoreError (Option ModelManifest) :=
  match of declared with
  | none => .error .notStorable
  | some key =>
    if (fs (manifestPath key)).isNone then .ok none
    else
      match readManifest fs (manifestPath key) with
      | .error err => .error err
      | .ok manifest =>
        let stored := ModelType.of manifest.declared
        let requested := ModelType.of declared
        if stored ≠ requested then .error (.typeCollision key.text stored requested) else .ok (some manifest)

/-- Like `find`, but nothing when the manifest does not parse. -/
def findIntact (declared : Model) : Except ModelStoreError (Option ModelManifest) :=
  match find fs declared with
  | .error (.parse _) => .ok none
  | found => found

/-- Every stored model, given the names of the store root and how a model is displayed. Hidden names and children without a
manifest are skipped; a bad manifest fails the listing. -/
def list (names : List Text) (display : Model → Text) : Except ModelStoreError (List ModelManifest) := do
  let manifests ← (names.filter fun name =>
      name.head? ≠ some '.' && (fs (modelsDir ++ [name, manifestName])).isSome).mapM fun name =>
    readManifest fs (modelsDir ++ [name, manifestName])
  return manifests.mergeSort fun a b => display a.declared ≤ display b.declared

/-! ## Touching -/

/-- How the rewrite of a manifest goes: written, or not, leaving the file beside it or nothing. -/
inductive Rewrite where
  | written
  | failed (temp : Option Text)
  deriving DecidableEq

/-- Write beside the manifest, then rename over it. Neither works without the entry, nor over a directory. -/
def rewriteManifest (how : Rewrite) (entry : StorePath) (manifest : ModelManifest) (fs : StoreTree) : StoreTree :=
  if fs entry ≠ some .dir then fs
  else
    match how with
    | .written =>
      if fs (entry ++ [manifestName]) = some .dir then fs
      else write (entry ++ [manifestName]) (.file (.manifest manifest)) fs
    | .failed none => fs
    | .failed (some unique) =>
      write (entry ++ [manifestName ++ '.' :: unique ++ ".tmp"]) (.file (.manifest manifest)) fs

/-- Stamp `last_used_at` in the entry the manifest's own declared model is keyed to. -/
def touch (now : Int) (how : Rewrite) (manifest : ModelManifest) (fs : StoreTree) : ModelManifest × StoreTree :=
  let manifest := { manifest with lastUsedAt := now }
  match of manifest.declared with
  | none => (manifest, fs)
  | some key => (manifest, rewriteManifest how (entryDir key.text) manifest fs)

/-! ## Publishing -/

/-- How one publish goes. -/
structure PublishOs where
  /-- The clock when the fetch starts. -/
  fetchedAt : Int
  /-- The unique part of the staged name. -/
  unique : Text
  /-- Whether nothing else keeps the staged directory from being locked and made. -/
  staged : Bool
  /-- Whether the fetch, the manifest's write and the sync succeed. -/
  prepared : Bool
  /-- What the fetch put under the staged `blobs`. -/
  payload : StoreTree
  /-- The bytes that occupies. -/
  blobsBytes : Nat
  /-- What a removal of the target that fails keeps. -/
  targetKeeps : Option (StorePath → Bool)
  renamed : Bool
  /-- What the clean-ups after a failure keep. -/
  cleanupTargetKeeps : StorePath → Bool
  cleanupStagedKeeps : StorePath → Bool
  /-- Whether the staged lock file is left behind. -/
  lockLeft : Bool

/-- A removal that keeps nothing. -/
def keepNone : StorePath → Bool := fun _ => false

/-- The transient name under `.staging`: enough of the key to recognize it, and the unique part. -/
def stagedName (key unique : Text) : Text := (if key = [] then "asset".toList else key).take 16 ++ ".staged-".toList ++ unique

variable (os : PublishOs) (staged target : StorePath)

/-- The rename needs the staged directory to be there still. -/
def moveIntoPlace (fs : StoreTree) : Bool × StoreTree :=
  if os.renamed && (fs staged).isSome then (true, move staged target fs) else (false, fs)

/-- Remove what is at the target, then rename. -/
def replaceStagedPath (fs : StoreTree) : Bool × StoreTree :=
  if (fs target).isSome then
    match os.targetKeeps with
    | some keep => (false, remove keep target fs)
    | none => moveIntoPlace os staged target (remove keepNone target fs)
  else moveIntoPlace os staged target fs

/-- Drop the staged directory's lock file. -/
def dropStagedLock (lock : StorePath) (fs : StoreTree) : StoreTree :=
  if os.lockLeft then fs else remove keepNone lock fs

/-- The staged directory of a publish. -/
def stagedDir (key : Text) : StorePath := stagingDir ++ [stagedName key os.unique]

/-- The lock file beside it. -/
def stagedLock (key : Text) : StorePath := stagingDir ++ [stagedName key os.unique ++ lockSuffix]

/-- Lock and make the staged directory, and fetch into it. -/
def fillStaged (key : Text) (fs : StoreTree) : StoreTree :=
  graft (stagedDir os key ++ [blobsName]) os.payload
    (mkdirAll (stagedDir os key ++ [blobsName]) (write (stagedLock os key) (.file (.bytes [])) fs))

/-- Rename the staged directory into place; a failure cleans up both places. -/
def publishStaged (key : Text) (target : StorePath) (fs : StoreTree) : Bool × StoreTree :=
  match replaceStagedPath os (stagedDir os key) target fs with
  | (true, fs) => (true, dropStagedLock os (stagedLock os key) fs)
  | (false, fs) =>
    (false, dropStagedLock os (stagedLock os key)
      (remove os.cleanupStagedKeeps (stagedDir os key) (remove os.cleanupTargetKeeps target fs)))

/-- The staged directory can be locked and made: its lock file is new and no file stands there. -/
def canStage (key : Text) (fs : StoreTree) : Bool :=
  os.staged && (fs (stagedLock os key)).isNone && !fileAt fs (stagedDir os key)

/-- Stage a directory, fill it, write its manifest unless the fetch left one, and publish it at `target`. -/
def installDir (key : Text) (target : StorePath) (manifest : ModelManifest) (fs : StoreTree) :
    Bool × StoreTree :=
  if clear stagingDir fs = false then (false, fs)
  else
    let fs := mkdirAll stagingDir fs
    if canStage os key fs = false then (false, fs)
    else
      let fs := fillStaged os key fs
      if os.prepared = false ∨ (fs (stagedDir os key ++ [manifestName])).isSome then
        (false, dropStagedLock os (stagedLock os key) (remove os.cleanupStagedKeeps (stagedDir os key) fs))
      else publishStaged os key target (write (stagedDir os key ++ [manifestName]) (.file (.manifest manifest)) fs)

/-- The manifest a publish writes. -/
def newManifest (storable stored : Model) : ModelManifest :=
  { manifestVersion, fetchedAt := os.fetchedAt, lastUsedAt := os.fetchedAt, declared := storable, stored,
    blobsBytes := some os.blobsBytes }

/-- Fetch the model and publish it under its key. What is stored carries no credential. -/
def fetchAndPublish (declared : Model) (fs : StoreTree) : Except ModelStoreError ModelManifest × StoreTree :=
  let storable := declared.withoutAuthToken
  match of storable with
  | none => (.error .notStorable, fs)
  | some key =>
    match toStored storable key.blobsDir with
    | .error err => (.error (.unresolvedPath err), fs)
    | .ok stored =>
      let manifest := newManifest os storable stored
      match installDir os key.text (entryDir key.text) manifest fs with
      | (true, fs) => (.ok manifest, fs)
      | (false, fs) => (.error .fetch, fs)

/-! ## Ensuring -/

/-- How far the entry's lock is got: not even its file, the file alone, or the lock. -/
inductive LockOutcome where
  | unopened
  | unlocked
  | locked
  deriving DecidableEq

/-- Take the lock of the entry `key`, whose file is made if it is missing. -/
def lockEntry (how : LockOutcome) (key : Text) (fs : StoreTree) : Bool × StoreTree :=
  let path := locksDir ++ [key ++ lockSuffix]
  if clear locksDir fs = false ∨ fs path = some .dir ∨ how = .unopened then (false, fs)
  else
    let fs := mkdirAll locksDir fs
    let fs := if (fs path).isSome then fs else write path (.file (.bytes [])) fs
    (how = .locked, fs)

/-- Delete the entry at `key`. -/
def removeEntryDir (keeps : Option (StorePath → Bool)) (key : Text) (fs : StoreTree) : Bool × StoreTree :=
  if (fs (entryDir key)).isNone then (true, fs)
  else
    match keeps with
    | none => (true, remove keepNone (entryDir key) fs)
    | some keep => (false, remove keep (entryDir key) fs)

/-- How one `ensure` goes. -/
structure EnsureOs where
  /-- The clock when an entry found is touched, and how its rewrite goes. -/
  now : Int
  rewrite : Rewrite
  lock : LockOutcome
  /-- What a removal of a torn entry that fails keeps. -/
  tornKeeps : Option (StorePath → Bool)
  publish : PublishOs

/-- Look, lock, look again, fetch. A manifest that does not parse is removed and fetched again. -/
def ensure (os : EnsureOs) (declared : Model) (fs : StoreTree) : Except ModelStoreError ModelManifest × StoreTree :=
  match findIntact fs declared with
  | .error err => (.error err, fs)
  | .ok (some manifest) =>
    let (manifest, fs) := touch os.now os.rewrite manifest fs
    (.ok manifest, fs)
  | .ok none =>
    match of declared with
    | none => (.error .notStorable, fs)
    | some key =>
      match lockEntry os.lock key.text fs with
      | (false, fs) => (.error .fetch, fs)
      | (true, fs) =>
        match find fs declared with
        | .error (.parse _) =>
          match removeEntryDir os.tornKeeps key.text fs with
          | (false, fs) => (.error .io, fs)
          | (true, fs) => fetchAndPublish os.publish declared fs
        | .error err => (.error err, fs)
        | .ok (some manifest) =>
          let (manifest, fs) := touch os.now os.rewrite manifest fs
          (.ok manifest, fs)
        | .ok none => fetchAndPublish os.publish declared fs

end Pipette
