import Pipette.Path

/-!
# The model files of an Android cell

`LocalStorage.resolveModelPath` looks a stored path up, `ModelProvisioner` fetches what is absent, and `JobRunner.execute`
asks both for a cell's weights and projector. A path is the list of the parts between its slashes; there are no links. The
world is what one errand sees: the disk, the download rows and the clock.
-/

namespace Pipette.Android

/-- `HfOrg` and `HfRepoName`: `^[A-Za-z0-9][A-Za-z0-9._-]*$`. -/
def isName (raw : Text) : Bool :=
  (raw.head?.elim false Char.isAlphanum) && raw.all fun c => c.isAlphanum || c == '.' || c == '_' || c == '-'

structure HfRepo where
  org : Text
  repoName : Text
  valid : isName org ∧ isName repoName

/-- `GgufFilename`: `^[A-Za-z0-9._-]+\.gguf$`. -/
structure GgufFilename where
  value : Text
  valid : (value.all fun c => c.isAlphanum || c == '.' || c == '_' || c == '-') ∧ ".gguf" <:+ value ∧ 5 < value.length

/-- `Model`, as far as it says which files it is. -/
inductive Model where
  | ggufText (repo : HfRepo) (filename : GgufFilename)
  | ggufVision (repo : HfRepo) (filename mmprojFilename : GgufFilename)

/-- The repository and the file of the weights. -/
def Model.weights : Model → HfRepo × GgufFilename
  | .ggufText repo filename | .ggufVision repo filename _ => (repo, filename)

/-- The repository and the file of the projector. -/
def Model.mmproj : Model → Option (HfRepo × GgufFilename)
  | .ggufText _ _ => none
  | .ggufVision repo _ mmprojFilename => some (repo, mmprojFilename)

/-! ## Paths and the disk -/

/-- A path text, as the parts between its slashes. -/
abbrev Path := List Text

def dot : Text := ['.']

def dotDot : Text := ['.', '.']

/-- The path of names that one more part leads to. -/
def enter (names : List Text) (part : Text) : List Text :=
  if part = [] ∨ part = dot then names else if part = dotDot then names.dropLast else names ++ [part]

/-- What a file or a directory can be called. -/
abbrev IsEntry (name : Text) : Prop := name ≠ [] ∧ name ≠ dot ∧ name ≠ dotDot

/-- The files and directories of the device, by their names from the root. -/
structure Disk where
  files : List (List Text)
  dirs : List (List Text)
  nodup : files.Nodup
  named : ∀ file ∈ files, ∀ name ∈ file, IsEntry name

/-- Where the app runs and keeps its models. -/
structure Device where
  cwd : List Text
  models : List Text

variable (dev : Device) (disk : Disk)

/-- The names from the root that a path leads to. -/
def Device.real (path : Path) : List Text := path.foldl enter (if path.head? = some [] then [] else dev.cwd)

/-- `File.absolutePath` of a path of names from the root; that of the root is one slash. -/
def absolutePath (names : List Text) : Path := [] :: if names = [] then [[]] else names

/-- `File.exists`; there is nothing at the empty path. -/
def Device.exists (path : Path) : Bool := path ≠ [[]] ∧ (dev.real path ∈ disk.files ∨ dev.real path ∈ disk.dirs)

/-- `File.name`. -/
def fileName (path : Path) : Text := (path.filter (· ≠ [])).getLastD []

/-- `File.extension`. -/
def extension (name : Text) : Text := if '.' ∈ name then (name.reverse.takeWhile (· ≠ '.')).reverse else []

/-- `modelsNamed`. -/
def Device.modelsNamed (filename : Text) : List (List Text) :=
  if dev.exists disk (absolutePath dev.models) then
    disk.files.filter fun file =>
      dev.models.isPrefixOf file && (extension (fileName file)).map Char.toLower == "gguf" && fileName file == filename
  else []

/-- The file below the models that the parts after the last `models` of a stored path name. -/
def Device.candidate (components : List Text) : Option Path :=
  let tail := (components.reverse.takeWhile (· ≠ "models".toList)).reverse
  if "models".toList ∈ components ∧ tail ≠ [] then some (absolutePath (dev.models ++ tail)) else none

variable (storedPath : Path)

/-- The parts of a stored path that a lookup keeps. -/
def components : List Text := storedPath.filter fun part => part.any fun c => !isWhiteSpace c

/-- `resolveModelPath(storedPath, modelsRoot)`. -/
def Device.resolveBelow : Option Path :=
  match (components storedPath).getLast? with
  | none => none
  | some filename =>
    match (dev.candidate (components storedPath)).filter fun path => dev.exists disk path with
    | some path => some path
    | none =>
      match dev.modelsNamed disk filename with
      | [file] => some (absolutePath file)
      | _ => none

/-- `LocalStorage.resolveModelPath`. -/
def Device.resolveModelPath : Option Path :=
  if dev.exists disk storedPath then some storedPath else dev.resolveBelow disk storedPath

/-! ## Fetching -/

/-- The states of a `DownloadStore.Record`. -/
inductive DownloadState where
  | queued
  | running
  | waitingNetwork
  | paused
  | failed
  deriving DecidableEq

structure Record where
  key : Path
  state : DownloadState

/-- What is there to see at one moment. -/
structure Moment where
  disk : Disk
  records : List Record
  now : Int
  isOnline : Bool

/-- What one errand for a file sees: at the lookup of the stored path, when `ensureOne` begins, of `parseDownloadInput` and
`enqueueDownload`, when `await` reads the clock, and at each poll. -/
structure Errand where
  first : Moment
  second : Moment
  parsed : Except Text Unit
  enqueued : Except Text Unit
  started : Int
  polls : List Moment

/-- `DEFAULT_DEADLINE_MILLIS`. -/
def deadlineMillis : Int := 60 * 60 * 1000

/-- `LocalStorage.modelRelativePath`, of a repository and a file that were parsed. -/
def modelRelativePath (repo : HfRepo) (filename : GgufFilename) : Path := [repo.org, repo.repoName, filename.value]

/-- `ModelProvisioner.await`; it still waits when the polls are over. -/
def Device.await (dev : Device) (key : Path) (filename : Text) (started : Int) : List Moment → Option (Except Text Path)
  | [] => none
  | m :: polls =>
    match dev.resolveModelPath m.disk key, m.records.find? (·.key = key) with
    | some resolved, _ => some (.ok resolved)
    | none, none => some (.error ("The download for " ++ filename ++ " ended without producing a file"))
    | none, some record =>
      if record.state = .failed then
        some (.error ("The download for " ++ filename ++ " failed. Retry it from the Models tab."))
      else if record.state = .waitingNetwork ∧ m.isOnline = false then
        some (.error (filename ++ " is waiting for a network this device does not have"))
      else if deadlineMillis < m.now - started then
        some (.error ("The download for " ++ filename ++ " did not finish within 60 minutes"))
      else dev.await key filename started polls

/-- `ModelProvisioner.ensureOne`. What resuming or waiting for a row does to the disk and the rows is in what the polls see. -/
def Device.ensureOne (repo : HfRepo) (filename : GgufFilename) (e : Errand) : Option (Except Text Path) :=
  let key := modelRelativePath repo filename
  match dev.resolveModelPath e.second.disk key with
  | some path => some (.ok path)
  | none =>
    match e.second.records.find? (·.key = key), e.parsed, e.enqueued with
    | none, .error message, _ =>
      some (.error ("Could not resolve a download URL for " ++ filename.value ++ ": " ++ message))
    | none, .ok (), .error message =>
      some (.error ("Could not start the download for " ++ filename.value ++ ": " ++ message))
    | _, _, _ => dev.await key filename.value e.started e.polls

/-- `JobCell`, as far as it says which files it needs. -/
structure JobCell where
  modelPath : Path
  mmprojPath : Option Path
  modelRef : Option Model

/-- What `execute` finds for a stored path, or fetches; an error of the fetch is kept. -/
def Device.provide (stored : Option Path) (wanted : Option (HfRepo × GgufFilename)) (e : Errand) :
    Option (Except (Option Text) Path) :=
  match stored.bind (dev.resolveModelPath e.first.disk), wanted with
  | some path, _ => some (.ok path)
  | none, none => some (.error none)
  | none, some (repo, filename) => (dev.ensureOne repo filename e).map (Except.mapError some)

/-- `ensureWeights` after the stored path. -/
def Device.weightsPath (cell : JobCell) (e : Errand) : Option (Except (Option Text) Path) :=
  dev.provide (some cell.modelPath) (cell.modelRef.map Model.weights) e

/-- `ensureMmproj` after the stored path. -/
def Device.projectorPath (cell : JobCell) (e : Errand) : Option (Except (Option Text) Path) :=
  dev.provide cell.mmprojPath (cell.modelRef.bind Model.mmproj) e

/-- What a cell comes to before it is run: the message it fails with, or its paths. -/
def Device.execute (cell : JobCell) (weights projector : Errand) : Option (Except Text (Path × Option Path)) :=
  (dev.weightsPath cell weights).bind fun
    | .error fetchError => some (.error (fetchError.getD ("Model file not found: " ++ fileName cell.modelPath ++
        ". Re-download it from the Models tab.")))
    | .ok modelPath =>
      (dev.projectorPath cell projector).map fun
        | .ok mmprojPath => .ok (modelPath, some mmprojPath)
        | .error fetchError =>
          match cell.mmprojPath with
          | none => .ok (modelPath, none)
          | some path => .error (fetchError.getD ("mmproj file not found: " ++ fileName path ++
              ". Re-download it from the Models tab."))

end Pipette.Android
