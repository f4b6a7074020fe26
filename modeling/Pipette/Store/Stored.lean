import Pipette.Store.Key

/-!
# Stored forms

`toStored` maps a declared model to its installed form under a base directory: the manifest's `<key>/blobs`, or a fetch's
staged `blobs`. `underRoot` joins a stored model's relative paths under a models directory.
-/

namespace Pipette

inductive ModelStoredError where
  | invalidUrlPath (url : Text)
  | invalidUrlFilename (leaf : Text)
  | invalidPath (path : Text)
  | collidingPaths (path : Text)
  | notRelative
  deriving DecidableEq

/-! ## Paths -/

def forwardSlashes (t : Text) : Text := t.map fun c => if c = '\\' then '/' else c

/-- The constructors of the path types drop one leading `./`. -/
def stripLeadingCurrentDir (t : Text) : Text := if "./".toList.isPrefixOf t then t.drop 2 else t

def relativePath (path : Text) : Except ModelStoredError RelativePath :=
  let path := forwardSlashes path
  if h : isRelativePath (stripLeadingCurrentDir path) = true then .ok ⟨_, h⟩ else .error (.invalidPath path)

def absolutePath (path : Text) : Except ModelStoredError AbsolutePath :=
  let path := forwardSlashes path
  if h : isAbsolutePath (stripLeadingCurrentDir path) = true then .ok ⟨_, h⟩ else .error (.invalidPath path)

def isAbsolute (path : Text) : Bool := path.head? = some '/'

variable (base name : Text)

/-- `Path::join` on Unix. -/
def joinPath : Text :=
  if isAbsolute name || base = [] then name
  else if base.getLast? = some '/' then base ++ name
  else base ++ '/' :: name

inductive JoinedPath where
  | rel (path : RelativePath)
  | abs (path : AbsolutePath)
  deriving DecidableEq

def pathFromJoined (path : Text) (abs : Bool) : Except ModelStoredError JoinedPath :=
  if abs then .abs <$> absolutePath path else .rel <$> relativePath path

def underJoined (abs : Bool) : Except ModelStoredError JoinedPath := pathFromJoined (joinPath base name) abs

def dirSource : JoinedPath → ModelSource
  | .rel dir => .relativeDir dir
  | .abs dir => .absoluteDir dir

/-- The last segment of a path. -/
def pathLeaf (path : Text) : Except ModelStoredError Text :=
  match (path.splitOnP isPathSeparator).getLast? with
  | none | some [] => .error (.invalidPath path)
  | some leaf => .ok leaf

/-- The URL's last path segment without query or fragment. -/
def urlFilename (url : ResourceUrl) : Except ModelStoredError Text :=
  let segment := ((url.1.splitOn '/').getLast?).getD []
  match (segment.splitOnP fun c => c = '?' || c = '#').head? with
  | none | some [] => .error (.invalidUrlPath url.1)
  | some leaf => if isRepoSubpath leaf then .ok leaf else .error (.invalidUrlFilename leaf)

/-- A vault path's last segment names nothing, so the resource id does. -/
def vaultFilename (path : VaultPath) : Text := path.resourceId.1 ++ ".gguf"

/-! ## The installed form -/

def ggufTextUnder (abs : Bool) : Except ModelStoredError GgufTextSource := do
  match ← underJoined base name abs with
  | .rel path => return .relativeFile path
  | .abs path => return .absoluteFile path

def ggufVisionUnder (base model mmproj : Text) (abs : Bool) : Except ModelStoredError GgufVisionSource := do
  match ← underJoined base model abs, ← underJoined base mmproj abs with
  | .rel model, .rel mmproj =>
    if model = mmproj then throw (.collidingPaths model.1)
    return .relativeFiles model mmproj
  | .abs model, .abs mmproj =>
    if model = mmproj then throw (.collidingPaths model.1)
    return .absoluteFiles model mmproj
  | _, _ => throw (.invalidPath "mixed relative/absolute vision paths")

def ggufTextToStored (base : Text) (abs : Bool) : GgufTextSource → Except ModelStoredError GgufTextSource
  | .huggingFace _ path _ => ggufTextUnder base path.1 abs
  | .url url _ => do ggufTextUnder base (← urlFilename url) abs
  | .vaultUrl url _ _ => ggufTextUnder base (vaultFilename url) abs
  | .relativeFile path => do ggufTextUnder base (← pathLeaf path.1) abs
  | .absoluteFile path => do ggufTextUnder base (← pathLeaf path.1) abs

def ggufVisionToStored (base : Text) (abs : Bool) : GgufVisionSource → Except ModelStoredError GgufVisionSource
  | .huggingFace _ model mmproj _ _ => ggufVisionUnder base model.1 mmproj.1 abs
  | .url model mmproj _ _ => do ggufVisionUnder base (← urlFilename model) (← urlFilename mmproj) abs
  | .vaultUrl model mmproj _ _ _ => ggufVisionUnder base (vaultFilename model) (vaultFilename mmproj) abs
  | .relativeFiles model mmproj => do ggufVisionUnder base (← pathLeaf model.1) (← pathLeaf mmproj.1) abs
  | .absoluteFiles model mmproj => do ggufVisionUnder base (← pathLeaf model.1) (← pathLeaf mmproj.1) abs

/-- Where the drafter's file goes under the base, if there is one. -/
def draftLeaf : GgufVisionSpeculativeSource → Except ModelStoredError (Option Text)
  | .huggingFace _ _ _ _ _ draft _ => return draft.map (·.1)
  | .url _ _ _ _ draft _ => draft.mapM urlFilename
  | .vaultUrl _ _ _ _ _ draft _ => return draft.map vaultFilename
  | .relativeFiles _ _ draft => draft.mapM fun d => pathLeaf d.1
  | .absoluteFiles _ _ draft => draft.mapM fun d => pathLeaf d.1

def relativeDraft : Option JoinedPath → Except ModelStoredError (Option RelativePath)
  | none => .ok none
  | some (.rel path) => .ok (some path)
  | some (.abs path) => .error (.invalidPath path.1)

def absoluteDraft : Option JoinedPath → Except ModelStoredError (Option AbsolutePath)
  | none => .ok none
  | some (.abs path) => .ok (some path)
  | some (.rel path) => .error (.invalidPath path.1)

/-- The drafter's stored path beside the pair already mapped; refuses one that would land on either file. -/
def speculativeUnder (declared : GgufVisionSpeculativeSource) (vision : GgufVisionSource) (base : Text) (abs : Bool) :
    Except ModelStoredError GgufVisionSpeculativeSource := do
  let draft ← (← draftLeaf declared).mapM fun leaf => underJoined base leaf abs
  match vision with
  | .relativeFiles model mmproj =>
    let draft ← relativeDraft draft
    if draft = some model ∨ draft = some mmproj then throw (.collidingPaths (draft.elim [] (·.1)))
    return .relativeFiles model mmproj draft
  | .absoluteFiles model mmproj =>
    let draft ← absoluteDraft draft
    if draft = some model ∨ draft = some mmproj then throw (.collidingPaths (draft.elim [] (·.1)))
    return .absoluteFiles model mmproj draft
  | _ => throw (.invalidPath "a stored gguf-vision source must be a path pair")

def dirToStored (source : ModelSource) (base : Text) (abs : Bool) : Except ModelStoredError ModelSource :=
  match source with
  | .huggingFace _ (some subdir) => dirSource <$> underJoined base subdir.1 abs
  | .huggingFace _ none | .vaultArchive .. | .relativeDir _ | .absoluteDir _ => dirSource <$> pathFromJoined base abs

/-- Fixed names: two sources with no subdirectory would both resolve to the base. -/
def pairToStored (base : Text) (abs : Bool) : Except ModelStoredError (ModelSource × ModelSource) := do
  return (dirSource (← underJoined base "target" abs), dirSource (← underJoined base "draft" abs))

/-- The model with its sources under `base`: relative arms for a relative base, absolute ones for an absolute base. -/
def toStored (model : Model) (base : Text) : Except ModelStoredError Model :=
  let abs := isAbsolute base
  match model with
  | .ggufText source => .ggufText <$> ggufTextToStored base abs source
  | .ggufVision source => .ggufVision <$> ggufVisionToStored base abs source
  | .ggufVisionSpeculative source => do
    let vision ← ggufVisionToStored base abs source.vision
    return .ggufVisionSpeculative (← speculativeUnder source vision base abs)
  | .appleCoreAi source => .appleCoreAi <$> dirToStored source base abs
  | .mlx source => .mlx <$> dirToStored source base abs
  | .mlxSpeculative .. => (fun pair => .mlxSpeculative pair.1 pair.2) <$> pairToStored base abs
  | .torchSpeculative .. => (fun pair => .torchSpeculative pair.1 pair.2) <$> pairToStored base abs
  | .torch source => .torch <$> dirToStored source base abs
  | .openvino source => .openvino <$> dirToStored source base abs
  | .onnxGenai source => .onnxGenai <$> dirToStored source base abs
  | .appleFoundationText => .ok .appleFoundationText

end Pipette
