import Pipette.Path

/-!
# Declared models

Where a model comes from, and what it is. A validated string of the plan is a subtype by its validator, so that a model with
an ill-formed path or name cannot be built.
-/

namespace Pipette

/-! ## Validated texts -/

/-- The characters a storage key is made of. -/
def isSafeChar (c : Char) : Bool := c.isAlphanum || c = '.' || c = '-' || c = '_'

def isPathSeparator (c : Char) : Bool := c = '/' || c = '\\'

/-- `C:`. -/
def hasDriveLetterPrefix : Text → Bool
  | c :: ':' :: _ => c.isAlpha
  | _ => false

/-- Whether every segment names something below: none is empty, `.` or `..`. -/
def segmentsDescend (t : Text) : Bool :=
  (t.splitOnP isPathSeparator).all fun seg => seg ≠ [] && seg ≠ ['.'] && seg ≠ ['.', '.']

/-- `is_relative_fs_path`. -/
def isRelativePath (t : Text) : Bool :=
  t ≠ [] && t.head? ≠ some '~' && t.head? ≠ some '/' && !"\\\\".toList.isPrefixOf t && !hasDriveLetterPrefix t &&
    segmentsDescend t

/-- `is_absolute_path`: a Unix, UNC or drive path; a bare root is absolute. -/
def isAbsolutePath (t : Text) : Bool :=
  let descends (body : Text) := body = [] || segmentsDescend body
  match t with
  | '\\' :: '\\' :: rest | '/' :: '/' :: rest => ((rest.splitOnP isPathSeparator).take 2).all (· ≠ []) && descends rest
  | '/' :: rest => descends rest
  | c :: ':' :: sep :: rest => c.isAlpha && isPathSeparator sep && descends rest
  | _ => false

/-- `is_relative_repo_subpath`. -/
def isRepoSubpath (t : Text) : Bool :=
  (t.splitOn '/').all fun seg => seg ≠ [] && seg ≠ ['.'] && seg ≠ ['.', '.'] && seg.all isSafeChar

/-- An org or repo name of the hub. -/
def isHfName : Text → Bool
  | c :: rest => c.isAlphanum && rest.all isSafeChar
  | [] => false

/-- A tag, branch or commit. -/
def isHfRevision : Text → Bool
  | c :: rest => c.isAlphanum && rest.all fun c => isSafeChar c || c = '/'
  | [] => false

/-- An `http`, `https` or `file` URL. -/
def isResourceUrl (t : Text) : Bool :=
  ["http://".toList, "https://".toList, "file://".toList].any fun scheme => scheme.isPrefixOf t && scheme.length < t.length

/-- A vault resource id. -/
def isVaultResourceId (t : Text) : Bool := "vault_".toList.isPrefixOf t && t.all fun c => c.isAlphanum || c = '_' || c = '-'

abbrev RelativePath := { t : Text // isRelativePath t = true }
abbrev AbsolutePath := { t : Text // isAbsolutePath t = true }
abbrev RepoSubpath := { t : Text // isRepoSubpath t = true }
abbrev HfName := { t : Text // isHfName t = true }
abbrev HfRevision := { t : Text // isHfRevision t = true }
abbrev ResourceUrl := { t : Text // isResourceUrl t = true }

/-- `/vault/resources/{resource_id}/content`. -/
structure VaultPath where
  resourceId : { t : Text // isVaultResourceId t = true }
  deriving DecidableEq

/-! ## Sources -/

/-- A HuggingFace repo coordinate. -/
structure HfRepo where
  org : HfName
  repoName : HfName
  revision : Option HfRevision
  authToken : Option Text
  deriving DecidableEq

/-- Whom a vault resource is served to, and the name it is shown under. -/
structure VaultGrant where
  principalId : Text
  customLabel : Option Text
  deriving DecidableEq

inductive GgufTextSource where
  | huggingFace (repo : HfRepo) (path : RepoSubpath) (sha256 : Option Text)
  | url (url : ResourceUrl) (sha256 : Option Text)
  | vaultUrl (url : VaultPath) (sha256 : Option Text) (grant : VaultGrant)
  | absoluteFile (path : AbsolutePath)
  | relativeFile (path : RelativePath)
  deriving DecidableEq

/-- The weights and the projector, named independently. -/
inductive GgufVisionSource where
  | huggingFace (repo : HfRepo) (model mmproj : RepoSubpath) (modelSha256 mmprojSha256 : Option Text)
  | url (model mmproj : ResourceUrl) (modelSha256 mmprojSha256 : Option Text)
  | vaultUrl (model mmproj : VaultPath) (modelSha256 mmprojSha256 : Option Text) (grant : VaultGrant)
  | absoluteFiles (model mmproj : AbsolutePath)
  | relativeFiles (model mmproj : RelativePath)
  deriving DecidableEq

/-- A vision source's files and the drafter's weights; no drafter means one merged into the model. -/
inductive GgufVisionSpeculativeSource where
  | huggingFace (repo : HfRepo) (model mmproj : RepoSubpath) (modelSha256 mmprojSha256 : Option Text)
      (draft : Option RepoSubpath) (draftSha256 : Option Text)
  | url (model mmproj : ResourceUrl) (modelSha256 mmprojSha256 : Option Text) (draft : Option ResourceUrl)
      (draftSha256 : Option Text)
  | vaultUrl (model mmproj : VaultPath) (modelSha256 mmprojSha256 : Option Text) (grant : VaultGrant)
      (draft : Option VaultPath) (draftSha256 : Option Text)
  | absoluteFiles (model mmproj : AbsolutePath) (draft : Option AbsolutePath)
  | relativeFiles (model mmproj : RelativePath) (draft : Option RelativePath)
  deriving DecidableEq

/-- The source of a directory-style model. -/
inductive ModelSource where
  | huggingFace (repo : HfRepo) (subdir : Option RepoSubpath)
  | vaultArchive (url : VaultPath) (sha256 : Option Text) (grant : VaultGrant)
  | absoluteDir (dir : AbsolutePath)
  | relativeDir (dir : RelativePath)
  deriving DecidableEq

/-- The files of a speculative source without its drafter. -/
def GgufVisionSpeculativeSource.vision : GgufVisionSpeculativeSource → GgufVisionSource
  | .huggingFace repo model mmproj modelSha mmprojSha _ _ => .huggingFace repo model mmproj modelSha mmprojSha
  | .url model mmproj modelSha mmprojSha _ _ => .url model mmproj modelSha mmprojSha
  | .vaultUrl model mmproj modelSha mmprojSha grant _ _ => .vaultUrl model mmproj modelSha mmprojSha grant
  | .absoluteFiles model mmproj _ => .absoluteFiles model mmproj
  | .relativeFiles model mmproj _ => .relativeFiles model mmproj

/-! ## Models -/

inductive Model where
  | ggufText (source : GgufTextSource)
  | ggufVision (source : GgufVisionSource)
  | ggufVisionSpeculative (source : GgufVisionSpeculativeSource)
  | mlx (source : ModelSource)
  | mlxSpeculative (target draft : ModelSource)
  | appleCoreAi (source : ModelSource)
  | torch (source : ModelSource)
  | torchSpeculative (target draft : ModelSource)
  | openvino (source : ModelSource)
  | onnxGenai (source : ModelSource)
  | appleFoundationText
  deriving DecidableEq

inductive ModelType where
  | ggufText
  | ggufVision
  | ggufVisionSpeculative
  | mlx
  | mlxSpeculative
  | coreAi
  | torch
  | torchSpeculative
  | openvino
  | onnxGenai
  | appleFoundationText
  deriving DecidableEq

def ModelType.of : Model → ModelType
  | .ggufText _ => .ggufText
  | .ggufVision _ => .ggufVision
  | .ggufVisionSpeculative _ => .ggufVisionSpeculative
  | .mlx _ => .mlx
  | .mlxSpeculative .. => .mlxSpeculative
  | .appleCoreAi _ => .coreAi
  | .torch _ => .torch
  | .torchSpeculative .. => .torchSpeculative
  | .openvino _ => .openvino
  | .onnxGenai _ => .onnxGenai
  | .appleFoundationText => .appleFoundationText

/-- The coordinate without its credential. -/
def HfRepo.withoutAuthToken (repo : HfRepo) : HfRepo := { repo with authToken := none }

def ModelSource.withoutAuthToken : ModelSource → ModelSource
  | .huggingFace repo subdir => .huggingFace repo.withoutAuthToken subdir
  | source => source

/-- The form persisted anywhere on disk. -/
def Model.withoutAuthToken : Model → Model
  | .ggufText (.huggingFace repo path sha) => .ggufText (.huggingFace repo.withoutAuthToken path sha)
  | .ggufVision (.huggingFace repo model mmproj modelSha mmprojSha) =>
    .ggufVision (.huggingFace repo.withoutAuthToken model mmproj modelSha mmprojSha)
  | .ggufVisionSpeculative (.huggingFace repo model mmproj modelSha mmprojSha draft draftSha) =>
    .ggufVisionSpeculative (.huggingFace repo.withoutAuthToken model mmproj modelSha mmprojSha draft draftSha)
  | .mlx source => .mlx source.withoutAuthToken
  | .mlxSpeculative target draft => .mlxSpeculative target.withoutAuthToken draft.withoutAuthToken
  | .appleCoreAi source => .appleCoreAi source.withoutAuthToken
  | .torch source => .torch source.withoutAuthToken
  | .torchSpeculative target draft => .torchSpeculative target.withoutAuthToken draft.withoutAuthToken
  | .openvino source => .openvino source.withoutAuthToken
  | .onnxGenai source => .onnxGenai source.withoutAuthToken
  | model => model

end Pipette
