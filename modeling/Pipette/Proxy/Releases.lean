import Pipette.Path

/-!
# The builds a bucket publishes

A release publishes an archive, a `.sha256` sidecar and a `.json` manifest. `candidates` finds the archives of a listing that
can be builds, `verify` reads the two files beside one, and `listNewest` does both for the newest builds or for all. What the
bucket answers during one listing is an `Answers`; how a manifest and a runtime descriptor are read is a `Formats`.
-/

namespace Pipette.Proxy

abbrev Bytes := List UInt8

/-! ## Versions and digests -/

/-- `[a-z0-9]`. -/
def isPlain (c : Char) : Bool := ('a' ≤ c && c ≤ 'z') || ('0' ≤ c && c ≤ '9')

/-- `[a-z0-9][a-z0-9._-]*`. -/
def isBuildVersion : Text → Bool
  | [] => false
  | c :: cs => isPlain c && cs.all fun c => isPlain c || "._-".toList.contains c

/-- An app build's own `client_version`. -/
structure BuildVersion where
  text : Text
  canonical : isBuildVersion text
  deriving DecidableEq

/-- `BuildVersion::from_str`. -/
def BuildVersion.ofText (raw : Text) : Option BuildVersion :=
  if h : isBuildVersion raw then some ⟨raw, h⟩ else none

/-- A digest: 64 lowercase hex characters. -/
def isSha256 (text : Text) : Bool := text.length = 64 && text.all fun c => ('0' ≤ c && c ≤ '9') || ('a' ≤ c && c ≤ 'f')

structure Digest where
  text : Text
  wellFormed : isSha256 text
  deriving DecidableEq

/-! ## What the bucket answers -/

/-- Why a read of the bucket failed. -/
inductive S3Error where
  | unreachable
  | refused (status : Nat)
  | interrupted
  | notAListing
  | truncatedWithoutToken
  | repeatedToken
  deriving DecidableEq

/-- A 4xx, which asking again gets too. -/
def S3Error.isClientRefusal : S3Error → Bool
  | refused status => 400 ≤ status && status < 500
  | _ => false

/-- An object as a listing names it. -/
structure Object where
  key : Text
  bytes : Nat
  lastModified : Int

/-- One page of a listing. -/
structure Page where
  isTruncated : Bool
  contents : List Object
  nextContinuationToken : Option Text

/-- The pages of one listing in turn, and the body of each object then asked for. A listing reads no object twice. -/
structure Answers where
  pages : List (Except S3Error Page)
  get : Text → Except S3Error Bytes

/-- `list_objects` from some page on, `named` the tokens that were named before. -/
def listPages : List (Except S3Error Page) → List Text → Except S3Error (List Object)
  | [], _ => .error .unreachable
  | .error e :: _, _ => .error e
  | .ok page :: rest, named =>
    let next := page.nextContinuationToken.filter (· ≠ [])
    match page.isTruncated, next with
    | false, _ => .ok page.contents
    | true, none => .error .truncatedWithoutToken
    | true, some token =>
      if token ∈ named then .error .repeatedToken
      else (listPages rest (token :: named)).map (page.contents ++ ·)

variable (bucket : Answers)

def listObjects : Except S3Error (List Object) := listPages bucket.pages []

/-- The body of `key`, cut at `limit` bytes. -/
def getBytes (key : Text) (limit : Nat) : Except S3Error Bytes := (bucket.get key).map (·.take limit)

/-! ## Candidates -/

def archivePrefix : Text := "pipette-ios-"
def archiveSuffix : Text := ".xcarchive.zip"
def sidecarSuffix : Text := ".sha256"
def manifestSuffix : Text := ".json"
def sidecarMaxBytes : Nat := 4096
def manifestMaxBytes : Nat := 64 * 1024

/-- What follows the last `/`. -/
def lastSegment (key : Text) : Text := (key.reverse.takeWhile (· ≠ '/')).reverse

/-- What precedes the last `/`, if there is one. -/
def directoryOf (key : Text) : Option Text :=
  match key.reverse.dropWhile (· ≠ '/') with
  | [] => none
  | _ :: rest => some rest.reverse

def manifestKey (archiveKey : Text) : Text := (archiveKey.dropSuffix? archiveSuffix).getD archiveKey ++ manifestSuffix

/-- A key whose file name publishes an archive with a canonical version. -/
structure Archive where
  object : Object
  directory : Option Text
  version : BuildVersion

def archive (object : Object) : Option Archive := do
  let rest ← (lastSegment object.key).dropPrefix? archivePrefix
  let raw ← rest.dropSuffix? archiveSuffix
  let version ← BuildVersion.ofText raw
  pure ⟨object, directoryOf object.key, version⟩

/-- Whether the file name of a key is `pipette-ios-<V>.xcarchive.zip`, whatever `<V>` holds. -/
def looksLikeArchive (key : Text) : Bool :=
  archivePrefix.isPrefixOf (lastSegment key) && archiveSuffix.isSuffixOf (lastSegment key)

/-- An archive the listing names a build, before its sidecar is read. -/
structure Candidate where
  version : BuildVersion
  tag : Text
  key : Text
  bytes : Nat
  uploadedAt : Int

variable (objects : List Object)

/-- `bytes_by_key`, where the last object of a key counts. -/
def bytesOf (key : Text) : Option Nat := (objects.reverse.find? (·.key = key)).map (·.bytes)

/-- How many archives publish a version. -/
def keysPerVersion (archives : List Archive) (version : BuildVersion) : Nat := archives.countP (·.version = version)

def isTagChar (c : Char) : Bool := c.isAlphanum || "._-".toList.contains c

/-- The checks an archive of the listing passes to be a candidate. -/
def toCandidate (a : Archive) : Option Candidate :=
  let key := a.object.key
  if 1 < keysPerVersion (objects.filterMap archive) a.version then none
  else if (key.splitOn '/').any fun segment => segment = ['.'] || segment = ['.', '.'] then none
  else
    match a.directory.map lastSegment, bytesOf objects (key ++ sidecarSuffix), bytesOf objects (manifestKey key) with
    | some tag, some sidecar, some manifest =>
      if tag = [] ∨ !tag.all isTagChar ∨ sidecarMaxBytes < sidecar ∨ manifestMaxBytes < manifest then none
      else some ⟨a.version, tag, key, a.object.bytes, a.object.lastModified⟩
    | _, _, _ => none

structure Candidates where
  found : List Candidate
  /-- Objects that look like builds but are not candidates. -/
  skipped : Nat

def candidates : Candidates :=
  let found := (objects.filterMap archive).filterMap (toCandidate objects)
  ⟨found, objects.countP (fun object => looksLikeArchive object.key) - found.length⟩

/-- Newest upload first, ties by version descending. -/
def Candidate.NotAfter (a b : Candidate) : Prop :=
  b.uploadedAt < a.uploadedAt ∨ (a.uploadedAt = b.uploadedAt ∧ b.version.text ≤ a.version.text)

instance : DecidableRel Candidate.NotAfter := fun _ _ => inferInstanceAs (Decidable (_ ∨ _))

/-- `listed_candidates`. -/
def listedCandidates : Except S3Error Candidates :=
  (listObjects bucket).map fun objects =>
    let c := candidates objects
    { c with found := c.found.insertionSort Candidate.NotAfter }

/-! ## Reading a candidate -/

/-- What is read from outside this repository: manifests, runtime descriptors, and how they are written. -/
structure Formats where
  Json : Type
  Runtime : Type
  RuntimeType : Type
  /-- `serde_json::from_slice::<Manifest>`: the `client_version` and the `runtimes`. -/
  readManifest : Bytes → Option (Text × List Json)
  /-- `serde_json::from_value::<Runtime>`. -/
  readRuntime : Json → Option Runtime
  /-- `serde_json::to_value` of a runtime. -/
  runtimeJson : Runtime → Option Json
  /-- `serde_json::from_str`. -/
  readJson : Text → Option Json
  canonicalJson : Json → Text
  runtimeText : Runtime → Text
  planToml : Runtime → Text
  runtimeType : Runtime → RuntimeType
  /-- `runtime_build_flag`: an error, or the flag of a runtime that has one. -/
  runtimeBuildFlag : Runtime → Option (Option Text)
  /-- `keep_tail` at `MAX_RUNTIME_OUTPUT_BYTES`. -/
  keepTail : Text → Text

/-- Runtimes are numbers, and every manifest names the runtime 0 and, as its version, its own text. -/
abbrev numbered : Formats where
  Json := Nat
  Runtime := Nat
  RuntimeType := Unit
  readManifest body := some (body.map fun b => Char.ofNat b.toNat, [0])
  readRuntime := some
  runtimeJson := some
  readJson _ := none
  canonicalJson _ := []
  runtimeText _ := []
  planToml _ := []
  runtimeType _ := ()
  runtimeBuildFlag _ := some none
  keepTail text := text

variable {F : Formats}

/-- One published build: an archive with a valid `.sha256` and manifest beside it. -/
structure Build (F : Formats) where
  version : BuildVersion
  tag : Text
  key : Text
  sha256 : Digest
  bytes : Nat
  uploadedAt : Int
  /-- The descriptors of the manifest, as written. -/
  runtimes : List F.Json

namespace Build

def readableRuntimes (build : Build F) : List F.Runtime := build.runtimes.filterMap F.readRuntime

def carries [DecidableEq F.Runtime] (build : Build F) (runtime : F.Runtime) : Bool := build.readableRuntimes.any (· = runtime)

end Build

/-- One spelling for each descriptor, whoever wrote it. -/
def descriptorKey (raw : F.Json) : Text := F.canonicalJson (((F.readRuntime raw).bind F.runtimeJson).getD raw)

/-- `runtime_keys`: the spellings of a build's descriptors, sorted. -/
def Build.runtimeKeys (build : Build F) : List Text := (build.runtimes.map descriptorKey).insertionSort (· ≤ ·)

def isAsciiWhitespace (b : UInt8) : Bool := b = 0x20 || b = 0x09 || b = 0x0A || b = 0x0C || b = 0x0D

/-- The first token of a `sha256sum` line, if it is a digest, whose bytes are its characters. -/
def sidecarDigest (body : Bytes) : Option Digest :=
  let token := ((body.dropWhile isAsciiWhitespace).takeWhile (!isAsciiWhitespace ·)).map fun b => Char.ofNat b.toNat
  if h : isSha256 token then some ⟨token, h⟩ else none

/-- A candidate as a build, none when its sidecar opens with no digest or its manifest is not one for its version; a failed
read of either is an error. -/
def verify (F : Formats) (bucket : Answers) (c : Candidate) : Except S3Error (Option (Build F)) := do
  let body ← getBytes bucket (c.key ++ sidecarSuffix) sidecarMaxBytes
  match sidecarDigest body with
  | none => pure none
  | some sha256 =>
    let body ← getBytes bucket (manifestKey c.key) manifestMaxBytes
    match F.readManifest body with
    | none => pure none
    | some (clientVersion, runtimes) =>
      if clientVersion ≠ c.version.text then pure none
      else pure (some ⟨c.version, c.tag, c.key, sha256, c.bytes, c.uploadedAt, runtimes⟩)

/-- `verify`, any failed read skipping the candidate. -/
def verifyOrSkip (F : Formats) (bucket : Answers) (c : Candidate) : Option (Build F) := (verify F bucket c).toOption.join

/-! ## A listing -/

/-- How far `listNewest` reads. -/
inductive Reach where
  | newest
  | whole
  deriving DecidableEq

structure Listing (F : Formats) where
  /-- The newest `keep` builds, and `also`. -/
  newest : List (Build F)
  /-- The builds past those, read only with `Reach.whole`. -/
  older : List (Build F)
  /-- Whether every build was read, and every object that looks like one was read as one. -/
  whole : Bool

/-- The builds of the newest candidates: one refused with a 4xx is skipped, any other failed read fails. -/
def readNewest (F : Formats) (bucket : Answers) : List Candidate → Except S3Error (List (Build F))
  | [] => .ok []
  | c :: cs =>
    match verify F bucket c with
    | .error e => if e.isClientRefusal then readNewest F bucket cs else .error e
    | .ok none => readNewest F bucket cs
    | .ok (some build) => (readNewest F bucket cs).map (build :: ·)

/-- Whether a candidate at a position is among the newest `keep`, or is `also`. -/
def isNewest (keep : Nat) (also : Option BuildVersion) (x : Candidate × Nat) : Bool := x.2 < keep || also = some x.1.version

/-- The candidates that are, or are not, among the newest. -/
def newestOf (keep : Nat) (also : Option BuildVersion) (found : List Candidate) : List Candidate :=
  (found.zipIdx.filter (isNewest keep also)).map Prod.fst

def olderOf (keep : Nat) (also : Option BuildVersion) (found : List Candidate) : List Candidate :=
  (found.zipIdx.filter fun x => !isNewest keep also x).map Prod.fst

def listNewest (F : Formats) (bucket : Answers) (keep : Nat) (also : Option BuildVersion) (reach : Reach) :
    Except S3Error (Listing F) := do
  let c ← listedCandidates bucket
  let newest := newestOf keep also c.found
  let older := olderOf keep also c.found
  let builds ← readNewest F bucket newest
  let rest := match reach with
    | .newest => []
    | .whole => older.filterMap (verifyOrSkip F bucket)
  pure ⟨builds, rest, c.skipped = 0 && builds.length = newest.length && rest.length = older.length⟩

end Pipette.Proxy
