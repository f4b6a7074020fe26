import Pipette.Proxy.Failure
import Pipette.Proxy.Store

/-!
# The versions a phone advertises and the one a claim gets

A catalog is the last listing of the bucket, minus the builds the phone withdrew. A claim runs on an offered build that it
admits and whose manifest names its runtime; when there is none, the whole bucket is listed again, and only a listing in which
no build carries the runtime ends the job for good.
-/

namespace Pipette.Proxy

variable {F : Formats}

def advertisedBuilds : Nat := 20
def flagPrefix : Text := "client_version:"
def runtimeBuildFlagPrefix : Text := "runtime:descriptor:"
def advertisedFlagsMaxBytes : Nat := 48 * 1024
def runtimeDigestHexBytes : Nat := 64

/-- What a phone can install: the listing, minus what it has withdrawn. -/
structure Catalog (F : Formats) where
  default : Option BuildVersion
  builds : List (Build F)
  /-- Listed under another digest than the one recorded: never offered. -/
  changed : List (Build F)
  /-- Past the advertised ones: never offered. -/
  older : List (Build F)
  /-- Whether the last listing read every build in the bucket. -/
  whole : Bool
  withdrawn : List BuildVersion

inductive CatalogError where
  | empty
  | exhausted (withdrawn : List BuildVersion)
  | tooLarge

/-- Why a listing failed. -/
inductive ListError where
  | records
  | bucket (e : S3Error)
  | empty

/-- What a listing meets: `releases.json`, unless it cannot be read, the version directories, and the bucket. -/
structure Surroundings where
  records : Option Records
  isDir : BuildVersion → Bool
  bucket : Answers

/-- A bucket that publishes the build `a`, and an empty store. -/
def oneBuild : Surroundings where
  records := some fun _ => none
  isDir _ := false
  bucket :=
    { pages := [.ok ⟨false, [⟨"t/pipette-ios-a.xcarchive.zip", 7, 0⟩,
        ⟨"t/pipette-ios-a.xcarchive.zip.sha256", 64, 0⟩, ⟨"t/pipette-ios-a.json", 1, 0⟩], none⟩]
      get := fun key => .ok (if sidecarSuffix.isSuffixOf key then List.replicate 64 0x30 else [0x61]) }

/-- The builds selected so far, by position, their runtimes and the bytes their flags take. -/
structure Selection (F : Formats) where
  selected : List Nat
  seen : List F.Runtime
  bytes : Nat

namespace Catalog

def new (default : Option BuildVersion) : Catalog F := ⟨default, [], [], [], false, []⟩

variable (catalog : Catalog F) (around : Surroundings)

/-- `Catalog::list`; a failure leaves the previous listing in place. -/
def list (reach : Reach) : Except ListError (Catalog F) :=
  match around.records with
  | none => .error .records
  | some records =>
    match listNewest F around.bucket advertisedBuilds catalog.default reach with
    | .error e => .error (.bucket e)
    | .ok listing =>
      let isChanged := fun build => (records.held around.isDir build).isChanged
      let builds := listing.newest.filter fun build => !isChanged build
      if builds = [] then .error .empty
      else .ok { catalog with
        builds := builds
        changed := listing.newest.filter isChanged
        older := listing.older
        whole := listing.whole }

def relist : Except ListError (Catalog F) := catalog.list around .newest

def relistWhole : Except ListError (Catalog F) := catalog.list around .whole

def withdraw (version : BuildVersion) : Catalog F :=
  { catalog with withdrawn := catalog.withdrawn.insert version }

/-- Every build of the last listing. -/
def listed : List (Build F) := catalog.builds ++ catalog.changed ++ catalog.older

section Offered

variable [DecidableEq F.Runtime]

/-- `include`: take a build if its flags still fit. -/
def includeBuild (s : Selection F) (x : Build F × Nat) : Selection F :=
  let newRuntimes := (x.1.readableRuntimes.filter (· ∉ s.seen)).dedup
  let cost := flagPrefix.length + x.1.version.text.length + 3 +
    newRuntimes.length * (runtimeBuildFlagPrefix.length + runtimeDigestHexBytes + 3)
  if s.bytes + cost ≤ advertisedFlagsMaxBytes then ⟨x.2 :: s.selected, newRuntimes ++ s.seen, s.bytes + cost⟩ else s

/-- The builds whose flags fit, by position: the default first, then the newest. -/
def selection : Selection F :=
  let start : Selection F := ⟨[], [], 2⟩
  let isDefault := fun x : Build F × Nat => catalog.default = some x.1.version && !catalog.withdrawn.contains x.1.version
  let first := match catalog.builds.zipIdx.find? isDefault with
    | some x => includeBuild start x
    | none => start
  catalog.builds.zipIdx.foldl (fun s x =>
    if catalog.withdrawn.contains x.1.version || s.selected.contains x.2 then s else includeBuild s x) first

/-- Every build this phone offers, newest upload first. -/
def offered : List (Build F) :=
  (catalog.builds.zipIdx.filter fun x => catalog.selection.selected.contains x.2).map Prod.fst

def offers (version : Text) : Option (Build F) := catalog.offered.find? (·.version.text = version)

/-- A phone that offers nothing would fail every job it claims. -/
def checkOffered : Except CatalogError Unit :=
  if catalog.offered ≠ [] then .ok ()
  else if catalog.builds.any fun build => !catalog.withdrawn.contains build.version then .error .tooLarge
  else .error (.exhausted catalog.withdrawn)

end Offered

end Catalog

/-! ## The build a claim gets -/

inductive ChosenBy where
  | default
  | newest
  deriving DecidableEq

structure Chosen (F : Formats) where
  build : Build F
  chosenBy : ChosenBy

inductive NoChoice where
  | noneAdmitted
  | runtimeNotCarried (admitted : List BuildVersion)

/-- Whether a claim admits a build: all of them when the server predates `client_versions`. -/
def admitsBuild (admitted : Option (List Text)) (build : Build F) : Bool :=
  admitted.all fun versions => versions.contains build.version.text

variable [DecidableEq F.Runtime] (catalog : Catalog F)

/-- `Catalog::choose`: of the offered builds that the claim admits and that name the runtime, the default, else the newest. -/
def Catalog.choose (admitted : Option (List Text)) (runtime : Option F.Runtime) :
    Except NoChoice (Chosen F) :=
  let candidates := catalog.offered.filter (admitsBuild admitted)
  if candidates = [] then .error .noneAdmitted
  else
    let carrying := candidates.filter fun build => runtime.all build.carries
    match carrying.find? (fun build => catalog.default = some build.version) with
    | some build => .ok ⟨build, .default⟩
    | none =>
      match carrying with
      | build :: _ => .ok ⟨build, .newest⟩
      | [] => .error (.runtimeNotCarried (candidates.map (·.version)))

/-- The runtimes of the admitted builds, none once a descriptor cannot be read or a build carries the runtime. -/
def carriedBy (admitted : List Text) (runtime : F.Runtime) : List F.Runtime → List (Build F) → Option (List F.Runtime)
  | carried, [] => some carried
  | carried, build :: rest =>
    match build.runtimes.mapM F.readRuntime with
    | none => none
    | some named =>
      if runtime ∈ named then none
      else if admitted.contains build.version.text then
        carriedBy admitted runtime
          (named.foldl (fun carried one => if one ∈ carried then carried else carried ++ [one]) carried) rest
      else carriedBy admitted runtime carried rest

/-- `Catalog::carried_instead`: what the admitted builds carry, once the listing proves that none carries this one. -/
def Catalog.carriedInstead (admitted : List Text) (runtime : F.Runtime) : Option (List F.Runtime) :=
  if !catalog.whole || admitted = [] ||
      catalog.listed.countP (fun build => admitted.contains build.version.text) < admitted.length then none
  else carriedBy admitted runtime [] catalog.listed

/-! ## The texts of a failed choice -/

/-- What a job asks to run. -/
structure LaunchPlan (F : Formats) where
  appArgs : List Text
  runtimeJson : Text
  runtime : F.Runtime

def joined (separator : Text) (texts : List Text) : Text := separator.intercalate texts

/-- A `client_versions` list, as a failure reason names it. -/
def describe : Option (List Text) → Text
  | none => "every version (the server predates client_versions)"
  | some [] => "no version"
  | some versions => joined ", " versions

/-- `client_version:<V>` for each offered build, sorted. -/
def Catalog.versionFlags : List Text :=
  (catalog.offered.map fun build => flagPrefix ++ build.version.text).insertionSort (· ≤ ·)

/-- The runtimes a plan could name instead: those of its type when there are any, else every one. -/
def alternatives [DecidableEq F.RuntimeType] (carried : List F.Runtime) (wanted : F.Runtime) : Text :=
  let sameType := carried.filter fun runtime => F.runtimeType runtime = F.runtimeType wanted
  let shown := if sameType = [] then carried else sameType
  if shown = [] then "none" else joined " or " (shown.map F.planToml)

variable [DecidableEq F.RuntimeType]

/-- The first half of `Releases::choose`: whether a runtime that no admitted build carries is looked for in a listing of the
whole bucket taken now, and the catalog after it. -/
def recheck (around : Surroundings) (admitted : Option (List Text)) (plan : LaunchPlan F) :
    Bool × Catalog F :=
  match catalog.choose admitted (some plan.runtime) with
  | .error (.runtimeNotCarried _) =>
    match catalog.relistWhole around with
    | .ok catalog => (true, catalog)
    | .error _ => (false, catalog)
  | _ => (false, catalog)

/-- The failure of a job whose runtime no build in the bucket carries. -/
def noBuildCarries (versions : List Text) (plan : LaunchPlan F) (carried : List F.Runtime) : JobFailure :=
  .new .noBuildCarriesRuntime ("the job's runtime " ++ F.planToml plan.runtime ++
    " is in no build in the releases bucket, so no phone can run it. The builds the claim admits (" ++
    joined ", " versions ++ ") carry, in plan TOML: " ++ alternatives carried plan.runtime)

/-- The failure of a job whose runtime no admitted build carries, where another build may. -/
def runtimeNotInBuild (offered : List BuildVersion) (plan : LaunchPlan F) : JobFailure :=
  .new .runtimeNotInBuild ("the job's runtime " ++ plan.runtimeJson ++
    " is in the manifest of no build the claim admits here (" ++ joined ", " (offered.map (·.text)) ++ ")")

/-- The failure of a job that admits no offered build. -/
def noAdmittedVersion (admitted : Option (List Text)) : JobFailure :=
  .new .noAdmittedVersion ("the claim admits " ++ describe admitted ++ ", and this phone offers " ++
    describe (some catalog.versionFlags))

/-- The second half of `Releases::choose`: the build, or the failure; `fresh`: the catalog holds a whole listing taken for
this claim. -/
def settleChoice (fresh : Bool) (catalog : Catalog F) (admitted : Option (List Text)) (plan : LaunchPlan F) :
    Except JobFailure (Chosen F) :=
  match catalog.choose admitted (some plan.runtime) with
  | .ok choice => .ok choice
  | .error .noneAdmitted => .error (noAdmittedVersion catalog admitted)
  | .error (.runtimeNotCarried offered) =>
    match fresh, admitted with
    | true, some versions =>
      match catalog.carriedInstead versions plan.runtime with
      | some carried => .error (noBuildCarries versions plan carried)
      | none => .error (runtimeNotInBuild offered plan)
    | _, _ => .error (runtimeNotInBuild offered plan)

/-- `Releases::choose`: the build a claim runs on, or its failure, and the catalog after it. -/
def chooseBuild (around : Surroundings) (admitted : Option (List Text)) (plan : LaunchPlan F) :
    Except JobFailure (Chosen F) × Catalog F :=
  let after := recheck catalog around admitted plan
  (settleChoice after.1 after.2 admitted plan, after.2)

end Pipette.Proxy
