import Pipette.Path

/-!
# Planning a model's transfer

`HubTransferPlanner` freezes the listing of a repository and the metadata of each file into a plan. A text is the list of its Swift
characters; their order and their lower case stay open.
-/

namespace Pipette.Phone.Hub

/-- `lowercased()`, character by character. -/
structure Lowercase where
  lower : Char → Text
  slash : lower '/' = ['/']

def Lowercase.lowercased (L : Lowercase) (text : Text) : Text := text.flatMap L.lower

inductive TransferPlanningError where
  | emptySelection (coordinate : Text)
  | unresolvedCommit (coordinate : Text)
  | unknownSize (path : Text)
  | metadataUnavailable (reason : Text)
  | unsafePath (path : Text)
  | collidingPaths (first second : Text)

structure HubFileMetadata where
  sizeBytes : Option Int
  commitHash : Option Text
  etag : Option Text
  sha256 : Option Text

/-- What the Hub answers for a repository at the declared revision. -/
structure HubMetadataSource where
  filenames : Except Text (List Text)
  metadata : Text → Except Text HubFileMetadata

structure PlannedFile where
  path : Text
  sizeBytes : Int
  etag : Option Text
  sha256 : Option Text

structure ResolvedTransfer where
  commit : Text
  files : List PlannedFile

def isUnsafe (path : Text) : Bool :=
  let parts := path.splitOn '/'
  path.head? = some '/' || ['.', '.'] ∈ parts || [] ∈ parts || path = []

/-- The loop of `checkDestinations`, with what it has seen. -/
def checkDestinations (L : Lowercase) : List (Text × Text) → List Text → Except TransferPlanningError Unit
  | _, [] => .ok ()
  | seen, path :: paths =>
    if isUnsafe path then .error (.unsafePath path)
    else
      match seen.lookup (L.lowercased path) with
      | some first => .error (.collidingPaths first path)
      | none => checkDestinations L ((L.lowercased path, path) :: seen) paths

/-- The loop over the metadata: the files in their order, each with the commit its answer names. -/
def planFiles (source : HubMetadataSource) : List Text → Except TransferPlanningError (List (PlannedFile × Option Text))
  | [] => .ok []
  | path :: paths =>
    match source.metadata path with
    | .error reason => .error (.metadataUnavailable reason)
    | .ok metadata =>
      match metadata.sizeBytes with
      | none => .error (.unknownSize path)
      | some size =>
        match planFiles source paths with
        | .error e => .error e
        | .ok planned => .ok ((⟨path, size, metadata.etag, metadata.sha256⟩, metadata.commitHash) :: planned)

def resolve (L : Lowercase) (le : Text → Text → Bool) (coordinate : Text) (source : HubMetadataSource) :
    Except TransferPlanningError ResolvedTransfer :=
  match source.filenames with
  | .error reason => .error (.metadataUnavailable reason)
  | .ok names =>
    if names = [] then .error (.emptySelection coordinate)
    else
      let sorted := names.insertionSort fun a b => le a b
      match checkDestinations L [] sorted with
      | .error e => .error e
      | .ok () =>
        match planFiles source sorted with
        | .error e => .error e
        | .ok planned =>
          match (planned.filterMap Prod.snd).eraseDups with
          | [commit] => .ok ⟨commit, planned.map Prod.fst⟩
          | _ => .error (.unresolvedCommit coordinate)

end Pipette.Phone.Hub
