import Pipette.Path

/-!
# Eval checkpoints

`EvalCompletionsStore` keeps one file per run digest: a header line and one line per completion, modelled after decoding. A
complete line is a row, blank or unreadable; a last line without its newline is `torn`.
-/

namespace Pipette

open Function

/-- Hex SHA-256 of the portable run identity. -/
abbrev EvalRunDigest := Text

/-- Why a completion stopped. -/
inductive StopReason where
  | eos
  | truncated
  | doomLoop
  | failure
  | unknown
  deriving DecidableEq

/-- One recorded completion of a sample. -/
structure Completion where
  id : Text
  completion : Text
  failed : Bool
  failedReason : Option Text
  stopReason : StopReason
  stopDetail : Option Text
  completionTokens : Option Nat
  deriving DecidableEq

/-- A complete line after the header. -/
inductive Line where
  | row (c : Completion)
  | blank
  | corrupt
  deriving DecidableEq

/-- The header fields a reader of the file compares. -/
structure Header where
  digest : EvalRunDigest
  httpTimeoutSeconds : Option Nat

/-- What the first complete line of the file decodes to. -/
inductive HeaderLine where
  | missing
  | unreadable
  | header (h : Header)

/-- A checkpoint file, decoded line by line. -/
structure CheckpointFile where
  head : HeaderLine
  lines : List Line
  torn : Bool

/-- The directory of the store: its files by name. -/
abbrev EvalFiles := Text → Option CheckpointFile

/-- What the file system does to the operations of one `finalize`, and its clock. -/
structure CheckpointIo where
  reads : Bool
  cuts : Bool
  rotates : Bool
  writes : Bool
  removes : Bool
  now : Text

def digestPrefix (digest : EvalRunDigest) : Text := digest.take 16

/-- The name of a run's checkpoint under the root of the store. -/
def sessionPath (digest : EvalRunDigest) : Text := digestPrefix digest ++ ".jsonl"

def preGateChatDetail : Text := "stream ended without finish_reason"

/-- A row an earlier binary trusted as a success is read as a failure. -/
def sanitizePreGateSuccess (c : Completion) : Completion :=
  if !c.failed && c.stopDetail = some preGateChatDetail then
    { c with
      failed := true
      failedReason := some ("recovered on load: pre-fix checkpoint recorded this as a success with no terminal stop event ("
        ++ c.stopDetail.getD "no detail" ++ ")") }
  else c

/-- The rows of the complete lines, in file order. -/
def rowsOf (lines : List Line) : List Completion :=
  lines.filterMap fun
    | .row c => some (sanitizePreGateSuccess c)
    | _ => none

/-- The last row of each id, here in the order of their last lines. -/
def lastRows : List Completion → List Completion
  | [] => []
  | c :: cs => if cs.any (fun d => d.id = c.id) then lastRows cs else c :: lastRows cs

/-- How many failed rows an id has. -/
def failedAttempts (rows : List Completion) (id : Text) : Nat := (rows.filter fun c => c.failed && c.id = id).length

/-- What `load_existing` gives: an error, a file of another run, or the rows of this one. -/
inductive Loaded where
  | failed
  | rotated
  | loaded (header : Header) (completions : List Completion) (attempts : Text → Nat)

/-- Read the file back, cutting a torn last line first. -/
def loadExisting (io : CheckpointIo) (files : EvalFiles) (path : Text) (file : CheckpointFile) (expected : EvalRunDigest) :
    Loaded × EvalFiles :=
  if !io.reads then (.failed, files)
  else if file.torn && !io.cuts then (.failed, files)
  else
    let cut := { file with torn := false }
    let files := update files path (some cut)
    match file.head with
    | .missing | .unreadable => (.failed, files)
    | .header h =>
      if h.digest ≠ expected then
        if io.rotates then
          (.rotated, update (update files path none) (path ++ ".stale-" ++ io.now) (some cut))
        else (.rotated, files)
      else
        let rows := rowsOf file.lines
        (.loaded h (lastRows rows) (failedAttempts rows), files)

/-- Retire the checkpoint of a run whose result is safe: delete it, or keep its failed rows, one line per attempt. -/
def finalize (io : CheckpointIo) (files : EvalFiles) (digest : EvalRunDigest) : EvalFiles :=
  let path := sessionPath digest
  match files path with
  | none => files
  | some file =>
    match loadExisting io files path file digest with
    | (.failed, files) | (.rotated, files) => files
    | (.loaded header completions attempts, files) =>
      let failed := (completions.filter (·.failed)).flatMap fun c => List.replicate (max (attempts c.id) 1) c
      if failed ≠ [] then
        if io.writes then
          update files path (some { head := .header header, lines := failed.map .row, torn := false })
        else files
      else if io.removes then update files path none
      else files

end Pipette
