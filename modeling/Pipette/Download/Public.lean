import Pipette.Lib.Retry
import Pipette.Download.Resume

/-!
# Fetching a public file

The public branch of `fetch_file`: each attempt streams the URL into the destination and checks the length of a file joined
from several responses, and the digest when the plan pins one.
-/

namespace Pipette.Download

open Retry

/-- No response (`builder` when the request could not be built or redirected too often), a timeout, a status that is no
success with its `Retry-After`, or a client that could not be set up. -/
inductive HttpError where
  | request (builder : Bool)
  | timedOut
  | status (code : Nat) (retryAfter : Option Nat)
  | client
  deriving DecidableEq

/-- Whether a retry can succeed where this request failed. -/
def HttpError.disposition : HttpError → Disposition
  | .request builder => if builder then .permanent else .transient none
  | .timedOut => .transient none
  | .status code retryAfter =>
    if (500 ≤ code ∧ code < 600) ∨ code = 429 then .transient retryAfter else .permanent
  | .client => .permanent

/-- The errors of a download that is not from the vault. -/
inductive ModelFetchError where
  | http (source : HttpError)
  | resumedLengthMismatch (resumedAt expected actual : Nat)
  | sha256Mismatch (expected actual : Text)
  | resumedSha256Mismatch (resumedAt : Nat) (expected actual : Text)
  | io (kind : IoKind)
  deriving DecidableEq

/-- A resumed file that fails its length or digest check is transient: the next attempt starts from zero. -/
def ModelFetchError.disposition : ModelFetchError → Disposition
  | .http source => source.disposition
  | .resumedSha256Mismatch .. | .resumedLengthMismatch .. => .transient none
  | .io kind => if namesTheHost kind then .permanent else .transient none
  | .sha256Mismatch .. => .permanent

/-- A public URL, as the server side of a download. -/
def publicFile : Source HttpError ModelFetchError where
  noAnswer := .request false
  requestError := .http
  rangeRefused
    | .http (.status 416 _) => true
    | _ => false
  expect body := { etag := (body.strongEtag.bind EntityTag.tryNew).map (·.value), total := body.contentLength }
  ioError := .io

/-- What a public fetch carries from one attempt to the next. -/
structure PublicState where
  part : Option Part
  world : World HttpError

section

variable (sha : Bytes → Text) (declared : Option Text)

/-- The checks on a file whose body has ended: its length if it was joined, and a declared digest. -/
def checkFile (file : Part) : Except ModelFetchError Unit :=
  match file.resumedAt, file.expect.total with
  | some resumedAt, some expected =>
    if file.writer.written ≠ expected then .error (.resumedLengthMismatch resumedAt expected file.writer.written)
    else checkDigest declared file
  | _, _ => checkDigest declared file
where
  checkDigest (declared : Option Text) (file : Part) : Except ModelFetchError Unit :=
    let actual := sha file.writer.hashed
    match declared with
    | none => .ok ()
    | some expected =>
      if actual ≠ expected then
        match file.resumedAt with
        | some resumedAt => .error (.resumedSha256Mismatch resumedAt expected actual)
        | none => .error (.sha256Mismatch expected actual)
      else .ok ()

/-- One attempt to stream the URL into the destination and verify it. -/
def fetchPublicFile (start : Nat) (s : PublicState) : Except ModelFetchError Unit × PublicState :=
  match attempt publicFile start s.part s.world with
  | (.error err, part, world) => (.error err, { part, world })
  | (.ok file, part, world) => (checkFile sha declared file, { part, world })

/-- Fetch a public file into the destination, retried under `policy`. -/
def fetchFile (policy : Policy) (w : World HttpError) : Except ModelFetchError Unit × PublicState :=
  policy.retrying ModelFetchError.disposition (fetchPublicFile sha declared w.reporter.doneBytes) { part := none, world := w }

end

end Pipette.Download
