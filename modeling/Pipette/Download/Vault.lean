import Pipette.Lib.Retry
import Pipette.Download.Resume

/-!
# Fetching a vault resource

`vault::fetch_to_file`: each attempt reads the record, streams the object it pins and checks the file's hash against the pin.
SHA-256 is a parameter; the records the server answers with are a script.
-/

namespace Pipette.Download

open Retry

/-- A vault resource: its pin and its size. -/
structure VaultResource where
  resourceId : Text
  sha256 : Text
  bytes : Nat

/-- The errors of a vault fetch. -/
inductive VaultFetchError where
  | unregistered
  | refused (status : Nat)
  | pinDisagrees (plan record : Text)
  | drift (expected actual : Text)
  | resumedDrift (resumedAt : Nat) (expected actual : Text)
  | mgmt (source : ApiError)
  | io (kind : IoKind)
  deriving DecidableEq

/-- Whether another attempt in this process can succeed. -/
def VaultFetchError.disposition : VaultFetchError → Disposition
  | .mgmt source => if source.isTransient ∨ source.status = some 429 then .transient none else .permanent
  | .io kind => if namesTheHost kind then .permanent else .transient none
  | .resumedDrift .. => .transient none
  | .unregistered | .refused _ | .pinDisagrees .. | .drift .. => .permanent

/-- A `403` or `404` is a refusal; the rest stays what the client reported. -/
def refusal (err : ApiError) : VaultFetchError :=
  match err.status with
  | some 403 => .refused 403
  | some 404 => .refused 404
  | _ => .mgmt err

/-- What a range must match to continue a file of `record`: the pin as a strong `ETag`, and the size. -/
def expectOf (record : VaultResource) : Expect :=
  { etag := (EntityTag.tryNew ('"' :: record.sha256 ++ ['"'])).map (·.value), total := some record.bytes }

/-- The content endpoint of the vault, as the server side of a download of `record`. -/
def vaultContent (record : VaultResource) : Source ApiError VaultFetchError where
  noAnswer := .transport
  requestError := refusal
  rangeRefused err := err = .mgmt (.httpStatus 416)
  expect _ := expectOf record
  ioError := .io

/-- What a vault fetch carries from one attempt to the next. -/
structure VaultState where
  records : List (Except ApiError VaultResource)
  part : Option Part
  world : World ApiError

/-- One read of the record, with the plan's pin checked against it. -/
def readRecord (pinned : Option Text) (s : VaultState) : Except VaultFetchError VaultResource × VaultState :=
  match s.records with
  | [] => (.error (.mgmt .transport), s)
  | .error err :: records => (.error (refusal err), { s with records })
  | .ok record :: records =>
    match pinned with
    | some plan =>
      if plan ≠ record.sha256 then (.error (.pinDisagrees plan record.sha256), { s with records })
      else (.ok record, { s with records })
    | none => (.ok record, { s with records })

section

variable (sha : Bytes → Text)

/-- One attempt to stream the bytes that `record` pins, and verify them. -/
def fetchContent (record : VaultResource) (start : Nat) (s : VaultState) : Except VaultFetchError Unit × VaultState :=
  let part := s.part.filter fun file => file.expect = expectOf record
  let world := { s.world with reporter := s.world.reporter.setTotalIfUnknown (some record.bytes) }
  match attempt (vaultContent record) start part world with
  | (.error err, part, world) => (.error err, { s with part, world })
  | (.ok file, part, world) =>
    if file.writer.written < record.bytes then (.error (.io .unexpectedEof), { s with part := some file, world })
    else
      let actual := sha file.writer.hashed
      if actual ≠ record.sha256 then
        let world := { world with log := world.log ++ [.pinFailed] }
        match file.resumedAt with
        | some resumedAt => (.error (.resumedDrift resumedAt record.sha256 actual), { s with part, world })
        | none => (.error (.drift record.sha256 actual), { s with part, world })
      else (.ok (), { s with part, world := { world with log := world.log ++ [.verified file.writer.hashed] } })

/-- One attempt of a vault fetch: the record, then its bytes. -/
def fetchAttempt (registered : Bool) (pinned : Option Text) (start : Nat) (s : VaultState) :
    Except VaultFetchError VaultResource × VaultState :=
  if !registered then (.error .unregistered, s)
  else
    match readRecord pinned s with
    | (.error err, s) => (.error err, s)
    | (.ok record, s) =>
      match fetchContent sha record start s with
      | (.error err, s) => (.error err, s)
      | (.ok (), s) => (.ok record, s)

/-- Fetch the resource, verified against the record's pin, retried under `policy`. -/
def fetchToFile (registered : Bool) (pinned : Option Text) (policy : Policy)
    (records : List (Except ApiError VaultResource)) (w : World ApiError) : Except VaultFetchError VaultResource × VaultState :=
  let start := w.reporter.doneBytes
  policy.retrying VaultFetchError.disposition (fetchAttempt sha registered pinned start) { records, part := none, world := w }

end

end Pipette.Download
