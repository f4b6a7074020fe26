import Pipette.Path

/-!
# Errors and tags of the management client

What a call to the management server ends in, if not in an answer, and the tag an answer can carry. A caller retries what
`isTransient` names.
-/

namespace Pipette

/-- The errors of the management client, as far as a caller tells them apart. `unsent`: the request could not be built, signed
or encoded. -/
inductive ApiError where
  | unsent
  | transport
  | httpStatus (status : Nat)
  | decodeJson
  deriving DecidableEq

namespace ApiError

/-- The HTTP status when this is a status error. -/
def status : ApiError → Option Nat
  | httpStatus s => some s
  | _ => none

/-- True for a transport error or a `5xx`. -/
def isTransient : ApiError → Bool
  | transport => true
  | httpStatus s => 500 ≤ s
  | _ => false

@[simp] theorem status_httpStatus (s : Nat) : (httpStatus s).status = some s := rfl

end ApiError

/-- Whether the text can stand in an HTTP header. -/
def isValidHeaderValue (value : Text) : Bool := value.all fun c => c = '\t' || (0x20 ≤ c.toNat && c.toNat ≤ 0x7e)

/-- An ETag as a server sent it. -/
structure EntityTag where
  value : Text
  valid : isValidHeaderValue value
  deriving DecidableEq

/-- A text a header can carry, as an ETag. -/
def EntityTag.tryNew (value : Text) : Option EntityTag :=
  if h : isValidHeaderValue value = true then some ⟨value, h⟩ else none

theorem EntityTag.value_of_tryNew {value : Text} {etag : EntityTag} (h : tryNew value = some etag) : etag.value = value := by
  unfold tryNew at h
  split at h <;> cases h
  rfl

end Pipette
