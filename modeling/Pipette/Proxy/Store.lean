import Pipette.Proxy.Releases

/-!
# What the store holds of a build

`releases.json` holds the digest each version was first pulled with, and `releases/<version>/` the unpacked archive.
-/

namespace Pipette.Proxy

variable {F : Formats}

/-- The digest a version was first pulled with, and where and when. -/
structure Record where
  sha256 : Digest
  key : Text
  pulledAt : Text

/-- `releases.json`. -/
abbrev Records := BuildVersion → Option Record

/-- What the store holds of a published build. -/
inductive Held where
  | pulled
  | notPulled
  /-- The bucket publishes another digest than the one recorded. -/
  | changed (recorded : Digest)
  deriving DecidableEq

/-- `Records::held`, `isDir` saying which version directories there are. -/
def Records.held (records : Records) (isDir : BuildVersion → Bool) (build : Build F) : Held :=
  match records build.version with
  | some record =>
    if record.sha256 ≠ build.sha256 then .changed record.sha256
    else if isDir build.version then .pulled
    else .notPulled
  | none => .notPulled

def Held.isChanged : Held → Bool
  | changed _ => true
  | _ => false

end Pipette.Proxy
