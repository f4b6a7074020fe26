import Pipette.Lib.FlatJson
import Pipette.Lib.LineLog
import Pipette.Path

/-!
# What a signature is made over

A user signs the base of RFC 9421: one line for each covered component, then the parameters. A client signs the fields of its request,
one a line. The digest of a body and its base64 stay open.
-/

namespace Pipette.Mgmt

/-- What `url::Url` gives of a URL. -/
structure Url where
  host : Option Text
  port : Option Nat
  path : Text
  query : Option Text

/-- `Outgoing`. -/
structure Outgoing (Digest : Type) where
  method : Text
  url : Url
  bodySha256 : Option Digest

def authority (url : Url) : Text :=
  let host := url.host.getD []
  (match url.port with
    | some port => host ++ ':' :: FlatJson.printNat port
    | none => host).map Char.toLower

def path (url : Url) : Text := if url.path = [] then ['/'] else url.path

/-- `str::replace`, of one character. -/
def replaceChar (c : Char) (by' value : Text) : Text := value.flatMap fun x => if x = c then by' else [x]

def quoted (value : Text) : Text := '"' :: replaceChar '"' "\\\"" (replaceChar '\\' "\\\\" value) ++ ['"']

/-- `"name": value`. -/
def rendered (line : Text × Text) : Text := '"' :: line.1 ++ "\": " ++ line.2

def signatureBase (lines : List (Text × Text)) (params : Text) : Text :=
  LineLog.unlines '\n' (lines.map rendered) ++ rendered ("@signature-params", params)

/-- `i64`, as it is displayed. -/
def printInt (n : Int) : Text := (if n < 0 then ['-'] else []) ++ FlatJson.printNat n.natAbs

variable {Digest : Type} (base64 : Digest → Text)

def contentDigest (digest : Digest) : Text := "sha-256=:" ++ base64 digest ++ [':']

/-- The covered components, as `sign` lists them. -/
def coveredLines (request : Outgoing Digest) : List (Text × Text) :=
  [("@method".toList, request.method), ("@authority".toList, authority request.url), ("@path".toList, path request.url),
    ("@query".toList, '?' :: request.url.query.getD [])] ++
    (request.bodySha256.map fun digest => ("content-digest".toList, contentDigest base64 digest)).toList

/-- The parameters of `sign`. -/
def signatureParams (names : List Text) (created : Int) (nonce keyId : Text) : Text :=
  '(' :: [' '].intercalate (names.map quoted) ++ ");created=" ++ printInt created ++ ';' :: "nonce=" ++ quoted nonce ++
    ";keyid=" ++ quoted keyId ++ ";alg=\"ed25519\";tag=\"pipette\""

/-- What `sign` hands to the key. -/
def userBase (request : Outgoing Digest) (created : Int) (nonce keyId : Text) : Text :=
  let lines := coveredLines base64 request
  signatureBase lines (signatureParams (lines.map Prod.fst) created nonce keyId)

def pathAndQuery (url : Url) : Text :=
  match url.query with
  | some query => url.path ++ '?' :: query
  | none => url.path

def clientPayload (method target timestamp clientId nonce : Text) : Text :=
  "v1\n" ++ method ++ '\n' :: target ++ '\n' :: timestamp ++ '\n' :: clientId ++ '\n' :: nonce

end Pipette.Mgmt
