import Pipette.Evals.Session
import Pipette.Lib.FlatJson

/-!
# The lines of a checkpoint

The header and the rows as JSON objects on one line, in UTF-8. A field that is not there has its default. The header's
operator-facing fields are not read and are left out.
-/

namespace Pipette.Evals

open FlatJson List

/-! ## UTF-8 -/

def encode (text : Text) : Bytes := text.flatMap String.utf8EncodeChar

def decode (bytes : Bytes) : Option Text := bytes.toByteArray.utf8Decode?.map Array.toList

theorem decode_encode (text : Text) : decode (encode text) = some text := by
  have h := utf8Decode?_utf8Encode (l := text)
  simp only [utf8Encode] at h
  simp [decode, encode, h]

/-- What is decoded is what its bytes encode. -/
theorem encode_of_decode {bytes : Bytes} {text : Text} (h : decode bytes = some text) : encode text = bytes := by
  obtain ⟨chars, hchars, rfl⟩ := Option.map_eq_some_iff.1 h
  have hsome : bytes.toByteArray.utf8Decode?.isSome := by simp [hchars]
  have hget := ByteArray.utf8Encode_get_utf8Decode? (h := hsome)
  simp only [hchars, Option.get_some, utf8Encode] at hget
  exact toByteArray_inj.1 hget

/-- Bytes that start with those of a text are of a text that starts with it. -/
theorem prefix_of_encode_append {a text : Text} {rest : Bytes} (h : encode a ++ rest = encode text) : a <+: text := by
  refine isPrefix_of_utf8Encode_append_eq_utf8Encode rest.toByteArray ?_
  rw [utf8Encode, utf8Encode, ← toByteArray_append]
  exact congrArg toByteArray h

theorem newline_mem_utf8EncodeChar {c : Char} (h : newline ∈ String.utf8EncodeChar c) : c = '\n' := by
  have hbyte (n : Nat) : newline = UInt8.ofNat n ↔ 10 = n % 256 := by
    rw [← UInt8.toNat_inj, UInt8.toNat_ofNat']
    rfl
  unfold String.utf8EncodeChar at h
  refine Char.ext (UInt32.toNat_inj.1 ?_)
  change c.val.toNat = 10
  simp only at h
  repeat' split at h
  all_goals
    simp only [mem_cons, not_mem_nil, or_false, hbyte] at h
    omega

theorem newline_notMem_encode {text : Text} (h : '\n' ∉ text) : newline ∉ encode text := by
  intro hmem
  obtain ⟨c, hc, hbyte⟩ := mem_flatMap.1 hmem
  exact h (newline_mem_utf8EncodeChar hbyte ▸ hc)

/-! ## Rows -/

def stopReasonText : StopReason → Text
  | .eos => "eos"
  | .truncated => "truncated"
  | .doomLoop => "doom_loop"
  | .failure => "failure"
  | .unknown => "unknown"

def readStopReason (text : Text) : Option StopReason :=
  [StopReason.eos, .truncated, .doomLoop, .failure, .unknown].find? fun r => stopReasonText r = text

theorem readStopReason_stopReasonText (r : StopReason) : readStopReason (stopReasonText r) = some r := by cases r <;> decide

/-- A field that is written when there is a value for it. -/
def optional (key : String) (value : Option Value) : Object := (value.map fun v => (key.toList, v)).toList

def rowObject (c : Completion) : Object :=
  ("id".toList, .str c.id) :: ("completion".toList, .str c.completion) ::
    (optional "failed" (if c.failed then some (.bool true) else none) ++ optional "failed_reason" (c.failedReason.map .str) ++
      ("stop_reason".toList, .str (stopReasonText c.stopReason)) ::
        (optional "stop_detail" (c.stopDetail.map .str) ++ optional "completion_tokens" (c.completionTokens.map .num)))

def readStr (o : Object) (key : String) : Option (Option Text) :=
  match o.lookup key.toList with
  | none => some none
  | some (.str s) => some (some s)
  | some _ => none

def readNum (o : Object) (key : String) : Option (Option Nat) :=
  match o.lookup key.toList with
  | none => some none
  | some (.num n) => some (some n)
  | some _ => none

def readBool (o : Object) (key : String) : Option Bool :=
  match o.lookup key.toList with
  | none => some false
  | some (.bool b) => some b
  | some _ => none

def readRow (o : Object) : Option Completion := do
  let id ← (← readStr o "id")
  let completion ← (← readStr o "completion")
  let failed ← readBool o "failed"
  let failedReason ← readStr o "failed_reason"
  let stopReason ← readStopReason ((← readStr o "stop_reason").getD "unknown")
  let stopDetail ← readStr o "stop_detail"
  let completionTokens ← readNum o "completion_tokens"
  return { id, completion, failed, failedReason, stopReason, stopDetail, completionTokens }

theorem readRow_rowObject (c : Completion) : readRow (rowObject c) = some c := by
  rcases c with ⟨id, completion, failed, failedReason, stopReason, stopDetail, completionTokens⟩
  cases failed <;> cases failedReason <;> cases stopDetail <;> cases completionTokens <;>
    simp [readRow, rowObject, optional, readStr, readNum, readBool, lookup, readStopReason_stopReasonText]

/-! ## Headers -/

def headerObject (h : Header) : Object :=
  ("digest", .str h.digest) :: optional "http_timeout_seconds" (h.httpTimeoutSeconds.map .num)

def readHeaderObject (o : Object) : Option Header := do
  let digest ← (← readStr o "digest")
  let httpTimeoutSeconds ← readNum o "http_timeout_seconds"
  return { digest, httpTimeoutSeconds }

theorem readHeaderObject_headerObject (h : Header) : readHeaderObject (headerObject h) = some h := by
  rcases h with ⟨digest, timeout⟩
  cases timeout <;> simp [readHeaderObject, headerObject, optional, readStr, readNum, lookup]

/-! ## Lines -/

/-- A line as `BufRead::lines` gives it: without a carriage return at its end. -/
def stripCr (text : Text) : Text := if text.getLast? = some '\r' then text.dropLast else text

theorem stripCr_print (o : Object) : stripCr (print o) = print o := by
  have hlast : (print o).getLast? = some '}' := getLast?_concat
  simp [stripCr, hlast]

theorem trimText_print (o : Object) : trimText (print o) ≠ [] := by
  have hmem : '{' ∈ trimText (print o) := by
    have hhead : (print o).dropWhile isWhiteSpace = print o := by rw [print, cons_append, dropWhile_cons_of_neg (by decide)]
    have hlast : (print o).reverse.dropWhile isWhiteSpace = (print o).reverse := by
      rw [print, cons_append, reverse_cons, reverse_append, append_assoc]
      exact dropWhile_cons_of_neg (by decide)
    rw [trimText, hhead, hlast, reverse_reverse]
    simp [print]
  exact ne_nil_of_mem hmem

def readHeaderLine (line : Bytes) : Option Header := do
  let text ← decode line
  readHeaderObject (← read (stripCr text))

/-- A line after the header: blank, a row, or one that does not parse; `none` if it is not UTF-8. -/
def readRowLine (line : Bytes) : Option Line := do
  let text := stripCr (← decode line)
  if trimText text = [] then return .blank
  match (read text).bind readRow with
  | some c => return .row c
  | none => return .corrupt

/-- The lines of a checkpoint as they are written. -/
def json : Codec where
  headerLine h := encode (print (headerObject h))
  rowLine c := encode (print (rowObject c))
  readHeader := readHeaderLine
  readLine := readRowLine
  headerLine_oneLine h := newline_notMem_encode (notMem_print _)
  rowLine_oneLine c := newline_notMem_encode (notMem_print _)
  readHeader_headerLine h := by simp [readHeaderLine, decode_encode, stripCr_print, read_print, readHeaderObject_headerObject]
  readLine_rowLine c := by simp [readRowLine, decode_encode, stripCr_print, trimText_print, read_print, readRow_rowObject]

end Pipette.Evals
