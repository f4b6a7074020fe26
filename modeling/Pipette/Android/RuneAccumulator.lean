import Pipette.Lib.Utf8

/-!
# Text from token pieces on Android

`RuneAccumulator` turns the bytes of token pieces into text, and holds back a sequence among the last four bytes that is not
whole.
-/

namespace Pipette.Android

open Utf8

/-- How far from the end the last first byte stands, with only continuing bytes after it. -/
def leaderBack : List UInt8 → Option Nat
  | [] => none
  | b :: before => if b &&& 0x80 = 0 then none else if b &&& 0xC0 = 0xC0 then some 0 else (leaderBack before).map (· + 1)

def expectedLength (leader : UInt8) : Nat :=
  if leader &&& 0xE0 = 0xC0 then 2 else if leader &&& 0xF0 = 0xE0 then 3 else if leader &&& 0xF8 = 0xF0 then 4 else 1

def completeUtf8Length (bytes : List UInt8) : Nat :=
  match leaderBack (bytes.reverse.take 4) with
  | none => bytes.length
  | some k =>
    let leaderIndex := bytes.length - 1 - k
    if expectedLength (bytes.getD leaderIndex 0) ≤ bytes.length - leaderIndex then bytes.length else leaderIndex

structure RuneAccumulator where
  pending : List UInt8 := []

namespace RuneAccumulator

def accumulate (a : RuneAccumulator) (bytes : List UInt8) : List Char × RuneAccumulator :=
  if bytes = [] then ([], a)
  else
    let combined := if a.pending = [] then bytes else a.pending ++ bytes
    let completeLen := completeUtf8Length combined
    if completeLen = 0 then ([], ⟨combined⟩)
    else (decode (combined.take completeLen), ⟨combined.drop completeLen⟩)

def flush (a : RuneAccumulator) : List Char × RuneAccumulator :=
  if a.pending = [] then ([], a) else (decode a.pending, ⟨[]⟩)

/-- The texts given for some pieces, one after the other. -/
def accumulateAll (a : RuneAccumulator) : List (List UInt8) → List Char × RuneAccumulator
  | [] => ([], a)
  | bytes :: pieces =>
    let r := (a.accumulate bytes).2.accumulateAll pieces
    ((a.accumulate bytes).1 ++ r.1, r.2)

end RuneAccumulator

end Pipette.Android
