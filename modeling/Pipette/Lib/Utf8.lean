import Mathlib

/-!
# Decoding UTF-8 with replacement

A decoder that reads bytes one at a time. The longest start of a well-formed sequence that breaks off, and each byte that
starts none, becomes one replacement mark. `decode_append` says where bytes can be cut: where no sequence is open, or before a
byte that continues none.
-/

namespace Utf8

/-- A byte that only continues a sequence. -/
abbrev Continues (b : UInt8) : Prop := 0x80 ≤ b ∧ b < 0xC0

/-- An open sequence: its bits so far, what the next byte may be, and how many follow that one. -/
structure Open where
  value : Nat
  low : UInt8
  high : UInt8
  more : Nat
  range : 0x80 ≤ low ∧ high < 0xC0 := by decide

/-- The replacement mark. -/
def mark : Char := '�'

/-- What a byte gives where no sequence is open. -/
def first (b : UInt8) : List Char × Option Open :=
  if b < 0x80 then ([Char.ofNat b.toNat], none)
  else if b < 0xC2 then ([mark], none)
  else if b < 0xE0 then ([], some (.mk (b.toNat - 0xC0) 0x80 0xBF 0))
  else if b = 0xE0 then ([], some (.mk 0 0xA0 0xBF 1))
  else if b = 0xED then ([], some (.mk 0xD 0x80 0x9F 1))
  else if b < 0xF0 then ([], some (.mk (b.toNat - 0xE0) 0x80 0xBF 1))
  else if b = 0xF0 then ([], some (.mk 0 0x90 0xBF 2))
  else if b < 0xF4 then ([], some (.mk (b.toNat - 0xF0) 0x80 0xBF 2))
  else if b = 0xF4 then ([], some (.mk 4 0x80 0x8F 2))
  else ([mark], none)

/-- A byte read: the text it gives, and the sequence that is open after it. -/
def step : Option Open → UInt8 → List Char × Option Open
  | none, b => first b
  | some o, b =>
    if o.low ≤ b ∧ b ≤ o.high then
      let value := o.value * 0x40 + (b.toNat - 0x80)
      match o.more with
      | 0 => ([Char.ofNat value], none)
      | more + 1 => ([], some (.mk value 0x80 0xBF more))
    else (mark :: (first b).1, (first b).2)

/-- Some bytes read, with a sequence open or none. -/
def run : Option Open → List UInt8 → List Char × Option Open
  | o, [] => ([], o)
  | o, b :: bytes => ((step o b).1 ++ (run (step o b).2 bytes).1, (run (step o b).2 bytes).2)

variable (o : Option Open)

/-- The mark of a sequence that is open at the end. -/
def rest : List Char := if o.isSome then [mark] else []

/-- The text of the bytes. -/
def decode (bytes : List UInt8) : List Char := (run none bytes).1 ++ rest (run none bytes).2

/-- How many bytes an open sequence still needs. -/
def owed : Option Open → Nat
  | none => 0
  | some o => o.more + 1

variable {b : UInt8}

/-- Reading goes on where it stopped. -/
theorem run_append (xs ys : List UInt8) :
    run o (xs ++ ys) = ((run o xs).1 ++ (run (run o xs).2 ys).1, (run (run o xs).2 ys).2) := by
  induction xs generalizing o with
  | nil => rfl
  | cons b xs ih => simp [run, ih]

/-- A byte that continues no sequence ends the one that is open. -/
theorem step_of_not_continues (o : Option Open) (hb : ¬Continues b) : step o b = (rest o ++ (first b).1, (first b).2) := by
  cases o with
  | none => rfl
  | some x =>
    have hout : ¬(x.low ≤ b ∧ b ≤ x.high) := fun h =>
      hb ⟨UInt8.le_trans x.range.1 h.1, UInt8.lt_of_le_of_lt h.2 x.range.2⟩
    simp [step, hout, rest]

theorem decode_append {xs ys : List UInt8} (h : owed (run none xs).2 = 0 ∨ ∃ b ∈ ys.head?, ¬Continues b) :
    decode (xs ++ ys) = decode xs ++ decode ys := by
  cases hopen : (run none xs).2 with
  | none => simp [decode, run_append, hopen, rest]
  | some x =>
    obtain ⟨b, hhead, hb⟩ := h.resolve_left (by simp [hopen, owed])
    obtain ⟨ys, rfl⟩ := List.head?_eq_some_iff.mp hhead
    simp [decode, run_append, hopen, run, step_of_not_continues _ hb, rest]

/-- What holds of the 256 bytes. -/
theorem of_fin {P : UInt8 → Prop} (h : ∀ n : Fin 256, P (UInt8.ofFin n)) (b : UInt8) : P b := h b.toFin

/-- A byte that continues a sequence leaves less to follow; after any other only what it opens is open. -/
theorem owed_step_le (b : UInt8) :
    owed (step o b).2 ≤ if Continues b then owed o - 1 else owed (first b).2 := by
  have hnone : ∀ b, Continues b → owed (first b).2 = 0 := of_fin (by decide +kernel)
  split
  next hb =>
    cases o with
    | none => exact Nat.le_of_eq (hnone b hb)
    | some x =>
      simp only [step]
      split
      · cases hmore : x.more with
        | zero => exact Nat.zero_le _
        | succ more => exact Nat.le_of_eq (by simp [owed, hmore])
      · exact hnone b hb ▸ Nat.zero_le _
  next hb => exact Nat.le_of_eq (by rw [step_of_not_continues o hb])

end Utf8
