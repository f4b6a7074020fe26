import Mathlib

/-!
# JSON objects of plain values, on one line

Objects whose values are strings, naturals and truth values, printed without blanks. Reading inverts printing (`read_print`),
a printed object has no line end (`notMem_print`), and what is read as an object does not start another (`read_append`).
-/

namespace FlatJson

open List Option List Char

/-- A value of an object. -/
inductive Value where
  | str (s : List Char)
  | num (n : Nat)
  | bool (b : Bool)
  deriving DecidableEq

/-- The fields, in order. -/
abbrev Object := List (List Char × Value)

/-! ## Strings -/

/-- A digit of an escape by code point. -/
def hexDigit (n : Nat) : Char := if n < 10 then ofNat (48 + n) else ofNat (87 + n)

def hexValue (c : Char) : Option Nat :=
  if '0' ≤ c ∧ c ≤ '9' then some (c.toNat - 48) else if 'a' ≤ c ∧ c ≤ 'f' then some (c.toNat - 87) else none

/-- The characters that have a short escape, and the letter of it. -/
def shortEscapes : List (Char × Char) :=
  [('"', '"'), ('\\', '\\'), (ofNat 8, 'b'), ('\t', 't'), ('\n', 'n'), (ofNat 12, 'f'), ('\r', 'r')]

/-- A character inside a string. -/
def escape (c : Char) : List Char :=
  match shortEscapes.lookup c with
  | some e => ['\\', e]
  | none => if c.toNat < 32 then ['\\', 'u', '0', '0', hexDigit (c.toNat / 16), hexDigit (c.toNat % 16)] else [c]

/-- The character a letter after a backslash stands for. -/
def unescape (e : Char) : Option Char := (shortEscapes.map Prod.swap).lookup e

/-- A string after its opening quote, up to its closing one, and what follows it. -/
def readString : List Char → Option (List Char × List Char)
  | [] => none
  | c :: rest =>
    if c = '"' then some ([], rest)
    else if c = '\\' then
      match rest with
      | [] => none
      | e :: rest =>
        if e = 'u' then
          match rest with
          | '0' :: '0' :: high :: low :: rest => do
            let high ← hexValue high
            let low ← hexValue low
            (readString rest).map fun x => (ofNat (16 * high + low) :: x.1, x.2)
          | _ => none
        else do
          let c ← unescape e
          (readString rest).map fun x => (c :: x.1, x.2)
    else if c.toNat < 32 then none
    else (readString rest).map fun x => (c :: x.1, x.2)

/-- A string in its quotes. -/
def printString (s : List Char) : List Char := '"' :: s.flatMap escape ++ ['"']

theorem lookup_escape_cases (c : Char) : (∃ e, shortEscapes.lookup c = some e ∧ unescape e = some c ∧ e ≠ 'u' ∧ e ≠ '\n') ∨
    shortEscapes.lookup c = none ∧ c ≠ '"' ∧ c ≠ '\\' ∧ c ≠ '\n' := by
  by_cases h : (shortEscapes.lookup c).isSome
  · left
    obtain ⟨e, he⟩ := isSome_iff_exists.1 h
    refine ⟨e, he, ?_⟩
    have hall : ∀ x ∈ shortEscapes, unescape x.2 = some x.1 ∧ x.2 ≠ 'u' ∧ x.2 ≠ '\n' := by decide
    obtain ⟨before, after, hsplit, -⟩ := lookup_eq_some_iff.1 he
    exact hall (c, e) (by simp [hsplit])
  · right
    rw [Bool.not_eq_true, isSome_eq_false_iff, isNone_iff_eq_none] at h
    refine ⟨h, ?_⟩
    rw [lookup_eq_none_iff] at h
    exact ⟨by simpa using h ('"', '"') (by decide), by simpa using h ('\\', '\\') (by decide), by simpa using h ('\n', 'n') (by decide)⟩

theorem hexValue_hexDigit : ∀ n < 16, hexValue (hexDigit n) = some n := by decide

/-- Reading an escaped character reads the character. -/
theorem readString_escape (c : Char) (rest : List Char) :
    readString (escape c ++ rest) = (readString rest).map fun x => (c :: x.1, x.2) := by
  unfold escape
  rcases lookup_escape_cases c with ⟨e, he, hunescape, hu, -⟩ | ⟨hnone, hquote, hslash, -⟩
  · simp only [he, cons_append, nil_append]
    rw [readString.eq_def]
    simp [hu, hunescape]
  by_cases h : c.toNat < 32
  · have hchar : ofNat (16 * (c.toNat / 16) + c.toNat % 16) = c := by
      rw [Nat.div_add_mod]
      exact ofNat_toNat c
    simp [hnone, h, readString, hexValue_hexDigit _ (show c.toNat / 16 < 16 by omega),
      hexValue_hexDigit _ (show c.toNat % 16 < 16 by omega), hchar]
  · simp only [hnone, h, if_false, cons_append, nil_append]
    rw [readString.eq_def]
    simp [h, hquote, hslash]

/-- An escaped string is read back. -/
theorem readString_flatMap (s rest : List Char) : readString (s.flatMap escape ++ '"' :: rest) = some (s, rest) := by
  induction s with
  | nil =>
    rw [flatMap_nil, nil_append, readString.eq_def]
    simp
  | cons c s ih =>
    rw [flatMap_cons, append_assoc, readString_escape, ih]
    rfl

/-! ## Values -/

/-- A number in decimal. -/
def printNat (n : Nat) : List Char := if n = 0 then ['0'] else (Nat.digits 10 n).reverse.map fun d => ofNat (48 + d)

def digitValue (c : Char) : Nat := c.toNat - 48

/-- The digits at the start, and what follows them. -/
def readNat (text : List Char) : Option (Nat × List Char) :=
  match text.span fun c => c.isDigit with
  | ([], _) => none
  | (ds, rest) => some (ds.foldl (fun n c => 10 * n + digitValue c) 0, rest)

/-- A value as text. -/
def printValue : Value → List Char
  | .str s => printString s
  | .num n => printNat n
  | .bool true => "true".toList
  | .bool false => "false".toList

/-- A value at the start of a text, and what follows it. -/
def readValue : List Char → Option (Value × List Char)
  | '"' :: rest => (readString rest).map fun x => (.str x.1, x.2)
  | 't' :: 'r' :: 'u' :: 'e' :: rest => some (.bool true, rest)
  | 'f' :: 'a' :: 'l' :: 's' :: 'e' :: rest => some (.bool false, rest)
  | text => (readNat text).map fun x => (.num x.1, x.2)

theorem digit_facts : ∀ d < 10, (ofNat (48 + d)).isDigit ∧ digitValue (ofNat (48 + d)) = d ∧
    ofNat (48 + d) ∉ ['"', 't', 'f', '\n'] := by decide

variable {n : Nat} {c : Char} {rest text q : List Char} {o : Object}

theorem printNat_isDigit (h : c ∈ printNat n) : ∃ d < 10, c = ofNat (48 + d) := by
  unfold printNat at h
  split at h
  · exact ⟨0, by decide, by simpa using h⟩
  · obtain ⟨d, hd, rfl⟩ := mem_map.1 h
    exact ⟨d, Nat.digits_lt_base (by decide) (mem_reverse.1 hd), rfl⟩

theorem foldl_digits (ds : List Nat) (h : ∀ d ∈ ds, d < 10) :
    (ds.reverse.map fun d => ofNat (48 + d)).foldl (fun n c => 10 * n + digitValue c) 0 = Nat.ofDigits 10 ds := by
  induction ds with
  | nil => rfl
  | cons d ds ih =>
    have hd := (digit_facts d (h d (by simp))).2.1
    rw [reverse_cons, map_append, foldl_append, ih fun d hd => h d (by simp [hd]), Nat.ofDigits_cons]
    simp [hd]
    omega

theorem printNat_ne_nil (n : Nat) : printNat n ≠ [] := by
  unfold printNat
  split
  · simp
  · next h => simpa [Nat.digits_eq_nil_iff_eq_zero] using h

theorem foldl_printNat (n : Nat) : (printNat n).foldl (fun n c => 10 * n + digitValue c) 0 = n := by
  unfold printNat
  split
  · next h =>
    rw [h]
    rfl
  · rw [foldl_digits _ fun d hd => Nat.digits_lt_base (by decide) hd, Nat.ofDigits_digits]

/-- What follows a value: it starts with no digit. -/
def Follows (rest : List Char) : Prop := ∀ c ∈ rest.head?, c.isDigit = false

/-- A number is read off the digits that a text starts with. -/
theorem readNat_iff : readNat text = some (n, rest) ↔ ∃ ds, ds ≠ [] ∧ (∀ c ∈ ds, c.isDigit) ∧ Follows rest ∧
    text = ds ++ rest ∧ ds.foldl (fun n c => 10 * n + digitValue c) 0 = n := by
  rw [readNat, span_eq_takeWhile_dropWhile]
  constructor
  · intro h
    have hall : ∀ c ∈ text.takeWhile isDigit, c.isDigit := all_eq_true.1 all_takeWhile
    split at h
    · nomatch h
    · next hne heq =>
      cases heq
      cases h
      refine ⟨_, hne, hall, fun c hc => ?_, takeWhile_append_dropWhile.symm, rfl⟩
      simpa [Option.mem_def.1 hc] using head?_dropWhile_not isDigit text
  · rintro ⟨ds, hds, hall, hrest, rfl, rfl⟩
    have hstop : rest.takeWhile isDigit = [] ∧ rest.dropWhile isDigit = rest := by
      cases rest with
      | nil => exact ⟨rfl, rfl⟩
      | cons c rest => simp [hrest c rfl]
    rw [takeWhile_append_of_pos hall, dropWhile_append_of_pos hall, hstop.1, hstop.2, append_nil]
    cases ds with
    | nil => exact absurd rfl hds
    | cons d ds => rfl

/-- A printed number is read back. -/
theorem readNat_printNat (n : Nat) (h : Follows rest) : readNat (printNat n ++ rest) = some (n, rest) := by
  refine readNat_iff.2 ⟨_, printNat_ne_nil n, fun c hc => ?_, h, rfl, foldl_printNat n⟩
  obtain ⟨d, hd, rfl⟩ := printNat_isDigit hc
  exact (digit_facts d hd).1

theorem exists_digit_of_readNat (h : readNat text = some (n, rest)) : ∃ d text', text = d :: text' ∧ d.isDigit := by
  obtain ⟨ds, hds, hall, -, rfl, -⟩ := readNat_iff.1 h
  obtain ⟨d, ds, rfl⟩ := exists_cons_of_ne_nil hds
  exact ⟨d, ds ++ rest, rfl, hall d (by simp)⟩

theorem readValue_digit {d : Char} (hd : d.isDigit) (text : List Char) :
    readValue (d :: text) = (readNat (d :: text)).map fun x => (.num x.1, x.2) := by
  have hne : ∀ c : Char, c.isDigit = false → d ≠ c := by
    rintro c hc rfl
    simp [hd] at hc
  rw [readValue.eq_def]
  split
  iterate 3
    · next heq => exact absurd (cons.inj heq).1 (hne _ (by decide))
  · rfl

/-- A printed value is read back. -/
theorem readValue_printValue (v : Value) (h : Follows rest) : readValue (printValue v ++ rest) = some (v, rest) := by
  cases v with
  | str s =>
    simp only [printValue, printString, cons_append, append_assoc, nil_append, readValue, readString_flatMap]
    rfl
  | num n =>
    have hn := readNat_printNat n h
    obtain ⟨d, text, htext, hd⟩ := exists_digit_of_readNat hn
    rw [printValue, htext, readValue_digit hd, ← htext, hn]
    rfl
  | bool b => cases b <;> rfl

/-! ## Objects -/

variable (field : List Char × Value)

/-- A name, a colon and its value. -/
def printField : List Char := printString field.1 ++ ':' :: printValue field.2

/-- The fields of an object, each but the last followed by a comma. -/
def printFields : Object → List Char
  | [] => []
  | [field] => printField field
  | field :: fields => printField field ++ ',' :: printFields fields

/-- An object as text. -/
def print (o : Object) : List Char := '{' :: printFields o ++ ['}']

/-- A field at the start of a text, and what follows it. -/
def readField (text : List Char) : Option ((List Char × Value) × List Char) :=
  match text with
  | '"' :: rest => do
    match ← readString rest with
    | (key, ':' :: rest) => do
      let (v, rest) ← readValue rest
      return ((key, v), rest)
    | _ => none
  | _ => none

/-- The fields up to the closing brace, which ends the text. -/
def readFields : Nat → List Char → Option Object
  | 0, _ => none
  | fuel + 1, text => do
    match ← readField text with
    | (field, [last]) => if last = '}' then return [field] else none
    | (field, ',' :: rest) => do
      let fields ← readFields fuel rest
      return field :: fields
    | _ => none

/-- The object that a whole text is. -/
def read (text : List Char) : Option Object :=
  match text with
  | ['{', '}'] => some []
  | '{' :: rest => readFields text.length rest
  | _ => none

theorem follows_cons (h : c.isDigit = false) (rest : List Char) : Follows (c :: rest) := by
  rintro d hd
  cases hd
  exact h

/-- A printed field is read back. -/
theorem readField_printField (h : Follows rest) :
    readField (printField field ++ rest) = some (field, rest) := by
  simp only [printField, printString, cons_append, append_assoc, nil_append, readField, readString_flatMap]
  simp [readValue_printValue field.2 h]

/-- Printed fields are read back. -/
theorem readFields_printFields (o : Object) (ho : o ≠ []) (fuel : Nat) (hfuel : o.length ≤ fuel) :
    readFields fuel (printFields o ++ ['}']) = some o := by
  induction o generalizing fuel with
  | nil => exact absurd rfl ho
  | cons field o ih =>
    cases fuel with
    | zero => simp at hfuel
    | succ fuel =>
      cases o with
      | nil =>
        rw [readFields, printFields, readField_printField field (follows_cons (by decide) _)]
        rfl
      | cons next o =>
        have hrest := ih (by simp) fuel (by simpa using hfuel)
        have hcons : printFields (field :: next :: o) ++ ['}'] = printField field ++ ',' :: (printFields (next :: o) ++ ['}']) := by
          simp [printFields]
        rw [readFields, hcons, readField_printField field (follows_cons (by decide) _)]
        simp [hrest]

theorem length_printField : 1 ≤ (printField field).length := by
  simp only [printField, length_append, length_cons]
  omega

theorem length_printFields (o : Object) : o.length ≤ (printFields o).length := by
  induction o with
  | nil => simp
  | cons field o ih =>
    have hfield := length_printField field
    cases o with
    | nil => simpa [printFields] using hfield
    | cons next o =>
      simp only [printFields, length_append, length_cons] at ih ⊢
      omega

/-- A printed object is read back. -/
theorem read_print (o : Object) : read (print o) = some o := by
  cases o with
  | nil => rfl
  | cons field o =>
    have hlength := length_printFields (field :: o)
    rw [length_cons] at hlength
    have hcons : print (field :: o) = '{' :: (printFields (field :: o) ++ ['}']) := rfl
    have hread := readFields_printFields (field :: o) (by simp) (print (field :: o)).length
      (by simp only [hcons, length_cons, length_append, length_nil]; omega)
    unfold read
    split
    · next h =>
      have hlen := congrArg length h
      simp only [hcons, length_cons, length_append, length_nil] at hlen
      omega
    · next h =>
      obtain rfl := (cons.inj (hcons.symm.trans h)).2
      exact hread
    · next h => exact absurd hcons (h _)

example : read (print [("id".toList, .str "a\"b".toList), ("n".toList, .num 120)]) =
    some [("id".toList, .str "a\"b".toList), ("n".toList, .num 120)] := by
  decide

/-! ## One line -/

/-- An escaped character has no line end in it. -/
theorem notMem_escape (c : Char) : '\n' ∉ escape c := by
  unfold escape
  rcases lookup_escape_cases c with ⟨e, he, -, -, hne⟩ | ⟨hnone, -, -, hc⟩
  · simp [he, hne.symm]
  have hhex : ∀ n < 16, hexDigit n ≠ '\n' := by decide
  by_cases h : c.toNat < 32
  · have hhigh := hhex (c.toNat / 16) (by omega)
    have hlow := hhex (c.toNat % 16) (by omega)
    simp [hnone, h, hhigh.symm, hlow.symm]
  · simp [hnone, h, hc.symm]

theorem notMem_printString (s : List Char) : '\n' ∉ printString s := by simp [printString, notMem_escape]

theorem notMem_printValue (v : Value) : '\n' ∉ printValue v := by
  cases v with
  | str s => exact notMem_printString s
  | num n =>
    intro h
    obtain ⟨d, hd, hc⟩ := printNat_isDigit h
    exact (digit_facts d hd).2.2 (by simp [← hc])
  | bool b => cases b <;> decide

theorem notMem_printFields (o : Object) : '\n' ∉ printFields o := by
  have hfield : ∀ field, '\n' ∉ printField field := by
    intro field
    simp [printField, notMem_printString, notMem_printValue]
  induction o with
  | nil => exact not_mem_nil
  | cons field o ih =>
    cases o with
    | nil => exact hfield field
    | cons next o =>
      simp only [printFields, mem_append, mem_cons, not_or]
      exact ⟨hfield field, by decide, ih⟩

/-- A printed object is one line. -/
theorem notMem_print (o : Object) : '\n' ∉ print o := by simp [print, notMem_printFields]

/-! ## No object starts another -/

/-- What follows a string does not change it. -/
theorem readString_append {s : List Char} (q : List Char) (h : readString text = some (s, rest)) :
    readString (text ++ q) = some (s, rest ++ q) := by
  fun_induction readString text generalizing s rest with
  | case1 | case3 | case5 | case7 => nomatch h
  | case2 rest' =>
    cases h
    rw [cons_append, readString.eq_def]
    simp
  | case4 _ high low rest' ih =>
    simp only [bind_eq_bind, bind_eq_some_iff, map_eq_some_iff, Prod.mk.injEq, Prod.exists] at h
    obtain ⟨high', hhigh, low', hlow, s', _, hs', rfl, rfl⟩ := h
    simp [readString, hhigh, hlow, ih hs']
  | case6 e rest' hu _ ih =>
    simp only [bind_eq_bind, bind_eq_some_iff, map_eq_some_iff, Prod.mk.injEq, Prod.exists] at h
    obtain ⟨c, hc, s', _, hs', rfl, rfl⟩ := h
    rw [cons_append, cons_append, readString.eq_def]
    simp [hu, hc, ih hs']
  | case8 c rest' hquote hslash hcontrol ih =>
    simp only [map_eq_some_iff, Prod.mk.injEq, Prod.exists] at h
    obtain ⟨s', _, hs', rfl, rfl⟩ := h
    rw [cons_append, readString.eq_def]
    simp [hquote, hslash, hcontrol, ih hs']

/-- Nor a number that something follows already. -/
theorem readNat_append (q : List Char) (h : readNat text = some (n, rest)) (hrest : rest ≠ []) :
    readNat (text ++ q) = some (n, rest ++ q) := by
  obtain ⟨ds, hds, hall, hfollows, rfl, hn⟩ := readNat_iff.1 h
  obtain ⟨c, rest, rfl⟩ := exists_cons_of_ne_nil hrest
  exact readNat_iff.2 ⟨ds, hds, hall, hfollows, append_assoc .., hn⟩

theorem readValue_append {v : Value} (q : List Char) (h : readValue text = some (v, rest))
    (hrest : rest ≠ []) : readValue (text ++ q) = some (v, rest ++ q) := by
  unfold readValue at h
  split at h
  · next text' =>
    simp only [map_eq_some_iff, Prod.mk.injEq, Prod.exists] at h
    obtain ⟨s, _, hs, rfl, rfl⟩ := h
    simp [readValue, readString_append q hs]
  · simp_all [readValue]
  · simp_all [readValue]
  · next hstr htrue hfalse =>
    simp only [map_eq_some_iff, Prod.mk.injEq, Prod.exists] at h
    obtain ⟨n, _, hn, rfl, rfl⟩ := h
    obtain ⟨d, text', rfl, hd⟩ := exists_digit_of_readNat hn
    rw [cons_append, readValue_digit hd, ← cons_append, readNat_append q hn hrest]
    rfl

theorem readField_append {field : List Char × Value} (q : List Char)
    (h : readField text = some (field, rest)) (hrest : rest ≠ []) : readField (text ++ q) = some (field, rest ++ q) := by
  unfold readField at h
  split at h
  · next text' =>
    simp only [bind_eq_bind, bind_eq_some_iff] at h
    obtain ⟨⟨key, after⟩, hkey, h⟩ := h
    split at h
    · next key' rest' heq =>
      cases heq
      simp only [bind_eq_some_iff, Option.pure_def, some.injEq, Prod.mk.injEq] at h
      obtain ⟨⟨v, rest''⟩, hv, rfl, rfl⟩ := h
      simp [readField, readString_append q hkey, readValue_append q hv hrest]
    · nomatch h
  · nomatch h

/-- Fields that are read to the end are not read when more follows. -/
theorem readFields_append {fuel : Nat} (h : readFields fuel text = some o) (hq : q ≠ [])
    (fuel' : Nat) : readFields fuel' (text ++ q) = none := by
  induction fuel generalizing text o fuel' with
  | zero => nomatch h
  | succ fuel ih =>
    cases fuel' with
    | zero => rfl
    | succ fuel' =>
      simp only [readFields, bind_eq_bind, bind_eq_some_iff] at h ⊢
      obtain ⟨⟨field, rest⟩, hfield, h⟩ := h
      split at h
      · next field' last heq =>
        cases heq
        obtain ⟨c, q', rfl⟩ := exists_cons_of_ne_nil hq
        rw [readField_append _ hfield (by simp)]
        have hlast : last = '}' := by
          by_contra hne
          simp [hne] at h
        simp [hlast]
      · next field' rest' hne heq =>
        cases heq
        simp only [bind_eq_some_iff] at h
        obtain ⟨fields, hfields, -⟩ := h
        rw [readField_append _ hfield (by simp)]
        obtain ⟨c, q', hcons⟩ := exists_cons_of_ne_nil (append_ne_nil_of_right_ne_nil rest' hq)
        have hrest := ih hfields fuel'
        rw [hcons] at hrest
        simp [hcons, hrest]
      · nomatch h

/-- An object that is read is not read when more follows. -/
theorem read_append (h : read text = some o) (hq : q ≠ []) : read (text ++ q) = none := by
  unfold read at h
  split at h
  · obtain ⟨c, q', rfl⟩ := exists_cons_of_ne_nil hq
    have hfield : readField ('}' :: c :: q') = none := rfl
    simp [read, readFields, hfield]
  · next rest hne =>
    have hrest := readFields_append h hq ('{' :: rest ++ q).length
    rw [read.eq_def]
    split
    · next heq =>
      have hend : rest ++ q = ['}'] := (cons.inj heq).2
      rcases append_eq_singleton_iff.1 hend with ⟨rfl, -⟩ | ⟨-, rfl⟩
      · nomatch h
      · exact absurd rfl hq
    · next heq =>
      rw [← (cons.inj heq).2]
      exact hrest
    · rfl
  · nomatch h

end FlatJson
