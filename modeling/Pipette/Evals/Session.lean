import Pipette.Evals.Checkpoint
import Pipette.Lib.LineLog

/-!
# Checkpoint sessions

`EvalCompletionSession` over the bytes of its file: opening it, appending a row, holding a row that did not fit. The last line
is cut first if it has no end. How a header or a row is written and read is a `Codec`.
-/

namespace Pipette.Evals

open LineLog List

abbrev Bytes := List UInt8

def newline : UInt8 := 10

/-! ## Lines -/

/-- A header or a row is one line, and is read back as itself. `readLine` is `none` for a line that is not UTF-8, which fails
the whole load. -/
structure Codec where
  headerLine : Header → Bytes
  rowLine : Completion → Bytes
  readHeader : Bytes → Option Header
  readLine : Bytes → Option Line
  headerLine_oneLine : ∀ h, newline ∉ headerLine h
  rowLine_oneLine : ∀ c, newline ∉ rowLine c
  readHeader_headerLine : ∀ h, readHeader (headerLine h) = some h
  readLine_rowLine : ∀ c, readLine (rowLine c) = some (.row c)

/-- Rows of which no two have the same id. -/
structure Rows where
  list : List Completion
  nodup : (list.map (·.id)).Nodup

variable (rows : List Completion)

theorem lastRows_sublist : (lastRows rows).Sublist rows := by
  induction rows with
  | nil => exact List.Sublist.refl _
  | cons c cs ih =>
    unfold lastRows
    split
    · exact ih.cons c
    · exact ih.cons_cons c

theorem lastRows_nodup : ((lastRows rows).map (·.id)).Nodup := by
  induction rows with
  | nil => exact nodup_nil
  | cons c cs ih =>
    unfold lastRows
    split
    · exact ih
    · next h =>
      refine nodup_cons.2 ⟨?_, ih⟩
      intro hmem
      obtain ⟨d, hd, hid⟩ := mem_map.1 hmem
      exact h (any_eq_true.2 ⟨d, (lastRows_sublist cs).subset hd, by simpa using hid⟩)

/-- The last row of each id, as the map of `load_existing` holds them. -/
def byId : Rows := ⟨lastRows rows, lastRows_nodup rows⟩

/-- Where ids do not repeat, taking out the first row of an id takes out all of them. -/
theorem eraseP_eq_filter {rows : List Completion} (h : (rows.map (·.id)).Nodup) (id : Text) :
    rows.eraseP (fun d => d.id = id) = rows.filter fun d => d.id ≠ id := by
  induction rows with
  | nil => rfl
  | cons d rows ih =>
    obtain ⟨hd, hrows⟩ := nodup_cons.1 h
    by_cases hid : d.id = id
    · have hkept : rows.filter (fun d => d.id ≠ id) = rows := by
        refine filter_eq_self.2 fun e he => ?_
        simp only [ne_eq, decide_not, Bool.not_eq_true', decide_eq_false_iff_not]
        rintro rfl
        exact hd (mem_map.2 ⟨e, he, hid.symm⟩)
      simpa [hid] using hkept.symm
    · simpa [hid] using ih hrows

/-- A row in place of the one with its id, if there is one. -/
def Rows.put (rows : Rows) (c : Completion) : Rows where
  list := rows.list.eraseP (fun d => d.id = c.id) ++ [c]
  nodup := by
    rw [map_append]
    refine nodup_append.2 ⟨rows.nodup.sublist (eraseP_sublist.map _), nodup_singleton _, ?_⟩
    rw [eraseP_eq_filter rows.nodup]
    simp only [mem_map, mem_filter, decide_eq_true_eq, map_cons, map_nil, mem_singleton]
    rintro _ ⟨d, ⟨-, hd⟩, rfl⟩ _ rfl
    exact hd

def Rows.find (rows : Rows) (id : Text) : Option Completion := rows.list.find? fun d => d.id = id

def Rows.failures (rows : Rows) : Nat := rows.list.countP (·.failed)

def Rows.ids (rows : Rows) : Finset Text := (rows.list.map (·.id)).toFinset

theorem Rows.ids_put (rows : Rows) (c : Completion) : (rows.put c).ids = insert c.id rows.ids := by
  ext id
  simp only [Rows.ids, Rows.put, eraseP_eq_filter rows.nodup, mem_toFinset, map_append, mem_append,
    mem_map, mem_filter, Finset.mem_insert]
  constructor
  · rintro (⟨d, ⟨hd, -⟩, rfl⟩ | h)
    · exact .inr ⟨d, hd, rfl⟩
    · simp_all
  · rintro (rfl | ⟨d, hd, rfl⟩)
    · simp
    · by_cases hid : d.id = c.id
      · simp [hid]
      · exact .inl ⟨d, ⟨hd, by simpa using hid⟩, rfl⟩

/-- The failures but for those of one id, and that of its row. -/
theorem countP_failed_eq {rows : List Completion} (h : (rows.map (·.id)).Nodup) (id : Text) :
    rows.countP (·.failed) = (rows.filter fun d => d.id ≠ id).countP (·.failed) +
      (if (rows.find? fun d => d.id = id).any (·.failed) then 1 else 0) := by
  induction rows with
  | nil => rfl
  | cons d rows ih =>
    obtain ⟨hd, hrows⟩ := nodup_cons.1 h
    by_cases hid : d.id = id
    · have hkept : rows.eraseP (fun d => d.id = id) = rows := by
        refine eraseP_of_forall_not fun e he => ?_
        simp only [decide_eq_true_eq]
        rintro rfl
        exact hd (mem_map.2 ⟨e, he, hid.symm⟩)
      rw [eraseP_eq_filter hrows] at hkept
      simp only [ne_eq, decide_not] at hkept
      simp [hid, hkept, countP_cons]
    · have hrest := ih hrows
      simp only [ne_eq, decide_not] at hrest
      simp [hid, countP_cons, hrest]
      omega

/-- How the source counts failures when it puts a row: the row it replaces no longer counts. -/
def Rows.failuresAfter (rows : Rows) (failedCount : Nat) (c : Completion) : Nat :=
  (if (rows.find c.id).any (·.failed) then failedCount - 1 else failedCount) + if c.failed then 1 else 0

theorem Rows.failures_put (rows : Rows) (c : Completion) : rows.failuresAfter rows.failures c = (rows.put c).failures := by
  have hcount := countP_failed_eq rows.nodup c.id
  simp only [Rows.failuresAfter, Rows.failures, Rows.put, Rows.find, eraseP_eq_filter rows.nodup, countP_append,
    countP_singleton] at *
  split at hcount <;> simp_all

/-! ## The session -/

/-- The bytes of the file, the rows with the ids and the failures counted off them, the failed rows per id in the file, and
the ids this run recorded as not fitting its context. -/
structure Session where
  file : Bytes
  completions : Rows
  doneIds : Finset Text
  failedCount : Nat
  failedAttempts : Text → Nat
  unfit : Finset Text
  doneIds_eq : doneIds = completions.ids
  failedCount_eq : failedCount = completions.failures

namespace Session

variable (k : Codec)

/-- A session as it is opened. -/
def opened (file : Bytes) (completions : Rows) (failedAttempts : Text → Nat) : Session where
  file
  completions
  doneIds := completions.ids
  failedCount := completions.failures
  failedAttempts
  unfit := ∅
  doneIds_eq := rfl
  failedCount_eq := rfl

/-- What putting a row changes in memory: last write wins. -/
def hold (s : Session) (c : Completion) : Session :=
  { s with
    completions := s.completions.put c
    doneIds := insert c.id s.doneIds
    failedCount := s.completions.failuresAfter s.failedCount c
    doneIds_eq := by rw [Rows.ids_put, s.doneIds_eq]
    failedCount_eq := by rw [s.failedCount_eq, Rows.failures_put] }

variable (c : Completion)

/-- A row with its line end. -/
def line : Bytes := k.rowLine c ++ [newline]

/-- Persist one completion: its line goes to the end of the file, and its row into memory. -/
def append (s : Session) : Session :=
  let held := s.hold c
  { held with
    file := s.file ++ line k c
    failedAttempts := if c.failed then Function.update s.failedAttempts c.id (s.failedAttempts c.id + 1) else s.failedAttempts }

/-- An append that fails after `n` bytes: the line is not whole, and nothing changes in memory. -/
def appendFailed (n : Nat) (s : Session) : Session := { s with file := s.file ++ (k.rowLine c).take n }

/-- Hold a failed row for a sample that does not fit this run's context in memory only. -/
def recordUnfit (s : Session) : Session := { s.hold c with unfit := insert c.id s.unfit }

/-- The ids `record_unfit` held this run. -/
def unfitIds (s : Session) : List Text := (s.completions.list.filter fun c => c.failed && c.id ∈ s.unfit).map (·.id)

def contains (s : Session) (id : Text) : Bool := id ∈ s.doneIds

variable (maxAttempts : Nat)

/-- Failed ids a resume would retry. -/
def retriable (s : Session) : List Text :=
  (s.completions.list.filter fun c => (c.failed && !(c.id ∈ s.unfit)) && s.failedAttempts c.id < maxAttempts).map (·.id)

/-- Failed ids that are out of attempts. -/
def exhausted (s : Session) : List Text :=
  (s.completions.list.filter fun c => (c.failed && !(c.id ∈ s.unfit)) && !(s.failedAttempts c.id < maxAttempts)).map (·.id)

/-- Failed ids a resume would retry, and those out of attempts. -/
def failureSplit (s : Session) : List Text × List Text := (s.retriable maxAttempts, s.exhausted maxAttempts)

end Session

/-- Attempts a failed sample gets before its failure is taken as its own. -/
def maxSampleAttempts : Nat := 3

/-! ## Files -/

variable (k : Codec)

/-- The body `write_checkpoint` puts in place of the file. -/
def checkpointBody (header : Header) (rows : List Completion) : Bytes :=
  unlines newline (k.headerLine header :: rows.map k.rowLine)

/-- What `load_existing` hands back: an error, a file of another run, or the rows of this one. -/
inductive LoadedRows where
  | failed
  | rotated
  | loaded (header : Header) (completions : Rows) (attempts : Text → Nat)

/-- Read a file, cutting a torn last line. A line that is not UTF-8 fails the load, one that does not parse is skipped. -/
def loadExisting (file : Bytes) (expected : EvalRunDigest) : LoadedRows × Bytes :=
  let body := file.take (completeLength newline file)
  match complete newline body with
  | [] => (.failed, body)
  | head :: lines =>
    match k.readHeader head with
    | none => (.failed, body)
    | some header =>
      if header.digest ≠ expected then (.rotated, body)
      else
        match lines.mapM k.readLine with
        | none => (.failed, body)
        | some lines => (.loaded header (byId (rowsOf lines)) (failedAttempts (rowsOf lines)), body)

/-- A file that cannot be read, or is of another run, is moved aside; one of another timeout is rewritten without its failed
rows. -/
def openIn (header : Header) (file : Option Bytes) : Session :=
  match file.map fun body => loadExisting k body header.digest with
  | some (.loaded found completions attempts, body) =>
    if found.httpTimeoutSeconds = header.httpTimeoutSeconds then .opened body completions attempts
    else
      let completed : Rows := ⟨completions.list.filter fun c => !c.failed, completions.nodup.sublist (filter_sublist.map _)⟩
      .opened (checkpointBody k header completed.list) completed fun _ => 0
  | _ => .opened (checkpointBody k header []) ⟨[], nodup_nil⟩ fun _ => 0

/-- Retire the checkpoint of a run whose result is safe: delete it, or keep its failed rows, one line per attempt. -/
def finalizeFile (digest : EvalRunDigest) (file : Option Bytes) : Option Bytes :=
  match file with
  | none => none
  | some body =>
    match loadExisting k body digest with
    | (.failed, body) => some body
    | (.rotated, _) => none
    | (.loaded header completions attempts, _) =>
      let failed := (completions.list.filter (·.failed)).flatMap fun c => replicate (max (attempts c.id) 1) c
      if failed ≠ [] then some (checkpointBody k header failed) else none

end Pipette.Evals
