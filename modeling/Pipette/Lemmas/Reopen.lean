import Pipette.Lemmas.Session

/-!
# What reopening a checkpoint loads

`Reads k header lines file` says what the complete lines of a file are read as, unreadable ones included. Appending a row adds
its line, a torn one adds none, and a session opened over any file is at the end of a file that is read as its own rows
(`exists_opened`).
-/

namespace Pipette.Evals

open LineLog List Session

variable {k : Codec} {header : Header} {lines : List Line} {file : Bytes}

/-! ## Files -/

/-- The first complete line of the file is this header, and the others are read as these lines. -/
def Reads (k : Codec) (header : Header) (lines : List Line) (file : Bytes) : Prop :=
  ∃ head raw, complete newline file = head :: raw ∧ k.readHeader head = some header ∧ raw.mapM k.readLine = some lines

theorem Reads.of_complete_eq {file' : Bytes} (h : Reads k header lines file) (heq : complete newline file' = complete newline file) :
    Reads k header lines file' := by
  obtain ⟨head, raw, hcomplete, hread⟩ := h
  exact ⟨head, raw, heq.trans hcomplete, hread⟩

theorem reads_checkpointBody (k : Codec) (header : Header) (rows : List Completion) :
    Reads k header (rows.map .row) (checkpointBody k header rows) :=
  ⟨_, _, holds_checkpointBody k header rows, k.readHeader_headerLine header, mapM_readLine k rows⟩

theorem Reads.append (h : Reads k header lines file) (ht : torn newline file = []) (c : Completion) :
    Reads k header (lines ++ [.row c]) (file ++ line k c) := by
  obtain ⟨head, raw, hcomplete, hhead, hlines⟩ := h
  refine ⟨head, raw ++ [k.rowLine c], ?_, hhead, ?_⟩
  · rw [line, complete_append_line ht (k.rowLine_oneLine c), hcomplete]
    rfl
  · simp [mapM_append, hlines, k.readLine_rowLine]

/-- A part of a line without its end adds nothing, whatever stands before it. -/
theorem Reads.cut (h : Reads k header lines file) (c : Completion) (n : Nat) : Reads k header lines (file ++ (k.rowLine c).take n) :=
  h.of_complete_eq (complete_append_part fun hmem => k.rowLine_oneLine c (mem_of_mem_take hmem))

variable {n : Nat} {c : Completion} {rows : List Completion}

/-- A line of which the first bytes are written is whole or adds nothing. -/
theorem Reads.killed (h : Reads k header lines file) (c : Completion) (hn : n ≤ (k.rowLine c).length) :
    Reads k header lines (file ++ (line k c).take n) :=
  h.of_complete_eq (complete_append_take (k.rowLine_oneLine c) hn)

theorem take_line_of_lt (k : Codec) (c : Completion) (hn : (k.rowLine c).length < n) :
    (line k c).take n = line k c := by
  refine take_of_length_le ?_
  simp only [line, length_append, length_cons, length_nil]
  omega

theorem Reads.truncate (h : Reads k header lines file) :
    Reads k header lines (file.take (completeLength newline file)) ∧ torn newline (file.take (completeLength newline file)) = [] := by
  refine ⟨h.of_complete_eq (complete_take_completeLength _ _), ?_⟩
  rw [take_completeLength]
  exact torn_unlines fun l hl => notMem_of_mem_complete hl

/-- What `load_existing` makes of a file of this run. -/
theorem loadExisting_of_reads (h : Reads k header lines file) : loadExisting k file header.digest =
      (.loaded header (byId (rowsOf lines)) (failedAttempts (rowsOf lines)), file.take (completeLength newline file)) := by
  obtain ⟨⟨head, raw, hcomplete, hhead, hlines⟩, -⟩ := h.truncate
  simp only [loadExisting, hcomplete, hhead, hlines]
  simp

/-- Whatever `load_existing` loads is what the file is read as. -/
theorem reads_of_loaded {digest : EvalRunDigest} {completions : Rows} {attempts : Text → Nat} {body : Bytes}
    (h : loadExisting k file digest = (.loaded header completions attempts, body)) :
    header.digest = digest ∧ ∃ lines, Reads k header lines file := by
  unfold loadExisting at h
  dsimp only at h
  split at h
  · cases h
  · next head raw hcomplete =>
    split at h
    · cases h
    · next found hhead =>
      split at h
      · cases h
      · next hdigest =>
        split at h
        · cases h
        · next lines hlines =>
          obtain ⟨⟨⟩, rfl⟩ := h
          rw [complete_take_completeLength] at hcomplete
          exact ⟨not_not.1 hdigest, lines, head, raw, hcomplete, hhead, hlines⟩

/-! ## Rows -/

/-- The failed flags of an id's rows, in their order. -/
def flags (rows : List Completion) (id : Text) : List Bool := (rows.filter fun c => c.id = id).map (·.failed)

theorem flags_append (rows rows' : List Completion) (id : Text) : flags (rows ++ rows') id = flags rows id ++ flags rows' id := by
  simp [flags]

theorem failedAttempts_eq (rows : List Completion) (id : Text) : failedAttempts rows id = (flags rows id).count true := by
  unfold failedAttempts flags
  rw [count_eq_countP, countP_map, countP_eq_length_filter, filter_filter]
  congr 1
  refine filter_congr fun c _ => ?_
  simp [Function.comp]

theorem sanitize_id (c : Completion) : (sanitizePreGateSuccess c).id = c.id := by
  unfold sanitizePreGateSuccess
  split <;> rfl

theorem rowsOf_append (lines lines' : List Line) : rowsOf (lines ++ lines') = rowsOf lines ++ rowsOf lines' := by
  simp [rowsOf]

/-- Rows of a file are as they are read. -/
theorem sanitize_of_mem_rowsOf (h : c ∈ rowsOf lines) : sanitizePreGateSuccess c = c := by
  obtain ⟨l, -, hl⟩ := mem_filterMap.1 h
  cases l with
  | row d =>
    cases hl
    unfold sanitizePreGateSuccess
    split
    · simp
    · rfl
  | _ => cases hl

theorem rowsOf_map_row (h : ∀ c ∈ rows, sanitizePreGateSuccess c = c) : rowsOf (rows.map .row) = rows := by
  rw [rowsOf_rows]
  exact map_sanitize h

theorem lastRows_eq_self (h : (rows.map (·.id)).Nodup) : lastRows rows = rows := by
  induction rows with
  | nil => rfl
  | cons c rows ih =>
    obtain ⟨hc, hrows⟩ := nodup_cons.1 h
    unfold lastRows
    rw [if_neg, ih hrows]
    intro hany
    obtain ⟨d, hd, hid⟩ := any_eq_true.1 hany
    exact hc (mem_map.2 ⟨d, hd, by simpa using hid⟩)

/-! ## Opened sessions -/

/-- A session as it is opened over a file that is read as these lines. -/
structure Opened (k : Codec) (header : Header) (lines : List Line) (s : Session) : Prop where
  reads : Reads k header lines s.file
  torn : torn newline s.file = []
  completions : s.completions = byId (rowsOf lines)
  attempts : s.failedAttempts = failedAttempts (rowsOf lines)
  unfit : s.unfit = ∅

theorem opened_of_reads (h : Reads k header lines file) : Opened k header lines (openIn k header (some file)) := by
  have hopen : openIn k header (some file) =
      .opened (file.take (completeLength newline file)) (byId (rowsOf lines)) (failedAttempts (rowsOf lines)) := by
    simp [openIn, loadExisting_of_reads h]
  rw [hopen]
  exact ⟨h.truncate.1, h.truncate.2, rfl, rfl, rfl⟩

theorem opened_empty (k : Codec) (header : Header) :
    Opened k header [] (.opened (checkpointBody k header []) ⟨[], nodup_nil⟩ fun _ => 0) :=
  ⟨reads_checkpointBody k header [], torn_checkpointBody k header [], rfl, rfl, rfl⟩

/-- The rows of a file that were completed, as its only lines. -/
theorem opened_completed (k : Codec) (header : Header) (lines : List Line) :
    let completed : Rows := ⟨(byId (rowsOf lines)).list.filter fun c => !c.failed,
      (byId (rowsOf lines)).nodup.sublist (filter_sublist.map _)⟩
    Opened k header (completed.list.map .row) (.opened (checkpointBody k header completed.list) completed fun _ => 0) := by
  intro completed
  have hplain : rowsOf (completed.list.map .row) = completed.list := by
    refine rowsOf_map_row fun c hc => ?_
    exact sanitize_of_mem_rowsOf ((lastRows_sublist _).subset (mem_of_mem_filter hc))
  refine ⟨reads_checkpointBody k header _, torn_checkpointBody k header _, ?_, ?_, rfl⟩
  · rw [hplain]
    simp only [byId, opened, lastRows_eq_self completed.nodup]
  · funext id
    rw [hplain, failedAttempts]
    have hnone : completed.list.filter (fun c => c.failed && decide (c.id = id)) = [] := by
      refine filter_eq_nil_iff.2 fun c hc => ?_
      have hfailed := (mem_filter.1 hc).2
      simp_all
    rw [hnone]
    rfl

/-- Whatever the file holds, opening gives a session over a file that is read as its rows. -/
theorem exists_opened (k : Codec) (header : Header) (file : Option Bytes) : ∃ lines, Opened k header lines (openIn k header file) := by
  unfold openIn
  split
  · next found completions attempts body hload =>
    cases file with
    | none => cases hload
    | some bytes =>
      have hload' : loadExisting k bytes header.digest = (.loaded found completions attempts, body) := Option.some.inj hload
      obtain ⟨hdigest, lines, hreads⟩ := reads_of_loaded hload'
      have hsame := loadExisting_of_reads hreads
      rw [hdigest, hload'] at hsame
      obtain ⟨⟨rfl, rfl⟩, rfl⟩ : (completions = byId (rowsOf lines) ∧ attempts = failedAttempts (rowsOf lines)) ∧
          body = bytes.take (completeLength newline bytes) := by simpa using hsame
      split
      · next htimeout =>
        obtain rfl : found = header := by
          cases found
          cases header
          simp_all
        exact ⟨lines, hreads.truncate.1, hreads.truncate.2, rfl, rfl, rfl⟩
      · exact ⟨_, opened_completed k header lines⟩
  · exact ⟨[], opened_empty k header⟩

/-- The row a session is opened with for an id is its last. -/
theorem Opened.filter {s : Session} (h : Opened k header lines s) (id : Text) :
    s.completions.list.filter (fun c => c.id = id) = ((rowsOf lines).filter fun c => c.id = id).getLast?.toList := by
  rw [h.completions]
  exact filter_lastRows _ id

/-! ## Finalizing -/

/-- The lines that finalizing keeps: of each id whose last row failed that row, once per attempt. -/
def keptRows (rows : List Completion) : List Completion :=
  ((lastRows rows).filter (·.failed)).flatMap fun c => replicate (max (failedAttempts rows c.id) 1) c

theorem finalizeFile_of_reads (h : Reads k header lines file) : finalizeFile k header.digest (some file) =
      if keptRows (rowsOf lines) ≠ [] then some (checkpointBody k header (keptRows (rowsOf lines))) else none := by
  simp only [finalizeFile, loadExisting_of_reads h]
  rfl

theorem keptRows_sub (h : c ∈ keptRows rows) : c ∈ rows := by
  obtain ⟨d, hd, hc⟩ := mem_flatMap.1 h
  rw [eq_of_mem_replicate hc]
  exact (lastRows_sublist rows).subset (mem_of_mem_filter hd)

/-- The lines kept of an id: its last row as often as it failed, if that row failed. -/
theorem filter_keptRows (rows : List Completion) (id : Text) : (keptRows rows).filter (fun c => c.id = id) =
      ((rows.filter fun c => c.id = id).getLast?.toList.filter (·.failed)).flatMap
        fun c => replicate (failedAttempts rows id) c := by
  have hfilter : (keptRows rows).filter (fun c => c.id = id) =
      (((lastRows rows).filter fun c => c.id = id).filter (·.failed)).flatMap
        fun c => replicate (max (failedAttempts rows c.id) 1) c := by
    unfold keptRows
    rw [filter_filter]
    induction lastRows rows with
    | nil => rfl
    | cons c cs ih => by_cases hid : c.id = id <;> by_cases hfailed : c.failed <;> simp_all
  rw [hfilter, filter_lastRows]
  -- the last row of an id counts among its attempts
  refine flatMap_congr fun c hc => ?_
  obtain ⟨hlast, hfailed⟩ := mem_filter.1 hc
  have hmem : c ∈ rows.filter fun c => c.id = id := mem_of_getLast? (by simpa using hlast)
  obtain ⟨hrows, hid⟩ := mem_filter.1 hmem
  obtain rfl : c.id = id := by simpa using hid
  have hpos : 1 ≤ failedAttempts rows c.id := by
    refine length_pos_of_mem (mem_filter.2 ⟨hrows, ?_⟩)
    simpa using hfailed
  rw [max_eq_left hpos]

/-- Opening what finalizing left. -/
theorem opened_of_finalized (h : Reads k header lines file) :
    Opened k header ((keptRows (rowsOf lines)).map .row) (openIn k header (finalizeFile k header.digest (some file))) := by
  rw [finalizeFile_of_reads h]
  split
  · exact opened_of_reads (reads_checkpointBody k header _)
  · next hnil =>
    rw [not_not.1 hnil]
    exact opened_empty k header

end Pipette.Evals
