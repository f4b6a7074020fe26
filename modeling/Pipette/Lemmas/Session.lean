import Pipette.Evals.Session

/-!
# What a checkpoint file holds

`Holds k header rows file`: the complete lines of a file are a header and rows. A whole line adds its row (`Holds.append`),
one cut off adds none (`Holds.cut`), and opening the file gives the last row of each id and the count of its failed ones
(`openIn_of_holds`).
-/

namespace Pipette.Evals

open LineLog List Session

variable {k : Codec} {header : Header} {rows : List Completion} {file : Bytes}

/-- The complete lines of the file are this header and these rows. -/
def Holds (k : Codec) (header : Header) (rows : List Completion) (file : Bytes) : Prop :=
  complete newline file = k.headerLine header :: rows.map k.rowLine

/-- No row of a pre-fix binary: none recorded as a success that its stop detail says is none. -/
def Unmarked (c : Completion) : Prop := sanitizePreGateSuccess c = c

instance (c : Completion) : Decidable (Unmarked c) := inferInstanceAs (Decidable (_ = _))

/-! ## Files -/

theorem lines_oneLine (k : Codec) (header : Header) (rows : List Completion) :
    ∀ l ∈ k.headerLine header :: rows.map k.rowLine, newline ∉ l := by
  refine forall_mem_cons.2 ⟨k.headerLine_oneLine header, forall_mem_map.2 fun c _ => ?_⟩
  exact k.rowLine_oneLine c

theorem holds_checkpointBody (k : Codec) (header : Header) (rows : List Completion) :
    Holds k header rows (checkpointBody k header rows) := complete_unlines (lines_oneLine k header rows)

theorem torn_checkpointBody (k : Codec) (header : Header) (rows : List Completion) :
    torn newline (checkpointBody k header rows) = [] := torn_unlines (lines_oneLine k header rows)

theorem Holds.append (h : Holds k header rows file) (ht : torn newline file = []) (c : Completion) :
    Holds k header (rows ++ [c]) (file ++ line k c) := by
  unfold Holds line at *
  rw [complete_append_line ht (k.rowLine_oneLine c), h, map_append]
  rfl

theorem torn_append (k : Codec) (file : Bytes) (c : Completion) : torn newline (file ++ line k c) = [] :=
  torn_append_line (k.rowLine_oneLine c) file

/-- A line killed at any byte is whole or adds no row. -/
theorem Holds.killed (h : Holds k header rows file) (ht : torn newline file = []) (c : Completion) (n : Nat) :
    Holds k header (if (k.rowLine c).length < n then rows ++ [c] else rows) (file ++ (line k c).take n) := by
  split
  · next hn =>
    rw [take_of_length_le (by simp [line]; omega)]
    exact h.append ht c
  · next hn =>
    exact (complete_append_take (k.rowLine_oneLine c) (by omega)).trans h

/-- Cutting the torn line leaves what the file holds. -/
theorem Holds.truncate (h : Holds k header rows file) :
    file.take (completeLength newline file) = checkpointBody k header rows := by
  rw [take_completeLength, h]
  rfl

theorem rowsOf_rows (rows : List Completion) : rowsOf (rows.map .row) = rows.map sanitizePreGateSuccess := by
  simp [rowsOf, filterMap_map]

theorem mapM_readLine (k : Codec) (rows : List Completion) : (rows.map k.rowLine).mapM k.readLine = some (rows.map .row) := by
  induction rows with
  | nil => rfl
  | cons c rows ih => simp [k.readLine_rowLine, ih]

theorem loadExisting_of_holds (h : Holds k header rows file) : loadExisting k file header.digest =
      (.loaded header (byId (rows.map sanitizePreGateSuccess)) (failedAttempts (rows.map sanitizePreGateSuccess)),
        checkpointBody k header rows) := by
  have hlines : complete newline (checkpointBody k header rows) = k.headerLine header :: rows.map k.rowLine :=
    holds_checkpointBody k header rows
  simp only [loadExisting, h.truncate, hlines, k.readHeader_headerLine, mapM_readLine, rowsOf_rows]
  simp

/-- Opening a file under its own header gives its last rows and failed attempts, and cuts its torn line. -/
theorem openIn_of_holds (h : Holds k header rows file) :
    openIn k header (some file) = .opened (checkpointBody k header rows) (byId (rows.map sanitizePreGateSuccess))
      (failedAttempts (rows.map sanitizePreGateSuccess)) := by
  simp [openIn, loadExisting_of_holds h]

theorem map_sanitize (h : ∀ c ∈ rows, Unmarked c) : rows.map sanitizePreGateSuccess = rows := by
  conv_rhs => rw [← map_id rows]
  exact map_congr_left h

/-! ## Decoded files -/

/-- A file line by line, none if a line is not UTF-8. -/
def decodeFile (k : Codec) (file : Bytes) : Option CheckpointFile :=
  match complete newline file with
  | [] => some ⟨.missing, [], torn newline file ≠ []⟩
  | head :: lines => (lines.mapM k.readLine).map fun lines =>
      ⟨(k.readHeader head).elim .unreadable .header, lines, torn newline file ≠ []⟩

theorem decodeFile_checkpointBody (k : Codec) (header : Header) (rows : List Completion) :
    decodeFile k (checkpointBody k header rows) = some ⟨.header header, rows.map .row, false⟩ := by
  have h : complete newline (checkpointBody k header rows) = _ := holds_checkpointBody k header rows
  simp only [decodeFile, h, k.readHeader_headerLine, mapM_readLine, torn_checkpointBody]
  rfl

theorem decodeFile_cut {f : CheckpointFile} (h : decodeFile k file = some f) :
    decodeFile k (file.take (completeLength newline file)) = some { f with torn := false } := by
  have ht : torn newline (file.take (completeLength newline file)) = [] := by
    rw [take_completeLength]
    exact torn_unlines fun l hl => notMem_of_mem_complete hl
  unfold decodeFile at h ⊢
  rw [complete_take_completeLength, ht]
  split at h
  · cases h
    rfl
  · obtain ⟨lines, hlines, rfl⟩ := Option.map_eq_some_iff.1 h
    simp [hlines]

/-- Where no operation fails, retiring a file is retiring what it decodes to. -/
theorem finalize_decodes {f : CheckpointFile} (h : decodeFile k file = some f) (files : EvalFiles) (digest : EvalRunDigest)
    (hfile : files (sessionPath digest) = some f) (now : Text) :
    finalize ⟨true, true, true, true, true, now⟩ files digest (sessionPath digest) =
      (finalizeFile k digest (some file)).bind (decodeFile k) := by
  have hcut := decodeFile_cut h
  simp only [finalize, hfile, Pipette.loadExisting, finalizeFile, Evals.loadExisting, complete_take_completeLength]
  unfold decodeFile at h
  split at h
  · next hc =>
    cases h
    simp [hc, hcut]
  · next head lines hc =>
    obtain ⟨lines', hlines, rfl⟩ := Option.map_eq_some_iff.1 h
    simp only [hc]
    cases hread : k.readHeader head with
    | none => simp [hcut, hread] 
    | some header =>
      by_cases hdigest : header.digest = digest
      · simp only [hdigest, hlines, byId, Bool.not_true, Bool.and_false, Bool.false_eq_true, if_false, ne_eq, not_true_eq_false,
          Option.elim_some]
        split_ifs
        · simp
        · simp [decodeFile_checkpointBody]
      · simp [hdigest]

/-! ## The last row of an id -/

/-- Of each id the last row is kept, and no other. -/
theorem filter_lastRows (rows : List Completion) (id : Text) :
    (lastRows rows).filter (fun c => c.id = id) = (rows.filter fun c => c.id = id).getLast?.toList := by
  induction rows with
  | nil => rfl
  | cons c rows ih =>
    unfold lastRows
    by_cases hid : c.id = id
    · have hfilter : (c :: rows).filter (fun d => d.id = id) = c :: rows.filter fun d => d.id = id := by simp [hid]
      split
      · next hany =>
        obtain ⟨d, hd, hdid⟩ := any_eq_true.1 hany
        have hmem : d ∈ rows.filter fun d => d.id = id := mem_filter.2 ⟨hd, by simpa [hid] using hdid⟩
        rw [ih, hfilter, getLast?_cons_of_ne_nil (ne_nil_of_mem hmem)]
      · next hany =>
        have hnone : rows.filter (fun d => d.id = id) = [] := by
          refine filter_eq_nil_iff.2 fun d hd hdid => hany (any_eq_true.2 ⟨d, hd, ?_⟩)
          simpa [hid] using hdid
        rw [filter_cons_of_pos (by simpa using hid), ih, hfilter, hnone]
        rfl
    · split <;> simp [hid, ih]

/-! ## Rows -/

/-- Putting a row leaves one of its id, and those of the others. -/
theorem Rows.filter_put (rows : Rows) (c : Completion) (id : Text) :
    (rows.put c).list.filter (fun d => d.id = id) = if c.id = id then [c] else rows.list.filter fun d => d.id = id := by
  simp only [Rows.put, eraseP_eq_filter rows.nodup, filter_append, filter_filter]
  split
  · next h =>
    subst h
    simp
  · next h =>
    have hkept : ∀ d ∈ rows.list, (decide (d.id = id) && decide (d.id ≠ c.id)) = decide (d.id = id) := by
      intro d _
      by_cases hd : d.id = id
      · simp [hd, Ne.symm h]
      · simp [hd]
    rw [filter_congr hkept]
    simp [h]

theorem Rows.card_ids (rows : Rows) : rows.ids.card = rows.list.length := by
  rw [Rows.ids, toFinset_card_of_nodup rows.nodup, length_map]

end Pipette.Evals
