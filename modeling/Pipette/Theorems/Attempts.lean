import Pipette.Evals.Json
import Pipette.Lemmas.EvalHistory

/-!
# Attempts across runs

The attempts of a sample are counted by the failed lines of its checkpoint. Over every history under one header in which no
append is glued to a torn line, the file is read as what is on record (`onRecord_after`): a sample with three failed attempts
and no completed row after them is not sent again, finalizing keeps the attempts of an id whose last row failed, and another
timeout gives every failed id a fresh budget (`attempts_bounded`). Glued lines are not counted (`glued_attempts_not_counted`).
-/

namespace Pipette.Measurement

open Evals List Op

variable {k : Codec} {header : Header} {lines : List Line} {file : Option Bytes} {record : Record}

/-! ## Flags -/

theorem getLast?_flags (rows : List Completion) (id : Text) :
    (flags rows id).getLast? = (rows.filter fun c => c.id = id).getLast?.map fun c => c.failed := by
  rw [flags, getLast?_map]

theorem filter_flags_eq (l : List Bool) : (l.filter fun failed => failed) = replicate (l.count true) true := by
  simpa using l.filter_beq true

/-- What finalizing keeps of an id. -/
theorem flags_keptRows (rows : List Completion) (id : Text) :
    flags (keptRows rows) id =
      if (flags rows id).getLast? = some true then (flags rows id).filter fun failed => failed else [] := by
  rw [getLast?_flags, flags, filter_keptRows]
  cases hlast : (rows.filter fun c => c.id = id).getLast? with
  | none => rfl
  | some c =>
    by_cases hfailed : c.failed
    · simp [hfailed, filter_flags_eq, failedAttempts_eq]
    · simp [hfailed]

/-! ## The file is what is on record -/

/-- The file is read as rows that failed and completed as they are on record. -/
def OnRecord (k : Codec) (header : Header) (file : Option Bytes) (record : Record) : Prop :=
  match file with
  | none => ∀ id, record id = []
  | some body => ∃ lines, Reads k header lines body ∧ ∀ id, flags (rowsOf lines) id = record id

variable (h : OnRecord k header file record)
include h

theorem OnRecord.opened :
    ∃ lines, Opened k header lines (openIn k header file) ∧ ∀ id, flags (rowsOf lines) id = record id := by
  cases file with
  | none => exact ⟨[], opened_empty k header, fun id => (h id).symm⟩
  | some body =>
    obtain ⟨lines, hreads, hflags⟩ := h
    exact ⟨lines, opened_of_reads hreads, hflags⟩

theorem OnRecord.run (r : CellRun) (hglue : Unglued k ((run r).log k header file)) :
    OnRecord k header ((run r).file k header file) ((run r).record k header file record) := by
  obtain ⟨lines, hopened, hflags⟩ := h.opened
  obtain ⟨body, hbody, hreads⟩ := reads_run hopened r hglue
  rw [hbody]
  refine ⟨_, hreads, fun id => ?_⟩
  rw [rowsOf_append, rowsOf_rows, flags_append, hflags]
  rfl

/-- What finalizing leaves is what it keeps on record. -/
theorem OnRecord.finalize :
    OnRecord k header (Op.finalize.file k header file) (Op.finalize.record k header file record) := by
  cases file with
  | none =>
    intro id
    have hnone : record id = [] := h id
    simp [Op.record, hnone]
  | some body =>
    obtain ⟨lines, hreads, hflags⟩ := h
    have hkept : ∀ id, flags (keptRows (rowsOf lines)) id = Op.finalize.record k header (some body) record id := by
      intro id
      rw [flags_keptRows, hflags]
      rfl
    have hfile : Op.finalize.file k header (some body) = finalizeFile k header.digest (some body) := rfl
    rw [hfile, finalizeFile_of_reads hreads]
    split
    · refine ⟨_, reads_checkpointBody k header _, fun id => ?_⟩
      rw [rowsOf_map_row fun c hc => sanitize_of_mem_rowsOf (keptRows_sub hc)]
      exact hkept id
    · next hnil =>
      intro id
      rw [← hkept id, not_not.1 hnil]
      rfl

omit h

variable {ops : List Op} {s : Session} {id : Text}

/-- Over a history in which no append is glued, the file stays what is on record. -/
theorem onRecord_after (h : OnRecord k header file record) (hglue : NeverGlued k header file ops) :
    OnRecord k header (fileAfter k header file ops) (recordAfter k header file record ops) := by
  induction ops generalizing file record with
  | nil => exact h
  | cons op ops ih =>
    refine ih ?_ hglue.2
    cases op with
    | run r => exact h.run r hglue.1
    | finalize => exact h.finalize

/-! ## Samples out of attempts -/

/-- A sample out of attempts is settled. -/
theorem settled_of_exhausted (h : Opened k header lines s) (hid : Exhausted (flags (rowsOf lines) id)) :
    settled s true id := by
  obtain ⟨hcount, hlast⟩ := hid
  rw [getLast?_flags] at hlast
  obtain ⟨c, hc, -⟩ := Option.map_eq_some_iff.1 hlast
  have hcontains : s.contains id := by
    rw [contains_iff, rowsWith, h.filter, hc]
    exact cons_ne_nil _ _
  have hspent : id ∉ s.retriable maxSampleAttempts := by
    intro hmem
    obtain ⟨d, hd, rfl⟩ := mem_map.1 hmem
    have hleft := (Bool.and_eq_true_iff.1 (mem_filter.1 hd).2).2
    rw [h.attempts, failedAttempts_eq] at hleft
    exact absurd (of_decide_eq_true hleft) (Nat.not_lt.2 hcount)
  simp [settled, hcontains, Session.failureSplit, hspent]

/-- A run sends no sample that is out of attempts. -/
theorem about_of_exhausted (h : OnRecord k header file record) (hid : Exhausted (record id)) (r : CellRun) :
    about ((run r).log k header file) id = [] := by
  obtain ⟨lines, hopened, hflags⟩ := h.opened
  exact about_eq_nil_iff.2 ((traced_cell k _ r).unsent id (settled_of_exhausted hopened (hflags id ▸ hid)))

theorem written_of_about_nil {log : List Event} (h : about log id = []) :
    (((log.filterMap (Event.written k)).map sanitizePreGateSuccess).filter fun c => c.id = id) = [] := by
  refine filter_eq_nil_iff.2 fun c hc hid => ?_
  obtain ⟨d, hd, rfl⟩ := mem_map.1 hc
  obtain ⟨e, he, hwritten⟩ := mem_filterMap.1 hd
  have heid : e.id = some d.id := by
    cases e with
    | row c =>
      cases hwritten
      rfl
    | cut c n =>
      have hwritten : (if (k.rowLine c).length < n then some c else none) = some d := hwritten
      split at hwritten
      · cases hwritten
        rfl
      · cases hwritten
    | _ => cases hwritten
  have hmem : e ∈ about log id := mem_filter.2 ⟨he, by simpa [heid, sanitize_id] using hid⟩
  rw [h] at hmem
  cases hmem

/-- A sample out of attempts stays so. -/
theorem exhausted_after (h : OnRecord k header file record) (hglue : NeverGlued k header file ops)
    (hid : Exhausted (record id)) : Exhausted (recordAfter k header file record ops id) := by
  induction ops generalizing file record with
  | nil => exact hid
  | cons op ops ih =>
    cases op with
    | run r =>
      refine ih (h.run r hglue.1) hglue.2 ?_
      have hsame : (run r).record k header file record id = record id := by
        simp only [Op.record, written_of_about_nil (about_of_exhausted h hid r), map_nil, append_nil]
      rw [hsame]
      exact hid
    | finalize =>
      refine ih h.finalize hglue.2 ?_
      have hkept : Op.finalize.record k header file record id = replicate ((record id).count true) true :=
        (if_pos hid.2).trans (filter_flags_eq _)
      have hpos : (record id).count true ≠ 0 := by
        have := hid.1
        unfold maxSampleAttempts at this
        omega
      rw [hkept]
      refine ⟨by simpa using hid.1, ?_⟩
      rw [getLast?_replicate, if_neg hpos]

/-! ## The budget of a history -/

/-- What holds after a history of a checkpoint, from no file on. -/
structure Bounded (k : Codec) (header : Header) (ops : List Op) : Prop where
  /-- A sample out of attempts is never sent again. -/
  unsent : ∀ later id, NeverGlued k header (fileAfter k header none ops) later →
    Exhausted (recordAfter k header none (fun _ => []) ops id) →
    ∀ r alone, .sent id alone ∉ (run r).log k header (fileAfter k header none (ops ++ later))
  /-- The attempts a run counts are those on record. -/
  counted : ∀ id, (openIn k header (fileAfter k header none ops)).failedAttempts id =
    (recordAfter k header none (fun _ => []) ops id).count true
  /-- Finalizing keeps the attempts and the row of an id whose last row failed, and drops every other. -/
  finalized : ∀ id,
    let s := openIn k header (fileAfter k header none ops)
    let s' := openIn k header (finalizeFile k header.digest (fileAfter k header none ops))
    if (recordAfter k header none (fun _ => []) ops id).getLast? = some true then
      s'.failedAttempts id = s.failedAttempts id ∧ rowsWith s' id = rowsWith s id
    else s'.failedAttempts id = 0 ∧ rowsWith s' id = []
  /-- Another timeout keeps exactly the completed rows, and gives every failed id a fresh budget. -/
  timeout : ∀ header', header'.digest = header.digest → header'.httpTimeoutSeconds ≠ header.httpTimeoutSeconds → ∀ id,
    let s := openIn k header (fileAfter k header none ops)
    let s' := openIn k header' (fileAfter k header none ops)
    rowsWith s' id = (rowsWith s id).filter (fun c => !c.failed) ∧ s'.failedAttempts id = 0 ∧
      ((recordAfter k header none (fun _ => []) ops id).getLast? = some true → settled s' true id = false)

theorem Opened.rowsWith (h : Opened k header lines s) (id : Text) :
    Measurement.rowsWith s id = ((rowsOf lines).filter fun c => c.id = id).getLast?.toList := h.filter id

theorem rowsWith_timeout {header' : Header} (h : OnRecord k header file record) (hdigest : header'.digest = header.digest)
    (htimeout : header'.httpTimeoutSeconds ≠ header.httpTimeoutSeconds) (id : Text) :
    rowsWith (openIn k header' file) id = (rowsWith (openIn k header file) id).filter (fun c => !c.failed) ∧
      (openIn k header' file).failedAttempts id = 0 := by
  cases file with
  | none => exact ⟨rfl, rfl⟩
  | some body =>
    obtain ⟨lines, hreads, -⟩ := h
    rw [openIn, Option.map_some, hdigest, loadExisting_of_reads hreads]
    dsimp only
    rw [if_neg htimeout.symm]
    refine ⟨?_, rfl⟩
    rw [rowsWith, rowsWith, (opened_of_reads hreads).completions, filter_comm]
    rfl

/-- Finalizing keeps the attempts and the last row of an id whose last row failed, and drops every other. -/
theorem openIn_finalizeFile (h : OnRecord k header file record) (id : Text) :
    if (record id).getLast? = some true then
      (openIn k header (finalizeFile k header.digest file)).failedAttempts id = (openIn k header file).failedAttempts id ∧
        rowsWith (openIn k header (finalizeFile k header.digest file)) id = rowsWith (openIn k header file) id
    else (openIn k header (finalizeFile k header.digest file)).failedAttempts id = 0 ∧
      rowsWith (openIn k header (finalizeFile k header.digest file)) id = [] := by
  cases file with
  | none =>
    have hnone : record id = [] := h id
    rw [hnone, if_neg (by simp)]
    exact ⟨rfl, rfl⟩
  | some body =>
    obtain ⟨lines, hreads, hflags⟩ := h
    have hbefore := opened_of_reads hreads
    have hafter := opened_of_finalized hreads
    have hkept : rowsOf ((keptRows (rowsOf lines)).map .row) = keptRows (rowsOf lines) :=
      rowsOf_map_row fun c hc => sanitize_of_mem_rowsOf (keptRows_sub hc)
    rw [← hflags, hbefore.attempts, hafter.attempts, Opened.rowsWith hbefore, Opened.rowsWith hafter, hkept, failedAttempts_eq,
      failedAttempts_eq, flags_keptRows, filter_keptRows, getLast?_flags]
    cases hlast : ((rowsOf lines).filter fun c => c.id = id).getLast? with
    | none => simp
    | some c =>
      by_cases hfailed : c.failed
      · -- the last row is one of the failed ones that are counted
        have hpos : failedAttempts (rowsOf lines) id ≠ 0 := by
          rw [failedAttempts_eq]
          refine (count_pos_iff.2 (mem_of_getLast? ?_)).ne'
          rw [getLast?_flags, hlast]
          exact congrArg some hfailed
        simp [hfailed, filter_flags_eq, getLast?_replicate, hpos]
      · simp [hfailed]

/-- Over every history in which no append is glued to a torn line, attempts are bounded. -/
theorem attempts_bounded (k : Codec) (header : Header) (ops : List Op) (hglue : NeverGlued k header none ops) : Bounded k header ops := by
  have hrecord : OnRecord k header (fileAfter k header none ops) (recordAfter k header none (fun _ => []) ops) :=
    onRecord_after (fun _ => rfl) hglue
  refine ⟨fun later id hlater hid r alone hsent => ?_, fun id => ?_, openIn_finalizeFile hrecord, fun header' hdigest htimeout id => ?_⟩
  · have hfile : fileAfter k header none (ops ++ later) = fileAfter k header (fileAfter k header none ops) later :=
      foldl_append
    rw [hfile] at hsent
    have hnone := about_of_exhausted (onRecord_after hrecord hlater) (exhausted_after hrecord hlater hid) r
    have hmem : Event.sent id alone ∈ about _ id := mem_filter.2 ⟨hsent, by simp [Event.id]⟩
    rw [hnone] at hmem
    cases hmem
  · obtain ⟨lines, hopened, hflags⟩ := hrecord.opened
    rw [hopened.attempts, failedAttempts_eq, hflags]
  · obtain ⟨hrows, hattempts⟩ := rowsWith_timeout hrecord hdigest htimeout id
    refine ⟨hrows, hattempts, fun hlast => ?_⟩
    obtain ⟨lines, hopened, hflags⟩ := hrecord.opened
    rw [← hflags, getLast?_flags] at hlast
    obtain ⟨c, hc, hfailed⟩ := Option.map_eq_some_iff.1 hlast
    have hnone : rowsWith (openIn k header' (fileAfter k header none ops)) id = [] := by
      rw [hrows, Opened.rowsWith hopened, hc]
      simp [hfailed]
    have hcontains : (openIn k header' (fileAfter k header none ops)).contains id = false :=
      eq_false_of_ne_true fun h => contains_iff.1 h hnone
    simp [settled, hcontains]

/-- A cell of one sample, which fails. -/
def failingRun : CellRun :=
  .complete { pick := fun _ => 0, move := fun t => if t = 0 then .record 0 (.failed "stall") else .finish, fault := fun _ => none }
    (some (.chat ["s0"])) (.batch 1) false

theorem failingRun_bounded : Bounded json ⟨"00ff", some 600⟩ [.run failingRun, .finalize, .run failingRun] :=
  attempts_bounded json ⟨"00ff", some 600⟩ _
    ⟨by decide +kernel, by decide +kernel, by decide +kernel, trivial⟩

/-- Two workers: the append of the second fails after one byte, and the first's failed row is glued to it. -/
def gluedRun : CellRun :=
  .complete
    { pick := fun t => [0, 0, 1, 1, 1, 0].getD t 0
      move := fun t => if t < 6 then .record 0 (.failed "stall") else .finish
      fault := fun t => if t = 4 then some (.fails 1) else none }
    (some (.chat ["s0", "s1"])) (.parallel 2) false

/-- After three such runs the first sample has three failed attempts on record, and the fourth run sends it again. -/
theorem glued_attempts_not_counted :
    Exhausted (recordAfter json ⟨"00ff", some 600⟩ none (fun _ => []) [.run gluedRun, .run gluedRun, .run gluedRun] "s0") ∧
      .sent "s0" false ∈ (run gluedRun).log json ⟨"00ff", some 600⟩
        (fileAfter json ⟨"00ff", some 600⟩ none [.run gluedRun, .run gluedRun, .run gluedRun]) := by
  decide +kernel

end Pipette.Measurement
