import Pipette.Evals.Json
import Pipette.Theorems.Shards

/-!
# Whose events a cell is known by

The state of a plan is looked up by a digest of the cell's texts. The text that is hashed is read back in one way only
(`cellKeyText_inj`), so for digests that do not collide a cell is known by its own events, and by those of the cells that
differ from it in their benchmark flags alone, which are not hashed (`ownHistory_iff`).
-/

namespace Pipette.Runner

open List StateIndex

variable {T : PlanTypes}

/-! ## What makes two cells the same -/

/-- The cells agree in their benchmark and in how model, runtime, runtime flags and model flags are rendered. -/
structure Agree (a b : RunnableCell T) : Prop where
  benchmark : a.benchmark = b.benchmark
  model : T.modelText a.model = T.modelText b.model
  runtime : T.runtimeText a.runtime = T.runtimeText b.runtime
  runtimeFlags : a.runtimeFlagsCanonicalString = b.runtimeFlagsCanonicalString
  modelFlags : a.modelFlagsCanonicalString = b.modelFlagsCanonicalString

/-- The cells agree in their benchmark flags as well. -/
structure Same (a b : RunnableCell T) : Prop extends Agree a b where
  benchmarkFlags : a.benchmarkFlags = b.benchmarkFlags

/-- A text without control characters. -/
def Plain (text : Text) : Prop := ∀ c ∈ text, 0x20 ≤ c.toNat

variable {text : Text} {α : Type} {sep : α} {a' : List α} {a b : RunnableCell T}

theorem Plain.of_all (h : text.all (Nat.ble 0x20 ·.toNat)) : Plain text :=
  fun c hc => Nat.le_of_ble_eq_true (all_eq_true.1 h c hc)

/-- The texts of a cell have no control characters. -/
structure PlainTexts (c : RunnableCell T) : Prop where
  benchmark : Plain c.benchmark
  model : Plain (T.modelText c.model)
  runtime : Plain (T.runtimeText c.runtime)
  runtimeFlags : ∀ flags ∈ c.runtimeFlagsCanonicalString, Plain flags
  modelFlags : ∀ flags ∈ c.modelFlagsCanonicalString, Plain flags

/-- The bytes `build_cell_key` hashes. -/
def cellKeyBytes (c : RunnableCell T) : List Nat :=
  (cellKeyText c).flatMap fun ch => (String.utf8EncodeChar ch).map UInt8.toNat

/-! ## Reading the hashed text back -/

/-- What stands before the first separator, and what stands after it. -/
theorem append_sep_inj {a b b' : List α} (ha : sep ∉ a) (ha' : sep ∉ a')
    (h : a ++ sep :: b = a' ++ sep :: b') : a = a' ∧ b = b' := by
  induction a generalizing a' with
  | nil =>
    cases a' with
    | nil => simpa using h
    | cons x a' => exact absurd (cons.inj h).1 (by rintro rfl; simp at ha')
  | cons x a ih =>
    cases a' with
    | nil => exact absurd (cons.inj h).1 (by rintro rfl; simp at ha)
    | cons x' a' =>
      obtain ⟨rfl, htail⟩ := cons.inj h
      obtain ⟨rfl, rfl⟩ := ih (by simp_all) (by simp_all) htail
      exact ⟨rfl, rfl⟩

/-- A part that is written after a separator, if there is one. -/
def optionalPart {α : Type} (sep : α) (part : Option (List α)) : List α := part.elim [] (sep :: ·)

/-- What stands before the separator, and the part after it, if there is one. -/
theorem append_optionalPart_inj {a : List α} {o o' : Option (List α)} (ha : sep ∉ a) (ha' : sep ∉ a')
    (h : a ++ optionalPart sep o = a' ++ optionalPart sep o') : a = a' ∧ o = o' := by
  cases o with
  | none =>
    cases o' with
    | none => exact ⟨by simpa [optionalPart] using h, rfl⟩
    | some f' =>
      have hmem : sep ∈ a := by
        have : a = a' ++ sep :: f' := by simpa [optionalPart] using h
        simp [this]
      exact absurd hmem ha
  | some f =>
    cases o' with
    | none =>
      have hmem : sep ∈ a' := by
        have : a' = a ++ sep :: f := by simpa [optionalPart] using h.symm
        simp [this]
      exact absurd hmem ha'
    | some f' =>
      obtain ⟨rfl, rfl⟩ := append_sep_inj ha ha' h
      exact ⟨rfl, rfl⟩

theorem Plain.notMem (h : Plain text) {sep : Char} (hsep : sep.toNat < 0x20) : sep ∉ text := by
  intro hmem
  have := h sep hmem
  omega

theorem Plain.notMem_optionalPart {o : Option Text} (h : ∀ flags ∈ o, Plain flags) {sep sep' : Char} (hsep : sep'.toNat < 0x20)
    (hne : sep' ≠ sep) : sep' ∉ optionalPart sep o := by
  cases o with
  | none => simp [optionalPart]
  | some flags =>
    have hflags := (h flags rfl).notMem hsep
    simp [optionalPart, hne, hflags]

/-- The hashed text, with its two optional parts. -/
theorem cellKeyText_eq (c : RunnableCell T) : cellKeyText c = c.benchmark ++ '\t' :: (T.modelText c.model ++ '\t' ::
      (T.runtimeText c.runtime ++ optionalPart (Char.ofNat 0x1f) c.runtimeFlagsCanonicalString ++
        optionalPart '\t' c.modelFlagsCanonicalString)) := by
  rw [cellKeyText]
  cases c.runtimeFlagsCanonicalString <;> cases c.modelFlagsCanonicalString <;> simp [optionalPart]

/-- Two cells of plain texts have one hashed text only if they agree. -/
theorem cellKeyText_inj (ha : PlainTexts a) (hb : PlainTexts b) (h : cellKeyText a = cellKeyText b) : Agree a b := by
  have htab : '\t'.toNat < 0x20 := by decide
  have hunit : (Char.ofNat 0x1f).toNat < 0x20 := by decide
  have hne : '\t' ≠ Char.ofNat 0x1f := by decide
  rw [cellKeyText_eq, cellKeyText_eq] at h
  obtain ⟨hbench, h⟩ := append_sep_inj (ha.benchmark.notMem htab) (hb.benchmark.notMem htab) h
  obtain ⟨hmodel, h⟩ := append_sep_inj (ha.model.notMem htab) (hb.model.notMem htab) h
  have hfree : ∀ {c : RunnableCell T}, PlainTexts c →
      '\t' ∉ T.runtimeText c.runtime ++ optionalPart (Char.ofNat 0x1f) c.runtimeFlagsCanonicalString := by
    intro c hc
    simp only [mem_append, not_or]
    exact ⟨hc.runtime.notMem htab, Plain.notMem_optionalPart hc.runtimeFlags htab hne⟩
  obtain ⟨h, hmodelFlags⟩ := append_optionalPart_inj (hfree ha) (hfree hb) h
  obtain ⟨hruntime, hruntimeFlags⟩ := append_optionalPart_inj (ha.runtime.notMem hunit) (hb.runtime.notMem hunit) h
  exact ⟨hbench, hmodel, hruntime, hruntimeFlags, hmodelFlags⟩

theorem Agree.cellKeyText (h : Agree a b) : cellKeyText a = Runner.cellKeyText b := by
  rw [cellKeyText_eq, cellKeyText_eq, h.benchmark, h.model, h.runtime, h.runtimeFlags, h.modelFlags]

theorem cellKeyText_of_bytes (h : cellKeyBytes a = cellKeyBytes b) : cellKeyText a = cellKeyText b := by
  have hbytes : ∀ c : RunnableCell T, cellKeyBytes c = (Evals.encode (cellKeyText c)).map UInt8.toNat := by
    intro c
    rw [cellKeyBytes, Evals.encode, map_flatMap]
  rw [hbytes, hbytes] at h
  have hencode := map_injective_iff.2 (fun _ _ => UInt8.toNat_inj.1) h
  exact Option.some.inj ((Evals.decode_encode _).symm.trans ((congrArg Evals.decode hencode).trans (Evals.decode_encode _)))

/-! ## What is known of a cell -/

/-- What some events of one cell come to. -/
def entryOf (events : List StateEvent) : Option CellEntry :=
  events.foldl (fun entry event => some ((entry.getD .fresh).note event)) none

theorem entryOf_concat (events : List StateEvent) (event : StateEvent) :
    entryOf (events ++ [event]) = some (((entryOf events).getD .fresh).note event) := by
  simp [entryOf]

variable (planId : Text)

/-- The entry of a key is what the events of the plan under that key come to. -/
theorem replay_cells (events : List StateEvent) (key : Text) :
    (replay planId events).cells key = entryOf (events.filter fun e => e.planId = planId ∧ e.cellKey = key) := by
  induction events using reverseRecOn with
  | nil => rfl
  | append_singleton events event ih =>
    have hstep : replay planId (events ++ [event]) = (replay planId events).note planId event := by
      simp [replay]
    rw [hstep, filter_append, note]
    by_cases hplan : event.planId = planId
    · by_cases hkey : event.cellKey = key
      · subst hkey
        simp [hplan, entryOf_concat, ih]
      · have hother : key ≠ event.cellKey := Ne.symm hkey
        simp [hplan, hkey, hother, ih]
    · simp [hplan, ih]

theorem exists_success_of_hasSuccess {events : List StateEvent} {entry : CellEntry} (h : entryOf events = some entry)
    (hs : entry.hasSuccess) : ∃ e ∈ events, e.status = .success := by
  induction events using reverseRecOn generalizing entry with
  | nil => simp [entryOf] at h
  | append_singleton events event ih =>
    rw [entryOf_concat] at h
    cases h
    cases hstatus : event.status with
    | success => exact ⟨event, by simp, hstatus⟩
    | started | failed =>
      have hbefore : ((entryOf events).getD .fresh).hasSuccess := by
        by_cases hlabel : event.transportLabel = [] <;> simpa [CellEntry.note, hstatus, hlabel] using hs
      cases hentry : entryOf events with
      | none => simp [hentry, CellEntry.fresh] at hbefore
      | some before =>
        obtain ⟨e, he, hsuccess⟩ := ih hentry (by simpa [hentry] using hbefore)
        exact ⟨e, by simp [he], hsuccess⟩

/-! ## Histories -/

/-- One recorded event, with the cell it was recorded for. -/
structure Attempt (T : PlanTypes) where
  planId : Text
  cell : RunnableCell T
  status : AttemptStatus
  transportLabel : Text

def Attempt.event (a : Attempt T) : StateEvent := .new a.planId a.cell a.status a.transportLabel

/-- The index a history leaves for a plan. -/
def indexOf (history : List (Attempt T)) : StateIndex := .replay planId (history.map Attempt.event)

open scoped Classical in
/-- The part of a history that was recorded for a cell. -/
noncomputable def ownAttempts (history : List (Attempt T)) (cell : RunnableCell T) : List (Attempt T) :=
  history.filter fun a => Same a.cell cell

/-- Whatever is recorded of some cells: one is done only by its own success, and its state, attempts and pin are those its own
events leave. -/
structure OwnHistory (cells : Set (RunnableCell T)) : Prop where
  done : ∀ planId history, (∀ a ∈ history, a.cell ∈ cells) → ∀ cell ∈ cells, (indexOf planId history).stateFor cell = .done →
    ∃ a ∈ history, a.planId = planId ∧ a.status = .success ∧ Same a.cell cell
  apart : ∀ planId history, (∀ a ∈ history, a.cell ∈ cells) → ∀ cell ∈ cells,
    (indexOf planId history).stateFor cell = (indexOf planId (ownAttempts history cell)).stateFor cell ∧
      (indexOf planId history).attemptsFor cell = (indexOf planId (ownAttempts history cell)).attemptsFor cell ∧
      (indexOf planId history).pinnedTransportFor cell = (indexOf planId (ownAttempts history cell)).pinnedTransportFor cell

/-- The entry of a cell is what the attempts under its key come to. -/
theorem entryFor_indexOf (history : List (Attempt T)) (cell : RunnableCell T) :
    (indexOf planId history).entryFor cell =
      entryOf ((history.filter fun a => a.planId = planId ∧ buildCellKey a.cell = buildCellKey cell).map Attempt.event) := by
  rw [entryFor, indexOf, replay_cells, filter_map]
  rfl

theorem exists_success_of_done {planId : Text} {history : List (Attempt T)} {cell : RunnableCell T}
    (h : (indexOf planId history).stateFor cell = .done) :
    ∃ a ∈ history, a.planId = planId ∧ a.status = .success ∧ buildCellKey a.cell = buildCellKey cell := by
  rw [stateFor] at h
  cases hentry : (indexOf planId history).entryFor cell with
  | none => simp [hentry] at h
  | some entry =>
    have hs : entry.hasSuccess := by
      by_contra hnot
      simp only [hentry, if_neg hnot] at h
      split at h
      · exact absurd h (by decide)
      · split at h <;> exact absurd h (by decide)
    rw [entryFor_indexOf] at hentry
    obtain ⟨e, he, hsuccess⟩ := exists_success_of_hasSuccess hentry hs
    obtain ⟨a, ha, rfl⟩ := mem_map.1 he
    obtain ⟨hmem, hfilter⟩ := mem_filter.1 ha
    simp only [decide_eq_true_eq] at hfilter
    exact ⟨a, hmem, hfilter.1, hsuccess, hfilter.2⟩

/-- A recorded success is what is known of every cell under its key. -/
theorem entryFor_success (a : RunnableCell T) (label : Text) (h : buildCellKey a = buildCellKey b) :
    (indexOf planId [⟨planId, a, .success, label⟩]).entryFor b = some (CellEntry.fresh.note (.new planId a .success label)) := by
  rw [entryFor_indexOf]
  simp [h, entryOf, Attempt.event]

theorem done_of_success (a : RunnableCell T) (label : Text)
    (h : buildCellKey a = buildCellKey b) : (indexOf planId [⟨planId, a, .success, label⟩]).stateFor b = .done := by
  have hs : (CellEntry.fresh.note (.new planId a .success label)).hasSuccess := by
    simp [CellEntry.note, StateEvent.new]
  rw [stateFor, entryFor_success planId a label h]
  simp [hs]

/-- For cells whose texts have no control characters and whose digests do not collide: whatever is recorded, each is known by
its own events alone, exactly if no two differ in their benchmark flags alone. -/
theorem ownHistory_iff (cells : Set (RunnableCell T)) (hplain : ∀ c ∈ cells, PlainTexts c)
    (hsha : Set.InjOn Sha256.hex (cellKeyBytes '' cells)) :
    OwnHistory cells ↔ ∀ a ∈ cells, ∀ b ∈ cells, Agree a b → a.benchmarkFlags = b.benchmarkFlags := by
  constructor
  · intro hown a ha b hb hagree
    have hkey : buildCellKey a = buildCellKey b := congrArg Sha256.hex (by rw [hagree.cellKeyText])
    have hdone := done_of_success [] a [] hkey
    obtain ⟨a', ha', -, -, hsame⟩ := hown.done [] _ (by simpa using ha) b hb hdone
    obtain rfl : a' = _ := by simpa using ha'
    exact hsame.benchmarkFlags
  · intro hflags
    have hsame : ∀ a ∈ cells, ∀ b ∈ cells, (buildCellKey a = buildCellKey b ↔ Same a b) := by
      intro a ha b hb
      constructor
      · intro hkey
        have hbytes : cellKeyBytes a = cellKeyBytes b := hsha ⟨a, ha, rfl⟩ ⟨b, hb, rfl⟩ hkey
        have hagree := cellKeyText_inj (hplain a ha) (hplain b hb) (cellKeyText_of_bytes hbytes)
        exact ⟨hagree, hflags a ha b hb hagree⟩
      · intro hs
        exact congrArg Sha256.hex (by rw [hs.toAgree.cellKeyText])
    constructor
    · intro planId history hhistory cell hcell hdone
      obtain ⟨a, ha, hplan, hsuccess, hkey⟩ := exists_success_of_done hdone
      exact ⟨a, ha, hplan, hsuccess, (hsame a.cell (hhistory a ha) cell hcell).1 hkey⟩
    · intro planId history hhistory cell hcell
      have hentry : (indexOf planId history).entryFor cell = (indexOf planId (ownAttempts history cell)).entryFor cell := by
        rw [entryFor_indexOf, entryFor_indexOf, ownAttempts, filter_filter]
        congr 2
        refine filter_congr fun a ha => ?_
        have hiff := hsame a.cell (hhistory a ha) cell hcell
        by_cases hs : Same a.cell cell <;> simp [hs, hiff]
      simp only [stateFor, attemptsFor, pinnedTransportFor, hentry, and_self]

theorem plainTexts_plainCell : PlainTexts plainCell where
  benchmark := .of_all rfl
  model := .of_all rfl
  runtime := .of_all rfl
  runtimeFlags flags h := by cases h
  modelFlags flags h := by cases h

theorem plainTexts_otherCell : PlainTexts otherCell where
  benchmark := .of_all rfl
  model := .of_all rfl
  runtime := .of_all rfl
  runtimeFlags flags h := by cases h
  modelFlags flags h := by cases h

/-- Two cells that differ in their model are each known by their own events alone. -/
theorem ownHistory_plainCell_otherCell : OwnHistory {plainCell, otherCell} := by
  have hkeys : buildCellKey plainCell ≠ buildCellKey otherCell := by decide
  have hplain : ∀ c ∈ ({plainCell, otherCell} : Set (RunnableCell textTypes)), PlainTexts c := by
    rintro c (rfl | rfl)
    · exact plainTexts_plainCell
    · exact plainTexts_otherCell
  refine (ownHistory_iff {plainCell, otherCell} hplain ?_).2 ?_
  · rintro _ ⟨a, rfl | rfl, rfl⟩ _ ⟨b, rfl | rfl, rfl⟩ h
    · rfl
    · exact absurd h hkeys
    · exact absurd h.symm hkeys
    · rfl
  · rintro a (rfl | rfl) b (rfl | rfl) _ <;> rfl

/-- What a success recorded for the cell that waits by default leaves. -/
def afterPlainCell : StateIndex := indexOf "p" [⟨"p", plainCell, .success, "t1"⟩]

/-- Two variants that differ in their benchmark flags alone: a success recorded for one makes the other done, with its attempt
and pin, and a run passes it over. -/
theorem not_ownHistory_gatedCell :
    plainCell.benchmarkFlags ≠ gatedCell.benchmarkFlags ∧ afterPlainCell.stateFor gatedCell = .done ∧
      afterPlainCell.attemptsFor gatedCell = 1 ∧ afterPlainCell.pinnedTransportFor gatedCell = some "t1" ∧
      selectRunnable [plainCell, gatedCell] afterPlainCell firstRun = [] ∧ ¬ OwnHistory {plainCell, gatedCell} := by
  have hflags : plainCell.benchmarkFlags ≠ gatedCell.benchmarkFlags := by decide
  have hkey : buildCellKey plainCell = buildCellKey gatedCell := rfl
  have hentry := entryFor_success "p" plainCell "t1" hkey
  have hdone : afterPlainCell.stateFor gatedCell = .done := done_of_success "p" plainCell "t1" hkey
  have hself : afterPlainCell.stateFor plainCell = .done := done_of_success "p" plainCell "t1" rfl
  refine ⟨hflags, hdone, ?_, ?_, ?_, fun hown => ?_⟩
  · rw [attemptsFor, afterPlainCell, hentry]
    rfl
  · rw [pinnedTransportFor, afterPlainCell, hentry]
    rfl
  · simp [selectRunnable, hself, hdone, firstRun]
  · obtain ⟨a, ha, -, -, hsame⟩ := hown.done _ _ (by simp) gatedCell (by simp) hdone
    obtain rfl : a = _ := mem_singleton.1 ha
    exact hflags hsame.benchmarkFlags

end Pipette.Runner
