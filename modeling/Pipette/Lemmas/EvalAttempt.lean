import Pipette.Lemmas.EvalTrace

/-!
# Attempts

`Attempt.Tracked a log`: the phases of an attempt's samples are those its records say. A move keeps it (`move_advance`), so an
attempt leaves each of its samples closed, or lost beside others (`send_advance`); settling the lost ones and sending batch
after batch close every sample (`settle_advance`, `batches_advance`).
-/

namespace Pipette.Measurement

open Evals List Attempt Except

variable {k : Codec} {start : Session} (env : Env)

/-! ## What a record does -/

/-- What a record does to an attempt and to the cell. -/
inductive RecordStep (a : Attempt) (cell : Cell k start) : Except EvalError Attempt → Cell k start → Prop
  | refused {e : EvalError} (hkilled : e ≠ .killed) (hstuck : e ≠ .stuck) : RecordStep a cell (.error e) cell
  | lost {index : Nat} {s : Sample} (hs : a.group[index]? = some s) (hnew : a.recorded[index]? ≠ some true) (halone : a.alone = false) :
    RecordStep a cell (.ok { a with recorded := a.recorded.set index true, lost := a.lost ++ [s] }) (cell.emit (.lost s.id))
  | held {index : Nat} {s : Sample} {c : Completion} {e : Event} (hs : a.group[index]? = some s)
    (hnew : a.recorded[index]? ≠ some true) (hid : c.id = s.id) (he : e = .row c ∨ e = .unfit c) :
    RecordStep a cell (.ok { a with recorded := a.recorded.set index true }) (cell.emit e)
  | failed {index n : Nat} {s : Sample} {c : Completion} (hs : a.group[index]? = some s)
    (hnew : a.recorded[index]? ≠ some true) (hid : c.id = s.id) :
    RecordStep a cell (.error (.append c.id)) (cell.emit (.torn c n))
  | killed {index n : Nat} {s : Sample} {c : Completion} (hs : a.group[index]? = some s)
    (hnew : a.recorded[index]? ≠ some true) (hid : c.id = s.id) :
    RecordStep a cell (.error .killed) (cell.emit (.cut c n))

variable {cell : Cell k start} {index : Nat} {s : Sample} {group : List Sample} {alone : Bool} {i : Nat} {lost : List Sample}
  {fuel : Nat} {first rest : List Sample} {r : Except EvalError Unit} {e : EvalError}

theorem recordStep_appendRow {a : Attempt} {c : Completion}
    (hs : a.group[index]? = some s) (hnew : a.recorded[index]? ≠ some true) (hid : c.id = s.id) :
    RecordStep a cell (appendRow env { a with recorded := a.recorded.set index true } c cell).1
      (appendRow env { a with recorded := a.recorded.set index true } c cell).2 := by
  unfold appendRow
  split
  · exact .held hs hnew hid (.inl rfl)
  · exact .failed hs hnew hid
  · exact .killed hs hnew hid

theorem recordStep_record (a : Attempt) (index : Nat) (reading : Reading) (cell : Cell k start) :
    RecordStep a cell (record env a index reading cell).1 (record env a index reading cell).2 := by
  unfold record
  split
  · exact .refused (by simp) (by simp)
  · next s hs =>
    split
    · exact .refused (by simp) (by simp)
    · next hnew =>
      cases reading with
      | lost reason =>
        dsimp only
        split
        · next halone => exact .lost hs hnew (by simpa using halone)
        · exact recordStep_appendRow env hs hnew rfl
      | completed completion stopReason stopDetail completionTokens | failed reason => exact recordStep_appendRow env hs hnew rfl
      | unfit reason => exact .held hs hnew rfl (.inr rfl)

/-! ## Where the samples of an attempt stand -/

/-- Where a sample stands by its attempt's records: still in the attempt, lost, or closed with a row. -/
def Attempt.Stands (a : Attempt) (log : List Event) (s : Sample) : Bool → Prop
  | false => s ∉ a.lost ∧ ∃ again, phase log s.id = some (.flying a.alone again)
  | true => (s ∈ a.lost ∧ phase log s.id = some .lost) ∨ (s ∉ a.lost ∧ phase log s.id = some (.closed true))

/-- The records of an attempt say where its samples stand. -/
structure Attempt.Tracked (a : Attempt) (log : List Event) : Prop where
  length : a.recorded.length = a.group.length
  nodup : (a.group.map (·.id)).Nodup
  lost : ∀ s ∈ a.lost, s ∈ a.group
  lostNodup : (a.lost.map (·.id)).Nodup
  alone : a.alone → a.lost = []
  stands : ∀ (i : Nat) (s : Sample) (b : Bool), a.group[i]? = some s → a.recorded[i]? = some b → a.Stands log s b

/-- How many samples of an attempt are not recorded. -/
def Attempt.unrecorded (a : Attempt) : Nat := a.recorded.count false

/-- The attempt that a record leaves: the same samples, one more of them recorded. -/
structure Attempt.Follows (a : Attempt) (log : List Event) (a' : Attempt) : Prop where
  tracked : a'.Tracked log
  group : a'.group = a.group
  alone : a'.alone = a.alone
  unrecorded : a'.unrecorded + 1 = a.unrecorded

/-- The samples of a group are closed with a row, but for the lost ones. -/
def Settled (group lost : List Sample) (log : List Event) : Prop :=
  ∀ s ∈ group, (s ∈ lost ∧ phase log s.id = some .lost) ∨ (s ∉ lost ∧ phase log s.id = some (.closed true))

variable {a : Attempt} {log log' : List Event}

theorem Attempt.Tracked.congr (h : a.Tracked log) (hphase : ∀ s ∈ a.group, phase log' s.id = phase log s.id) : a.Tracked log' := by
  refine ⟨h.length, h.nodup, h.lost, h.lostNodup, h.alone, fun i s b hs hb => ?_⟩
  have hstands := h.stands i s b hs hb
  unfold Stands at hstands ⊢
  rwa [hphase s (mem_of_getElem? hs)]

theorem tracked_fresh (hnodup : (group.map (·.id)).Nodup)
    (hflying : ∀ s ∈ group, ∃ again, phase log s.id = some (.flying alone again)) : (fresh group alone).Tracked log where
  length := by simp [fresh]
  nodup := hnodup
  lost := fun s hs => nomatch hs
  lostNodup := nodup_nil
  alone := fun _ => rfl
  stands := by
    intro i s b hs hb
    simp only [fresh, getElem?_map] at hb
    obtain ⟨_, -, rfl⟩ := Option.map_eq_some_iff.1 hb
    exact ⟨not_mem_nil, hflying s (mem_of_getElem? hs)⟩

theorem Attempt.Tracked.ne (h : a.Tracked log) {j : Nat} {t : Sample} (hs : a.group[i]? = some s) (ht : a.group[j]? = some t)
    (hij : i ≠ j) : s.id ≠ t.id := by
  intro heq
  have hlt : i < (a.group.map (·.id)).length := by
    rw [length_map]
    exact (List.getElem?_eq_some_iff.1 hs).1
  refine hij ((getElem?_inj hlt h.nodup).1 ?_)
  rw [getElem?_map, getElem?_map, hs, ht]
  exact congrArg some heq

theorem Attempt.Tracked.lt_length (h : a.Tracked log) (hs : a.group[i]? = some s) : i < a.recorded.length := by
  rw [h.length]
  exact (List.getElem?_eq_some_iff.1 hs).1

/-- A sample that is not recorded yet is in the attempt. -/
theorem Attempt.Tracked.flying (h : a.Tracked log) (hs : a.group[i]? = some s) (hnew : a.recorded[i]? ≠ some true) :
    a.recorded[i]? = some false ∧ s ∉ a.lost ∧ ∃ again, phase log s.id = some (.flying a.alone again) := by
  have hfalse : a.recorded[i]? = some false := by
    rw [getElem?_eq_getElem (h.lt_length hs)] at hnew ⊢
    simpa using hnew
  exact ⟨hfalse, h.stands i s false hs hfalse⟩

theorem count_set_true {l : List Bool} (h : l[i]? = some false) : (l.set i true).count false + 1 = l.count false := by
  obtain ⟨hi, hfalse⟩ := List.getElem?_eq_some_iff.1 h
  have hpos : 0 < l.count false := count_pos_iff.2 (mem_of_getElem? h)
  rw [count_set hi, hfalse]
  simpa using Nat.sub_add_cancel hpos

/-- Recording a sample: it stands as recorded, and the others as they did. -/
theorem Attempt.Tracked.record (h : a.Tracked log) (hs : a.group[index]? = some s)
    (hnew : a.recorded[index]? ≠ some true) (hphase : ∀ id, s.id ≠ id → phase log' id = phase log id)
    (hlost : (lost = a.lost ∧ phase log' s.id = some (.closed true)) ∨
      (lost = a.lost ++ [s] ∧ a.alone = false ∧ phase log' s.id = some .lost)) :
    a.Follows log' { a with recorded := a.recorded.set index true, lost } := by
  obtain ⟨hfalse, hnotlost, -⟩ := h.flying hs hnew
  have hmem : ∀ t, t ∈ lost ↔ t ∈ a.lost ∨ (t = s ∧ phase log' s.id = some .lost) := by
    intro t
    rcases hlost with ⟨rfl, hclosed⟩ | ⟨rfl, -, hp⟩
    · simp [hclosed]
    · simp [hp]
  refine ⟨⟨?_, h.nodup, ?_, ?_, ?_, ?_⟩, rfl, rfl, count_set_true hfalse⟩
  · rw [length_set]
    exact h.length
  · intro t ht
    rcases (hmem t).1 ht with ht | ⟨rfl, -⟩
    · exact h.lost t ht
    · exact mem_of_getElem? hs
  · rcases hlost with ⟨rfl, -⟩ | ⟨rfl, -, -⟩
    · exact h.lostNodup
    · rw [map_append]
      refine nodup_append.2 ⟨h.lostNodup, nodup_singleton _, ?_⟩
      rintro _ hid _ hid' rfl
      obtain ⟨t, ht, hid⟩ := mem_map.1 hid
      obtain ⟨j, htj⟩ := getElem?_of_mem (h.lost t ht)
      have hts : t.id = s.id := by simpa [hid] using hid'
      by_cases hj : j = index
      · subst hj
        cases hs.symm.trans htj
        exact hnotlost ht
      · exact h.ne htj hs hj hts
  · intro halone
    rcases hlost with ⟨rfl, -⟩ | ⟨-, hbeside, -⟩
    · exact h.alone halone
    · exact nomatch halone.symm.trans hbeside
  · intro i t b ht hb
    by_cases hi : index = i
    · subst hi
      cases hs.symm.trans ht
      obtain rfl : true = b := by
        simpa [getElem?_set_self (h.lt_length hs)] using hb
      rcases hlost with ⟨rfl, hclosed⟩ | ⟨rfl, -, hp⟩
      · exact .inr ⟨hnotlost, hclosed⟩
      · exact .inl ⟨by simp, hp⟩
    have hne := h.ne hs ht hi
    have hbefore := h.stands i t b ht (by rwa [getElem?_set_ne hi] at hb)
    have hsame : t ∈ lost ↔ t ∈ a.lost := by
      rw [hmem]
      exact or_iff_left fun hts => hne (by rw [hts.1])
    unfold Stands at hbefore ⊢
    rwa [hsame, hphase _ hne]

/-- An attempt that recorded every sample leaves each closed, or lost. -/
theorem Attempt.Tracked.result (h : a.Tracked log) (hresult : a.result = .ok lost) :
    lost = a.lost ∧ Settled a.group lost log := by
  unfold Attempt.result at hresult
  split at hresult
  · cases hresult
  · next hnone =>
    cases hresult
    refine ⟨rfl, fun s hs => ?_⟩
    obtain ⟨i, hi⟩ := getElem?_of_mem hs
    have hlt := h.lt_length hi
    have hzip : (a.group.zip a.recorded)[i]? = some (s, a.recorded[i]) := getElem?_zip_eq_some.2 ⟨hi, getElem?_eq_getElem hlt⟩
    have htrue := find?_eq_none.1 hnone _ (mem_of_getElem? hzip)
    have hrec : a.recorded[i]? = some true := by
      rw [getElem?_eq_getElem hlt]
      simpa using htrue
    exact h.stands i s true hi hrec

/-! ## Moves and runs of an attempt -/

/-- A sample in an attempt may be closed by an event. -/
theorem Attempt.Tracked.emit (h : a.Tracked log) (hopen : Open log) (killed : Prop) (e : Event) {q : Phase}
    (hs : a.group[index]? = some s) (hnew : a.recorded[index]? ≠ some true) (hid : e.id = some s.id)
    (hq : ∀ again, (Phase.flying a.alone again).next e = some q) (hcut : e.isCut → killed) :
    Advance a.group killed log (log ++ [e]) ∧ (∀ id, s.id ≠ id → phase (log ++ [e]) id = phase log id) ∧
      phase (log ++ [e]) s.id = some q := by
  obtain ⟨-, -, again, hp⟩ := h.flying hs hnew
  refine ⟨.emit hopen (mem_of_getElem? hs) hid hp (hq again) hcut, fun id hne => ?_, phase_concat_of_eq hid hp (hq again)⟩
  exact phase_concat_of_ne (by rw [hid]; simpa using hne)

theorem record_advance {cell' : Cell k start} {r : Except EvalError Attempt} (h : a.Tracked cell.log) (hopen : Open cell.log)
    (hstep : RecordStep a cell r cell') :
    Advance a.group (r = .error .killed) cell.log cell'.log ∧ (∀ a', r = .ok a' → a.Follows cell'.log a') ∧ r ≠ .error .stuck := by
  cases hstep with
  | refused hkilled hstuck => exact ⟨.refl hopen, nofun, fun h => hstuck (by simpa using h)⟩
  | lost hs hnew halone =>
    obtain ⟨hadvance, hframe, hphase⟩ := h.emit hopen (_ = error EvalError.killed) (.lost _) hs hnew rfl
      (fun again => by rw [halone]; rfl) (fun hc => nomatch hc)
    refine ⟨hadvance, fun a' ha' => ?_, nofun⟩
    cases ha'
    exact h.record hs hnew hframe (.inr ⟨rfl, halone, hphase⟩)
  | @held _ _ c e hs hnew hid he =>
    have heid : e.id = some c.id := by rcases he with rfl | rfl <;> rfl
    have hcut : e.isCut = false := by rcases he with rfl | rfl <;> rfl
    have hnext : ∀ again, (Phase.flying a.alone again).next e = some (.closed true) := by
      rcases he with rfl | rfl <;> intro again <;> cases a.alone <;> rfl
    obtain ⟨hadvance, hframe, hphase⟩ := h.emit hopen (_ = error EvalError.killed) e hs hnew (heid.trans (by rw [hid]))
      hnext (fun hc => nomatch hcut.symm.trans hc)
    refine ⟨hadvance, fun a' ha' => ?_, nofun⟩
    cases ha'
    exact h.record hs hnew hframe (.inl ⟨rfl, hphase⟩)
  | failed hs hnew hid =>
    obtain ⟨hadvance, -⟩ := h.emit hopen _ (.torn _ _) hs hnew (congrArg some hid)
      (fun again => by cases a.alone <;> rfl) (fun hc => nomatch hc)
    exact ⟨hadvance, nofun, by simp⟩
  | killed hs hnew hid =>
    obtain ⟨hadvance, -⟩ := h.emit hopen _ (.cut _ _) hs hnew (congrArg some hid)
      (fun again => by cases a.alone <;> rfl) (fun _ => rfl)
    exact ⟨hadvance, nofun, by simp⟩

/-- What a move of an attempt does: it goes on with one more sample recorded, or it is over. -/
structure Moved (a : Attempt) (log log' : List Event) (next : Next) : Prop where
  advance : Advance a.group (next = .ended (.error .killed)) log log'
  more : ∀ a', next = .more a' → a.Follows log' a'
  ended : ∀ lost, next = .ended (.ok lost) → lost = a.lost ∧ Settled a.group lost log'
  fueled : next ≠ .ended (.error .stuck)

theorem Attempt.result_fueled (a : Attempt) : a.result ≠ .error .stuck ∧ a.result ≠ .error .killed := by
  unfold result
  split <;> simp

theorem moved_move (h : a.Tracked cell.log) (hopen : Open cell.log) :
    Moved a cell.log (a.move env cell).2.log (a.move env cell).1 := by
  unfold move
  split
  · next index reading _ =>
    obtain ⟨hadvance, hmore, hfueled⟩ := record_advance h hopen (recordStep_record env a index reading cell)
    split
    · next a' cell' hrecord =>
      rw [hrecord] at hadvance hmore
      refine ⟨hadvance.mono (fun _ hs => hs) nofun, fun a'' ha => ?_, nofun, nofun⟩
      cases ha
      exact hmore _ rfl
    · next e cell' hrecord =>
      rw [hrecord] at hadvance hfueled
      refine ⟨hadvance.mono (fun _ hs => hs) (fun h => by rw [error.inj h]), nofun, nofun, ?_⟩
      exact fun h => hfueled (congrArg error (error.inj (Next.ended.inj h)))
  · exact ⟨.refl hopen, nofun, fun lost hl => h.result (Next.ended.inj hl), fun h => a.result_fueled.1 (Next.ended.inj h)⟩
  all_goals exact ⟨.refl hopen, nofun, nofun, by simp⟩

/-- What an attempt leaves once it is over. -/
structure Attempted (group : List Sample) (alone : Bool) (log log' : List Event) (r : Except EvalError (List Sample)) : Prop where
  advance : Advance group (r = .error .killed) log log'
  settled : ∀ lost, r = .ok lost → Settled group lost log' ∧ (∀ s ∈ lost, s ∈ group) ∧ (lost.map (·.id)).Nodup ∧
    (alone → lost = [])
  fueled : r ≠ .error .stuck

theorem attempted_run (h : a.Tracked cell.log) (hopen : Open cell.log) (hfuel : a.unrecorded < fuel) :
    Attempted a.group a.alone cell.log (run env fuel a cell).2.log (run env fuel a cell).1 := by
  induction fuel generalizing a cell with
  | zero => exact absurd hfuel (Nat.not_lt_zero _)
  | succ fuel ih =>
    have hmoved := moved_move env h hopen
    unfold run
    split
    · next a' cell' hmove =>
      rw [hmove] at hmoved
      have hfollows := hmoved.more a' rfl
      have hopen' : Open cell'.log := hmoved.advance.toOpen nofun
      have hrest := ih hfollows.tracked hopen' (by have := hfollows.unrecorded; omega)
      rw [hfollows.group, hfollows.alone] at hrest
      exact ⟨hmoved.advance.trans hrest.advance, hrest.settled, hrest.fueled⟩
    · next r cell' hmove =>
      rw [hmove] at hmoved
      refine ⟨hmoved.advance.mono (fun _ hs => hs) fun h => Next.ended.inj h, fun lost hl => ?_, fun h => hmoved.fueled (congrArg _ h)⟩
      obtain ⟨rfl, hsettled⟩ := hmoved.ended lost (congrArg _ hl)
      exact ⟨hsettled, h.lost, h.lostNodup, h.alone⟩

theorem Cell.sending_log (cell : Cell k start) (group : List Sample) (alone : Bool) :
    (cell.sending group alone).log = cell.log ++ group.map fun s => .sent s.id alone := Cell.emitAll_log cell _

/-- One attempt leaves each of its samples closed or, beside others, lost. -/
theorem attempted_send (group : List Sample) (alone : Bool) (hopen : Open cell.log)
    (hnodup : (group.map (·.id)).Nodup) (hready : ∀ s ∈ group, Ready cell.log alone s) :
    Attempted group alone cell.log (send env group alone cell).2.log (send env group alone cell).1 := by
  obtain ⟨hsent, hflying⟩ := advance_sent hopen alone hnodup hready
  rw [← Cell.sending_log] at hsent hflying
  have hcount : (fresh group alone).unrecorded < group.length + 1 := by
    have hle : (group.map fun _ => false).count false ≤ (group.map fun _ => false).length := count_le_length
    rw [length_map] at hle
    exact Nat.lt_succ_of_le hle
  have hrun : Attempted group alone _ _ _ := attempted_run env (tracked_fresh hnodup hflying) (hsent.toOpen id) hcount
  exact ⟨hsent.trans hrun.advance, hrun.settled, hrun.fueled⟩

/-! ## Whole lists of samples -/

/-- What sending every sample of a list leaves: each is closed with a row. -/
structure Sends (group : List Sample) (log log' : List Event) (r : Except EvalError Unit) : Prop where
  advance : Advance group (r = .error .killed) log log'
  closed : r = .ok () → ∀ s ∈ group, phase log' s.id = some (.closed true)
  fueled : r ≠ .error .stuck

variable {log : List Event}

theorem Sends.nil (hopen : Open log) (hgroup : group = []) : Sends group log log (.ok ()) :=
  ⟨.refl hopen, fun _ s hs => by simp [hgroup] at hs, nofun⟩

theorem Sends.append {log'' : List Event}
    (h : Sends first log log' (.ok ())) (h' : Sends rest log' log'' r) (hnodup : ((first ++ rest).map (·.id)).Nodup) :
    Sends (first ++ rest) log log'' r := by
  rw [map_append] at hnodup
  have hdisjoint := (nodup_append.1 hnodup).2.2
  refine ⟨(h.advance.mono (fun s hs => by simp [hs]) id).trans (h'.advance.mono (fun s hs => by simp [hs]) id), fun hok s hs => ?_,
    h'.fueled⟩
  rcases mem_append.1 hs with hs | hs
  · rw [h'.advance.frame fun t ht heq => hdisjoint _ (mem_map.2 ⟨s, hs, rfl⟩) _ (mem_map.2 ⟨t, ht, rfl⟩) heq.symm]
    exact h.closed rfl s hs
  · exact h'.closed hok s hs

theorem Sends.error (h : Sends first log log' (.error e)) (hsub : ∀ s ∈ first, s ∈ group) : Sends group log log' (.error e) :=
  ⟨h.advance.mono hsub id, nofun, h.fueled⟩

theorem Attempted.error (h : Attempted group alone log log' (.error e)) : Sends group log log' (.error e) :=
  ⟨h.advance.mono (fun _ hs => hs) fun h => by rw [error.inj h], nofun,
    fun h' => h.fueled (by rw [error.inj h'])⟩

/-- Samples of one part keep their phase while another is sent. -/
theorem Sends.frame (h : Sends first log log' r)
    (hnodup : ((first ++ rest).map (·.id)).Nodup) (hs : s ∈ rest) : phase log' s.id = phase log s.id := by
  rw [map_append] at hnodup
  exact h.advance.frame fun t ht heq => (nodup_append.1 hnodup).2.2 _ (mem_map.2 ⟨t, ht, rfl⟩) _ (mem_map.2 ⟨s, hs, rfl⟩) heq

/-- A group sent alone loses no sample. -/
theorem Attempted.sends (h : Attempted group true log log' (.ok lost)) : Sends group log log' (.ok ()) := by
  obtain ⟨hsettled, -, -, hnone⟩ := h.settled lost rfl
  refine ⟨h.advance.mono (fun _ hs => hs) nofun, fun _ s hs => ?_, nofun⟩
  rcases hsettled s hs with ⟨hmem, -⟩ | ⟨-, hclosed⟩
  · rw [hnone rfl] at hmem
    cases hmem
  · exact hclosed

theorem sends_settle (hopen : Open cell.log) (hnodup : (lost.map (·.id)).Nodup)
    (hlost : ∀ s ∈ lost, phase cell.log s.id = some .lost) :
    Sends lost cell.log (settle env lost cell).2.log (settle env lost cell).1 := by
  induction lost generalizing cell with
  | nil => exact .nil hopen rfl
  | cons s lost ih =>
    have hsend := attempted_send env [s] true hopen (nodup_singleton _) fun t ht => .inr ⟨hlost t (by simp_all), rfl⟩
    unfold settle
    split
    · next e cell' hrun =>
      rw [hrun] at hsend
      exact hsend.error.error fun t ht => by simp_all
    · next dropped cell' hrun =>
      rw [hrun] at hsend
      have hfirst := hsend.sends
      have hframe : ∀ t ∈ lost, phase cell'.log t.id = phase cell.log t.id := fun t ht => hfirst.frame hnodup ht
      have hrest := ih (hfirst.advance.toOpen nofun) (nodup_cons.1 hnodup).2
        fun t ht => (hframe t ht).trans (hlost t (by simp [ht]))
      exact hfirst.append hrest hnodup

/-- Settling what is lost of a group closes all of it. -/
theorem sends_of_settled {killed : Prop}
    (hadvance : Advance group killed log cell.log) (hopen : Open cell.log) (hsettled : Settled group lost cell.log)
    (hsub : ∀ s ∈ lost, s ∈ group) (hnodup : (lost.map (·.id)).Nodup) :
    Sends group log (settle env lost cell).2.log (settle env lost cell).1 := by
  have hlost : ∀ s ∈ lost, phase cell.log s.id = some .lost := by
    intro s hs
    rcases hsettled s (hsub s hs) with ⟨-, hp⟩ | ⟨hnot, -⟩
    · exact hp
    · exact absurd hs hnot
  have hsends := sends_settle env hopen hnodup hlost
  refine ⟨hadvance.trans (hsends.advance.mono hsub id), fun hok s hs => ?_, hsends.fueled⟩
  by_cases hmem : s.id ∈ lost.map (·.id)
  · obtain ⟨t, ht, hid⟩ := mem_map.1 hmem
    rw [← hid]
    exact hsends.closed hok t ht
  rw [hsends.advance.frame fun t ht heq => hmem (mem_map.2 ⟨t, ht, heq⟩)]
  rcases hsettled s hs with ⟨hl, -⟩ | ⟨-, hp⟩
  · exact absurd (mem_map.2 ⟨s, hl, rfl⟩) hmem
  · exact hp

/-- An attempt and the settling of what it lost close every sample of its group. -/
theorem Attempted.settle (h : Attempted group alone log cell.log (.ok lost)) :
    Sends group log (Measurement.settle env lost cell).2.log (Measurement.settle env lost cell).1 := by
  obtain ⟨hsettled, hsub, hnodup, -⟩ := h.settled lost rfl
  exact sends_of_settled env h.advance (h.advance.toOpen nofun) hsettled hsub hnodup

theorem sends_batchesFrom {size : ℕ+} {pending : List Sample} (hopen : Open cell.log)
    (hnodup : (pending.map (·.id)).Nodup) (hfresh : ∀ s ∈ pending, phase cell.log s.id = some .fresh)
    (hfuel : pending.length ≤ fuel) :
    Sends pending cell.log (batchesFrom env size fuel pending cell).2.log (batchesFrom env size fuel pending cell).1 := by
  induction fuel generalizing pending cell with
  | zero =>
    obtain rfl := length_eq_zero_iff.1 (Nat.le_zero.1 hfuel)
    exact .nil hopen rfl
  | succ fuel ih =>
    cases pending with
    | nil => exact .nil hopen rfl
    | cons sample rest =>
      set group := (sample :: rest).take size with hgroup
      set others := (sample :: rest).drop size with hothers
      have hsplit : sample :: rest = group ++ others := (take_append_drop _ _).symm
      have hsub : ∀ s ∈ group, s ∈ sample :: rest := fun s hs => mem_of_mem_take hs
      rw [hsplit] at hnodup
      have hgroupNodup : (group.map (·.id)).Nodup := (nodup_append.1 (map_append ▸ hnodup)).1
      have hothersNodup : (others.map (·.id)).Nodup := (nodup_append.1 (map_append ▸ hnodup)).2.1
      have hsend := attempted_send env group (group.length = 1) hopen hgroupNodup fun s hs => .inl (hfresh s (hsub s hs))
      rw [batchesFrom, ← hgroup, ← hothers]
      split
      · next e cell' hrun =>
        rw [hrun] at hsend
        exact hsend.error.error hsub
      · next lost cell' hrun =>
        rw [hrun] at hsend
        have hsettle := hsend.settle env
        split
        · next e cell'' hrun' =>
          rw [hrun'] at hsettle
          exact hsettle.error hsub
        · next cell'' hrun' =>
          rw [hrun'] at hsettle
          have hopen' : Open cell''.log := hsettle.advance.toOpen nofun
          have hlength : others.length ≤ fuel := by
            have hpos := size.pos
            rw [hothers, length_drop]
            omega
          have hrest := ih hopen' hothersNodup (fun s hs => (hsettle.frame hnodup hs).trans
            (hfresh s (hsplit ▸ mem_append_right _ hs))) hlength
          rw [hsplit]
          exact hsettle.append hrest hnodup

end Pipette.Measurement
