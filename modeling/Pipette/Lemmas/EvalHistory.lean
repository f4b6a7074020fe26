import Pipette.Lemmas.EvalChunks
import Pipette.Lemmas.Reopen
import Pipette.Measurement.History

/-!
# Runs and the file they leave

The log of a run gives every sample a phase, ends where its process is killed, and is about no id that the checkpoint had settled
(`traced_cell`). Where no append is glued to a torn line, the file after a log is read as the file before with the rows the log
wrote (`reads_replay`).
-/

namespace Pipette.Measurement

open Evals LineLog List Event Session

variable {k : Codec} {start : Session} {header : Header}

/-! ## The log of a run -/

/-- What holds of the log of every run. -/
structure Traced (start : Session) (log : List Event) : Prop where
  defined : ∀ id, (phase log id).isSome
  cutLast : log.Pairwise fun e _ => e.isCut = false
  unsent : ∀ id, settled start true id → phase log id = some .fresh

theorem settled_of_settled {checkpoint : Session} {retryFailed : Bool} {id : Text} (h : settled checkpoint true id) :
    settled checkpoint retryFailed id := by
  unfold settled at h ⊢
  cases retryFailed <;> simp_all

variable (env : Env) (rows : Option EvalRows) (inFlight : InFlight) {lines : List Line} {log : List Event}

theorem traced_runCell (retryFailed : Bool) :
    Traced start (runCell env rows inFlight retryFailed (Cell.opened k start)).2.log := by
  unfold runCell
  split
  · exact ⟨Open.nil.defined, Open.nil.cutLast, fun _ _ => rfl⟩
  · next samples hdata =>
    have hsends : Sends (pending samples start retryFailed) (Cell.opened k start).log _ _ :=
      sends_runSamples env inFlight Open.nil (unsettledFrom_nodup _ _ _) fun _ _ => rfl
    have htraced : Traced start (runSamples env inFlight (pending samples start retryFailed) (Cell.opened k start)).2.log := by
      refine ⟨hsends.advance.defined, hsends.advance.cutLast, fun id hid => ?_⟩
      refine hsends.advance.frame fun s hs heq => ?_
      have hpending := (mem_pending_ids.1 ⟨s, hs, heq⟩).2
      rw [settled_of_settled hid] at hpending
      cases hpending
    split
    all_goals
      next hrun => exact (congrArg (fun out => Traced start out.2.log) hrun).mp htraced

theorem eval_cell (cell : Cell k start) : (eval env rows inFlight cell).2 = (runCell env rows inFlight false cell).2 := by
  unfold eval
  split <;> simp_all

theorem evalComplete_cell (waived : Bool) (cell : Cell k start) :
    (evalComplete env rows inFlight waived cell).2 = (runCell env rows inFlight true cell).2 := by
  unfold evalComplete
  split
  · next hrun => rw [hrun]
  · next hrun =>
    rw [hrun]
    split <;> rfl

/-- The log of a run, of whatever kind. -/
theorem traced_cell (k : Codec) (start : Session) (r : CellRun) : Traced start (r.cell k start).log := by
  cases r with
  | eval env rows inFlight =>
    rw [CellRun.cell, eval_cell]
    exact traced_runCell env rows inFlight false
  | complete env rows inFlight waived =>
    rw [CellRun.cell, evalComplete_cell]
    exact traced_runCell env rows inFlight true
  | chunked env source inFlight =>
    rw [CellRun.cell, (evalCompleteChunked_result env source inFlight _ rfl).1]
    obtain ⟨visits, htrace⟩ := @exists_chunkTrace k start env source _ inFlight _ 0 [] (Cell.opened k start)
      (positions_chunkedPending start source) Open.nil (fun _ _ => rfl) (Nat.le_refl _)
    rw [drop_zero] at htrace
    refine ⟨htrace.defined, htrace.cutLast, fun id hid => htrace.frame id fun p hp heq => ?_⟩
    have hpending := (mem_chunkedPending.1 hp).2.2
    rw [heq, hid] at hpending
    cases hpending

/-! ## The file after a log -/

theorem Event.file_apply (e : Event) (s : Session) :
    (e.apply k s).file = s.file ++ match e with
      | .row c => line k c
      | .torn c n => (k.rowLine c).take n
      | .cut c n => (line k c).take n
      | _ => [] := by
  cases e <;> simp [apply, append, hold, appendFailed, recordUnfit]

/-- Without an append that failed part way or a kill, a log leaves the file at the end of a line. -/
theorem torn_replay (ht : torn newline start.file = []) (htears : ∀ e ∈ log, e.tears = false)
    (hcut : ∀ e ∈ log, e.isCut = false) : torn newline (replay k start log).file = [] := by
  induction log using reverseRecOn with
  | nil => exact ht
  | append_singleton log e ih =>
    have hbefore := ih (fun e he => htears e (by simp [he])) fun e he => hcut e (by simp [he])
    rw [replay_concat, file_apply]
    cases e with
    | row c => exact torn_append k _ c
    | torn c n =>
      have hn : n = 0 := by simpa [tears] using htears (.torn c n) (by simp)
      simpa [hn] using hbefore
    | cut c n => cases hcut (.cut c n) (by simp)
    | _ => simpa using hbefore

/-- The file after a log is read as the file before, with the rows the log wrote. -/
theorem reads_replay (h : Reads k header lines start.file) (ht : torn newline start.file = [])
    (hcut : log.Pairwise fun e _ => e.isCut = false) (hglue : Unglued k log) :
    Reads k header (lines ++ (log.filterMap (written k)).map .row) (replay k start log).file := by
  induction log using reverseRecOn with
  | nil => simpa [replay] using h
  | append_singleton log e ih =>
    obtain ⟨hcut, -, hcut'⟩ := pairwise_append.1 hcut
    obtain ⟨hglue, -, hglue'⟩ := pairwise_append.1 hglue
    have hbefore := ih hcut hglue
    have hlast : [e].filterMap (written k) = (e.written k).toList := by cases h : e.written k <;> simp [h]
    rw [replay_concat, file_apply, filterMap_append, hlast, map_append, ← append_assoc]
    -- a line end is written only where no line is torn
    have hend : ∀ c, e.written k = some c → torn newline (replay k start log).file = [] := by
      intro c hc
      refine torn_replay ht (fun e' he' => ?_) fun e' he' => hcut' e' he' e (by simp)
      by_contra htears
      rw [hglue' e' he' e (by simp) (eq_true_of_ne_false htears)] at hc
      cases hc
    cases e with
    | row c => exact hbefore.append (hend c rfl) c
    | torn c n => simpa [written] using hbefore.cut c n
    | cut c n =>
      dsimp only
      by_cases hn : (k.rowLine c).length < n
      · have hwritten : (cut c n).written k = some c := if_pos hn
        rw [take_line_of_lt k c hn, hwritten]
        exact hbefore.append (hend c hwritten) c
      · have hwritten : (cut c n).written k = none := if_neg hn
        rw [hwritten]
        simpa using hbefore.killed c (Nat.not_lt.1 hn)
    | _ => simpa [written] using hbefore

/-- The file a run leaves is read as the one it opened, with the rows it wrote. -/
theorem reads_run {file : Option Bytes} (hopened : Opened k header lines (openIn k header file)) (r : CellRun)
    (hglue : Unglued k ((Op.run r).log k header file)) :
    ∃ body, (Op.run r).file k header file = some body ∧
      Reads k header (lines ++ (((Op.run r).log k header file).filterMap (written k)).map .row) body := by
  refine ⟨_, rfl, ?_⟩
  rw [(r.cell k (openIn k header file)).session_eq]
  exact reads_replay hopened.reads hopened.torn (traced_cell k _ r).cutLast hglue

end Pipette.Measurement
