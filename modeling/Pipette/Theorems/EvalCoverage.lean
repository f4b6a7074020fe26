import Pipette.Evals.Json
import Pipette.Lemmas.EvalCell

/-!
# A cell covers its dataset

Whatever the engine records and however samples are in flight: a cell that succeeds has sent every id its checkpoint had not
settled once, or a second time alone after it was lost beside others, holds one row of it, and has left every other id alone.
-/

namespace Pipette.Measurement

open Evals

variable {k : Codec} {start : Session}

/-- An id was sent once, or again alone after it was lost; then its row was recorded, the only one. -/
def SentAndHeld (cell : Cell k start) (id : Text) : Prop := ∃ c, SentIn cell.log id c ∧ rowsWith cell.session id = [c]

/-- What a cell that succeeds has done. -/
structure Covered (samples : List Sample) (retryFailed : Bool) (cell : Cell k start) : Prop where
  sent : ∀ s ∈ samples, settled start retryFailed s.id = false → SentAndHeld cell s.id
  unsent : ∀ id, settled start retryFailed id → about cell.log id = [] ∧ rowsWith cell.session id = rowsWith start id
  rows : cell.session.completions.list.length = (distinct samples ∪ start.completions.ids).card

/-- A sample whose row is held was sent and holds one row. -/
theorem sentAndHeld_of_closed {cell : Cell k start} {id : Text} (h : phase cell.log id = some (.closed true)) :
    SentAndHeld cell id := by
  obtain ⟨c, hsent⟩ := sentIn_of_closed h
  refine ⟨c, hsent, ?_⟩
  rw [rowsWith, cell.session_eq, filter_replay, hsent.held]
  rfl

/-- A cell that succeeds covers its dataset, for every engine and every schedule. -/
theorem runCell_covers (k : Codec) (start : Session) (env : Env) (rows : Option EvalRows) (inFlight : InFlight) (retryFailed : Bool)
    (samples : List Sample) (total : Nat) (hdata : dataset rows = .ok samples)
    (hok : (runCell env rows inFlight retryFailed (Cell.opened k start)).1 = .ok total) :
    Covered samples retryFailed (runCell env rows inFlight retryFailed (Cell.opened k start)).2 := by
  unfold runCell at hok ⊢
  rw [hdata] at hok ⊢
  dsimp only at hok ⊢
  split at hok
  · cases hok
  next cell hrun =>
  have hsends : Sends (pending samples start retryFailed) (Cell.opened k start).log _ _ :=
    sends_runSamples env inFlight Open.nil (unsettledFrom_nodup _ _ _) fun _ _ => rfl
  change runSamples env inFlight (pending samples start retryFailed) (Cell.opened k start) = _ at hrun
  rw [hrun] at hsends
  have hclosed := hsends.closed rfl
  have hframe := @hsends.advance.frame
  -- an id is sent exactly when it is one of the dataset's that are not settled
  have hpending : ∀ id, id ∈ distinct samples → settled start retryFailed id = false → SentAndHeld cell id := by
    intro id hid hsettled
    obtain ⟨s, hs, rfl⟩ := mem_pending_ids.2 ⟨hid, hsettled⟩
    exact sentAndHeld_of_closed (hclosed s hs)
  have hother : ∀ id, ¬(id ∈ distinct samples ∧ settled start retryFailed id = false) → phase cell.log id = some .fresh := by
    intro id hid
    exact hframe id fun s hs heq => hid (mem_pending_ids.1 ⟨s, hs, heq⟩)
  refine ⟨fun s hs hsettled => ?_, fun id hsettled => ?_, ?_⟩
  · exact hpending s.id (List.mem_toFinset.2 (List.mem_map.2 ⟨s, hs, rfl⟩)) hsettled
  · have hfresh := hother id fun h => nomatch hsettled.symm.trans h.2
    exact ⟨about_eq_nil_iff.2 hfresh, rowsWith_of_fresh hfresh⟩
  · rw [← Rows.card_ids]
    congr 1
    ext id
    rw [Finset.mem_union]
    constructor
    · intro hid
      by_contra hnot
      rw [not_or] at hnot
      rw [mem_ids_iff, rowsWith_of_fresh (hother id fun h => hnot.1 h.1), ← mem_ids_iff] at hid
      exact hnot.2 hid
    · intro hid
      by_cases hsent : id ∈ distinct samples ∧ settled start retryFailed id = false
      · obtain ⟨c, -, hrows⟩ := hpending id hsent.1 hsent.2
        rw [mem_ids_iff, hrows]
        exact List.cons_ne_nil _ _
      rw [mem_ids_iff, rowsWith_of_fresh (hother id hsent), ← mem_ids_iff]
      rcases hid with hid | hid
      · have hsettled : settled start retryFailed id := eq_true_of_ne_false fun h => hsent ⟨hid, h⟩
        exact mem_ids_iff.2 (contains_iff.1 (Bool.and_eq_true_iff.1 hsettled).1)
      · exact hid

/-- Two workers: the second loses its sample, it is settled alone, and the third sample fails. -/
def lossyEnv : Env where
  pick t := [0, 0, 1, 1, 1, 1, 1, 1, 1].getD t 0
  move t := ([(4, .record 0 (.lost "server gone")), (9, .record 0 (.completed "a" .eos none (some 1))),
    (12, .record 0 (.completed "b" .eos none (some 1))), (16, .record 0 (.failed "stall"))].lookup t).getD .finish
  fault _ := none

theorem lossyEnv_covers : Covered [⟨"s0", 1⟩, ⟨"s1", 2⟩, ⟨"s2", 3⟩] true
      (runCell lossyEnv (some (.chat ["s0", "s1", "s2"])) (.parallel 2) true
        (Cell.opened json (openIn json ⟨"00ff", some 600⟩ none))).2 :=
  runCell_covers json (openIn json ⟨"00ff", some 600⟩ none) lossyEnv (some (.chat ["s0", "s1", "s2"]))
    (.parallel 2) true _ 3 rfl (by decide)

end Pipette.Measurement
