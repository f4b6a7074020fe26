import Pipette.Lemmas.InFlight

/-!
# The in-flight marker over every interleaving

A job, its heartbeat, stop requests and forced exits in any interleaving, with file operations that succeed. A marker that a
stop removed is not written again, the dropped guard leaves none, and the heartbeat refreshes only its own job's.
-/

namespace Pipette.Marker

open Threads

variable (marker : InFlight) (rounds : Nat) (roles : Nat → Role) (left : Option InFlight)

/-- Before the first step of a job: what an earlier one left of its marker, and whether a stop was requested. -/
def atStart (stop : Bool) : Pool Op Ans State :=
  ⟨State.initial left stop, threads marker rounds roles⟩

/-- What the marker of a job goes through. -/
structure MarkerKept (marker : InFlight) (s : State) : Prop where
  /-- After the heartbeat or a teardown has removed it, no thread writes it. -/
  silent : s.log.Pairwise fun e e' => e.ByStop → ¬e'.IsWrite
  /-- Once the guard is dropped, it is absent. -/
  absent : s.dropped → s.marker = none
  /-- The heartbeat writes only over a marker of its own job, and one of its own job. -/
  refreshed : ∀ before after, .wrote 1 before after ∈ s.log → Own marker before ∧ OfJob marker after

theorem inv_initial (stop : Bool) : Inv marker (State.initial left stop) where
  silent := List.Pairwise.nil
  closed _ h := nomatch h
  absent h := nomatch h
  own h := nomatch h
  refreshed _ _ h := nomatch h

theorem holds_atStart (stop : Bool) :
    (atStart marker rounds roles left stop).Holds (protocol marker) (machine true) := by
  refine ⟨inv_initial marker left stop, fun t => ?_⟩
  match t with
  | 0 => exact spec_job _ (inv_initial marker left stop) ⟨fun _ => ⟨rfl, rfl⟩, nofun⟩
  | 1 => exact spec_heartbeat rounds _ (inv_initial marker left stop) trivial
  | t + 2 => exact spec_role (roles t) _ (inv_initial marker left stop) ⟨nofun, nofun⟩

/-- In every state that is reached the marker was kept as it should be. -/
theorem marker_kept (stop : Bool)
    {p : Pool Op Ans State} (h : Reaches (machine true) (atStart marker rounds roles left stop) p) :
    MarkerKept marker p.state := by
  have hexit : ∀ t s, (protocol marker).inv s → (protocol marker).inv ((machine true).exit t s) ∧
      (protocol marker).guar t s ((machine true).exit t s) := fun t s hs => ⟨hs, Guar.refl marker t s⟩
  have hinv : Inv marker p.state := (h.holds hexit (holds_atStart marker rounds roles left stop)).1
  exact ⟨hinv.silent, fun hdropped => (hinv.absent hdropped).1, hinv.refreshed⟩

/-! ## A job that is stopped -/

def stoppedJob : InFlight := ⟨"job-1", some "boot", "2026-01-01T00:00:00Z", some 0⟩

/-- The heartbeat refreshes the marker, a stop is requested, the heartbeat removes the marker, and the job ends. -/
def stoppedTurns : List (Turn Choice) :=
  let turns (n : Nat) (t : Tid) : List (Turn Choice) := List.replicate n (.run t ⟨false, true, true, 30⟩)
  turns 12 0 ++ turns 18 1 ++ turns 1 2 ++ turns 13 1 ++ turns 9 0

def stoppedEnd : Option (Pool Op Ans State) :=
  (atStart stoppedJob 2 (fun _ => .requestStop) none false).play (machine true)
    (fun c t o s => if c.fails then none else act c t o s) stoppedTurns

theorem stoppedEnd_state : stoppedEnd.map (fun p => (p.state.dropped, p.state.log)) = some (true,
    [.wrote 0 none stoppedJob, .wrote 1 (some stoppedJob) { stoppedJob with aliveAt := some 30 }, .removed 1, .removed 0]) := by
  decide

theorem stopped_job_marker_kept : ∃ p, Reaches (machine true) (atStart stoppedJob 2 (fun _ => .requestStop) none false) p ∧
    p.state.dropped ∧ .removed 1 ∈ p.state.log ∧ MarkerKept stoppedJob p.state := by
  obtain ⟨p, hend⟩ : ∃ p, stoppedEnd = some p := Option.isSome_iff_exists.1 (by decide)
  have hrun : Reaches (machine true) (atStart stoppedJob 2 (fun _ => .requestStop) none false) p := by
    refine Pool.reaches_of_play ?_ hend
    intro c t o s r s' hact
    split at hact
    · cases hact
    · next hfails => exact ⟨c, fun _ => Bool.eq_false_iff.2 hfails, hact⟩
  have hstate := stoppedEnd_state
  simp only [hend, Option.map_some, Option.some.injEq, Prod.mk.injEq] at hstate
  refine ⟨p, hrun, hstate.1, ?_, marker_kept stoppedJob 2 _ none false hrun⟩
  rw [hstate.2]
  simp

end Pipette.Marker
