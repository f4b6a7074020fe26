import Pipette.Lemmas.PoolRefresh

/-!
# A pool job runs on a build that provides its runtime

Over every history of processes and changes of the pool directory, a job is launched on contents that were read as providing
its runtime, unless a reading displaced a build that a phone's record names or a process took a phone with an outdated record.
Both happen: a bundle rebuilt in place is read again on one phone only.
-/

namespace Pipette.Proxy.Bundles

open Threads

section Runs

variable {F : Formats} [DecidableEq F.Runtime] [DecidableEq F.RuntimeType]

theorem holds_start (ps : Processes F) (dir : PoolDir) (contents : Text → Option Bundle) :
    (ps.start dir contents).Holds (protocol ps) (undisturbed ps) := by
  refine ⟨inv_initial dir contents, fun t => ?_⟩
  dsimp only [Processes.start]
  cases hrole : ps.role t with
  | operator => exact triple_alterations ps.changes _ (inv_initial dir contents) trivial
  | main p => exact triple_runProcess hrole _ (inv_initial dir contents) rfl
  | device p i => exact triple_runPhone ps t hrole _ (inv_initial dir contents) trivial

/-- In every run in which no reading displaced a build and no record was outdated. -/
theorem launches_provided {ps : Processes F} {dir : PoolDir} {contents : Text → Option Bundle} {p : Pool (Op F) Ans (State F)}
    (h : Reaches (machine ps) (ps.start dir contents) p) (hquiet : Undisturbed p.state) :
    ∀ l ∈ p.state.launches, Provided p.state.readings l.contents l.runtime := by
  have hexit : ∀ t s, Undisturbed ((machine ps).exit t s) → Undisturbed s := by
    intro t s hs
    simp only [machine, State.exit] at hs
    split at hs
    · exact hs
    · exact hs
  have hwithin : Reaches (undisturbed ps) (ps.start dir contents) p := h.within (fun _ _ _ _ _ => Does.disturbed) hexit hquiet
  exact (hwithin.holds exit_keeps (holds_start ps dir contents)).1.launched

end Runs

/-! ## A bench with two phones -/

/-- A pool directory with one bundle, as it was built at some time. -/
def builtAt (seconds : Int) : PoolDir where
  bundles := [⟨"X.app", ⟨1, seconds⟩⟩]
  unique := by
    intro a ha b hb _
    rw [List.mem_singleton.1 ha, List.mem_singleton.1 hb]

def benchPhone (dir : String) : Phone where
  dir := dir.toList
  cfg := ⟨"c", dir.toList, false, 60, 10, 5, 0⟩
  osVersion := none

/-- Two processes with the same two phones, one after the other, and an operator. -/
def twoProcesses : Processes numbered where
  fleet := [benchPhone "A", benchPhone "B"]
  phones _ := [benchPhone "A", benchPhone "B"]
  selected _ _ h := h
  runs _ := true
  role
    | 0 => .main 1
    | 1 => .device 1 1
    | 2 => .main 2
    | 3 => .device 2 1
    | _ => .operator
  once t u h hne := by
    rcases t with _ | _ | _ | _ | t <;> rcases u with _ | _ | _ | _ | u <;> first
      | rfl
      | exact absurd rfl hne
      | cases h
  changes := 1
  rounds := 1
  restarts := 1
  flagsFor _ := some []
  poolDir := "builds"

/-- Some turns of a thread: the build on the phone lists this runtime, and the jobs ask for it. -/
def turnsFor (t : Tid) (n runtime : Nat) (dir : PoolDir) : List (Turn (Choice numbered)) :=
  let job : ClaimedJob numbered := ⟨"j", "b", none, .ok ⟨[], [], runtime⟩⟩
  let script : Script numbered := { Script.smooth "c" job with runtimes := [runtime] }
  List.replicate n (.run t ⟨⟨script.answer, [], false, trivial⟩, dir⟩)

/-- The first process reads the pool on phone A and installs the build on phone B, where a job is launched. -/
def firstRun : List (Turn (Choice numbered)) := turnsFor 0 18 0 (builtAt 1) ++ turnsFor 1 17 0 (builtAt 1)

/-- The bundle is rebuilt in place; the second process reads it on phone A, and a job for what it provides now is launched on
B. -/
def rebuiltRun : List (Turn (Choice numbered)) :=
  firstRun ++ [.kill 0] ++ turnsFor 4 1 0 (builtAt 2) ++ turnsFor 2 18 1 (builtAt 2) ++ turnsFor 3 13 1 (builtAt 2)

def playedRun (turns : List (Turn (Choice numbered))) : Option (Pool (Op numbered) Ans (State numbered)) :=
  (twoProcesses.start (builtAt 1) fun _ => none).play (machine twoProcesses) (act twoProcesses) turns

/-- A job is launched on the build that its process has just installed. -/
theorem launches_provided_firstRun :
    ∃ p, Reaches (machine twoProcesses) (twoProcesses.start (builtAt 1) fun _ => none) p ∧ Undisturbed p.state ∧
      p.state.launches.map (·.runtime) = [0] ∧ ∀ l ∈ p.state.launches, Provided p.state.readings l.contents l.runtime := by
  obtain ⟨p, hreach, hundisturbed, hlaunches⟩ : ∃ p, Reaches (machine twoProcesses) (twoProcesses.start (builtAt 1) fun _ => none) p ∧
      (p.state.displaced = false ∧ p.state.outdated = false) ∧ p.state.launches.map (·.runtime) = [0] :=
    Pool.exists_of_play step_of_act firstRun (by decide)
  exact ⟨p, hreach, hundisturbed, hlaunches, launches_provided hreach hundisturbed⟩

/-- Phone B has the contents of the first build, and the job launched on it asks for a runtime of the second. -/
theorem not_provided_rebuiltRun : ∃ p, Reaches (machine twoProcesses) (twoProcesses.start (builtAt 1) fun _ => none) p ∧
      ∃ l ∈ p.state.launches, l.phone = "B" ∧ l.runtime = 1 ∧ ¬Provided p.state.readings l.contents l.runtime := by
  have hplay : ((playedRun rebuiltRun).any fun p => p.state.launches.any fun l =>
      l.phone = "B" && l.runtime = 1 && !p.state.readings.any fun x => l.contents = some x.1 && x.2.contains l.runtime) := by
    decide
  obtain ⟨p, hp, hcheck⟩ := (Option.any_eq_true _ _).1 hplay
  obtain ⟨l, hl, hlaunch⟩ := List.any_eq_true.1 hcheck
  simp only [Bool.and_eq_true, decide_eq_true_eq, Bool.not_eq_true'] at hlaunch
  refine ⟨p, Pool.reaches_of_play step_of_act hp, l, hl, hlaunch.1.1, hlaunch.1.2, ?_⟩
  rintro ⟨b, runtimes, hcontents, hread, hruntime⟩
  have hnone := List.any_eq_false.1 hlaunch.2 _ hread
  simp [hcontents, hruntime] at hnone

end Pipette.Proxy.Bundles
