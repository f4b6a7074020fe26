import Mathlib

/-!
# The timers of the remote engine

`unloadSync` posts `idleTeardown`, a cancelled run's progress message posts `hardCancel`, and either takes the engine's
process down when it runs on the control thread. A timer is taken off the queue by the next operation or by the run that
returns, unless the control thread already has it.
-/

namespace Pipette.Android.RemoteEngine

/-- A timer, with the run whose cancel posted it, or how many operations had begun when the unload did. -/
inductive Timer where
  | hardCancel (run : Nat)
  | idleTeardown (ops : Nat)
  deriving DecidableEq

/-- A teardown by a timer, with the runs in progress and the operations begun at that time. -/
structure Teardown where
  timer : Timer
  runs : List Nat
  ops : Nat

/-- Runs are numbered as they begin. `firing` is what the control thread has taken off its queue, `log` is not part of the
source. -/
structure State where
  bound : Bool
  runs : List Nat
  begun : Nat
  ops : Nat
  hardCancel : Option Nat
  idleTeardown : Option Nat
  firing : Option Timer
  log : List Teardown

/-- `teardownNow`. -/
@[simp] def State.teardownNow (s : State) : State := { s with bound := false, hardCancel := none, idleTeardown := none }

/-- `ensureBound`, at the start of each operation; where the bind fails a teardown follows. -/
@[simp] def State.ensureBound (s : State) : State := { s with bound := true, idleTeardown := none, ops := s.ops + 1 }

/-- The steps of callers, binder threads and the control thread. A progress message is one-way, so it may post its timer long
after its run. In a calm run it does not, and a fired timer acts before its run returns or an operation begins. -/
inductive Step (calm : Prop) (s : State) : State → Prop
  | load (hcalm : calm → ∀ n, s.firing ≠ some (.idleTeardown n)) : Step calm s s.ensureBound
  | run (hcalm : calm → ∀ n, s.firing ≠ some (.idleTeardown n)) :
      Step calm s { s.ensureBound with runs := s.begun :: s.runs, begun := s.begun + 1 }
  | cancel (r : Nat) (h : r < s.begun) (hcalm : calm → r ∈ s.runs) : Step calm s { s with hardCancel := some r }
  | finish (r : Nat) (h : r ∈ s.runs) (hcalm : calm → s.firing ≠ some (.hardCancel r)) :
      Step calm s { s with runs := s.runs.erase r, hardCancel := none }
  | unload : Step calm s { s with idleTeardown := some s.ops }
  | fireCancel {r} (h : s.hardCancel = some r) (hf : s.firing = none) :
      Step calm s { s with hardCancel := none, firing := some (.hardCancel r) }
  | fireIdle {n} (h : s.idleTeardown = some n) (hf : s.firing = none) :
      Step calm s { s with idleTeardown := none, firing := some (.idleTeardown n) }
  | act {t} (h : s.firing = some t) :
      Step calm s { s.teardownNow with firing := none, log := if s.bound then ⟨t, s.runs, s.ops⟩ :: s.log else s.log }
  | teardown : Step calm s s.teardownNow

/-- The states that any interleaving leads to, or only a calm one. -/
inductive Reachable (calm : Prop) : State → Prop
  | initial : Reachable calm ⟨false, [], 0, 0, none, none, none, []⟩
  | step {s s'} (h : Reachable calm s) (hstep : Step calm s s') : Reachable calm s'

end Pipette.Android.RemoteEngine
