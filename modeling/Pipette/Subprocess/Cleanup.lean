import Mathlib

/-!
# The teardowns of spawned children

`cleanup.rs` and the starts that use it (`Spawned::start`, `output_within`). Any number of threads start a child, register its
teardown, reap the child and drop the registration. Two ways lead out of the process: the signal handler, which selects the
teardowns under the write lock of `STARTS`, and a stderr that has lost its reader, which does not take that lock. Every shared
access of a thread is one step. The log is not part of the source. A teardown is known by the start that registered it; its
body (`on_interrupt`) and poisoned locks are left out.
-/

namespace Pipette.Subprocess

/-- `Entry`. -/
structure Entry where
  token : Nat
  owner : Nat
  bounded : Bool
deriving DecidableEq

/-- A start's child, its registration, and whether it still holds the guard of `hold_off_teardown`. -/
inductive Start where
  | notBegun
  | starting
  | spawned
  | registered (token : Nat)
  | running (token : Nat)
  | reaped (token : Nat)
  | other (token : Nat)
  | done
deriving DecidableEq

/-- The read lock of `STARTS` is held from before the spawn until the teardown is registered. -/
def Start.holdsOff : Start → Bool
  | .starting | .spawned | .registered _ => true
  | _ => false

/-- The token of its `Guard`, from the registration until the guard is dropped. -/
def Start.token : Start → Option Nat
  | .registered t | .running t | .reaped t | .other t => some t
  | _ => none

/-- The two ways out. -/
inductive Way where
  | signal
  | closed
deriving DecidableEq

/-- Where a way out is. The handler goes through all of `handle_signal`; `output_closed` begins at `marking`, when its swap of
`DRAINING` found it unset. -/
inductive Phase where
  | idle
  | interrupted
  | checking
  | asking
  | marking
  | taking
  | took (entries : List Entry)
  | tearing (entries : List Entry)
deriving DecidableEq

/-- Inside the block of `handle_signal` that holds the write lock of `STARTS`. -/
def Phase.selects : Phase → Bool
  | .checking | .asking | .marking | .taking | .took _ => true
  | _ => false

/-- What happened. -/
inductive Event where
  | spawned (c : Nat)
  | registered (c : Nat)
  | reaped (c : Nat)
  | dropped (c : Nat)
  | took (w : Way)
  | ran (w : Way) (c : Nat)
deriving DecidableEq

/-- The process: its statics, its threads and its stderr. -/
structure Process where
  registry : List Entry
  nextToken : Nat
  draining : Bool
  stopFlags : List Bool
  readerLost : Bool
  starts : Nat → Start
  ways : Way → Phase
  exited : Option Way
  log : List Event

namespace Process

/-- Before anything has started. -/
def fresh : Process where
  registry := []
  nextToken := 1
  draining := false
  stopFlags := []
  readerLost := false
  starts := fun _ => .notBegun
  ways := fun _ => .idle
  exited := none
  log := []

@[simp]
def setStart (s : Process) (c : Nat) (start : Start) : Process := { s with starts := Function.update s.starts c start }

@[simp]
def setWay (s : Process) (w : Way) (phase : Phase) : Process := { s with ways := Function.update s.ways w phase }

@[simp]
def note (s : Process) (e : Event) : Process := { s with log := e :: s.log }

/-- `register`: a token that no other thread gets, and the entry at the end of the registry. -/
@[simp]
def register (s : Process) (c : Nat) (bounded : Bool) : Process :=
  { s with registry := s.registry ++ [⟨s.nextToken, c, bounded⟩], nextToken := s.nextToken + 1 }

/-- `deregister`. -/
@[simp]
def deregister (s : Process) (token : Nat) : Process :=
  { s with registry := s.registry.filter fun e => e.token != token }

/-- `teardowns_idle`. -/
def teardownsIdle (s : Process) : Bool := s.registry.all (·.bounded)

/-- `request_graceful_stop`: whether a flag was still unset. -/
def absorbs (s : Process) : Bool := s.stopFlags.any fun flag => !flag

/-- `request_graceful_stop`: every flag is set. -/
@[simp]
def setFlags (s : Process) : Process := { s with stopFlags := s.stopFlags.map fun _ => true }

/-- The registry after `take_teardowns`. -/
@[simp]
def takeTeardowns (s : Process) : Process := { s with registry := [] }

end Process

/-- What the thread of a start does next. `registerOther` and `dropOther` are for a teardown of something other than a child
(`on_signal`, `register_bounded_teardown`), which holds nothing off. A child whose status is lost counts as reaped. -/
inductive StartStep (s : Process) (c : Nat) : Process → Prop where
  | holdOff (h : s.starts c = .notBegun) (hlock : (s.ways .signal).selects = false) : StartStep s c (s.setStart c .starting)
  | spawnFails (h : s.starts c = .starting) : StartStep s c (s.setStart c .done)
  | spawn (h : s.starts c = .starting) : StartStep s c ((s.note (.spawned c)).setStart c .spawned)
  | register (h : s.starts c = .spawned) (bounded : Bool) :
    StartStep s c (((s.register c bounded).note (.registered c)).setStart c (.registered s.nextToken))
  | dropStarting {t : Nat} (h : s.starts c = .registered t) : StartStep s c (s.setStart c (.running t))
  | reap {t : Nat} (h : s.starts c = .running t) : StartStep s c ((s.note (.reaped c)).setStart c (.reaped t))
  | drop {t : Nat} (h : s.starts c = .reaped t) : StartStep s c (((s.deregister t).note (.dropped c)).setStart c .done)
  | registerOther (h : s.starts c = .notBegun) (bounded : Bool) :
    StartStep s c ((s.register c bounded).setStart c (.other s.nextToken))
  | dropOther {t : Nat} (h : s.starts c = .other t) : StartStep s c ((s.deregister t).setStart c .done)

/-- What the thread of a way out does next. -/
inductive WayStep (s : Process) : Way → Process → Prop where
  -- `handle_signal`
  | interrupt (h : s.ways .signal = .idle) : WayStep s .signal (s.setWay .signal .interrupted)
  | lock (h : s.ways .signal = .interrupted) (hfree : ∀ c, (s.starts c).holdsOff = false) :
    WayStep s .signal (s.setWay .signal .checking)
  | idle (h : s.ways .signal = .checking) (hidle : s.teardownsIdle) : WayStep s .signal (s.setWay .signal .asking)
  | busy (h : s.ways .signal = .checking) (hbusy : s.teardownsIdle = false) : WayStep s .signal (s.setWay .signal .marking)
  | absorbed (h : s.ways .signal = .asking) (hflag : s.absorbs) : WayStep s .signal (s.setFlags.setWay .signal .idle)
  | notAbsorbed (h : s.ways .signal = .asking) (hflag : s.absorbs = false) :
    WayStep s .signal (s.setFlags.setWay .signal .marking)
  -- `output_closed`: a call that finds `DRAINING` set returns, and leaves everything as it is
  | notice (h : s.ways .closed = .idle) (hlost : s.readerLost) (hswap : s.draining = false) :
    WayStep s .closed (({ s with draining := true } : Process).setWay .closed .marking)
  -- `take_teardowns` and `run_and_exit`
  | mark {w : Way} (h : s.ways w = .marking) : WayStep s w (({ s with draining := true } : Process).setWay w .taking)
  | take {w : Way} (h : s.ways w = .taking) : WayStep s w ((s.takeTeardowns.note (.took w)).setWay w (.took s.registry))
  | leave {w : Way} {entries : List Entry} (h : s.ways w = .took entries) : WayStep s w (s.setWay w (.tearing entries))
  | run {w : Way} {e : Entry} {entries : List Entry} (h : s.ways w = .tearing (e :: entries)) :
    WayStep s w ((s.note (.ran w e.owner)).setWay w (.tearing entries))
  | exit {w : Way} (h : s.ways w = .tearing []) : WayStep s w { s with exited := some w }

/-- One step of the process: of a start, of a way out, or of what the process does not decide. -/
inductive Step (s : Process) : Process → Prop where
  | start {s' : Process} (c : Nat) (h : StartStep s c s') : Step s s'
  | way {s' : Process} (w : Way) (h : WayStep s w s') : Step s s'
  | registerStopFlag : Step s { s with stopFlags := s.stopFlags ++ [false] }
  | dropStopFlag (i : Nat) : Step s { s with stopFlags := s.stopFlags.eraseIdx i }
  | loseReader : Step s { s with readerLost := true }

/-- A process that has exited does nothing more. -/
def Next (s s' : Process) : Prop := s.exited = none ∧ Step s s'

/-- What some interleaving of the threads leads to. -/
def Reachable (s : Process) : Prop := Relation.ReflTransGen Next .fresh s

end Pipette.Subprocess
