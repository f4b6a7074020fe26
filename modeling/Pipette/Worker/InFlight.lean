import Pipette.Lib.Threads
import Pipette.Path

/-!
# The in-flight marker

`InFlightRun` writes a marker file and removes it at the end of the job; a heartbeat thread refreshes it and removes it when a
stop is requested; a forced exit runs the registered teardown, which removes it. The three share the `closing` flag under its
lock, and the heartbeat and the end of the job the `stopped` flag under another. Each operation is one access to what they
share or one file operation.
-/

namespace Pipette.Marker

open Threads

/-- One in-flight job. -/
structure InFlight where
  jobId : Text
  bootId : Option Text
  startedAt : Text
  aliveAt : Option Nat
  deriving DecidableEq

/-- A thread put a new marker in place of what was there, or removed it. -/
inductive Event where
  | wrote (t : Tid) (before : Option InFlight) (after : InFlight)
  | removed (t : Tid)
  deriving DecidableEq

/-- What the threads of one job share. A lock is held by a thread or free; `tmp t` is the file that thread `t` writes the
marker through. `beating`: the heartbeat thread was started and has not returned; `dropped`: the guard of the job was
dropped. -/
structure State where
  stop : Bool
  closing : Bool
  closingLock : Option Tid
  stopped : Bool
  stoppedLock : Option Tid
  marker : Option InFlight
  tmp : Tid → Option InFlight
  registered : Bool
  spawned : Bool
  beating : Bool
  dropped : Bool
  log : List Event

/-- Before the job starts; a marker may be left from an earlier one. -/
def State.initial (marker : Option InFlight) (stop : Bool) : State where
  stop := stop
  closing := false
  closingLock := none
  stopped := false
  stoppedLock := none
  marker := marker
  tmp := fun _ => none
  registered := false
  spawned := false
  beating := false
  dropped := false
  log := []

/-- What `fs::remove_file` answers. -/
inductive Removal where
  | removed
  | notFound
  | failed
  deriving DecidableEq

/-- `enter` is the first thing a spawned thread does and `finish` its return; `drop` only notes that the job's guard is gone. -/
inductive Op where
  | register
  | deregister
  | takeTeardown
  | lockClosing
  | readClosing
  | setClosing
  | unlockClosing
  | lockStopped
  | readStopped
  | setStopped
  | unlockStopped
  | loadStop
  | setStop
  | createDir
  | createTmp
  | writeTmp (m : InFlight)
  | syncTmp
  | rename
  | syncDir
  | removeTmp
  | removeMarker
  | spawn
  | enter
  | finish
  | join
  | due
  | now
  | drop

/-- What an operation answers; `false` is an error of a file operation. -/
abbrev Ans : Op → Type
  | .takeTeardown | .readClosing | .readStopped | .loadStop | .createDir | .createTmp | .writeTmp _ | .syncTmp | .rename | .syncDir
  | .spawn | .due => Bool
  | .removeMarker => Removal
  | .now => Nat
  | _ => Unit

/-- Whether a file operation fails, whether the thread can be started, and the clock. -/
structure Choice where
  fails : Bool
  spawns : Bool
  due : Bool
  now : Nat

/-- What thread `t` is answered and leaves when it does an operation, none if it has to wait. -/
def act (c : Choice) (t : Tid) : (o : Op) → State → Option (Ans o × State)
  | .register, s => some ((), { s with registered := true })
  | .deregister, s => some ((), { s with registered := false })
  | .takeTeardown, s => some (s.registered, { s with registered := false })
  | .lockClosing, s => if s.closingLock = none then some ((), { s with closingLock := some t }) else none
  | .readClosing, s => some (s.closing, s)
  | .setClosing, s => some ((), { s with closing := true })
  | .unlockClosing, s => some ((), { s with closingLock := none })
  | .lockStopped, s => if s.stoppedLock = none then some ((), { s with stoppedLock := some t }) else none
  | .readStopped, s => some (s.stopped, s)
  | .setStopped, s => some ((), { s with stopped := true })
  | .unlockStopped, s => some ((), { s with stoppedLock := none })
  | .loadStop, s => some (s.stop, s)
  | .setStop, s => some ((), { s with stop := true })
  | .createDir, s => some (!c.fails, s)
  | .createTmp, s => some (!c.fails, s)
  | .writeTmp m, s => if c.fails then some (false, s) else some (true, { s with tmp := Function.update s.tmp t (some m) })
  | .syncTmp, s => some (!c.fails, s)
  | .rename, s =>
    match c.fails, s.tmp t with
    | false, some m => some (true, { s with
        marker := some m
        tmp := Function.update s.tmp t none
        log := s.log ++ [.wrote t s.marker m] })
    | _, _ => some (false, s)
  | .syncDir, s => some (!c.fails, s)
  | .removeTmp, s => some ((), { s with tmp := Function.update s.tmp t none })
  | .removeMarker, s =>
    if c.fails then some (.failed, s)
    else some (if s.marker = none then .notFound else .removed, { s with marker := none, log := s.log ++ [.removed t] })
  | .spawn, s => if c.spawns then some (true, { s with spawned := true, beating := true }) else some (false, s)
  | .enter, s => if s.beating then some ((), s) else none
  | .finish, s => some ((), { s with beating := false })
  | .join, s => if s.spawned && !s.beating then some ((), s) else none
  | .due, s => some (c.due, s)
  | .now, s => some (c.now, s)
  | .drop, s => some ((), { s with dropped := true })

/-- With `reliable` no file operation fails. The process ends as a whole, so a thread that makes no further step keeps the
locks it holds. -/
def machine (reliable : Bool) : Machine Op Ans State where
  step t o s r s' := ∃ c, (reliable → c.fails = false) ∧ act c t o s = some (r, s')
  exit _ s := s

abbrev Act := Prog Op Ans

/-- One operation. -/
def call (o : Op) : Act (Ans o) := Prog.call o

/-! ## The marker store -/

namespace MarkerStore

/-- Write the marker to a file of its own and put that in place. -/
def replace (marker : InFlight) : Act Bool := do
  if ← call .createTmp then
    if ← call (.writeTmp marker) then
      if ← call .syncTmp then
        if ← call .rename then call .syncDir else return false
      else return false
    else return false
  else return false

/-- Replace the marker atomically. -/
def write (marker : InFlight) : Act Bool := do
  if ← call .createDir then
    if ← replace marker then return true
    else
      call .removeTmp
      return false
  else return false

def remove : Act Bool := do
  match ← call .removeMarker with
  | .removed => call .syncDir
  | .notFound => return true
  | .failed => return false

end MarkerStore

/-! ## The heartbeat -/

/-- The return of the heartbeat thread, which holds the `stopped` lock. -/
def leave : Act Unit := do
  call .unlockStopped
  call .finish

/-- Wait until the time is up or `stopped` is set, with the lock released in between. How long the wait takes is left open. -/
def waitTimeoutWhile : Act Unit := do
  if ← call .readStopped then return ()
  else
    call .unlockStopped
    call .lockStopped

/-- The loop of the heartbeat thread, for as many rounds as it makes in a run. -/
def beat (marker : InFlight) : Nat → Act Unit
  | 0 => return ()
  | rounds + 1 => do
    waitTimeoutWhile
    if ← call .readStopped then leave
    else
      call .lockClosing
      if ← call .readClosing then
        call .unlockClosing
        leave
      else if ← call .loadStop then
        call .setClosing
        let _ ← MarkerStore.remove
        call .unlockClosing
        leave
      else if ← call .due then
        let now ← call .now
        let marker := { marker with aliveAt := some now }
        let _ ← MarkerStore.write marker
        call .unlockClosing
        beat marker rounds
      else
        call .unlockClosing
        beat marker rounds

variable (marker : InFlight)

def heartbeat (rounds : Nat) : Act Unit := do
  call .enter
  call .lockStopped
  beat marker rounds

/-- `Heartbeat::stop`: have the thread return, and wait until it has. -/
def stopHeartbeat : Act Unit := do
  call .lockStopped
  call .setStopped
  call .unlockStopped
  call .join

/-! ## The job -/

/-- `InFlightRun::drop`: stop the heartbeat if there is one, and remove the marker. -/
def dropRun (heartbeat : Bool) : Act Unit := do
  if heartbeat then stopHeartbeat
  call .lockClosing
  let _ ← MarkerStore.remove
  call .unlockClosing
  call .deregister
  call .drop

/-- Whether the job may still start. -/
def startable : Act Bool := do
  if ← call .readClosing then return false else return !(← call .loadStop)

/-- True if the guard is handed out. The teardown is registered before the marker is written. -/
def startWithHeartbeat : Act Bool := do
  call .register
  call .lockClosing
  if ← startable then
    if ← MarkerStore.write marker then
      call .unlockClosing
      if ← call .spawn then return true
      else
        dropRun false
        return false
    else
      call .unlockClosing
      call .deregister
      return false
  else
    call .unlockClosing
    call .deregister
    return false

/-- A job from the start of its record to the end of its guard. -/
def job : Act Unit := do
  if ← startWithHeartbeat marker then dropRun true

/-! ## Stops and exits -/

/-- The registered teardown. -/
def teardown : Act Unit := do
  call .lockClosing
  call .setClosing
  let _ ← MarkerStore.remove
  call .unlockClosing

/-- Another thread: it requests a stop, or forces an exit and runs the teardown if it is registered. -/
inductive Role where
  | requestStop
  | forceExit

def Role.run : Role → Act Unit
  | .requestStop => call .setStop
  | .forceExit => do
    if ← call .takeTeardown then teardown

/-- The threads of one job: the job, its heartbeat, and any number of others. -/
def threads (rounds : Nat) (roles : Nat → Role) : Tid → Act Unit
  | 0 => job marker
  | 1 => heartbeat marker rounds
  | t + 2 => (roles t).run

end Pipette.Marker
