import Pipette.Lib.Threads
import Pipette.Worker.Submit

/-!
# Submitting a pending result

`submit_pending_result` as processes run it on one pending result: a lock file beside the result directory, the recheck of the
directory under the lock, the POST, the `job_id` marker and the move to `synced/`. A lock belongs to an inode, so a removed
lock file and a new one at its path are locked apart. `posts` keeps the POSTs and their answers.
-/

namespace Pipette.Results

open Threads Worker

/-! ## The shared disk -/

abbrev Inode := Nat

/-- Its payload, the `job_id` marker, and the sibling the marker is written through. -/
structure ResultDir (π : Type) where
  payload : π
  marker : Option Text
  tmp : Option Text

/-- A POST is not accepted, or it is, and this client reads the job id off the answer or does not. -/
inductive Answer where
  | refused
  | accepted (jobId : Option Text)
  deriving DecidableEq

def Answer.isAccepted : Answer → Bool
  | .refused => false
  | .accepted _ => true

/-- The lock file beside the directory of one pending result, the holder of each inode's lock, its directory under `pending/`,
and those under `synced/`. `posts` are the POSTs with their answers; `unmarked t`: a POST of process `t` was accepted and
its marker is not in place. -/
structure Disk (π : Type) where
  lockFile : Option Inode
  inodes : Nat
  holder : Inode → Option Tid
  pending : Option (ResultDir π)
  synced : Text → Option (ResultDir π)
  posts : List (Tid × Answer)
  unmarked : Tid → Bool

/-- The answers of `File::try_lock` that are told apart. -/
inductive TryLock where
  | taken
  | wouldBlock
  | unsupported
  deriving DecidableEq

/-- What a submit does to the disk and the server. -/
inductive Op (π : Type) where
  | createLock
  | tryLock (lock : Inode)
  | srcExists
  | removeLock
  | markerExists
  | readMarker
  | loadPayload
  | post (body : π)
  | writeTmp (jobId : Text)
  | renameTmp
  | rename (dir : Text)
  | close (lock : Inode)

/-- What an operation answers; `none` and `false` are its errors. -/
abbrev Ans {π : Type} : Op π → Type
  | .createLock => Inode
  | .tryLock _ => TryLock
  | .srcExists => Bool
  | .removeLock => Unit
  | .markerExists => Bool
  | .readMarker => Option Text
  | .loadPayload => Option π
  | .post _ => Answer
  | .writeTmp _ => Bool
  | .renameTmp => Bool
  | .rename _ => Bool
  | .close _ => Unit

variable {π : Type}

def Op.isPost : Op π → Bool
  | .post _ => true
  | _ => false

/-- What process `t` is answered and leaves behind. `locks`: the file system has locks; `answer` is what the server makes of a
POST. An operation fails only where what it is about is not there, and a rename also where its target is. -/
def act (locks : Bool) (t : Tid) (answer : Answer) : (o : Op π) → Disk π → Ans o × Disk π
  | .createLock, s =>
    match s.lockFile with
    | some lock => (lock, s)
    | none => (s.inodes, { s with lockFile := some s.inodes, inodes := s.inodes + 1 })
  | .tryLock lock, s =>
    if !locks then (.unsupported, s)
    else if s.holder lock = none then (.taken, { s with holder := Function.update s.holder lock (some t) })
    else (.wouldBlock, s)
  | .srcExists, s => (s.pending.isSome, s)
  | .removeLock, s => ((), { s with lockFile := none })
  | .markerExists, s => (s.pending.any fun dir => dir.marker.isSome, s)
  | .readMarker, s => (s.pending.bind (·.marker), s)
  | .loadPayload, s => (s.pending.map (·.payload), s)
  | .post _, s =>
    (answer, { s with
      posts := s.posts ++ [(t, answer)]
      unmarked := Function.update s.unmarked t (s.unmarked t || answer.isAccepted) })
  | .writeTmp jobId, s =>
    match s.pending with
    | some dir => (true, { s with pending := some { dir with tmp := some jobId } })
    | none => (false, s)
  | .renameTmp, s =>
    match s.pending with
    | some ⟨payload, _, some jobId⟩ =>
      (true, { s with pending := some ⟨payload, some jobId, none⟩, unmarked := Function.update s.unmarked t false })
    | _ => (false, s)
  | .rename name, s =>
    match s.pending, s.synced name with
    | some dir, none => (true, { s with pending := none, synced := Function.update s.synced name (some dir) })
    | _, _ => (false, s)
  | .close lock, s => ((), { s with holder := fun i => if i = lock ∧ s.holder i = some t then none else s.holder i })

/-- A killed process releases its locks. Between the acceptance of its POST and its marker it is not killed; it can only make
no further step. -/
def exit (t : Tid) (s : Disk π) : Disk π :=
  if s.unmarked t then s else { s with holder := fun i => if s.holder i = some t then none else s.holder i }

/-- The processes on one disk, against a server that gives the answers `answers` says. -/
def machine (π : Type) (locks : Bool) (answers : Answer → Bool) : Machine (Op π) Ans (Disk π) where
  step t o s r s' := ∃ answer, (o.isPost → answers answer) ∧ act locks t answer o s = (r, s')
  exit := exit

/-! ## The submit -/

abbrev Act (π : Type) := Prog (Op π) Ans

/-- One operation. -/
def call (o : Op π) : Act π (Ans o) := Prog.call o

/-- What a submit ends in: `None`, the job id, or an error. -/
inductive Outcome where
  | skipped
  | submitted (jobId : Text)
  | failed
  deriving DecidableEq

/-- A job id with the directory it names under `synced/`. -/
def checkedJobId (jobId : Text) : Option (Text × Text) := (checkJobId jobId).map fun dir => (jobId, dir)

variable (preflight : π → Option π)

/-- Post the payload and record the job id. `preflight` stands for the checks and the repair of a payload before it is sent. -/
def postPending : Act π (Option (Text × Text)) := do
  match ← call .loadPayload with
  | none => return none
  | some payload =>
    match preflight payload with
    | none => return none
    | some body =>
      match ← call (.post body) with
      | .refused | .accepted none => return none
      | .accepted (some jobId) =>
        match checkedJobId jobId with
        | none => return none
        | some checked =>
          -- Through a sibling, so a kill mid-write cannot leave an empty marker.
          if ← call (.writeTmp jobId) then
            if ← call .renameTmp then return some checked else return none
          else return none

/-- The job id on record, or that of a new POST. -/
def recordedJobId : Act π (Option (Text × Text)) := do
  if ← call .markerExists then
    match ← call .readMarker with
    | none => return none
    | some text => return checkedJobId (trimText text)
  else postPending preflight

/-- `move_result_dir`: a no-op when the source is already gone. -/
def moveResultDir (dir : Text) : Act π Bool := do
  if ← call .srcExists then call (.rename dir) else return true

/-- The submit of a process that got past the lock. -/
def submitLocked : Act π Outcome := do
  if ← call .srcExists then
    match ← recordedJobId preflight with
    | none => return .failed
    | some (jobId, dir) =>
      if ← moveResultDir dir then
        call .removeLock
        return .submitted jobId
      else return .failed
  else
    -- Every holder rechecks the source, so the lock file can go once it has moved.
    call .removeLock
    return .skipped

/-- Submit the pending result and move it to synced. The lock is released on every way out. -/
def submitPendingResult : Act π Outcome := do
  let lock ← call .createLock
  match ← call (.tryLock lock) with
  | .wouldBlock => return .skipped
  | .taken | .unsupported =>
    let outcome ← submitLocked preflight
    call (.close lock)
    return outcome

/-- Any number of processes that submit the result of a disk. -/
def submits (d : Disk π) : Pool (Op π) Ans (Disk π) :=
  ⟨d, fun _ => do
    let _ ← submitPendingResult preflight
    return ()⟩

end Pipette.Results
