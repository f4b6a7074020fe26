import Pipette.Store.Shared
import Pipette.Store.Survey

/-!
# The processes that share the stores

`ensure_model` and `ensure_runtime`, the fetch under them, and the sweep, as programs over the operations of the shared disk.
Every path that returns drops the locks it took. Loops run as often as the `fuel` lets them; one that runs out ends as one
that fails. The sweep that a resolve ends with works on files of its own, so it is a process of its own here. Which surveyed
entries go is the plan's choice, and any is allowed. The look that a resolve begins with decides only what it reports and
whether it sweeps, and is left out.
-/

namespace Pipette.Shared

open Files Threads

variable {α μ : Type}

abbrev Act (μ : Type) := Prog (Op μ) Ans

/-- One operation. -/
def call (o : Op μ) : Act μ (Ans o) := Prog.call o

/-! ## Removing -/

/-- `remove_path`: whether all of it is gone. -/
def removePath (p : StorePath) : Nat → Act μ Bool
  | 0 => return false
  | fuel + 1 => do
    match ← call (.remove p) with
    | .removed => return true
    | .more => removePath p fuel
    | .failed => return false

/-! ## Staging -/

def stagingLockAttempts : Nat := 3

/-- Dropping the staged directory removes its lock file while it is still locked. -/
def dropStaged (st : Staged) : Act μ Unit := do
  let _ ← call (.remove st.lockPath)
  call (.unlock st.lock)

/-- Lock the lock file and make the directory. Nothing when a sweep removed the file first, `none` outside on an error. -/
def lockStaged (st : Staged) : Act μ (Option (Option Staged)) := do
  match ← call (.lock st.lock) with
  | .failed | .wouldBlock => return none
  | .locked | .unsupported =>
    if ← call (.exists st.lockPath) then
      if ← call (.mkdirs st.dir) then return some (some st)
      else
        dropStaged st
        return none
    else
      call (.unlock st.lock)
      return some none

variable (k : StoreKind)

def createStaged (key : Text) : Act μ (Option (Option Staged)) := do
  match ← call (.createStagingLock k key) with
  | none => return none
  | some st => lockStaged st

/-- Try some fresh names until one is not swept away before it is locked. -/
def createStagedDirLoop (k : StoreKind) (key : Text) : Nat → Act μ (Option Staged)
  | 0 => return none
  | attempts + 1 => do
    match ← createStaged k key with
    | none => return none
    | some (some st) => return some st
    | some none => createStagedDirLoop k key attempts

def createStagedDir (key : Text) : Act μ (Option Staged) := do
  if ← call (.mkdirs (staging k)) then createStagedDirLoop k key stagingLockAttempts else return none

/-! ## Publishing -/

section Ensure

variable (A : Artifacts α μ) (fuel : Nat)

def entryOf (a : α) : Entry := ⟨A.store a, A.key a⟩

/-- Remove what is at the target, then rename. -/
def replaceStagedPath (staged target : StorePath) : Act μ Bool := do
  if ← call (.mkdirs target.dropLast) then
    if ← call (.exists target) then
      if ← removePath target fuel then call (.rename staged target) else return false
    else call (.rename staged target)
  else return false

/-- Fetch into the staged directory and write the manifest, which the payload must not have left. -/
def prepare (a : α) (now : Int) (st : Staged) : Act μ (Option μ) := do
  if ← call (.mkdirs (st.dir ++ [blobsName])) then
    if ← call (.fill (st.dir ++ [blobsName])) then
      let bytes ← call .measure
      if ← call (.exists (st.dir ++ [manifestName])) then return none
      else if ← call (.write (st.dir ++ [manifestName]) (A.make a now bytes)) then return some (A.make a now bytes)
      else return none
    else return none
  else return none

/-- Publish what is prepared; a failure cleans up both places. -/
def publish (st : Staged) (target : StorePath) : Act μ Bool := do
  if ← replaceStagedPath fuel st.dir target then return true
  else
    let _ ← removePath target fuel
    let _ ← removePath st.dir fuel
    return false

/-- Fetch the artifact into a staged directory and rename it into place. -/
def fetchAndPublish (a : α) : Act μ (Option μ) := do
  let now ← call .clock
  if A.binds a then
    match ← createStagedDir (A.store a) (A.key a) with
    | none => return none
    | some st =>
      call (.note (.given st))
      match ← prepare A a now st with
      | none =>
        let _ ← removePath st.dir fuel
        call (.note .dropped)
        dropStaged st
        return none
      | some m =>
        let done ← publish fuel st (entryOf A a).dir
        call (.note .dropped)
        dropStaged st
        return if done then some m else none
  else return none

/-! ## Ensuring -/

/-- What a look for an artifact's manifest finds. -/
inductive Found (μ : Type) where
  | found (m : μ)
  | absent
  | torn
  | failed

/-- Look for the manifest: whether it is there, then its bytes and what they say. -/
def find (a : α) : Act μ (Found μ) := do
  if ← call (.exists (entryOf A a).manifest) then
    match ← call (.read (entryOf A a).manifest) with
    | .failed => return .failed
    | .bytes => return .torn
    | .manifest m => return if A.policy m && A.fits a m then .found m else .failed
  else return .absent

/-- Stamp the manifest of the entry its declared artifact is keyed to. -/
def touched (a : α) (m : μ) : Act μ μ := do
  let now ← call .clock
  call (.replace ((Entry.mk (A.store a) (A.home m)).manifest) (A.stamp now m))
  return A.stamp now m

/-- The lock file of an entry, made if it is missing. -/
def openEntryLock (path : StorePath) : Act μ (Option Handle) := do
  if ← call (.mkdirs (locks k)) then
    match ← call (.openCreate path) with
    | none => return none
    | some gen => return some ⟨path, gen⟩
  else return none

/-- Take the entry's lock, waiting for it; where there are no locks, go on without. -/
def lockEntry (e : Entry) : Act μ (Option Handle) := do
  match ← openEntryLock e.store e.lockPath with
  | none => return none
  | some lock =>
    match ← call (.tryLock lock) with
    | .locked | .unsupported => return some lock
    | .failed => return none
    | .wouldBlock =>
      match ← call (.lock lock) with
      | .locked | .unsupported => return some lock
      | .failed | .wouldBlock => return none

/-- Delete the entry, if there is one. -/
def removeEntryDir (a : α) : Act μ Bool := do
  if ← call (.exists (entryOf A a).dir) then removePath (entryOf A a).dir fuel else return true

/-- Look again, under the lock, and fetch what is not there. A manifest that does not parse goes first. -/
def ensureLocked (a : α) : Act μ (Option μ) := do
  match ← find A a with
  | .failed => return none
  | .found m => return some (← touched A a m)
  | .torn =>
    if ← removeEntryDir A fuel a then fetch else return none
  | .absent => fetch
where
  fetch : Act μ (Option μ) := do
    call (.note (.fetching (entryOf A a)))
    let fetched ← fetchAndPublish A fuel a
    call (.note .fetched)
    return fetched

/-- The manifest of the artifact: look, lock, look again, fetch. -/
def ensure (a : α) : Act μ (Option μ) := do
  match ← find A a with
  | .failed => return none
  | .found m => return some (← touched A a m)
  | .torn | .absent =>
    match ← lockEntry (entryOf A a) with
    | none => return none
    | some lock =>
      let got ← ensureLocked A fuel a
      call (.unlock lock)
      return got

/-! ## Resolving -/

/-- The in-use lock of an entry, if it can be had. -/
def holdEntry (e : Entry) : Act μ (Option Handle) := do
  match ← call (.openFile e.usePath) with
  | .opened gen => share ⟨e.usePath, gen⟩
  | .notFound | .failed =>
    match ← openEntryLock e.store e.usePath with
    | none => return none
    | some lock => share lock
where
  share (lock : Handle) : Act μ (Option Handle) := do
    match ← call (.lockShared lock) with
    | .locked => return some lock
    | .wouldBlock | .unsupported | .failed => return none

/-- Close the file, if there is one. -/
def release : Option Handle → Act μ Unit
  | none => return ()
  | some lock => call (.unlock lock)

/-- Take the in-use lock, then look: nothing inside when the entry is gone, nothing at all on an error. -/
def hold (a : α) : Act μ (Option (Option (Option Handle))) := do
  let lock ← holdEntry (entryOf A a)
  match ← find A a with
  | .found _ => return some (some lock)
  | .absent | .torn =>
    release lock
    return some none
  | .failed =>
    release lock
    return none

/-- Ensure and hold until an entry is held: the manifest and the lock, if it could be had. -/
def resolveLoop (a : α) : Nat → Act μ (Option (μ × Option Handle))
  | 0 => return none
  | rounds + 1 => do
    match ← ensure A fuel a with
    | none => return none
    | some m =>
      match ← hold A a with
      | none => return none
      | some (some lock) => return some (m, lock)
      | some none => resolveLoop a rounds

/-- A run: resolve the artifact, use it, and drop its lock. -/
def resolve (a : α) : Act μ Unit := do
  match ← resolveLoop A fuel a fuel with
  | none | some (_, none) => return ()
  | some (_, some lock) =>
    call (.note (.inUse (entryOf A a) lock))
    call (.note .released)
    call (.unlock lock)

/-- A process that ensures the artifact and nothing more. -/
def ensureOnce (a : α) : Act μ Unit := do
  match ← ensure A fuel a with
  | none => return ()
  | some m => call (.note (.ended m))

end Ensure

/-! ## Sweeping -/

section Sweep

variable (fuel : Nat)

/-- The lock of a child of `.staging`: itself for a lock file, the file beside it for a directory. -/
def stagingLockOf (child : Text) : StorePath :=
  match stagedDirOfLock child with
  | some _ => stagedPath k child
  | none => stagedLockPath k child

/-- Take that lock without waiting. Nothing inside without a lock file, nothing at all when it is not got. -/
def takeStagingLock (child : Text) : Act μ (Option (Option Handle)) := do
  match ← call (.openFile (stagingLockOf k child)) with
  | .notFound => return some none
  | .failed => return none
  | .opened gen =>
    match ← call (.tryLock ⟨stagingLockOf k child, gen⟩) with
    | .locked => return some (some ⟨stagingLockOf k child, gen⟩)
    | .wouldBlock | .unsupported | .failed => return none

/-- The children of `.staging` whose lock can be taken; a lock file goes with its directory. -/
def stagingOrphans (k : StoreKind) : List Text → Act μ (List Target)
  | [] => return []
  | child :: children => do
    match ← takeStagingLock k child with
    | none => stagingOrphans k children
    | some lock =>
      release lock
      let beside ← match stagedDirOfLock child with
        | none => pure false
        | some dir => call (.exists (stagedPath k dir))
      let orphans ← stagingOrphans k children
      return if beside then orphans else .staged k child :: orphans

/-- The children of a store root that can go. The directory of the entry locks never does. -/
def scanChildren (k : StoreKind) : List Text → Act μ (List Target)
  | [] => return []
  | name :: names => do
    let found ← if name = stagingName then do stagingOrphans k (← call (.list (staging k)))
      else pure (if name = locksName then [] else [.child k name])
    return found ++ (← scanChildren k names)

def scanStore : Act μ (List Target) := do scanChildren k (← call (.list (storeRoot k)))

/-- Take the in-use lock of a child of a store root without waiting; without locks, go on without. -/
def takeInUseLock (e : Entry) : Act μ (Option Handle) := do
  match ← openEntryLock e.store e.usePath with
  | none => return none
  | some lock =>
    match ← call (.tryLock lock) with
    | .locked | .unsupported => return some lock
    | .wouldBlock | .failed => return none

/-- Move the child under `.staging` under its in-use lock, then delete it there. -/
def moveOutAndRemove (k : StoreKind) (name : Text) : Act μ Unit := do
  match ← takeInUseLock ⟨k, name⟩ with
  | none => return ()
  | some lock =>
    if ← call (.mkdirs (staging k)) then
      match ← call (.moveOut (storeRoot k ++ [name]) k name) with
      | .failed | .notFound => call (.unlock lock)
      | .moved doomed =>
        call (.unlock lock)
        let _ ← removePath (stagedPath k doomed) fuel
        return ()
    else call (.unlock lock)

/-- Remove what a plan names: a child of `.staging` under its lock and then the lock, any other by moving it out. -/
def removeEntry : Target → Act μ Unit
  | .child k name => moveOutAndRemove fuel k name
  | .staged k child => do
    match ← takeStagingLock k child with
    | none => return ()
    | some lock =>
      if ← removePath (stagedPath k child) fuel then
        let _ ← removePath (stagingLockOf k child) fuel
        release lock
      else release lock

def applySweep : List Target → Act μ Unit
  | [] => return ()
  | target :: targets => do
    removeEntry fuel target
    applySweep targets

/-- Survey both stores, choose and remove, round after round. -/
def sweep : Nat → Act μ Unit
  | 0 => return ()
  | rounds + 1 => do
    let models ← scanStore .models
    let runtimes ← scanStore .runtimes
    let chosen ← call (.choose (models ++ runtimes))
    applySweep fuel chosen
    sweep rounds

end Sweep

/-- What a process does. -/
inductive Job (α : Type) where
  | resolve (a : α)
  | ensure (a : α)
  | sweep (rounds : Nat)
  | idle

def Job.program (A : Artifacts α μ) (fuel : Nat) : Job α → Act μ Unit
  | .resolve a => Shared.resolve A fuel a
  | .ensure a => ensureOnce A fuel a
  | .sweep rounds => Shared.sweep fuel rounds
  | .idle => return ()

/-- The artifact a job fetches if it is not stored. -/
def Job.artifact : Job α → Option α
  | .resolve a | .ensure a => some a
  | .sweep _ | .idle => none

/-- The processes at their start. -/
def start (A : Artifacts α μ) (fuel : Nat) (d : Disk μ) (jobs : Tid → Job α) : Pool (Op μ) Ans (Disk μ) :=
  ⟨d, fun t => (jobs t).program A fuel⟩

end Pipette.Shared
