import Pipette.Lib.Threads
import Pipette.Store.ModelStore
import Pipette.Store.Quota

/-!
# Stores shared by processes

The file system that processes share, operation by operation. A locked file is told apart by its path and how many were made
there before it (its generation), so that a lock belongs to the file. `given`, `fetching`, `inUse`, `published` and `ended`
are notes of what processes have done; no operation reads them. Both stores work alike, so the artifacts and their manifests
are left open (`Artifacts`). The temporary file of a manifest is left out, and so are the reads of a survey, which change
nothing.
-/

namespace Pipette.Shared

open Files Threads Function

/-- Artifacts of the stores and their manifests. -/
structure Artifacts (α μ : Type) where
  store : α → StoreKind
  /-- The storage key. -/
  key : α → Text
  /-- The checks of a manifest that is read, and that it is of the artifact's type. -/
  policy : μ → Bool
  fits : α → μ → Bool
  /-- The key of the artifact the manifest declares. -/
  home : μ → Text
  /-- Whether the artifact has a stored form; one without is not fetched. -/
  binds : α → Bool
  /-- The manifest of a fetch that started at a time and occupies some bytes. -/
  make : α → Int → Nat → μ
  /-- The manifest with the time of its last use. -/
  stamp : Int → μ → μ
  policy_make : ∀ a now n, binds a → policy (make a now n)
  fits_make : ∀ a now n, fits a (make a now n)
  home_make : ∀ a now n, home (make a now n) = key a
  policy_stamp : ∀ now m, policy (stamp now m) = policy m
  fits_stamp : ∀ a now m, fits a (stamp now m) = fits a m
  home_stamp : ∀ now m, home (stamp now m) = home m

/-- The bytes of a file: those that parse as a manifest, and all others. -/
inductive Data (μ : Type) where
  | manifest (m : μ)
  | bytes

/-! ## Paths -/

def useSuffix : Text := ".use"

def storeRoot : StoreKind → StorePath
  | .models => modelsDir
  | .runtimes => ["runtimes"]

variable (k : StoreKind)

def staging : StorePath := storeRoot k ++ [stagingName]
def locks (k : StoreKind) : StorePath := storeRoot k ++ [locksName]

/-- Where `<root>/<key>` leads: the file system resolves an empty name, `.` and `..`. -/
def entryPath (key : Text) : StorePath :=
  if key = [] ∨ key = ['.'] then storeRoot k
  else if key = ['.', '.'] then (storeRoot k).dropLast
  else storeRoot k ++ [key]

def stagedPath (name : Text) : StorePath := staging k ++ [name]

/-- The lock file beside a staged directory. -/
def stagedLockPath (name : Text) : StorePath := staging k ++ [name ++ lockSuffix]

/-- `.locks/<key><suffix>`. -/
def entryLockPath (key suffix : Text) : StorePath := locks k ++ [key ++ suffix]

/-- The random part of a staged name. -/
def isUnique (u : Text) : Bool := u.length = 8 && u.all fun c => c ∈ "0123456789abcdef".toList

/-! ## The disk -/

/-- A file, by the path it was made at and its generation there. -/
structure Handle where
  path : StorePath
  gen : Nat
  deriving DecidableEq

/-- A staged directory and the lock a fetch holds on the file beside it. -/
structure Staged where
  store : StoreKind
  name : Text
  gen : Nat
  deriving DecidableEq

def Staged.dir (st : Staged) : StorePath := stagedPath st.store st.name
def Staged.lockPath (st : Staged) : StorePath := stagedLockPath st.store st.name
def Staged.lock (st : Staged) : Handle := ⟨st.lockPath, st.gen⟩

/-- An entry of a store. -/
structure Entry where
  store : StoreKind
  key : Text
  deriving DecidableEq

def Entry.dir (e : Entry) : StorePath := entryPath e.store e.key
def Entry.manifest (e : Entry) : StorePath := e.dir ++ [manifestName]
def Entry.lockPath (e : Entry) : StorePath := entryLockPath e.store e.key lockSuffix
def Entry.usePath (e : Entry) : StorePath := entryLockPath e.store e.key useSuffix

structure Disk (μ : Type) where
  tree : Tree Text (Data μ)
  /-- The generation of the last file made at a path. -/
  gen : StorePath → Nat
  excl : Handle → Option Tid
  shared : Handle → Tid → Bool
  /-- The staged names that have been used. -/
  seen : StoreKind → Text → Bool
  /-- The staged directory a fetch has been given and still has. -/
  given : Tid → Option Staged
  /-- The entry a process is fetching. -/
  fetching : Tid → Option Entry
  /-- The entry a process was resolved to, and the in-use lock it was given. -/
  inUse : Tid → Option (Entry × Handle)
  /-- The directories renamed into place, with their manifests. -/
  published : List (StorePath × μ)
  /-- The manifest an `ensure` that succeeded returned. -/
  ended : Tid → Option μ

/-! ## Operations -/

inductive Opened where
  | opened (gen : Nat)
  | notFound
  | failed

inductive Locked where
  | locked
  | wouldBlock
  | unsupported
  | failed

inductive Decoded (μ : Type) where
  | manifest (m : μ)
  | bytes
  | failed

inductive Removed where
  | removed
  | more
  | failed

inductive MovedOut where
  | moved (name : Text)
  | notFound
  | failed

/-- What a sweep can remove: a child of `.staging`, or any other child of a store root. -/
inductive Target where
  | staged (store : StoreKind) (child : Text)
  | child (store : StoreKind) (name : Text)
  deriving DecidableEq

/-- What a process has come to. -/
inductive Note (μ : Type) where
  | given (st : Staged)
  | dropped
  | fetching (e : Entry)
  | fetched
  | inUse (e : Entry) (lock : Handle)
  | released
  | ended (m : μ)

inductive Op (μ : Type) where
  | exists (p : StorePath)
  | read (p : StorePath)
  | mkdirs (p : StorePath)
  | openFile (p : StorePath)
  | openCreate (p : StorePath)
  /-- Create the lock file beside a fresh staged name. -/
  | createStagingLock (k : StoreKind) (key : Text)
  | lock (h : Handle)
  | tryLock (h : Handle)
  | lockShared (h : Handle)
  /-- Close the file, which drops the lock on it. -/
  | unlock (h : Handle)
  /-- Write files below a directory. -/
  | fill (p : StorePath)
  /-- Write a manifest and sync it. -/
  | write (p : StorePath) (m : μ)
  /-- Write beside the file, then rename over it. -/
  | replace (p : StorePath) (m : μ)
  | rename (p q : StorePath)
  /-- Rename to a fresh staged name. -/
  | moveOut (p : StorePath) (k : StoreKind) (key : Text)
  /-- One step of the removal of a file or a directory with all below it. -/
  | remove (p : StorePath)
  | list (p : StorePath)
  | clock
  | measure
  /-- Which of the entries surveyed a sweep removes. -/
  | choose (found : List Target)
  | note (n : Note μ)

@[reducible] def Ans {μ : Type} : Op μ → Type
  | .exists _ | .mkdirs _ | .fill _ | .write .. | .rename .. => Bool
  | .read _ => Decoded μ
  | .openFile _ => Opened
  | .openCreate _ => Option Nat
  | .createStagingLock .. => Option Staged
  | .lock _ | .tryLock _ | .lockShared _ => Locked
  | .unlock _ | .replace .. | .note _ => Unit
  | .moveOut .. => MovedOut
  | .remove _ => Removed
  | .list _ => List Text
  | .clock => Int
  | .measure => Nat
  | .choose _ => List Target

section Disk

variable {μ : Type}

namespace Disk

/-- Nobody holds a lock on the file. -/
def Free (d : Disk μ) (h : Handle) : Prop := d.excl h = none ∧ ∀ u, d.shared h u = false

def withTree (d : Disk μ) (tree : Tree Text (Data μ)) : Disk μ := { d with tree }

/-- A file is made at `p`, of the next generation. -/
def create (d : Disk μ) (p : StorePath) : Disk μ :=
  { d with tree := write p (.file .bytes) d.tree, gen := update d.gen p (d.gen p + 1) }

/-- The staged name is used up. -/
def use (d : Disk μ) (k : StoreKind) (name : Text) : Disk μ :=
  { d with seen := fun k' n => (k' = k && n = name) || d.seen k' n }

def lockExcl (d : Disk μ) (t : Tid) (h : Handle) : Disk μ := { d with excl := update d.excl h (some t) }

def lockShared (d : Disk μ) (t : Tid) (h : Handle) : Disk μ :=
  { d with shared := fun h' u => (h' = h && u = t) || d.shared h' u }

def unlock (d : Disk μ) (t : Tid) (h : Handle) : Disk μ :=
  { d with
    excl := fun h' => if h' = h ∧ d.excl h' = some t then none else d.excl h'
    shared := fun h' u => !(h' = h && u = t) && d.shared h' u }

/-- Nothing but an empty directory is in the way of a rename to `q`. -/
def Vacant (d : Disk μ) (q : StorePath) : Prop := fileAt d.tree q = false ∧ ∀ r, r ≠ [] → d.tree (q ++ r) = none

/-- A rename, which publishes the manifest in the directory moved. -/
def renamed (d : Disk μ) (p q : StorePath) : Disk μ :=
  { d with
    tree := move p q d.tree
    published :=
      match d.tree (p ++ [manifestName]) with
      | some (.file (.manifest m)) => d.published ++ [(q, m)]
      | _ => d.published }

def noted (d : Disk μ) (t : Tid) : Note μ → Disk μ
  | .given st => { d with given := update d.given t (some st) }
  | .dropped => { d with given := update d.given t none }
  | .fetching e => { d with fetching := update d.fetching t (some e) }
  | .fetched => { d with fetching := update d.fetching t none }
  | .inUse e lock => { d with inUse := update d.inUse t (some (e, lock)) }
  | .released => { d with inUse := update d.inUse t none }
  | .ended m => { d with ended := update d.ended t (some m) }

/-- A process that ends drops its locks. -/
def exit (t : Tid) (d : Disk μ) : Disk μ :=
  { d with
    excl := fun h => if d.excl h = some t then none else d.excl h
    shared := fun h u => u ≠ t && d.shared h u
    given := update d.given t none
    fetching := update d.fetching t none
    inUse := update d.inUse t none }

end Disk

/-- What the bytes of a file are read as. -/
def decode : Data μ → Decoded μ
  | .manifest m => .manifest m
  | .bytes => .bytes

/-- A lock is got if it can be, and a file system without locks says so. -/
def locking (supported : Bool) (can : Prop) (got d : Disk μ) (r : Locked) (d' : Disk μ) : Prop :=
  r = .locked ∧ supported ∧ can ∧ d' = got ∨ r = .unsupported ∧ supported = false ∧ d' = d ∨ r = .failed ∧ d' = d

/-- What thread `t` can be answered, and the disk after it. Any operation can fail. -/
def does (supported : Bool) (t : Tid) : (o : Op μ) → Disk μ → Ans o → Disk μ → Prop
  | .exists p, d, r, d' => d' = d ∧ r = (d.tree p).isSome
  | .read p, d, r, d' => d' = d ∧ (r = .failed ∨ ∃ c, d.tree p = some (.file c) ∧ r = decode c)
  | .mkdirs p, d, r, d' => ∃ q, q <+: p ∧ clear q d.tree ∧ d' = d.withTree (mkdirAll q d.tree) ∧ (r → q = p)
  | .openFile p, d, r, d' => d' = d ∧ (r = .opened (d.gen p) ∧ fileAt d.tree p ∨ r = .notFound ∧ d.tree p = none ∨
      r = .failed)
  | .openCreate p, d, r, d' => r = some (d.gen p) ∧ fileAt d.tree p ∧ d' = d ∨
      r = some (d.gen p + 1) ∧ d.tree p = none ∧ d.tree p.dropLast = some .dir ∧ d' = d.create p ∨ r = none ∧ d' = d
  | .createStagingLock k key, d, r, d' => (∃ u, isUnique u ∧ d.seen k (stagedName key u) = false ∧
      d.tree (stagedLockPath k (stagedName key u)) = none ∧ d.tree (staging k) = some .dir ∧
      d' = (d.create (stagedLockPath k (stagedName key u))).use k (stagedName key u) ∧
      r = some ⟨k, stagedName key u, d.gen (stagedLockPath k (stagedName key u)) + 1⟩) ∨ r = none ∧ d' = d
  | .lock h, d, r, d' => locking supported (d.Free h) (d.lockExcl t h) d r d'
  | .tryLock h, d, r, d' => locking supported (d.Free h) (d.lockExcl t h) d r d' ∨
      r = .wouldBlock ∧ supported ∧ ¬d.Free h ∧ d' = d
  | .lockShared h, d, r, d' => locking supported (d.excl h = none) (d.lockShared t h) d r d'
  | .unlock h, d, _, d' => d' = d.unlock t h
  | .fill p, d, r, d' => (d.tree p = some .dir ∧ ∃ tree, Within (fun q => p <+: q ∧ q ≠ p) d.tree tree ∧ d' = d.withTree tree) ∨
      r = false ∧ d' = d
  | .write p m, d, r, d' => d.tree p.dropLast = some .dir ∧ d.tree p ≠ some .dir ∧
      (d' = d.withTree (write p (.file (.manifest m)) d.tree) ∨ r = false ∧ d' = d.withTree (write p (.file .bytes) d.tree)) ∨
      r = false ∧ d' = d
  | .replace p m, d, _, d' => d.tree p.dropLast = some .dir ∧ d.tree p ≠ some .dir ∧
      d' = d.withTree (write p (.file (.manifest m)) d.tree) ∨ d' = d
  | .rename p q, d, r, d' => r ∧ (d.tree p).isSome ∧ ¬p <+: q ∧ d.Vacant q ∧ d.tree q.dropLast = some .dir ∧
      d' = d.renamed p q ∨ r = false ∧ d' = d
  | .moveOut p k key, d, r, d' => (∃ u, isUnique u ∧ d.seen k (stagedName key u) = false ∧ (d.tree p).isSome ∧
      ¬p <+: stagedPath k (stagedName key u) ∧ d.tree (staging k) = some .dir ∧ r = .moved (stagedName key u) ∧
      d' = (d.withTree (move p (stagedPath k (stagedName key u)) d.tree)).use k (stagedName key u)) ∨
      r = .notFound ∧ (d.tree p = none ∨ d.tree (staging k) = none) ∧ d' = d ∨ r = .failed ∧ d' = d
  | .remove p, d, r, d' => ∃ keep, d' = d.withTree (remove keep p d.tree) ∧ (r = .removed → keep = fun _ => false)
  | .list p, d, r, d' => d' = d ∧ ∀ name ∈ r, IsName name ∧ (d.tree (p ++ [name])).isSome
  | .clock, d, _, d' => d' = d
  | .measure, d, _, d' => d' = d
  | .choose found, d, r, d' => d' = d ∧ ∀ target ∈ r, target ∈ found
  | .note n, d, _, d' => d' = d.noted t n

/-- The disk as a machine. Killing a process drops its locks. -/
def machine (μ : Type) (supported : Bool) : Machine (Op μ) Ans (Disk μ) where
  step := does supported
  exit := Disk.exit

end Disk

end Pipette.Shared
