import Pipette.Lib.Locks
import Pipette.Proxy.Device

/-!
# The build pool and the processes that share it

In pool mode a process reads on its first phone which runtimes each new bundle of the pool directory provides, keeps that in
`builds.json`, and then runs one thread per phone. Any number of processes share the state directory; an operator changes the
pool directory while none runs. What a phone has is named by the bundle's path and stamp. `readings`, `launches`, `displaced`
and `outdated` only note what happened.
-/

namespace Pipette.Proxy

open Threads
open Function (update)

/-! ## The pool directory and the index -/

/-- `BuildStamp`: length and modification time of a bundle's marker. -/
structure BuildStamp where
  len : Nat
  modifiedSecs : Int
  deriving DecidableEq

/-- The contents that a path had with a stamp. -/
structure Bundle where
  path : Text
  stamp : BuildStamp
  deriving DecidableEq

/-- The bundles in the pool directory. -/
structure PoolDir where
  bundles : List Bundle
  unique : ∀ a ∈ bundles, ∀ b ∈ bundles, a.path = b.path → a = b

/-- `discover`: the paths of the bundles, sorted. -/
def PoolDir.discover (dir : PoolDir) : List Text := (dir.bundles.map (·.path)).insertionSort (· ≤ ·)

def PoolDir.bundleAt (dir : PoolDir) (path : Text) : Option Bundle := dir.bundles.find? (·.path = path)

theorem PoolDir.bundleAt_some {dir : PoolDir} {path : Text} {b : Bundle} (h : dir.bundleAt path = some b) :
    b ∈ dir.bundles ∧ b.path = path :=
  ⟨List.mem_of_find?_eq_some h, by simpa using List.find?_some h⟩

variable {F : Formats}

structure KnownBuild (F : Formats) where
  path : Text
  stamp : BuildStamp
  /-- The runtimes this build provides, as it was read. -/
  runtimes : List F.Runtime

def KnownBuild.bundle (known : KnownBuild F) : Bundle := ⟨known.path, known.stamp⟩

/-- `BuildIndex`: every build the proxy has read, in the order of the paths. -/
structure BuildIndex (F : Formats) where
  entries : List (KnownBuild F)
  unique : ∀ a ∈ entries, ∀ b ∈ entries, a.path = b.path → a = b

namespace BuildIndex

def empty : BuildIndex F := ⟨[], nofun⟩

variable (index : BuildIndex F)

/-- The entry of the build, if it was read with this stamp. -/
def current (build : Text) (stamp : BuildStamp) : Option (KnownBuild F) :=
  (index.entries.find? (·.path = build)).filter (·.stamp = stamp)

def record (build : Text) (stamp : BuildStamp) (runtimes : List F.Runtime) : BuildIndex F where
  entries := (index.entries.filter (·.path ≠ build)).orderedInsert (fun a b => a.path ≤ b.path) ⟨build, stamp, runtimes⟩
  unique := by
    intro a ha b hb hpath
    rw [List.mem_orderedInsert, List.mem_filter, decide_eq_true_eq] at ha hb
    rcases ha with rfl | ⟨ha, hane⟩
    · exact hb.elim Eq.symm fun h => absurd hpath.symm h.2
    · rcases hb with rfl | ⟨hb, -⟩
      · exact absurd hpath hane
      · exact index.unique a ha b hb hpath

/-- The index without the builds that are gone. -/
def retainPresent (present : List Text) : BuildIndex F where
  entries := index.entries.filter fun known => known.path ∈ present
  unique a ha b hb := index.unique a (List.mem_filter.1 ha).1 b (List.mem_filter.1 hb).1

/-- The first build, by path, that provides the runtime. -/
def buildFor [DecidableEq F.Runtime] (index : BuildIndex F) (runtime : F.Runtime) : Option (KnownBuild F) :=
  index.entries.find? fun known => known.runtimes.contains runtime

variable (flagsFor : F.Runtime → Option (List Text))

/-- The flags of every runtime of the pool, sorted, each once; none if one cannot be made. -/
def capabilities : Option (List Text) :=
  ((index.entries.flatMap (·.runtimes)).mapM flagsFor).map fun flags => (flags.flatten.insertionSort (· ≤ ·)).dedup

def nothingRead (dir : Text) : AnyError :=
  .plain ("no build in " ++ dir ++ " could be read, so this client would advertise nothing and the server " ++
    "could never send it a job")

/-- `check_advertisable`. -/
def checkAdvertisable (dir : Text) : Except AnyError Unit :=
  if index.entries.isEmpty then .error (nothingRead dir) else .ok ()

/-- `NoBuildForError`. -/
def noBuildFor (dir : Text) (runtime : F.Runtime) : AnyError :=
  match index.capabilities flagsFor with
  | none => capabilitiesFailed
  | some advertised => .plain ("no build in " ++ dir ++ " provides the runtime this job names (" ++
      F.runtimeText runtime ++ "); the pool advertises [" ++
      joined ", " (advertised.map fun flag => '"' :: flag ++ ['"']) ++ "]")

/-- What the threads of the phones read of the pool. -/
def view [DecidableEq F.Runtime] (index : BuildIndex F) (flagsFor : F.Runtime → Option (List Text)) (dir : Text) : PoolView F where
  buildFor runtime := (index.buildFor runtime).map (·.path)
  capabilities := index.capabilities flagsFor
  advertisable := index.checkAdvertisable dir
  noBuild := index.noBuildFor flagsFor dir

end BuildIndex

namespace Bundles

/-! ## Processes -/

/-- A configured phone: its state directory, its configuration, and the iOS version the probe read. -/
structure Phone where
  dir : Text
  cfg : Config
  osVersion : Option Text

/-- An operator, the main thread of a process, or the thread of one of its phones. -/
inductive Role where
  | operator
  | main (p : Nat)
  | device (p i : Nat)
  deriving DecidableEq

/-- The processes of a history, and the threads they are made of. -/
structure Processes (F : Formats) where
  fleet : List Phone
  phones : Nat → List Phone
  selected : ∀ p, ∀ phone ∈ phones p, phone ∈ fleet
  /-- Whether the verb is `run`; else it refreshes the pool and ends. -/
  runs : Nat → Bool
  role : Tid → Role
  once : ∀ t u, role t = role u → role t ≠ .operator → t = u
  /-- How often the operator changes the pool directory. -/
  changes : Nat
  /-- The rounds and the restarts of each phone's thread. -/
  rounds : Nat
  restarts : Nat
  flagsFor : F.Runtime → Option (List Text)
  poolDir : Text

/-- The process of a thread. -/
def Role.process : Role → Nat
  | .operator => 0
  | .main p => p
  | .device p _ => p

/-! ## The machine -/

inductive LockName where
  | phone (dir : Text)
  | pool
  deriving DecidableEq

inductive Op (F : Formats) where
  | starts
  /-- Load `installed.json` of a phone; the process remembers its path. -/
  | loadInstalled (phone : Text)
  | tryLock (phone : Text)
  /-- Wait for `builds.lock`; false on a stop. -/
  | lockPool
  | unlockPool
  | loadIndex
  | discover
  | readStamp (build : Text)
  /-- Write an empty `installed.json`, without the process forgetting what it remembers. -/
  | forget (phone : Text)
  | storeIndex (index : BuildIndex F)
  | onPhone (phone : Text) (o : Proxy.Op F)
  /-- Start the threads of the phones. -/
  | fork (index : BuildIndex F)
  /-- The thread of a phone begins. -/
  | enter
  | leaves
  /-- The operator changes the pool directory. -/
  | alter

abbrev Ans : Op F → Type
  | .loadInstalled _ | .tryLock _ | .lockPool => Bool
  | .loadIndex => Except AnyError (BuildIndex F)
  | .discover => Except AnyError (List Text)
  | .readStamp _ => Except AnyError BuildStamp
  | .forget _ | .storeIndex _ => Except AnyError Unit
  | .onPhone _ o => Proxy.Ans o
  | .enter => BuildIndex F
  | _ => Unit

/-- A launch: what the job asks for, and what the phone had. -/
structure Launch (F : Formats) where
  phone : Text
  runtime : F.Runtime
  contents : Option Bundle

structure State (F : Formats) where
  dir : PoolDir
  /-- `builds.json`. -/
  index : BuildIndex F
  /-- `installed.json` of each phone. -/
  installed : Text → InstalledBuild
  /-- What was last installed on each phone; none after an install that failed part-way. -/
  contents : Text → Option Bundle
  locks : Locks LockName
  /-- What each process has of each phone. -/
  world : Nat → Text → World F
  running : List Nat
  /-- The index that a process started the threads of its phones with. -/
  forked : Nat → Option (BuildIndex F)
  /-- What was read of which contents. -/
  readings : List (Bundle × List F.Runtime)
  launches : List (Launch F)
  /-- A reading was stored for a path while a phone whose record names it had other contents of it. -/
  displaced : Bool
  /-- A process took a phone whose record was written since the process loaded it. -/
  outdated : Bool

namespace State

/-- An empty state directory, and phones that may have anything. -/
def initial (dir : PoolDir) (contents : Text → Option Bundle) : State F where
  dir := dir
  index := .empty
  installed _ := .unknown
  contents := contents
  locks _ := none
  world _ _ := .fresh
  running := []
  forked _ := none
  readings := []
  launches := []
  displaced := false
  outdated := false

/-- The end of a process. -/
def leave (s : State F) (p : Nat) : State F :=
  { s with locks := s.locks.release p, running := s.running.filter (· ≠ p) }

def setWorld (s : State F) (p : Nat) (phone : Text) (w : World F) : State F :=
  { s with world := update s.world p (update (s.world p) phone w) }

/-- The phone as a process sees it, with the record as the file has it. -/
def view (s : State F) (p : Nat) (phone : Text) : World F := { s.world p phone with installed := s.installed phone }

/-- What an operation can leave on the phone. A failed install may have put the build there, or part of it. -/
def Lands (s : State F) (phone : Text) : (o : Proxy.Op F) → Proxy.Ans o → Option Bundle → Prop
  | .installApp path, .ok (), c => ∃ b, s.dir.bundleAt path = some b ∧ c = some b
  | .installApp path, .error _, c => c = s.contents phone ∨ c = none ∨ c = s.dir.bundleAt path
  | _, _, c => c = s.contents phone

/-- What an operation reads of what is on the phone. -/
def readOff (s : State F) (phone : Text) : (o : Proxy.Op F) → Proxy.Ans o → List (Bundle × List F.Runtime)
  | .listRuntimes, .ok listing => (s.contents phone).toList.map fun b => (b, listing.runtimes)
  | _, _ => []

def launched (s : State F) (phone : Text) : Proxy.Op F → List (Launch F)
  | .launch _ plan _ => [⟨phone, plan.runtime, s.contents phone⟩]
  | _ => []

/-- After an operation that leaves the phone with `c`; `w` is what the process had of it before. -/
def afterPhone (s : State F) (p : Nat) (phone : Text) (o : Proxy.Op F) (r : Proxy.Ans o) (w : World F) (c : Option Bundle) : State F :=
  { s.setWorld p phone (w.record o r) with
    installed := update s.installed phone (w.record o r).installed
    contents := update s.contents phone c
    readings := s.readOff phone o r ++ s.readings
    launches := s.launched phone o ++ s.launches }

/-- A phone of the fleet has other contents of a path of the index, by what its record names. -/
def displaces (s : State F) (fleet : List Phone) (index : BuildIndex F) : Bool :=
  fleet.any fun phone => index.entries.any fun known =>
    (s.installed phone.dir).path = some known.path && s.contents phone.dir ≠ some known.bundle

end State

/-- The contents were read as providing the runtime. -/
def Provided (readings : List (Bundle × List F.Runtime)) (contents : Option Bundle) (runtime : F.Runtime) : Prop :=
  ∃ b runtimes, contents = some b ∧ (b, runtimes) ∈ readings ∧ runtime ∈ runtimes

/-- No reading displaced a build, and no record was outdated. -/
def Undisturbed (s : State F) : Prop := s.displaced = false ∧ s.outdated = false

/-- What an operation of a thread can be answered and do. -/
inductive Does (ps : Processes F) (t : Tid) : (o : Op F) → State F → Ans o → State F → Prop where
  | starts {s : State F} : Does ps t .starts s () { s with running := (ps.role t).process :: s.running }
  | loadInstalled {s : State F} {phone : Text} : Does ps t (.loadInstalled phone) s true
        (s.setWorld (ps.role t).process phone { World.fresh with memory := (s.installed phone).path })
  | loadFailed {s : State F} {phone : Text} : Does ps t (.loadInstalled phone) s false s
  | taken {s : State F} {phone : Text} : s.locks (.phone phone) = none →
      Does ps t (.tryLock phone) s true { s with
        locks := s.locks.take (ps.role t).process (.phone phone)
        outdated := s.outdated || (s.world (ps.role t).process phone).memory ≠ (s.installed phone).path }
  | busy {s : State F} {phone : Text} : Does ps t (.tryLock phone) s false s
  | lockPool {s : State F} : s.locks .pool = none →
      Does ps t .lockPool s true { s with locks := s.locks.take (ps.role t).process .pool }
  | stopped {s : State F} : Does ps t .lockPool s false s
  | unlockPool {s : State F} : Does ps t .unlockPool s () { s with locks := s.locks.drop .pool }
  | loadIndex {s : State F} {r : Except AnyError (BuildIndex F)} : (∀ index, r = .ok index → index = s.index) →
      Does ps t .loadIndex s r s
  | discover {s : State F} {r : Except AnyError (List Text)} : (∀ present, r = .ok present → present = s.dir.discover) →
      Does ps t .discover s r s
  | readStamp {s : State F} {build : Text} {r : Except AnyError BuildStamp} :
      (∀ stamp, r = .ok stamp → s.dir.bundleAt build = some ⟨build, stamp⟩) → Does ps t (.readStamp build) s r s
  | forget {s : State F} {phone : Text} :
      Does ps t (.forget phone) s (.ok ()) { s with installed := update s.installed phone .unknown }
  | forgetFailed {s : State F} {phone : Text} {e : AnyError} : Does ps t (.forget phone) s (.error e) s
  | storeIndex {s : State F} {index : BuildIndex F} : Does ps t (.storeIndex index) s (.ok ())
        { s with index := index, displaced := s.displaced || s.displaces ps.fleet index }
  | storeFailed {s : State F} {index : BuildIndex F} {e : AnyError} : Does ps t (.storeIndex index) s (.error e) s
  | onPhone {s : State F} {phone : Text} {o : Proxy.Op F} {r : Proxy.Ans o} {beats : List Beat} {signalled : Bool}
      {c : Option Bundle} : (ps.role t).process ∈ s.running →
      ((s.view (ps.role t).process phone).advance beats signalled).Allows (fun _ => True) o r → s.Lands phone o r c →
      Does ps t (.onPhone phone o) s r
        (s.afterPhone (ps.role t).process phone o r ((s.view (ps.role t).process phone).advance beats signalled) c)
  | fork {s : State F} {index : BuildIndex F} :
      Does ps t (.fork index) s () { s with forked := update s.forked (ps.role t).process (some index) }
  | enter {s : State F} {index : BuildIndex F} : (ps.role t).process ∈ s.running →
      s.forked (ps.role t).process = some index → Does ps t .enter s index s
  | leaves {s : State F} : Does ps t .leaves s () (s.leave (ps.role t).process)
  | alter {s : State F} {dir : PoolDir} : s.running = [] → Does ps t .alter s () { s with dir := dir }

variable (ps : Processes F)

/-- What a kill of a thread leaves: a process ends with its main thread. -/
def State.exit (t : Tid) (s : State F) : State F :=
  match ps.role t with
  | .main p => s.leave p
  | _ => s

def machine : Machine (Op F) Ans (State F) where
  step t o s r s' := Does ps t o s r s'
  exit t s := s.exit ps t

abbrev Act (F : Formats) := Prog (Op F) Ans

def call (o : Op F) : Act F (Ans o) := Prog.call o

/-- What the worker of a phone does, as operations on that phone. -/
def on {α : Type} (phone : Text) (p : Proxy.Act F α) : Act F α := p.embed (.onPhone phone) fun _ r => r

/-! ## Reading the pool -/

/-- How `refresh_pool` reads a build: check it, forget what the phone has, install, list the runtimes, check the client. -/
def readBuild (phone : Phone) (build : Text) : Act F (Except AnyError (List F.Runtime)) := do
  match ← call (.onPhone phone.dir (.verifyInstallable build)) with
  | .error e => pure (.error e)
  | .ok () =>
    match ← call (.forget phone.dir) with
    | .error e => pure (.error e)
    | .ok () =>
      match ← call (.onPhone phone.dir (.installApp build)) with
      | .error e => pure (.error e)
      | .ok () =>
        match ← call (.onPhone phone.dir .listRuntimes) with
        | .error e => pure (.error e)
        | .ok listing =>
          match ← on phone.dir (checkAfter phone.cfg ("after installing " ++ build)) with
          | .error e => pure (.error e)
          | .ok () => pure (.ok listing.runtimes)

/-- One whose stamp is current is not read again. The last one read is handed on. -/
def readBuilds (phone : Phone) : List Text → BuildIndex F → Option Text → Act F (Except AnyError (BuildIndex F × Option Text))
  | [], index, last => pure (.ok (index, last))
  | build :: rest, index, last => do
    match ← call (.readStamp build) with
    | .error e => pure (.error e)
    | .ok stamp =>
      if (index.current build stamp).isSome then readBuilds phone rest index last
      else
        match ← readBuild phone build with
        | .error e => pure (.error e)
        | .ok runtimes =>
          match ← call (.storeIndex (index.record build stamp runtimes)) with
          | .error e => pure (.error e)
          | .ok () => readBuilds phone rest (index.record build stamp runtimes) (some build)

def emptyPool (dir : Text) : AnyError := .plain ("the build pool " ++ dir ++ " holds no .app or .ipa")

/-- `Pool::refresh`. -/
def refresh (poolDir : Text) (phone : Phone) (index : BuildIndex F) : Act F (Except AnyError (BuildIndex F × Option Text)) := do
  match ← call .discover with
  | .error e => pure (.error e)
  | .ok present =>
    if present.isEmpty then pure (.error (emptyPool poolDir))
    else if (index.retainPresent present).entries.length ≠ index.entries.length then
      match ← call (.storeIndex (index.retainPresent present)) with
      | .error e => pure (.error e)
      | .ok () => readBuilds phone present (index.retainPresent present) none
    else readBuilds phone present (index.retainPresent present) none

/-- The refresh under `builds.lock`: the index is loaded again, and the build the last read left is recorded. -/
def refreshLocked (poolDir : Text) (phone : Phone) : Act F (Except AnyError (BuildIndex F)) := do
  match ← call .loadIndex with
  | .error e => pure (.error e)
  | .ok index =>
    match ← refresh poolDir phone index with
    | .error e => pure (.error e)
    | .ok (index, none) => pure (.ok index)
    | .ok (index, some build) =>
      match ← call (.onPhone phone.dir (.storeInstalled ⟨some build, none⟩)) with
      | .error e => pure (.error e)
      | .ok () => pure (.ok index)

def stoppedWaiting : AnyError := .plain "stopped while waiting for the build pool lock"

/-- `refresh_pool`. -/
def refreshPool (poolDir : Text) (phone : Phone) : Act F (Except AnyError (BuildIndex F)) := do
  if ← call .lockPool then
    let refreshed ← refreshLocked poolDir phone
    call .unlockPool
    pure refreshed
  else pure (.error stoppedWaiting)

/-! ## A process -/

/-- The records of the phones, loaded one after the other as each is probed. -/
def prepare : List Phone → Act F Bool
  | [] => pure true
  | phone :: rest => do
    if ← call (.loadInstalled phone.dir) then prepare rest else pure false

def takeLocks : List Phone → Act F Bool
  | [] => pure true
  | phone :: rest => do
    if ← call (.tryLock phone.dir) then takeLocks rest else pure false

/-- The main thread after the locks are taken. -/
def runLocked (p : Nat) : Act F Unit :=
  match ps.phones p with
  | [] => call .leaves
  | first :: _ => do
    match ← refreshPool ps.poolDir first with
    | .error _ => call .leaves
    | .ok index =>
      if ps.runs p && (index.checkAdvertisable ps.poolDir).isOk then
        call (.fork index)
        call .leaves
      else call .leaves

/-- The main thread leaves when the threads of its phones have ended, or earlier when it is stopped. -/
def runProcess (p : Nat) : Act F Unit := do
  call .starts
  if ← prepare (ps.phones p) then
    if ← takeLocks (ps.phones p) then runLocked ps p else call .leaves
  else call .leaves

/-- The operator changes the pool directory some times. -/
def alterations : Nat → Act F Unit
  | 0 => pure ()
  | changes + 1 => do
    call .alter
    alterations changes

variable [DecidableEq F.Runtime] [DecidableEq F.RuntimeType]

/-- The device that the thread of a phone starts with. -/
def startDevice (ps : Processes F) (phone : Phone) (index : BuildIndex F) : Device F :=
  ⟨.pool (index.view ps.flagsFor ps.poolDir), ⟨0, 0⟩, phone.osVersion⟩

/-- The thread of a phone. -/
def runPhone (ps : Processes F) (p i : Nat) : Act F Unit :=
  match (ps.phones p)[i]? with
  | none => pure ()
  | some phone => do
    let index ← call .enter
    let _ ← on phone.dir (runDevice phone.cfg ps.rounds ps.restarts (startDevice ps phone index))
    pure ()

def Processes.start (ps : Processes F) (dir : PoolDir) (contents : Text → Option Bundle) : Pool (Op F) Ans (State F) where
  state := .initial dir contents
  todo t := match ps.role t with
    | .operator => alterations ps.changes
    | .main p => runProcess ps p
    | .device p i => runPhone ps p i

/-! ## Runs that are played -/

section Play

omit [DecidableEq F.Runtime] [DecidableEq F.RuntimeType]

/-- What the phone and the server answer, and what the operator makes of the directory. -/
structure Choice (F : Formats) where
  phone : Proxy.Choice F fun _ => True
  dir : PoolDir

/-- What an operation leaves on the phone: an install that succeeds puts the build there. -/
def State.landing (s : State F) (phone : Text) : (o : Proxy.Op F) → Proxy.Ans o → Option (Option Bundle)
  | .installApp path, .ok () => (s.dir.bundleAt path).map some
  | _, _ => some (s.contents phone)

theorem State.lands_of_landing {s : State F} {phone : Text} {o : Proxy.Op F} {r : Proxy.Ans o} {c : Option Bundle}
    (h : s.landing phone o r = some c) : s.Lands phone o r c := by
  cases o with
  | installApp path =>
    cases r with
    | ok _ =>
      obtain ⟨b, hb, rfl⟩ := Option.map_eq_some_iff.1 h
      exact ⟨b, hb, rfl⟩
    | error e =>
      cases h
      exact .inl rfl
  | _ =>
    cases h
    rfl

/-- The step with these choices, in which every file can be read and written. -/
def act (c : Choice F) (t : Tid) : (o : Op F) → State F → Option (Ans o × State F)
  | .starts, s => some ((), { s with running := (ps.role t).process :: s.running })
  | .loadInstalled phone, s =>
    some (true, s.setWorld (ps.role t).process phone { World.fresh with memory := (s.installed phone).path })
  | .tryLock phone, s =>
    if s.locks (.phone phone) = none then
      some (true, { s with
        locks := s.locks.take (ps.role t).process (.phone phone)
        outdated := s.outdated || (s.world (ps.role t).process phone).memory ≠ (s.installed phone).path })
    else some (false, s)
  | .lockPool, s =>
    if s.locks .pool = none then some (true, { s with locks := s.locks.take (ps.role t).process .pool }) else none
  | .unlockPool, s => some ((), { s with locks := s.locks.drop .pool })
  | .loadIndex, s => some (.ok s.index, s)
  | .discover, s => some (.ok s.dir.discover, s)
  | .readStamp build, s => (s.dir.bundleAt build).map fun b => (.ok b.stamp, s)
  | .forget phone, s => some (.ok (), { s with installed := update s.installed phone .unknown })
  | .storeIndex index, s => some (.ok (), { s with index := index, displaced := s.displaced || s.displaces ps.fleet index })
  | .onPhone phone o, s =>
    let w := (s.view (ps.role t).process phone).advance c.phone.beats c.phone.signalled
    let r := w.answer c.phone.answer o
    if (ps.role t).process ∈ s.running then
      (s.landing phone o r).map fun landed => (r, s.afterPhone (ps.role t).process phone o r w landed)
    else none
  | .fork index, s => some ((), { s with forked := update s.forked (ps.role t).process (some index) })
  | .enter, s =>
    if (ps.role t).process ∈ s.running then (s.forked (ps.role t).process).map fun index => (index, s) else none
  | .leaves, s => some ((), s.leave (ps.role t).process)
  | .alter, s => if s.running = [] then some ((), { s with dir := c.dir }) else none

theorem step_of_act {ps : Processes F} : ∀ c t o s r s', act ps c t o s = some (r, s') → (machine ps).step t o s r s' := by
  intro c t o s r s' h
  cases o with
  | tryLock phone =>
    simp only [act] at h
    split at h
    · next hfree =>
      cases h
      exact .taken hfree
    · cases h
      exact .busy
  | lockPool =>
    simp only [act] at h
    split at h
    · next hfree =>
      cases h
      exact .lockPool hfree
    · cases h
  | loadIndex =>
    cases h
    exact .loadIndex fun _ hr => (Except.ok.inj hr).symm
  | discover =>
    cases h
    exact .discover fun _ hr => (Except.ok.inj hr).symm
  | readStamp build =>
    obtain ⟨b, hb, hr⟩ := Option.map_eq_some_iff.1 h
    cases hr
    refine .readStamp fun stamp hstamp => ?_
    cases hstamp
    rw [hb, ← (PoolDir.bundleAt_some hb).2]
  | onPhone phone o =>
    simp only [act] at h
    split at h
    · next hrunning =>
      obtain ⟨landed, hlanded, hr⟩ := Option.map_eq_some_iff.1 h
      cases hr
      exact .onPhone hrunning (allows_answer c.phone _ o) (State.lands_of_landing hlanded)
    · cases h
  | enter =>
    simp only [act] at h
    split at h
    · next hrunning =>
      obtain ⟨index, hforked, hr⟩ := Option.map_eq_some_iff.1 h
      cases hr
      exact .enter hrunning hforked
    · cases h
  | alter =>
    simp only [act] at h
    split at h
    · next hnone =>
      cases h
      exact .alter hnone
    · cases h
  | starts | loadInstalled | unlockPool | forget | storeIndex | fork | leaves =>
    cases h
    constructor

end Play

end Bundles

end Pipette.Proxy
