import Pipette.Lib.Locks
import Pipette.Path

/-!
# Processes that share a state directory

Every verb that goes through `prepare` resolves its phones, probes each, and opens the directory that the phone's spelling
names; a verb that drives phones then takes the lock in each. `homes` records which phone each directory was opened for, and
`driven` which phones each process drives.
-/

namespace Pipette.Proxy.Fleet

open Threads

/-! ## Directories -/

/-- `sanitize_path_segment`: what names the directory of a phone under the state root. -/
def sanitizePathSegment (raw : Text) : Text :=
  let out := raw.map fun ch => if ch.isAlphanum || ch = '.' || ch = '_' || ch = '-' then ch else '_'
  match out with
  | [] => ['_']
  | '.' :: _ => '_' :: out
  | _ => out

/-! ## Verbs -/

/-- The verbs that go through `prepare`. -/
inductive Verb where
  | run
  | register
  | status
  | scan
  | uninstall
  | probe
  deriving DecidableEq

def Verb.isExclusive : Verb → Bool
  | .run | .register | .scan | .uninstall => true
  | .status | .probe => false

/-- Whether the verb waits for a phone that is not attached. -/
def Verb.waits : Verb → Bool
  | .run => true
  | _ => false

/-! ## The machine -/

inductive Op where
  /-- `devicectl list devices`, none when the call fails. -/
  | listConnected
  /-- `devicectl device info details`: the identifier of the phone, none when the call fails. -/
  | probe (target : Text)
  /-- The wait for a phone; false on a stop. -/
  | sleep
  /-- Load what the directory of a phone holds. -/
  | loadState (segment identifier : Text)
  | tryLock (segment : Text)
  /-- From here on the process drives these phones. -/
  | drives (identifiers : List Text)
  | leaves

abbrev Ans : Op → Type
  | .listConnected => Option (List Text)
  | .probe _ => Option Text
  | .sleep | .loadState _ _ | .tryLock _ => Bool
  | .drives _ | .leaves => Unit

structure State where
  locks : Locks Text
  /-- The phones each process drives, by identifier. -/
  driven : Tid → List Text
  /-- The directories that were opened, each with the phone it was opened for. -/
  homes : List (Text × Text)

def State.initial : State := ⟨fun _ => none, fun _ => [], []⟩

/-- The end of a process: the kernel gives back its locks. -/
def State.leave (s : State) (t : Tid) : State :=
  { s with locks := s.locks.release t, driven := Function.update s.driven t [] }

/-- What an operation can be answered and do; `names` is the identifier of the phone a spelling names. -/
inductive Does (names : Text → Option Text) (t : Tid) : (o : Op) → State → Ans o → State → Prop where
  | listConnected {s : State} {connected : Option (List Text)} :
      (∀ l, connected = some l → ∀ identifier ∈ l, names identifier = some identifier) → Does names t .listConnected s connected s
  | probe {s : State} {target : Text} {identifier : Option Text} : (identifier = none ∨ identifier = names target) →
      Does names t (.probe target) s identifier s
  | sleep {s : State} {goesOn : Bool} : Does names t .sleep s goesOn s
  | loadState {s : State} {segment identifier : Text} {ok : Bool} :
      Does names t (.loadState segment identifier) s ok { s with homes := (segment, identifier) :: s.homes }
  | taken {s : State} {segment : Text} : s.locks segment = none →
      Does names t (.tryLock segment) s true { s with locks := s.locks.take t segment }
  | busy {s : State} {segment : Text} : Does names t (.tryLock segment) s false s
  | drives {s : State} {identifiers : List Text} :
      Does names t (.drives identifiers) s () { s with driven := Function.update s.driven t identifiers }
  | leaves {s : State} : Does names t .leaves s () (s.leave t)

def machine (names : Text → Option Text) : Machine Op Ans State where
  step t o s r s' := Does names t o s r s'
  exit t s := s.leave t

abbrev Act := Prog Op Ans

def call (o : Op) : Act (Ans o) := Prog.call o

/-! ## `prepare` -/

/-- The one connected device. -/
def enumerate : Act (Option Text) := do
  match ← call .listConnected with
  | some [only] => pure (some only)
  | _ => pure none

/-- `resolve_target`: what the entry says, else the one connected device. -/
def resolveTarget (configured : Option Text) : Act (Option Text) :=
  match configured with
  | some identifier => if trimText identifier ≠ [] then pure (some (trimText identifier)) else enumerate
  | none => enumerate

/-- A phone that was resolved: how it is addressed, and its identifier. -/
structure Phone where
  target : Text
  identifier : Text

def Phone.segment (phone : Phone) : Text := sanitizePathSegment phone.target

def resolveOnce (requested : Option Text) : Act (Option Phone) := do
  match ← resolveTarget requested with
  | none => pure none
  | some target =>
    match ← call (.probe target) with
    | none => pure none
    | some identifier => pure (some ⟨target, identifier⟩)

/-- `resolve_device`, for some attempts where the verb waits. -/
def resolveDevice (waits : Bool) (requested : Option Text) : Nat → Act (Option Phone)
  | 0 => pure none
  | attempts + 1 => do
    match ← resolveOnce requested with
    | some phone => pure (some phone)
    | none =>
      if waits then
        if ← call .sleep then resolveDevice waits requested attempts else pure none
      else pure none

/-- The phones of the entries, each with its directory opened; none as soon as one fails. -/
def preparePhones (waits : Bool) (attempts : Nat) : List (Option Text) → Act (Option (List Phone))
  | [] => pure (some [])
  | requested :: rest => do
    match ← resolveDevice waits requested attempts with
    | none => pure none
    | some phone =>
      if ← call (.loadState phone.segment phone.identifier) then
        match ← preparePhones waits attempts rest with
        | none => pure none
        | some phones => pure (some (phone :: phones))
      else pure none

/-- `first_duplicate`. -/
def firstDuplicate : List Text → List Text → Option Text
  | _, [] => none
  | seen, value :: rest => if value ∈ seen then some value else firstDuplicate (value :: seen) rest

/-- The locks of the phones, taken one after the other; false as soon as one is held. -/
def takeLocks : List Phone → Act Bool
  | [] => pure true
  | phone :: rest => do
    if ← call (.tryLock phone.segment) then takeLocks rest else pure false

/-- A verb from its start to its end. -/
def runVerb (verb : Verb) (entries : List (Option Text)) (attempts : Nat) : Act Unit := do
  match ← preparePhones verb.waits attempts entries with
  | none => call .leaves
  | some phones =>
    if (firstDuplicate [] (phones.map (·.identifier))).isSome then call .leaves
    else if verb.isExclusive then
      if ← takeLocks phones then
        call (.drives (phones.map (·.identifier)))
        call .leaves
      else call .leaves
    else call .leaves

/-! ## Runs that are played -/

/-- Where every call of the device tool goes through and no phone is listed. -/
def act (names : Text → Option Text) (_ : Unit) (t : Tid) : (o : Op) → State → Option (Ans o × State)
  | .listConnected, s => some (some [], s)
  | .probe target, s => some (names target, s)
  | .sleep, s => some (true, s)
  | .loadState segment identifier, s => some (true, { s with homes := (segment, identifier) :: s.homes })
  | .tryLock segment, s =>
    if s.locks segment = none then some (true, { s with locks := s.locks.take t segment }) else some (false, s)
  | .drives identifiers, s => some ((), { s with driven := Function.update s.driven t identifiers })
  | .leaves, s => some ((), s.leave t)

theorem step_of_act {names : Text → Option Text} :
    ∀ c t o s r s', act names c t o s = some (r, s') → (machine names).step t o s r s' := by
  intro _ t o s r s' h
  cases o with
  | listConnected =>
    cases h
    exact .listConnected fun l hl identifier hmem => by cases hl; cases hmem
  | probe target =>
    cases h
    exact .probe (.inr rfl)
  | sleep =>
    cases h
    exact .sleep
  | loadState segment identifier =>
    cases h
    exact .loadState
  | tryLock segment =>
    simp only [act] at h
    split at h
    · next hfree =>
      cases h
      exact .taken hfree
    · cases h
      exact .busy
  | drives identifiers =>
    cases h
    exact .drives
  | leaves =>
    cases h
    exact .leaves

end Pipette.Proxy.Fleet
