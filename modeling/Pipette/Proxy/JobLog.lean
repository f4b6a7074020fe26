import Pipette.Proxy.Device

/-!
# What the log of one claim shows

The operations of one claim, newest first: the listings before and after the run, the build chosen, whether a stop ended the
run, and what was posted and deleted. `OwnOnly` says that the claim touched only what its run produced.
-/

namespace Pipette.Proxy

open Threads

variable {F : Formats}

namespace Event

/-- The results the phone listed, before the run or after it. -/
def listing (after : Bool) : Event F → Option (List ListedResult)
  | ⟨.listResults at', .ok listed, _, _⟩ => if at' = after then some listed else none
  | _ => none

def chosen : Event F → Option (Build F)
  | ⟨.chose _ _ _ build, _, _, _⟩ => some build
  | _ => none

def posts : Event F → Bool
  | ⟨.submit _, _, _, _⟩ => true
  | _ => false

def postsFailure : Event F → Bool
  | ⟨.submit (.failure _ _), _, _, _⟩ => true
  | _ => false

def postsSuccess : Event F → Bool
  | ⟨.submit (.success _ _ _ _), _, _, _⟩ => true
  | _ => false

/-- The result of the phone that is posted or deleted. -/
def touches : Event F → Option ResultRef
  | ⟨.submit (.success _ result _ _), _, _, _⟩ => some result
  | ⟨.deleteResult result, _, _, _⟩ => some result
  | _ => none

/-- A launch that was told to stop. -/
def stopped : Event F → Bool
  | ⟨.launch _ _ _, .ok run, _, _⟩ => run.stopped
  | _ => false

/-- A launch on which the app printed nothing. -/
def silent : Event F → Bool
  | ⟨.launch _ _ _, .ok run, _, _⟩ => run.silent
  | _ => false

/-- The worker saw that the lease is lost or a stop arrived. -/
def raised : Event F → Bool
  | ⟨.signals, signals, _, _⟩ => signals.raised
  | _ => false

def drops : Event F → Bool
  | ⟨.dropLease, _, _, _⟩ => true
  | _ => false

end Event

variable (log : List (Event F))

/-- The operation was done with this answer. -/
def Told (o : Op F) (r : Ans o) : Prop := ∃ lost stop, ⟨o, r, lost, stop⟩ ∈ log

/-- The last listing of the phone's results before the run, or after it. -/
def listing (after : Bool) (log : List (Event F)) : Option (List ListedResult) := log.findSome? (Event.listing after)

/-- The build that was chosen for the claim, in version mode. -/
def chosenBuild : Option (Build F) := log.findSome? Event.chosen

/-- A launch was told to stop, or one printed nothing and was not repeated for a signal. -/
def endedByStop : List (Event F) → Bool
  | [] => false
  | e :: log => e.stopped || (e.raised && log.head?.any Event.silent) || endedByStop log

/-- The lease was lost by the time it was dropped, and no signal had just been seen. -/
def lostUnseen : List (Event F) → Bool
  | [] => false
  | e :: log => (e.drops && e.lost && !log.head?.any Event.raised) || lostUnseen log

/-- The result was not on the phone before the run. -/
def Produced (result : ResultRef) : Prop :=
  ∃ before, listing false log = some before ∧ result ∉ before.map (·.result)

/-- A result of the run that the app did not upload. -/
def ToSend (result : ResultRef) : Prop :=
  Produced log result ∧ ∃ after, listing true log = some after ∧ ⟨result, false⟩ ∈ after

/-- What is posted or deleted, and when, given all that was done before. -/
structure Lawful (e : Event F) (earlier : List (Event F)) : Prop where
  produced : ∀ result, e.touches = some result → Produced earlier result
  deletes : ∀ result, e.op = .deleteResult result → (∃ after, listing true earlier = some after ∧ ⟨result, true⟩ ∈ after) ∨
      ∃ jobId payload output id, Told earlier (.submit (.success jobId result payload output)) (.ok id)
  held : e.posts → e.lost = false ∧ endedByStop earlier = false
  shown : ∀ jobId result payload output, e.op = .submit (.success jobId result payload output) →
    Told earlier (.showResult result) (.ok payload)
  version : ∀ jobId result payload output build, e.op = .submit (.success jobId result payload output) →
    chosenBuild earlier = some build → payload.clientVersion = some build.version.text ∧ ∀ toSend, ToSend earlier toSend →
        ∃ shown, Told earlier (.showResult toSend) (.ok shown) ∧ shown.clientVersion = some build.version.text

/-- The claim posts and deletes only what its run produced, and sends bodies of one kind. -/
structure OwnOnly (log : List (Event F)) : Prop where
  lawful : ∀ later e earlier, log = later ++ e :: earlier → Lawful e earlier
  oneKind : (∀ e ∈ log, e.postsSuccess = false) ∨ ∀ e ∈ log, e.postsFailure = false

end Pipette.Proxy
