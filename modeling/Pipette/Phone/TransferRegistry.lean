import Mathlib

/-!
# One transfer per model

`TransferRegistry`: callers join the transfer of a key or begin it, a caller whose task is cancelled stops waiting, and a
cancelled transfer keeps its key until its transport has stopped. What runs on the main actor runs from one suspension to the
next. A `join` is several steps, since a task can be cancelled from any thread between them, but while it is on the main actor
(`actor`) nothing else is. A transfer is known by a number and a waiter by its caller, as the source knows them by reference
and `UUID`. `begun`, `ran` and `early` are not part of the source. A call that changes nothing is not a step.
-/

namespace Pipette.Phone

open Function

/-- The task of a transfer, which calls `start` and settles with what it returns. -/
inductive Work (R : Type) where
  | created
  | running
  | returned (result : R)

/-- How often `start` was called. -/
def Work.runs {R : Type} : Work R → Nat
  | .created => 0
  | .running | .returned _ => 1

def Work.isReturned {R : Type} : Work R → Bool
  | .returned _ => true
  | .created | .running => false

/-- `Transfer`. It is `confirmed` when `finishCancellation` has retired it. -/
structure Transfer (Key R : Type) where
  key : Key
  work : Work R
  waiters : List Nat
  isCancelling : Bool
  confirmed : Bool

/-- What a continuation is resumed with. -/
inductive Answer (Key R : Type) where
  | outcome (result : R)
  | transferCancelled (key : Key)
  | cancellationError

/-- Where a caller is in its `join`: past `checkCancellation`, with its transfer, with its handler installed, past the body
that waits or resumes at once, or thrown out before. -/
inductive Place where
  | outside
  | checked
  | found (t : Nat)
  | handled (t : Nat)
  | attached (t : Nat)
  | refused
deriving DecidableEq

/-- The `onCancel` handler is removed some time after the answer, so what it enqueues then is allowed. -/
def Place.hasHandler : Place → Bool
  | .handled _ | .attached _ => true
  | _ => false

/-- Inside the part of `join` that is one step of the main actor. -/
def Place.joins : Place → Bool
  | .checked | .found _ | .handled _ => true
  | _ => false

/-- `leaving`: `stopWaiting` is enqueued for the call; `answers`: what its continuation was resumed with. -/
structure Caller (Key R : Type) where
  place : Place
  isCancelled : Bool
  leaving : Bool
  answers : List (Answer Key R)

structure Registry (Key R : Type) where
  inFlight : Key → Option Nat
  transfers : Nat → Option (Transfer Key R)
  next : Nat
  callers : Nat → Caller Key R
  actor : Option Nat
  begun : Key → Nat
  ran : Key → Nat
  early : Bool

variable {Key R : Type} [DecidableEq Key]

namespace Registry

/-- No transfer, and no caller yet. -/
def empty : Registry Key R where
  inFlight := fun _ => none
  transfers := fun _ => none
  next := 0
  callers := fun _ => ⟨.outside, false, false, []⟩
  actor := none
  begun := fun _ => 0
  ran := fun _ => 0
  early := false

variable (s : Registry Key R)

@[simp]
def setCaller (c : Nat) (caller : Caller Key R) : Registry Key R :=
  { s with callers := update s.callers c caller }

@[simp]
def goto (c : Nat) (place : Place) : Registry Key R := s.setCaller c { s.callers c with place := place }

@[simp]
def setActor (actor : Option Nat) : Registry Key R := { s with actor := actor }

@[simp]
def setTransfer (t : Nat) (x : Transfer Key R) : Registry Key R :=
  { s with transfers := update s.transfers t (some x) }

/-- The entry of a key is cleared: the key becomes free. -/
@[simp]
def retire (key : Key) : Registry Key R :=
  { s with inFlight := update s.inFlight key none, begun := update s.begun key 0, ran := update s.ran key 0 }

/-- `begin`. -/
@[simp]
def beginTransfer (key : Key) : Registry Key R :=
  { s with
    inFlight := update s.inFlight key (some s.next)
    transfers := update s.transfers s.next (some ⟨key, .created, [], false, false⟩)
    next := s.next + 1
    begun := update s.begun key (s.begun key + 1) }

/-- `answerWaiters`: the continuations. -/
@[simp]
def answer (waiters : List Nat) (a : Answer Key R) : Registry Key R :=
  { s with callers := fun c => if c ∈ waiters then { s.callers c with answers := a :: (s.callers c).answers } else s.callers c }

end Registry

variable (calls : Nat → Key)

/-- A caller `c` stops waiting: its task is cancelled, and the main actor comes to the `stopWaiting` this enqueues. -/
inductive LeaveStep (s : Registry Key R) (c : Nat) : Registry Key R → Prop where
  | cancelTask (h : (s.callers c).isCancelled = false) :
    LeaveStep s c (s.setCaller c { s.callers c with isCancelled := true, leaving := (s.callers c).place.hasHandler })
  | stopWaiting {t : Nat} {x : Transfer Key R} (hactor : s.actor = none) (h : (s.callers c).leaving)
    (hflight : s.inFlight (calls c) = some t) (ht : s.transfers t = some x) (hc : c ∈ x.waiters) :
    LeaveStep s c ((s.setTransfer t { x with waiters := x.waiters.filter (· ≠ c) }).setCaller c
      { s.callers c with leaving := false, answers := .cancellationError :: (s.callers c).answers })
  | stopWaitingGone (hactor : s.actor = none) (h : (s.callers c).leaving)
    (hgone : ∀ t x, s.inFlight (calls c) = some t → s.transfers t = some x → c ∉ x.waiters) :
    LeaveStep s c (s.setCaller c { s.callers c with leaving := false })

/-- What a caller `c` does in its `join`, up to the suspension. -/
inductive JoinStep (s : Registry Key R) (c : Nat) : Registry Key R → Prop where
  | refuse (hactor : s.actor = none) (h : (s.callers c).place = .outside) (hcancelled : (s.callers c).isCancelled) :
    JoinStep s c (s.goto c .refused)
  | enter (hactor : s.actor = none) (h : (s.callers c).place = .outside) (hcancelled : (s.callers c).isCancelled = false) :
    JoinStep s c ((s.goto c .checked).setActor (some c))
  | meetTombstone {t : Nat} {x : Transfer Key R} (h : (s.callers c).place = .checked) (hflight : s.inFlight (calls c) = some t)
    (ht : s.transfers t = some x) (hx : x.isCancelling) :
    JoinStep s c ((s.goto c .refused).setActor none)
  | find {t : Nat} {x : Transfer Key R} (h : (s.callers c).place = .checked) (hflight : s.inFlight (calls c) = some t)
    (ht : s.transfers t = some x) (hx : x.isCancelling = false) :
    JoinStep s c (s.goto c (.found t))
  | beginNew (h : (s.callers c).place = .checked) (hflight : s.inFlight (calls c) = none) :
    JoinStep s c ((s.beginTransfer (calls c)).goto c (.found s.next))
  -- a handler that is installed on a cancelled task runs at once
  | install {t : Nat} (h : (s.callers c).place = .found t) :
    JoinStep s c (s.setCaller c { s.callers c with place := .handled t, leaving := (s.callers c).isCancelled })
  | resumeAtOnce {t : Nat} (h : (s.callers c).place = .handled t) (hcancelled : (s.callers c).isCancelled) :
    JoinStep s c ((s.setCaller c { s.callers c with place := .attached t, answers := .cancellationError :: (s.callers c).answers }).setActor
      none)
  | wait {t : Nat} {x : Transfer Key R} (h : (s.callers c).place = .handled t) (hcancelled : (s.callers c).isCancelled = false)
    (ht : s.transfers t = some x) :
    JoinStep s c (((s.setTransfer t { x with waiters := x.waiters ++ [c] }).goto c (.attached t)).setActor none)

/-- A transfer is cancelled, confirmed to have stopped, its task calls `start`, and settles. -/
inductive TransferStep (s : Registry Key R) : Registry Key R → Prop where
  | cancel {key : Key} {t : Nat} {x : Transfer Key R} (hactor : s.actor = none) (hflight : s.inFlight key = some t)
    (ht : s.transfers t = some x) (hx : x.isCancelling = false) :
    TransferStep s ((s.setTransfer t { x with isCancelling := true, waiters := [] }).answer x.waiters (.transferCancelled key))
  | finishCancellation {key : Key} {t : Nat} {x : Transfer Key R} (hactor : s.actor = none) (hflight : s.inFlight key = some t)
    (ht : s.transfers t = some x) (hx : x.isCancelling) :
    TransferStep s { (s.setTransfer t { x with confirmed := true }).retire key with early := s.early || x.work.runs == 0 }
  | start {t : Nat} {x : Transfer Key R} (hactor : s.actor = none) (ht : s.transfers t = some x) (hwork : x.work = .created) :
    TransferStep s { s.setTransfer t { x with work := .running } with ran := update s.ran x.key (s.ran x.key + 1) }
  | settleCancelled {t : Nat} {x : Transfer Key R} (result : R) (hactor : s.actor = none) (ht : s.transfers t = some x)
    (hwork : x.work = .running) (hx : x.isCancelling) :
    TransferStep s (s.setTransfer t { x with work := .returned result })
  | settle {t : Nat} {x : Transfer Key R} (result : R) (hactor : s.actor = none) (ht : s.transfers t = some x)
    (hwork : x.work = .running) (hx : x.isCancelling = false) :
    TransferStep s (((if s.inFlight x.key = some t then s.retire x.key else s).setTransfer t
      { x with work := .returned result, waiters := [] }).answer x.waiters (.outcome result))

/-- One step, of whoever takes it. -/
inductive RegistryStep (s s' : Registry Key R) : Prop where
  | leave (c : Nat) (h : LeaveStep calls s c s')
  | join (c : Nat) (h : JoinStep calls s c s')
  | transfer (h : TransferStep s s')

/-- What the callers of `calls`, their tasks, the transfers and the coordinator can lead to, in any order. -/
def RegistryReachable (s : Registry Key R) : Prop := Relation.ReflTransGen (RegistryStep calls) .empty s

end Pipette.Phone
