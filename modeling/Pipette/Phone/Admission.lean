import Pipette.Phone.Quota

/-!
# Whole-model admission

`ModelAdmission`: `admit` surveys, evicts, measures again and records a reservation in one step of the actor; `release` hands
it back; `reconcile` drops the grants of transfers that no longer run; the next process starts from the ledger file.
`Surroundings` is what one `admit` finds around it: transfers write while it runs, so each walk has its own reading and
`drift` is what else happened between the eviction and the second survey.
-/

namespace Pipette.Phone

/-- Why admission refused a transfer. -/
inductive AdmissionError where
  | unknownSize (artifact : Text)
  | exceedsQuota (artifact : Text) (requiredBytes availableBytes protectedBytes quotaBytes : Int)
  | insufficientFreeSpace (artifact : Text) (requiredBytes freeBytes headroomBytes : Int)
  | reservationPersistenceFailed (artifact : Text)
  deriving DecidableEq

structure AdmissionRequest where
  key : Text
  label : Text
  declaredBytes : Option Int

/-- A granted byte budget. The `UUID` of a grant is a number. -/
structure Reservation where
  id : Nat
  key : Text
  label : Text
  bytes : Int
  grantedAt : Int
  deriving DecidableEq

/-- The dictionary of grants: each is under the id of its reservation, so no two have one id. -/
@[ext]
structure Grants where
  list : List Reservation
  nodup : (list.map Reservation.id).Nodup
  deriving DecidableEq

namespace Grants

def empty : Grants := ⟨[], List.nodup_nil⟩

/-- The grants of a table that satisfy a condition. -/
def filter (g : Grants) (keep : Reservation → Bool) : Grants where
  list := g.list.filter keep
  nodup := g.nodup.sublist (List.filter_sublist.map Reservation.id)

def remove (g : Grants) (id : Nat) : Grants := g.filter fun r => r.id ≠ id

/-- A grant put under its id, in the place of one that was there. -/
def insert (g : Grants) (r : Reservation) : Grants where
  list := r :: (g.remove r.id).list
  nodup := by
    refine List.nodup_cons.2 ⟨fun h => ?_, (g.remove r.id).nodup⟩
    obtain ⟨x, hx, hid⟩ := List.mem_map.1 h
    simp [remove, filter, hid] at hx

def ids (g : Grants) : List Nat := g.list.map Reservation.id

/-- `outstandingBytes`. -/
def outstandingBytes (g : Grants) : Int := (g.list.map Reservation.bytes).sum

/-- `reservations`, in the order they were granted in. -/
def reservations (g : Grants) : List Reservation := g.list.insertionSort fun a b => a.grantedAt ≤ b.grantedAt

/-- The dictionary that a ledger decodes to. The last of several grants with one id stays. -/
def load (ledger : List Reservation) : Grants := ledger.foldl insert empty

end Grants

/-- The quota, the disk as `hubBytes` and as the first survey walk it, the removals that fail, what others do until the second
survey, the volume's answer, and whether the ledger can be written. -/
structure Surroundings where
  quotaBytes : Int
  atHub : Disk
  atSurvey : Disk
  fails : StorePath → Option Text
  drift : Disk → Disk
  freeBytes : Option Int
  writes : Bool

/-- The actor with its ledger file. A file that is missing is an empty ledger. -/
structure ModelAdmission where
  grants : Grants
  restoredGrantIDs : List Nat
  ledger : List Reservation
  deriving DecidableEq

namespace ModelAdmission

/-- What iOS keeps back. -/
def headroomBytes : Int := 2 ^ 30

def init (ledger : List Reservation) : ModelAdmission where
  grants := Grants.load ledger
  restoredGrantIDs := (Grants.load ledger).ids
  ledger := ledger

variable (a : ModelAdmission)

/-- Write the ledger, all of it or nothing. -/
def persist (writes : Bool) : Option ModelAdmission :=
  if writes then some { a with ledger := a.grants.reservations } else none

def persistBestEffort (writes : Bool) : ModelAdmission := (a.persist writes).getD a

def protectedBytes (survey : StorageSurvey) (pins : SweepPins) : Int :=
  survey.entries.foldl (fun total entry =>
    match entry.kind with
    | .model key _ _ => if key ∈ pins.models then total + entry.sizeBytes else total
    | .garbage _ => total) 0

variable (around : Surroundings) (pins : SweepPins)

/-- The first survey, or the one after an eviction that the ceiling made necessary. -/
def makeRoom (ceiling : Int) : StorageSurvey :=
  let first := survey pins around.atSurvey
  if 0 ≤ ceiling ∧ ceiling < first.usedBytes then
    let sweep := plan first ceiling pins
    if sweep.evictions = [] then first
    else survey pins (around.drift (around.atSurvey.after (reclaim around.fails sweep pins around.atSurvey)))
  else first

/-- The pins a request is admitted under: its own model is one of them. -/
def pinning (request : AdmissionRequest) : SweepPins :=
  { pins with models := request.key :: pins.models }

/-- What the store may occupy when `need` more bytes are granted. -/
def ceiling (need : Int) : Int :=
  around.quotaBytes - a.grants.outstandingBytes - need - hubBytes pins.hubRepos around.atHub

/-- The free-space check. A volume that does not answer refuses nothing. -/
def refusesSpace (need : Int) : Option Int :=
  around.freeBytes.filter fun free => ¬a.grants.outstandingBytes + need + headroomBytes ≤ free

/-- Record a grant and save it; one that cannot be saved is taken back. -/
def record (r : Reservation) (writes : Bool) : ModelAdmission × Except AdmissionError Reservation :=
  let granted := { a with grants := a.grants.insert r }
  match granted.persist writes with
  | some saved => (saved, .ok r)
  | none => ({ granted with grants := granted.grants.remove r.id }, .error (.reservationPersistenceFailed r.label))

/-- `admit`, with the id and the date its reservation would get. -/
def admitModel (request : AdmissionRequest) (pins : SweepPins) (id : Nat) (now : Int) :
    ModelAdmission × Except AdmissionError Reservation :=
  match request.declaredBytes with
  | none => (a, .error (.unknownSize request.label))
  | some need =>
    let pins := pinning pins request
    let ceiling := a.ceiling around pins need
    let survey := makeRoom around pins ceiling
    if 0 ≤ ceiling ∧ survey.usedBytes ≤ ceiling then
      match a.refusesSpace around need with
      | some free => (a, .error (.insufficientFreeSpace request.label (a.grants.outstandingBytes + need) free headroomBytes))
      | none => a.record { id, key := request.key, label := request.label, bytes := need, grantedAt := now } around.writes
    else
      let available := max 0 (around.quotaBytes - a.grants.outstandingBytes - hubBytes pins.hubRepos around.atHub - survey.usedBytes)
      (a, .error (.exceedsQuota request.label need available (protectedBytes survey pins) around.quotaBytes))

/-- Hand a grant back. -/
def release (r : Reservation) (writes : Bool) : ModelAdmission :=
  if r.id ∈ a.grants.ids then persistBestEffort { a with grants := a.grants.remove r.id } writes else a

/-- Whether a grant is one of `grantIDs` and no writer has its key. -/
def abandoned (grantIDs : List Nat) (writers : List Text) (r : Reservation) : Bool := r.id ∈ grantIDs && r.key ∉ writers

/-- Drop the abandoned grants of `grantIDs`, and return those that stay. `writers` are the keys of running transfers. -/
def reconcileIDs (grantIDs : List Nat) (writers : List Text) (writes : Bool) :
    ModelAdmission × List Reservation :=
  let kept := a.grants.filter fun r => !abandoned grantIDs writers r
  let after :=
    if a.grants.list.filter (abandoned grantIDs writers) = [] then a else persistBestEffort { a with grants := kept } writes
  (after, after.grants.reservations.filter fun r => r.id ∈ grantIDs)

def reconcile (writers : List Text) (writes : Bool) : ModelAdmission × List Reservation :=
  a.reconcileIDs a.grants.ids writers writes

def reconcileRestored (writers : List Text) (writes : Bool) : ModelAdmission × List Reservation :=
  a.reconcileIDs a.restoredGrantIDs writers writes

end ModelAdmission

/-! ## The processes of one installation -/

/-- One process after the other over one ledger file. `given` are the reservations callers got, `ended` the ids of those
released or dropped, `issued` every id drawn; none of the three is part of the source. -/
structure Device where
  admission : ModelAdmission
  given : List Reservation
  ended : List Nat
  issued : List Nat

/-- A first process, over whatever ledger is there. -/
def Device.start (ledger : List Reservation) : Device where
  admission := .init ledger
  given := []
  ended := []
  issued := ledger.map Reservation.id

/-- The ids of the grants a call took out of the table. -/
def dropped (before after : Grants) : List Nat := before.ids.filter (· ∉ after.ids)

/-- One call of the actor, by any caller, or the end of the process. A `UUID` is drawn once. A process killed inside a call
has written the ledger or not; killed inside `admit` after the write it leaves a grant that no caller got. -/
inductive DeviceStep : Device → Device → Prop
  | granted {d a r} (around : Surroundings) (request : AdmissionRequest) (pins : SweepPins) (id : Nat) (now : Int)
      (fresh : id ∉ d.issued) (size : ∀ n ∈ request.declaredBytes, 0 ≤ n)
      (h : d.admission.admitModel around request pins id now = (a, .ok r)) :
      DeviceStep d { d with admission := a, given := r :: d.given, issued := id :: d.issued }
  | refused {d a e} (around : Surroundings) (request : AdmissionRequest) (pins : SweepPins) (id : Nat) (now : Int)
      (fresh : id ∉ d.issued) (h : d.admission.admitModel around request pins id now = (a, .error e)) :
      DeviceStep d { d with admission := a, issued := id :: d.issued }
  | release {d} (r : Reservation) (writes : Bool) :
      DeviceStep d { d with admission := d.admission.release r writes, ended := r.id :: d.ended }
  | reconcile {d a kept} (writers : List Text) (writes : Bool) (h : d.admission.reconcile writers writes = (a, kept)) :
      DeviceStep d { d with admission := a, ended := dropped d.admission.grants a.grants ++ d.ended }
  | reconcileRestored {d a kept} (writers : List Text) (writes : Bool)
      (h : d.admission.reconcileRestored writers writes = (a, kept)) :
      DeviceStep d { d with admission := a, ended := dropped d.admission.grants a.grants ++ d.ended }
  | kill {d} : DeviceStep d { d with admission := .init d.admission.ledger }
  | killInAdmit {d a r} (around : Surroundings) (request : AdmissionRequest) (pins : SweepPins) (id : Nat) (now : Int)
      (fresh : id ∉ d.issued) (size : ∀ n ∈ request.declaredBytes, 0 ≤ n)
      (h : d.admission.admitModel around request pins id now = (a, .ok r)) :
      DeviceStep d { d with admission := .init a.ledger, issued := id :: d.issued }

/-- The states of a device whose first ledger promises no negative bytes. -/
inductive DeviceReachable : Device → Prop
  | start (ledger : List Reservation) (sizes : ∀ r ∈ ledger, 0 ≤ r.bytes) : DeviceReachable (.start ledger)
  | step {d d'} (h : DeviceReachable d) (hs : DeviceStep d d') : DeviceReachable d'

end Pipette.Phone
