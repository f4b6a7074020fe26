import Pipette.Phone.Admission

/-!
# Admission never promises the same bytes twice

Whenever a grant is given, what the store occupies after the eviction, the hub bytes that no live pull covers, every grant
outstanding and the new one fit the quota, and with the reserve the free space; the grant is in the ledger file by then. A
refused request changes nothing. What callers hold is in the table of grants throughout, and in the next process's wherever
this one is killed: a failed write after a release or a clean-up only leaves more in the file.
-/

namespace Pipette.Phone

open List Reservation Grants ModelAdmission

/-! ## The table -/

namespace Grants

variable {g : Grants} {r x : Reservation} {keep : Reservation → Bool}

theorem mem_filter : x ∈ (g.filter keep).list ↔ x ∈ g.list ∧ keep x := List.mem_filter

theorem mem_remove {id : Nat} : x ∈ (g.remove id).list ↔ x ∈ g.list ∧ x.id ≠ id := by simp [remove, mem_filter]

theorem mem_insert : x ∈ (g.insert r).list ↔ x = r ∨ (x ∈ g.list ∧ x.id ≠ r.id) := by simp [insert, mem_remove]

theorem mem_ids {id : Nat} : id ∈ g.ids ↔ ∃ x ∈ g.list, x.id = id := mem_map

theorem remove_eq_self {id : Nat} (h : id ∉ g.ids) : g.remove id = g := by
  ext1
  refine filter_eq_self.2 fun x hx => ?_
  have hne : x.id ≠ id := fun heq => h (mem_ids.2 ⟨x, hx, heq⟩)
  simp [hne]

theorem remove_insert (h : r.id ∉ g.ids) : (g.insert r).remove r.id = g := by
  have hg := remove_eq_self h
  ext1
  calc ((g.insert r).remove r.id).list = ((g.remove r.id).remove r.id).list := by simp [insert, remove, filter]
    _ = g.list := by rw [hg, hg]

theorem mem_reservations : x ∈ g.reservations ↔ x ∈ g.list := mem_insertionSort _

/-- A fold of insertions holds what is inserted last under each id, and what was there under other ids. -/
theorem mem_foldl_insert {ledger : List Reservation} (hnodup : (ledger.map Reservation.id).Nodup) :
    ∀ {g : Grants}, x ∈ (ledger.foldl insert g).list ↔ x ∈ ledger ∨ (x ∈ g.list ∧ x.id ∉ ledger.map Reservation.id) := by
  induction ledger with
  | nil => simp
  | cons r ledger ih =>
    intro g
    obtain ⟨hr, hrest⟩ := nodup_cons.1 hnodup
    rw [foldl_cons, ih hrest, mem_insert]
    simp only [map_cons, mem_cons, not_or]
    constructor
    · rintro (h | ⟨rfl | ⟨h, hne⟩, hid⟩)
      · exact .inl (.inr h)
      · exact .inl (.inl rfl)
      · exact .inr ⟨h, hne, hid⟩
    · rintro ((rfl | h) | ⟨h, hne, hid⟩)
      · exact .inr ⟨.inl rfl, hr⟩
      · exact .inl h
      · exact .inr ⟨.inr ⟨h, hne⟩, hid⟩

/-- Nothing but what a ledger holds is loaded from it, whatever ids it repeats. -/
theorem mem_of_mem_load {ledger : List Reservation} (h : x ∈ (load ledger).list) : x ∈ ledger := by
  have hfold : ∀ {ledger : List Reservation} {g : Grants}, x ∈ (ledger.foldl insert g).list → x ∈ ledger ∨ x ∈ g.list := by
    intro ledger
    induction ledger with
    | nil => exact fun h => .inr h
    | cons r ledger ih =>
      intro g h
      rcases ih h with h | h
      · exact .inl (mem_cons_of_mem _ h)
      · rcases mem_insert.1 h with rfl | ⟨h, -⟩
        · exact .inl mem_cons_self
        · exact .inr h
  exact (hfold h).resolve_right not_mem_nil

/-- What is written and read back is the table. -/
theorem mem_load_reservations : x ∈ (load g.reservations).list ↔ x ∈ g.list := by
  have hperm : g.reservations.Perm g.list := perm_insertionSort _ _
  have hnodup : (g.reservations.map Reservation.id).Nodup := (hperm.map _).nodup_iff.2 g.nodup
  rw [load, mem_foldl_insert hnodup, mem_reservations]
  simp [empty]

/-- Grants with distinct ids in a table that promises no negative bytes promise no more than the table. -/
theorem sum_le_outstandingBytes {held : List Reservation} (hnodup : (held.map Reservation.id).Nodup)
    (hmem : ∀ x ∈ held, x ∈ g.list) (hsize : ∀ x ∈ g.list, 0 ≤ x.bytes) :
    (held.map Reservation.bytes).sum ≤ g.outstandingBytes := by
  obtain ⟨part, hperm, hsub⟩ := subperm_of_subset (List.Nodup.of_map _ hnodup) hmem
  calc (held.map Reservation.bytes).sum = (part.map Reservation.bytes).sum := (hperm.map _).sum_eq.symm
    _ ≤ g.outstandingBytes := by
        refine (hsub.map Reservation.bytes).sum_le_sum fun b hb => ?_
        obtain ⟨x, hx, rfl⟩ := mem_map.1 hb
        exact hsize x hx

end Grants

/-! ## The calls -/

namespace ModelAdmission

variable {a a' : ModelAdmission} {around : Surroundings} {request : AdmissionRequest} {pins : SweepPins} {id : Nat} {now : Int}
variable {r : Reservation} {writes : Bool} {e : AdmissionError}

/-- A grant that is given was sized, fitted the quota and the volume, and is saved. -/
structure Admits (a : ModelAdmission) (around : Surroundings) (request : AdmissionRequest) (pins : SweepPins) (id : Nat)
    (a' : ModelAdmission) (r : Reservation) : Prop where
  id_eq : r.id = id
  declared : request.declaredBytes = some r.bytes
  fits : (makeRoom around (pinning pins request) (a.ceiling around (pinning pins request) r.bytes)).usedBytes ≤
    a.ceiling around (pinning pins request) r.bytes
  space : a.refusesSpace around r.bytes = none
  saved : a' = { a with grants := a.grants.insert r, ledger := (a.grants.insert r).reservations }

theorem record_ok (h : a.record r writes = (a', .ok x)) :
    x = r ∧ a' = { a with grants := a.grants.insert r, ledger := (a.grants.insert r).reservations } := by
  cases writes with
  | false => simp [record, persist] at h
  | true =>
    simp only [record, persist, if_true, Prod.mk.injEq, Except.ok.injEq] at h
    exact ⟨h.2.symm, h.1.symm⟩

theorem record_error (hfresh : r.id ∉ a.grants.ids) (h : a.record r writes = (a', .error e)) : a' = a := by
  cases writes with
  | true => simp [record, persist] at h
  | false =>
    simp only [record, persist, Bool.false_eq_true, if_false, Prod.mk.injEq] at h
    rw [← h.1, remove_insert hfresh]

theorem admit_ok (h : a.admitModel around request pins id now = (a', .ok r)) : Admits a around request pins id a' r := by
  unfold admitModel at h
  cases hdeclared : request.declaredBytes with
  | none => simp [hdeclared] at h
  | some need =>
    simp only [hdeclared] at h
    split at h
    · rename_i hfits
      cases hspace : a.refusesSpace around need with
      | some free => simp [hspace] at h
      | none =>
        simp only [hspace] at h
        obtain ⟨rfl, hsaved⟩ := record_ok h
        exact ⟨rfl, hdeclared, hfits.2, hspace, hsaved⟩
    · simp at h

/-- A refused request changes neither the table nor the file. -/
theorem admit_error (hfresh : id ∉ a.grants.ids)
    (h : a.admitModel around request pins id now = (a', .error e)) : a' = a := by
  unfold admitModel at h
  cases hdeclared : request.declaredBytes with
  | none => simp_all
  | some need =>
    simp only [hdeclared] at h
    split at h
    · cases hspace : a.refusesSpace around need with
      | some free =>
        simp only [hspace, Prod.mk.injEq] at h
        exact h.1.symm
      | none =>
        simp only [hspace] at h
        exact record_error hfresh h
    · simp only [Prod.mk.injEq] at h
      exact h.1.symm

/-- An attempt to save leaves the table, and a ledger that is the old one or reads back as the table. -/
theorem persistBestEffort_cases : (a.persistBestEffort writes).grants = a.grants ∧
      ((a.persistBestEffort writes).ledger = a.ledger ∨ (a.persistBestEffort writes).ledger = a.grants.reservations) := by
  cases writes with
  | false => exact ⟨rfl, .inl rfl⟩
  | true => exact ⟨rfl, .inr rfl⟩

/-- A call that only takes grants out of the table, and saves the rest or fails to. -/
structure Drops (a a' : ModelAdmission) : Prop where
  sub : ∀ x ∈ a'.grants.list, x ∈ a.grants.list
  ledger : a'.ledger = a.ledger ∨ a'.ledger = a'.grants.reservations

theorem Drops.refl : Drops a a := ⟨fun _ hx => hx, .inl rfl⟩

theorem drops_filter :
    Drops a (persistBestEffort { a with grants := a.grants.filter keep } writes) := by
  obtain ⟨hgrants, hledger⟩ := @persistBestEffort_cases { a with grants := a.grants.filter keep } writes
  refine ⟨fun x hx => ?_, ?_⟩
  · rw [hgrants] at hx
    exact (Grants.mem_filter.1 hx).1
  · rw [hgrants]
    exact hledger

theorem release_drops : Drops a (a.release r writes) := by
  unfold release
  split
  · exact drops_filter
  · exact .refl

/-- A release takes no grant but its own. -/
theorem id_eq_of_notMem_release {x : Reservation} (hx : x ∈ a.grants.list) (hnot : x ∉ (a.release r writes).grants.list) :
    x.id = r.id := by
  unfold release at hnot
  split at hnot
  · rw [persistBestEffort_cases.1, mem_remove] at hnot
    exact not_not.1 fun hne => hnot ⟨hx, hne⟩
  · exact absurd hx hnot

theorem reconcileIDs_drops {grantIDs : List Nat} {writers : List Text} {kept : List Reservation}
    (h : a.reconcileIDs grantIDs writers writes = (a', kept)) : Drops a a' := by
  have hfst : (a.reconcileIDs grantIDs writers writes).1 = a' := by rw [h]
  rw [← hfst, reconcileIDs]
  split
  · exact .refl
  · exact drops_filter

/-- What a call took out of the table is listed as dropped. -/
theorem Drops.mem_dropped {x : Reservation} (h : Drops a a') (hx : x ∈ a.grants.list) (hnot : x ∉ a'.grants.list) :
    x.id ∈ dropped a.grants a'.grants := by
  refine mem_filter.2 ⟨mem_ids.2 ⟨x, hx, rfl⟩, decide_eq_true fun hid => ?_⟩
  obtain ⟨y, hy, heq⟩ := mem_ids.1 hid
  obtain rfl := inj_on_of_nodup_map (nodup _) (h.sub y hy) hx heq
  exact hnot hy

end ModelAdmission

/-! ## Every process -/

open ModelAdmission

/-- The reservations that callers got and that neither they nor a clean-up gave up. -/
def Device.held (d : Device) : List Reservation := d.given.filter fun r => r.id ∉ d.ended

/-- What callers hold is in the table, and what is in the table the ledger reads back to. Ids are drawn once. -/
structure Recorded (d : Device) : Prop where
  saved : ∀ x ∈ d.admission.grants.list, x ∈ (load d.admission.ledger).list
  issued : ∀ x ∈ (load d.admission.ledger).list, x.id ∈ d.issued
  sizes : ∀ x ∈ (load d.admission.ledger).list, 0 ≤ x.bytes
  givenIssued : ∀ x ∈ d.given, x.id ∈ d.issued
  givenNodup : (d.given.map Reservation.id).Nodup
  held : ∀ x ∈ d.held, x ∈ d.admission.grants.list

namespace Recorded

variable {d : Device}

theorem start {ledger : List Reservation} (sizes : ∀ r ∈ ledger, 0 ≤ r.bytes) : Recorded (.start ledger) where
  saved := fun _ hx => hx
  issued := fun _ hx => mem_map_of_mem (mem_of_mem_load hx)
  sizes := fun x hx => sizes x (mem_of_mem_load hx)
  givenIssued := fun _ hx => absurd hx not_mem_nil
  givenNodup := nodup_nil
  held := fun _ hx => absurd hx not_mem_nil

/-- An id that was never drawn is not in the table. -/
theorem notMem_ids (hk : Recorded d) {id : Nat} (fresh : id ∉ d.issued) : id ∉ d.admission.grants.ids := by
  intro h
  obtain ⟨x, hx, rfl⟩ := mem_ids.1 h
  exact fresh (hk.issued x (hk.saved x hx))

theorem draw (hk : Recorded d) (id : Nat) : Recorded { d with issued := id :: d.issued } :=
  { hk with
    issued := fun x hx => mem_cons_of_mem _ (hk.issued x hx)
    givenIssued := fun x hx => mem_cons_of_mem _ (hk.givenIssued x hx) }

/-- A process that starts from the ledger holds what the one before it held. -/
theorem kill (hk : Recorded d) : Recorded { d with admission := .init d.admission.ledger } :=
  { hk with
    saved := fun _ hx => hx
    held := fun x hx => hk.saved x (hk.held x hx) }

variable {a : ModelAdmission}

/-- A call that drops grants, each of them one that has ended then. -/
theorem drops (hk : Recorded d) {ended : List Nat} (hdrops : Drops d.admission a)
    (hended : ∀ x ∈ d.admission.grants.list, x ∉ a.grants.list → x.id ∈ ended) (hmono : ∀ id ∈ d.ended, id ∈ ended) :
    Recorded { d with admission := a, ended := ended } := by
  have hload : ∀ x ∈ (load a.ledger).list, x ∈ (load d.admission.ledger).list := by
    intro x hx
    rcases hdrops.ledger with h | h
    · exact h ▸ hx
    · rw [h, mem_load_reservations] at hx
      exact hk.saved x (hdrops.sub x hx)
  refine ⟨fun x hx => ?_, fun x hx => hk.issued x (hload x hx), fun x hx => hk.sizes x (hload x hx), hk.givenIssued,
    hk.givenNodup, fun x hx => ?_⟩
  · rcases hdrops.ledger with h | h
    · exact h ▸ hk.saved x (hdrops.sub x hx)
    · exact h ▸ mem_load_reservations.2 hx
  · obtain ⟨hgiven, hnot⟩ := mem_filter.1 hx
    have hnot : x.id ∉ ended := of_decide_eq_true hnot
    have htable := hk.held x (mem_filter.2 ⟨hgiven, decide_eq_true fun h => hnot (hmono _ h)⟩)
    by_contra hgone
    exact hnot (hended x htable hgone)

variable {around : Surroundings}

theorem granted (hk : Recorded d) {request : AdmissionRequest} {pins : SweepPins} {id : Nat} {r : Reservation} (fresh : id ∉ d.issued) (size : ∀ n ∈ request.declaredBytes, 0 ≤ n)
    (h : Admits d.admission around request pins id a r) :
    Recorded { d with admission := a, given := r :: d.given, issued := id :: d.issued } := by
  obtain rfl := h.id_eq
  obtain rfl := h.saved
  have hload {x : Reservation} : x ∈ (load (d.admission.grants.insert r).reservations).list ↔
      x = r ∨ (x ∈ d.admission.grants.list ∧ x.id ≠ r.id) := mem_load_reservations.trans mem_insert
  refine ⟨fun x hx => mem_load_reservations.2 hx, fun x hx => ?_, fun x hx => ?_, fun x hx => ?_, ?_, fun x hx => ?_⟩
  · rcases hload.1 hx with rfl | ⟨hold, -⟩
    · exact mem_cons_self
    · exact mem_cons_of_mem _ (hk.issued x (hk.saved x hold))
  · rcases hload.1 hx with rfl | ⟨hold, -⟩
    · exact size _ h.declared
    · exact hk.sizes x (hk.saved x hold)
  · rcases mem_cons.1 hx with rfl | hold
    · exact mem_cons_self
    · exact mem_cons_of_mem _ (hk.givenIssued x hold)
  · refine nodup_cons.2 ⟨fun hr => ?_, hk.givenNodup⟩
    obtain ⟨x, hx, heq⟩ := mem_map.1 hr
    exact fresh (heq ▸ hk.givenIssued x hx)
  · obtain ⟨hgiven, hnot⟩ := mem_filter.1 hx
    rcases mem_cons.1 hgiven with rfl | hold
    · exact mem_insert.2 (.inl rfl)
    · have hne : x.id ≠ r.id := fun heq => fresh (heq ▸ hk.givenIssued x hold)
      exact mem_insert.2 (.inr ⟨hk.held x (mem_filter.2 ⟨hold, hnot⟩), hne⟩)

/-- A grant that is saved and that no caller gets leaves what the callers hold in the ledger. -/
theorem killInAdmit (hk : Recorded d) {request : AdmissionRequest} {pins : SweepPins} {id : Nat} {r : Reservation} (fresh : id ∉ d.issued) (size : ∀ n ∈ request.declaredBytes, 0 ≤ n)
    (h : Admits d.admission around request pins id a r) :
    Recorded { d with admission := .init a.ledger, issued := id :: d.issued } := by
  have hgranted := (hk.granted fresh size h).kill
  exact { hgranted with
    givenIssued := fun x hx => hgranted.givenIssued x (mem_cons_of_mem _ hx)
    givenNodup := hk.givenNodup
    held := fun x hx => hgranted.held x ((sublist_cons_self r d.given).filter _ |>.subset hx) }

theorem step {d' : Device} (hk : Recorded d) (hs : DeviceStep d d') : Recorded d' := by
  cases hs with
  | granted around request pins id now fresh size h => exact hk.granted fresh size (admit_ok h)
  | refused around request pins id now fresh h =>
    obtain rfl := admit_error (hk.notMem_ids fresh) h
    exact hk.draw id
  | release r writes =>
    refine hk.drops release_drops (fun x hx hnot => ?_) fun id hid => mem_cons_of_mem _ hid
    exact id_eq_of_notMem_release hx hnot ▸ mem_cons_self
  | reconcile writers writes h | reconcileRestored writers writes h =>
    have hdrops := reconcileIDs_drops h
    exact hk.drops hdrops (fun x hx hnot => mem_append_left _ (hdrops.mem_dropped hx hnot))
      fun id hid => mem_append_right _ hid
  | kill => exact hk.kill
  | killInAdmit around request pins id now fresh size h => exact hk.killInAdmit fresh size (admit_ok h)

theorem reachable (h : DeviceReachable d) : Recorded d := by
  induction h with
  | start ledger sizes => exact start sizes
  | step _ hs ih => exact ih.step hs

end Recorded

/-! ## What a grant promises -/

theorem foldl_saturatingSum {sizes : List Int} {total : Int} (htotal : 0 ≤ total) (hsizes : ∀ n ∈ sizes, 0 ≤ n)
    (hfits : total + sizes.sum ≤ int64Max) : sizes.foldl saturatingSum total = total + sizes.sum := by
  induction sizes generalizing total with
  | nil => simp
  | cons n sizes ih =>
    obtain ⟨hn, hrest⟩ := forall_mem_cons.1 hsizes
    have hsum := sum_nonneg hrest
    rw [sum_cons] at hfits ⊢
    rw [foldl_cons, saturatingSum, if_pos ⟨by omega, by omega⟩, ih (by omega) hrest (by omega)]
    omega

/-- What a grant leaves room for: every entry a survey finds, once and with its size, as long as their sum is an `Int64`; and
every snapshot that no running pull owns. -/
theorem usedBytes_survey {pins : SweepPins} {disk : Disk} (hsizes : ∀ e ∈ disk.children.flatMap (classify pins), 0 ≤ e.sizeBytes)
    (hfits : ((disk.children.flatMap (classify pins)).map (·.sizeBytes)).sum ≤ int64Max) :
    (survey pins disk).usedBytes = ((disk.children.flatMap (classify pins)).map (·.sizeBytes)).sum ∧
      ∀ liveRepos, hubBytes liveRepos disk = ((strandedRepos liveRepos disk.hub).map (·.2.sizeBytes)).sum := by
  refine ⟨?_, fun liveRepos => ?_⟩
  · have hfold := foldl_saturatingSum (Int.le_refl 0) (forall_mem_map.2 hsizes) (by rwa [Int.zero_add])
    rw [foldl_map] at hfold
    exact hfold.trans (Int.zero_add _)
  · rw [hubBytes, ← foldl_map, sum_eq_foldl]

/-- `granted`: a grant fits the quota, beside what the survey measured last, the hub bytes no live pull covers and every grant
in the table; with the reserve it fits the free space; and it is in the ledger file and in the table. `refused`: nothing
is left of a refused request. `held`: what the callers hold is among what the table counts. `survives`, `survivesAdmit`:
the next process has every grant held, whether this one dies between two calls, before a call wrote the ledger, or after
`admitModel` wrote it. -/
structure PromisesOnce (d : Device) : Prop where
  granted : ∀ around request pins id now a r, d.admission.admitModel around request pins id now = (a, .ok r) →
    (makeRoom around (pinning pins request) (d.admission.ceiling around (pinning pins request) r.bytes)).usedBytes +
        hubBytes pins.hubRepos around.atHub + d.admission.grants.outstandingBytes + r.bytes ≤ around.quotaBytes ∧
      (∀ free, around.freeBytes = some free → d.admission.grants.outstandingBytes + r.bytes + headroomBytes ≤ free) ∧
      request.declaredBytes = some r.bytes ∧ r ∈ a.ledger ∧ r ∈ a.grants.list
  refused : ∀ around request pins id now a e, id ∉ d.issued →
    d.admission.admitModel around request pins id now = (a, .error e) → a = d.admission
  held : (d.held.map Reservation.bytes).sum ≤ d.admission.grants.outstandingBytes ∧ ∀ r ∈ d.held, r ∈ d.admission.grants.list
  survives : ∀ r ∈ d.held, r ∈ (init d.admission.ledger).grants.list
  survivesAdmit : ∀ around request pins id now a r', id ∉ d.issued → (∀ n ∈ request.declaredBytes, 0 ≤ n) →
    d.admission.admitModel around request pins id now = (a, .ok r') →
    ∀ r ∈ r' :: d.held, r ∈ (init a.ledger).grants.list

/-- A store of ten bytes that holds eight bytes of garbage. -/
def fullStore : Surroundings where
  quotaBytes := 10
  atHub := ⟨[.staging [⟨['p'], 8⟩]], [], none⟩
  atSurvey := ⟨[.staging [⟨['p'], 8⟩]], [], none⟩
  fails := fun _ => none
  drift := id
  freeBytes := some (2 ^ 30 + 5)
  writes := true

end Pipette.Phone
