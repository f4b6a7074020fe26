import Pipette.Lemmas.TransferCallers

/-!
# One transfer per model, every waiter answered once

In whatever order callers join, leave and are answered, and transfers are cancelled, confirmed and settled: one transfer per key,
and one answer for every caller, right for the transfer it joined. A transfer that is confirmed to have stopped before its task
has called `start` still calls it, beside the next one (`confirmed_early_runs_twice`).
-/

namespace Pipette.Phone

open Registry

variable {Key R : Type} {calls : Nat → Key} {s s' : Registry Key R} {c t : Nat} {x x' : Transfer Key R}

/-! ## What is kept -/

/-- A step of caller `c` leaves the transfers running, and the other callers as they are. -/
structure Spared (c : Nat) (s s' : Registry Key R) : Prop where
  inFlight : s'.inFlight = s.inFlight
  transfers : ∀ t x, s.transfers t = some x → ∃ x', s'.transfers t = some x' ∧ x'.key = x.key ∧ x'.work = x.work ∧
    x'.isCancelling = x.isCancelling ∧ ∀ d, d ≠ c → (d ∈ x'.waiters ↔ d ∈ x.waiters)
  callers : ∀ d, d ≠ c → s'.callers d = s.callers d

/-- One transfer per key, and one answer for every caller. -/
structure OneTransfer (calls : Nat → Key) (s : Registry Key R) : Prop where
  /-- Since a key became free last, at most one transfer was begun under it. -/
  begunOnce : ∀ k, s.begun k ≤ 1
  /-- Nor did the work of more than one begin, if every transfer confirmed to have stopped had begun its work. -/
  ranOnce : s.early = false → ∀ k, s.ran k ≤ 1
  /-- A cancelled transfer keeps its key, and no newer one is begun under it, until it is confirmed to have stopped. -/
  tombstone : ∀ t x, s.transfers t = some x → x.isCancelling → x.confirmed = false →
    s.inFlight x.key = some t ∧ ∀ u y, s.transfers u = some y → y.key = x.key → u ≤ t
  /-- A caller that leaves does nothing to the transfer for the others. -/
  leaves : ∀ c s', LeaveStep calls s c s' → Spared c s s'
  /-- A caller that waits is resumed at most once, and has been once its transfer has ended or is cancelled or the caller has
  left. What it is resumed with is right for the transfer it joined. -/
  answered : ∀ c t, (s.callers c).place = .attached t → ∃ x, s.transfers t = some x ∧ x.key = calls c ∧
    (s.callers c).answers.length ≤ 1 ∧
    (x.work.isReturned ∨ x.isCancelling ∨ (s.callers c).isCancelled ∧ (s.callers c).leaving = false →
      (s.callers c).answers.length = 1) ∧
    ∀ a ∈ (s.callers c).answers, Right x (s.callers c) a
  /-- A caller that does not wait yet, or is refused, has no continuation to resume. -/
  unanswered : ∀ c, (∀ t, (s.callers c).place ≠ .attached t) → (s.callers c).answers = []

theorem LeaveStep.spared (h : LeaveStep calls s c s') : Spared c s s' := by
  cases h with
  | cancelTask | stopWaitingGone => exact ⟨rfl, fun t x ht => ⟨x, ht, rfl, rfl, rfl, fun d _ => Iff.rfl⟩, fun d hd => by simp [hd]⟩
  | @stopWaiting t x hactor h hflight ht hc =>
    refine ⟨rfl, fun u y hy => ?_, fun d hd => by simp [hd]⟩
    by_cases hu : u = t
    · subst hu
      rw [ht] at hy
      cases hy
      exact ⟨_, Function.update_self .., rfl, rfl, rfl, fun d hd => by simp [hd]⟩
    · exact ⟨y, by simp [hu, hy], rfl, rfl, rfl, fun d _ => Iff.rfl⟩

theorem Attended.answered (hinv : Attended calls s) (hplace : (s.callers c).place = .attached t) :
    ∃ x, s.transfers t = some x ∧ x.key = calls c ∧ (s.callers c).answers.length ≤ 1 ∧
      (x.work.isReturned ∨ x.isCancelling ∨ (s.callers c).isCancelled ∧ (s.callers c).leaving = false →
        (s.callers c).answers.length = 1) ∧
      ∀ a ∈ (s.callers c).answers, Right x (s.callers c) a := by
  obtain ⟨x, hx, hkey, hjoined⟩ := (hinv.stands c).attached hplace
  refine ⟨x, hx, hkey, ?_⟩
  rcases hjoined with ⟨hnone, hmem, hleaves⟩ | ⟨a, hone, -, hright⟩
  · have hopen := hinv.isOpen t x hx (List.ne_nil_of_mem hmem)
    simp only [Transfer.isOpen, Bool.and_eq_true, Bool.not_eq_eq_eq_not, Bool.not_true] at hopen
    refine ⟨by simp [hnone], ?_, by simp [hnone]⟩
    rintro (hreturned | hcancelling | ⟨hcancelled, hleft⟩)
    · rw [hopen.2] at hreturned
      cases hreturned
    · rw [hopen.1] at hcancelling
      cases hcancelling
    · rw [hleaves hcancelled] at hleft
      cases hleft
  · exact ⟨by simp [hone], fun _ => by simp [hone], by simpa [hone] using hright⟩

/-! ## In any order of steps -/

/-- What holds of the registry, its callers and the main actor at every step. -/
structure RegistryInv (calls : Nat → Key) (s : Registry Key R) : Prop where
  occupied : Occupied s
  flights : Flights s
  started : s.early = false → Started s
  attended : Attended calls s

variable [DecidableEq Key]

theorem RegistryStep.early (h : RegistryStep calls s s') (hearly : s'.early = false) : s.early = false := by
  cases h with
  | leave c h | join c h => cases h <;> exact hearly
  | transfer h =>
    cases h with
    | cancel | start | settleCancelled => exact hearly
    | finishCancellation => exact (Bool.or_eq_false_iff.1 hearly).1
    | settle =>
      revert hearly
      simp only [answer, setTransfer]
      split <;> exact id

theorem RegistryStep.inv (h : RegistryStep calls s s') (hinv : RegistryInv calls s) : RegistryInv calls s' := by
  have hearly := h.early
  cases h with
  | leave c h =>
    exact ⟨h.occupied hinv.occupied, h.flights hinv.flights, fun he => h.started (hinv.started (hearly he)),
      h.attended hinv.occupied hinv.flights hinv.attended⟩
  | join c h =>
    exact ⟨h.occupied hinv.occupied, h.flights hinv.flights, fun he => h.started (hinv.started (hearly he)),
      h.attended hinv.flights hinv.attended⟩
  | transfer h =>
    exact ⟨h.occupied hinv.occupied, h.flights hinv.flights, fun he => h.started hinv.flights (hinv.started (hearly he)) he,
      h.attended hinv.occupied hinv.flights hinv.attended⟩

theorem RegistryReachable.inv (h : RegistryReachable calls s) : RegistryInv calls s := by
  induction h with
  | refl =>
    have hoccupied : Occupied (empty : Registry Key R) := fun c hc => by cases hc
    exact ⟨hoccupied, flights_empty, fun _ => started_empty, attended_empty⟩
  | tail _ hstep ih => exact hstep.inv ih

/-- In whatever order callers join, leave and are answered, and transfers are cancelled, confirmed and settled. -/
theorem oneTransfer (calls : Nat → Key) (s : Registry Key R) (h : RegistryReachable calls s) : OneTransfer calls s := by
  have hinv := h.inv
  refine ⟨?_, fun hearly k => (hinv.started hearly).ran_le_one hinv.flights k, ?_, fun c s' h => h.spared,
    fun c t hplace => hinv.attended.answered hplace, fun c hplace => (hinv.attended.stands c).unanswered hplace⟩
  · intro k
    rw [hinv.flights.begun k]
    split <;> omega
  · intro t x ht hcancelling hconfirmed
    have hflight := (hinv.flights.flight x.key t).2 ⟨x, ht, rfl, by simp [Transfer.occupies, hcancelling, hconfirmed]⟩
    exact ⟨hflight, fun u y hy hkey => hinv.flights.newest x.key t hflight u y hy hkey⟩

theorem RegistryReachable.join (h : RegistryReachable calls s) (hstep : JoinStep calls s c s') : RegistryReachable calls s' :=
  h.tail (.join c hstep)

theorem RegistryReachable.leave (h : RegistryReachable calls s) (hstep : LeaveStep calls s c s') : RegistryReachable calls s' :=
  h.tail (.leave c hstep)

/-- Two callers of one key, of which the second leaves while the transfer runs. -/
theorem oneTransfer_secondLeaves : ∃ s : Registry Unit Nat, RegistryReachable (fun _ => ()) s ∧
    (s.callers 0).answers = [.outcome 7] ∧ (s.callers 1).answers = [.cancellationError] ∧ OneTransfer (fun _ => ()) s := by
  have hempty : RegistryReachable (fun _ => ()) (empty : Registry Unit Nat) := .refl
  have hfirst := (((hempty.join (c := 0) (.enter rfl rfl rfl)).join (c := 0) (.beginNew rfl rfl)).join (c := 0) (.install rfl)).join
    (c := 0) (.wait rfl rfl rfl)
  have hsecond := (((hfirst.join (c := 1) (.enter rfl rfl rfl)).join (c := 1) (.find rfl rfl rfl rfl)).join (c := 1) (.install rfl)).join
    (c := 1) (.wait rfl rfl rfl)
  have hstarted : RegistryReachable _ _ := hsecond.tail (.transfer (.start (t := 0) rfl rfl rfl))
  have hleft := (hstarted.leave (c := 1) (.cancelTask rfl)).leave (c := 1) (.stopWaiting rfl rfl rfl rfl (by decide))
  have hsettled : RegistryReachable _ _ := hleft.tail (.transfer (.settle (t := 0) 7 rfl rfl rfl rfl))
  exact ⟨_, hsettled, rfl, rfl, oneTransfer _ _ hsettled⟩

/-- A transfer that is cancelled and confirmed to have stopped before its task called `start` calls it after the next one has. -/
theorem confirmed_early_runs_twice : ∃ s : Registry Unit Nat, RegistryReachable (fun _ => ()) s ∧
    s.begun () = 1 ∧ s.ran () = 2 ∧ ∀ t < 2, ∃ x, s.transfers t = some x ∧ x.work = .running := by
  have hempty : RegistryReachable (fun _ => ()) (empty : Registry Unit Nat) := .refl
  have hfirst := (((hempty.join (c := 0) (.enter rfl rfl rfl)).join (c := 0) (.beginNew rfl rfl)).join (c := 0) (.install rfl)).join
    (c := 0) (.wait rfl rfl rfl)
  have hcancelled : RegistryReachable _ _ := hfirst.tail (.transfer (@TransferStep.cancel _ _ _ _ () 0 _ rfl rfl rfl rfl))
  have hfree : RegistryReachable _ _ := hcancelled.tail (.transfer (@TransferStep.finishCancellation _ _ _ _ () 0 _ rfl rfl rfl rfl))
  have hsecond := (((hfree.join (c := 1) (.enter rfl rfl rfl)).join (c := 1) (.beginNew rfl rfl)).join (c := 1) (.install rfl)).join
    (c := 1) (.wait rfl rfl rfl)
  have hnew : RegistryReachable _ _ := hsecond.tail (.transfer (.start (t := 1) rfl rfl rfl))
  have hold : RegistryReachable _ _ := hnew.tail (.transfer (.start (t := 0) rfl rfl rfl))
  refine ⟨_, hold, rfl, rfl, ?_⟩
  intro t ht
  obtain rfl | rfl : t = 0 ∨ t = 1 := by omega
  · exact ⟨_, rfl, rfl⟩
  · exact ⟨_, rfl, rfl⟩

end Pipette.Phone
