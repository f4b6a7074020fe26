import Pipette.Lemmas.TransferKeys

/-!
# The callers of the transfer registry

A caller that waits is in the table of the transfer it joined, which has not answered yet; a caller that has its answer is in
no table, and the answer is right for its transfer (`Attended`). A `stopWaiting` finds its caller by key exactly if it still
waits.
-/

namespace Pipette.Phone

open Function Registry Transfer

variable {Key R : Type} {calls : Nat → Key} {s s' : Registry Key R} {c t : Nat} {x x' : Transfer Key R}

/-! ## Callers and their answers -/

/-- The transfer has not answered its waiters. -/
def Transfer.isOpen (x : Transfer Key R) : Bool := !x.isCancelling && !x.work.isReturned

/-- An answer that a caller of a transfer may get. -/
def Right (x : Transfer Key R) (caller : Caller Key R) : Answer Key R → Prop
  | .outcome result => x.work = .returned result ∧ x.isCancelling = false
  | .transferCancelled key => key = x.key ∧ x.isCancelling
  | .cancellationError => caller.isCancelled

/-- A caller that has joined a transfer waits in its table, and a cancelled one is about to leave; or it has its one answer
and is not in the table. -/
def Joined (c : Nat) (x : Transfer Key R) (caller : Caller Key R) : Prop :=
  caller.answers = [] ∧ c ∈ x.waiters ∧ (caller.isCancelled → caller.leaving) ∨
    ∃ a, caller.answers = [a] ∧ c ∉ x.waiters ∧ Right x caller a

/-- How it stands with a caller, wherever it is. -/
def Stands (key : Key) (transfers : Nat → Option (Transfer Key R)) (c : Nat) (caller : Caller Key R) : Prop :=
  match caller.place with
  | .outside | .checked | .refused => caller.answers = []
  | .found t => caller.answers = [] ∧ ∃ x, transfers t = some x ∧ x.key = key ∧ x.isOpen
  | .handled t => caller.answers = [] ∧ (caller.isCancelled → caller.leaving) ∧
      ∃ x, transfers t = some x ∧ x.key = key ∧ x.isOpen
  | .attached t => ∃ x, transfers t = some x ∧ x.key = key ∧ Joined c x caller

/-- What holds of the callers and the tables of waiters. -/
structure Attended (calls : Nat → Key) (s : Registry Key R) : Prop where
  stands : ∀ c, Stands (calls c) s.transfers c (s.callers c)
  waits : ∀ t x, s.transfers t = some x → ∀ c ∈ x.waiters, (s.callers c).place = .attached t
  isOpen : ∀ t x, s.transfers t = some x → x.waiters ≠ [] → x.isOpen
  leaves : ∀ c, (s.callers c).leaving → (s.callers c).isCancelled

theorem attended_empty : Attended calls (empty : Registry Key R) where
  stands c := rfl
  waits t x h := by cases h
  isOpen t x h := by cases h
  leaves c h := by cases h

/-- What a step may do to a transfer without changing how it stands with caller `c`. -/
structure Keeps (c : Nat) (x x' : Transfer Key R) : Prop where
  key : x'.key = x.key
  waiters : c ∈ x'.waiters ↔ c ∈ x.waiters
  settled : ∀ result, x.work = .returned result ∧ x.isCancelling = false → x'.work = .returned result ∧ x'.isCancelling = false
  cancelling : x.isCancelling → x'.isCancelling

theorem Keeps.refl (c : Nat) (x : Transfer Key R) : Keeps c x x := ⟨rfl, Iff.rfl, fun _ h => h, id⟩

variable {caller : Caller Key R} {a : Answer Key R} {key : Key} {f : Nat → Option (Transfer Key R)}

theorem Keeps.right (h : Keeps c x x') (hright : Right x caller a) : Right x' caller a := by
  cases a with
  | outcome result => exact h.settled result hright
  | transferCancelled key => exact ⟨hright.1.trans h.key.symm, h.cancelling hright.2⟩
  | cancellationError => exact hright

theorem Keeps.joined (h : Keeps c x x') (hjoined : Joined c x caller) : Joined c x' caller := by
  rcases hjoined with ⟨hnone, hmem, hleaves⟩ | ⟨a, hone, hmem, hright⟩
  · exact .inl ⟨hnone, h.waiters.2 hmem, hleaves⟩
  · exact .inr ⟨a, hone, fun hc => hmem (h.waiters.1 hc), h.right hright⟩

variable (h : Stands key f c caller)
include h

/-- A caller that is not touched, and whose transfer is kept; inside its `join` it needs an open one. -/
theorem Stands.keep {g : Nat → Option (Transfer Key R)}
    (hkeeps : ∀ t x, f t = some x → ∃ x', g t = some x' ∧ Keeps c x x' ∧ (caller.place.joins → x.isOpen → x'.isOpen)) :
    Stands key g c caller := by
  unfold Stands at h ⊢
  split at h
  · exact h
  · exact h
  · exact h
  next t hplace =>
    obtain ⟨hnone, x, hx, hkey, hopen⟩ := h
    obtain ⟨x', hx', hkeep, hopen'⟩ := hkeeps t x hx
    exact ⟨hnone, x', hx', hkeep.key.trans hkey, hopen' (by rw [hplace]; rfl) hopen⟩
  next t hplace =>
    obtain ⟨hnone, hleaves, x, hx, hkey, hopen⟩ := h
    obtain ⟨x', hx', hkeep, hopen'⟩ := hkeeps t x hx
    exact ⟨hnone, hleaves, x', hx', hkeep.key.trans hkey, hopen' (by rw [hplace]; rfl) hopen⟩
  next t hplace =>
    obtain ⟨x, hx, hkey, hjoined⟩ := h
    obtain ⟨x', hx', hkeep, -⟩ := hkeeps t x hx
    exact ⟨x', hx', hkeep.key.trans hkey, hkeep.joined hjoined⟩

theorem Stands.set
    (ht : f t = some x) (hkeep : Keeps c x x') (hopen : caller.place.joins → x.isOpen → x'.isOpen) :
    Stands key (update f t (some x')) c caller := by
  refine h.keep fun u y hy => ?_
  by_cases hu : u = t
  · subst hu
    rw [ht] at hy
    cases hy
    exact ⟨x', update_self .., hkeep, hopen⟩
  · exact ⟨y, by rw [update_of_ne hu, hy], .refl c y, fun _ => id⟩

theorem Stands.attached
    (hplace : caller.place = .attached t) : ∃ x, f t = some x ∧ x.key = key ∧ Joined c x caller := by
  simpa only [Stands, hplace] using h

omit h

theorem stands_attached (hplace : caller.place = .attached t)
    (ht : f t = some x) (hkey : x.key = key) (hjoined : Joined c x caller) : Stands key f c caller := by
  simp only [Stands, hplace]
  exact ⟨x, ht, hkey, hjoined⟩

/-- Outside its `join`, or with its transfer's `isOpen`, a caller has no answer before it is attached. -/
theorem Stands.unanswered (h : Stands key f c caller) (hplace : ∀ t, caller.place ≠ .attached t) : caller.answers = [] := by
  unfold Stands at h
  split at h
  · exact h
  · exact h
  · exact h
  · exact h.1
  · exact h.1
  next t heq => exact absurd heq (hplace t)

variable (hinv : Attended calls s)
include hinv

theorem Attended.waiter (ht : s.transfers t = some x) (hc : c ∈ x.waiters) :
    x.key = calls c ∧ (s.callers c).answers = [] := by
  obtain ⟨y, hy, hkey, hjoined⟩ := (hinv.stands c).attached (hinv.waits t x ht c hc)
  rw [ht] at hy
  cases hy
  rcases hjoined with ⟨hnone, -, -⟩ | ⟨a, -, hnot, -⟩
  · exact ⟨hkey, hnone⟩
  · exact absurd hc hnot

/-! ## Leaving -/

theorem Attended.leaves_update (hleaves : caller.leaving → caller.isCancelled) :
    ∀ d, (update s.callers c caller d).leaving → (update s.callers c caller d).isCancelled :=
  (forall_update_iff _ fun _ (v : Caller Key R) => v.leaving → v.isCancelled).2 ⟨hleaves, fun d _ => hinv.leaves d⟩

/-- One caller's record changes, and no transfer does. A caller that is attached stays so. -/
theorem Attended.move (hcallers : s'.callers = update s.callers c caller) (htransfers : s'.transfers = s.transfers)
    (hplace : ∀ t, (s.callers c).place = .attached t → caller.place = .attached t)
    (hstands : Stands (calls c) s.transfers c caller) (hleaves : caller.leaving → caller.isCancelled) :
    Attended calls s' := by
  refine ⟨?_, ?_, by rw [htransfers]; exact hinv.isOpen, by rw [hcallers]; exact hinv.leaves_update hleaves⟩
  · rw [hcallers, htransfers]
    exact (forall_update_iff _ fun d v => Stands (calls d) s.transfers d v).2 ⟨hstands, fun d _ => hinv.stands d⟩
  · intro t x ht d hd
    rw [htransfers] at ht
    have hthere := hinv.waits t x ht d hd
    rw [hcallers]
    by_cases hdc : d = c
    · subst hdc
      rw [update_self, hplace t hthere]
    · rwa [update_of_ne hdc]

/-- A caller that is attached to a transfer changes with its table, which stays as it is for the others. -/
theorem Attended.set (ht : s.transfers t = some x) (hcallers : s'.callers = update s.callers c caller)
    (htransfers : s'.transfers = update s.transfers t (some x')) (hplace : caller.place = .attached t)
    (hthere : ∀ u, (s.callers c).place = .attached u → u = t) (hkey : x'.key = calls c) (hjoined : Joined c x' caller)
    (hleaves : caller.leaving → caller.isCancelled) (hkeep : ∀ d, d ≠ c → Keeps d x x') (hopen : x'.isOpen) :
    Attended calls s' := by
  refine ⟨fun d => ?_, fun u y hy d hd => ?_, forall_updated htransfers (fun _ => hopen) hinv.isOpen, ?_⟩
  · rw [hcallers, htransfers]
    by_cases hd : d = c
    · subst hd
      rw [update_self]
      exact stands_attached hplace (update_self ..) hkey hjoined
    · rw [update_of_ne hd]
      exact (hinv.stands d).set ht (hkeep d hd) fun _ _ => hopen
  · rw [hcallers]
    rcases updated_cases htransfers hy with ⟨rfl, rfl⟩ | ⟨hu, hy⟩
    · by_cases hdc : d = c
      · rw [hdc, update_self, hplace]
      · rw [update_of_ne hdc]
        exact hinv.waits u x ht d ((hkeep d hdc).waiters.1 hd)
    · have hthere' := hinv.waits u y hy d hd
      rwa [update_of_ne fun hdc : d = c => hu (hthere u (hdc ▸ hthere'))]
  · rw [hcallers]
    exact hinv.leaves_update hleaves

theorem stands_cancelTask :
    Stands (calls c) s.transfers c { s.callers c with isCancelled := true, leaving := (s.callers c).place.hasHandler } := by
  have hstands := hinv.stands c
  cases hplace : (s.callers c).place with
  | attached t =>
    obtain ⟨x, hx, hkey, hjoined⟩ := hstands.attached hplace
    refine stands_attached hplace hx hkey ?_
    rcases hjoined with ⟨hnone, hmem, -⟩ | ⟨a, hone, hmem, hright⟩
    · exact .inl ⟨hnone, hmem, fun _ => rfl⟩
    · refine .inr ⟨a, hone, hmem, ?_⟩
      cases a <;> first | exact hright | rfl
  | outside | checked | refused | found t => simpa only [Stands, hplace] using hstands
  | handled t =>
    simp only [Stands, hplace] at hstands ⊢
    exact ⟨hstands.1, fun _ => rfl, hstands.2.2⟩

theorem stands_stopWaitingGone (hflights : Flights s) (hjoins : (s.callers c).place.joins = false)
    (hgone : ∀ t x, s.inFlight (calls c) = some t → s.transfers t = some x → c ∉ x.waiters) :
    Stands (calls c) s.transfers c { s.callers c with leaving := false } := by
  have hstands := hinv.stands c
  cases hplace : (s.callers c).place with
  | attached t =>
    obtain ⟨x, hx, hkey, hjoined⟩ := hstands.attached hplace
    refine stands_attached hplace hx hkey ?_
    rcases hjoined with ⟨-, hmem, -⟩ | ⟨a, hone, hmem, hright⟩
    · -- a caller that still waits is in the table of its key's transfer
      have hopen := hinv.isOpen t x hx (List.ne_nil_of_mem hmem)
      simp only [isOpen, Bool.and_eq_true, Bool.not_eq_eq_eq_not, Bool.not_true] at hopen
      have hflight := hflights.inFlight hx hopen.1 hopen.2
      exact absurd hmem (hgone t x (hkey ▸ hflight) hx)
    · refine .inr ⟨a, hone, hmem, ?_⟩
      cases a <;> exact hright
  | outside | checked | refused => simpa only [Stands, hplace] using hstands
  | found t | handled t => simp [hplace, Place.joins] at hjoins

omit hinv

theorem LeaveStep.attended (h : LeaveStep calls s c s') (hoccupied : Occupied s) (hflights : Flights s) (hinv : Attended calls s) :
    Attended calls s' := by
  cases h with
  | cancelTask h => exact hinv.move rfl rfl (fun _ => id) (stands_cancelTask hinv) fun _ => rfl
  | stopWaitingGone hactor h hgone =>
    exact hinv.move rfl rfl (fun _ => id) (stands_stopWaitingGone hinv hflights (hoccupied.alone hactor c) hgone) (by simp)
  | @stopWaiting t x hactor h hflight ht hc =>
    have hplace := hinv.waits t x ht c hc
    obtain ⟨hkey, hnone⟩ := hinv.waiter ht hc
    refine hinv.set ht rfl rfl hplace (fun u hu => ?_) hkey ?_ nofun (fun d hd => ⟨rfl, by simp [hd], fun _ h => h, id⟩)
      (hinv.isOpen t x ht (List.ne_nil_of_mem hc))
    · exact Place.attached.inj (hu.symm.trans hplace)
    · exact .inr ⟨.cancellationError, by simp [hnone], by simp, hinv.leaves c h⟩

/-! ## Waiting and being answered -/

theorem Attended.wait (hinv : Attended calls s) (hplace : (s.callers c).place = .handled t) (hcancelled : (s.callers c).isCancelled = false)
    (ht : s.transfers t = some x) :
    Attended calls ((s.setTransfer t { x with waiters := x.waiters ++ [c] }).goto c (.attached t)) := by
  obtain ⟨hkey, hopen, hnone⟩ : x.key = calls c ∧ x.isOpen ∧ (s.callers c).answers = [] := by
    have hstands := hinv.stands c
    simp only [Stands, hplace] at hstands
    obtain ⟨hnone, -, y, hy, hkey, hopen⟩ := hstands
    rw [ht] at hy
    cases hy
    exact ⟨hkey, hopen, hnone⟩
  refine hinv.set ht rfl rfl rfl (fun u hu => ?_) hkey ?_ (hinv.leaves c) (fun d hd => ⟨rfl, by simp [hd], fun _ h => h, id⟩) hopen
  · cases hplace.symm.trans hu
  · exact .inl ⟨hnone, by simp, by simp [hcancelled]⟩

/-- A step that keeps a transfer as its waiters see it. -/
theorem Attended.modify (hinv : Attended calls s) (ht : s.transfers t = some x) (htransfers : s'.transfers = update s.transfers t (some x'))
    (hkeep : ∀ d, Keeps d x x') (hopen : x.isOpen → x'.isOpen) (hwaiters : x'.waiters = x.waiters)
    (hcallers : s'.callers = s.callers) : Attended calls s' := by
  refine ⟨?_, ?_, ?_, by rw [hcallers]; exact hinv.leaves⟩
  · intro d
    rw [htransfers, hcallers]
    exact (hinv.stands d).set ht (hkeep d) fun _ => hopen
  · rw [hcallers]
    exact forall_updated htransfers (fun d hd => hinv.waits t x ht d (hwaiters ▸ hd)) hinv.waits
  · exact forall_updated htransfers (fun hne => hopen (hinv.isOpen t x ht (hwaiters ▸ hne))) hinv.isOpen

theorem Attended.answer (hinv : Attended calls s) (hjoins : ∀ d, (s.callers d).place.joins = false) (ht : s.transfers t = some x)
    (htransfers : s'.transfers = update s.transfers t (some x')) (hright : ∀ caller, Right x' caller a)
    (hkey : x'.key = x.key) (hwaiters : x'.waiters = []) (hopen : x.isOpen) (hcancelling : x.isCancelling → x'.isCancelling) (hcallers : s'.callers = (s.answer x.waiters a).callers) :
    Attended calls s' := by
  refine ⟨?_, ?_, ?_, ?_⟩
  · intro d
    rw [htransfers, hcallers]
    by_cases hd : d ∈ x.waiters
    · obtain ⟨hkeyd, hnone⟩ := hinv.waiter ht hd
      refine stands_attached ?_ (update_self ..) (hkey.trans hkeyd) ?_
      · rw [place_answer]
        exact hinv.waits t x ht d hd
      · exact .inr ⟨a, by simp [hd, hnone], by simp [hwaiters], hright _⟩
    have hsame : (s.answer x.waiters a).callers d = s.callers d := if_neg hd
    rw [hsame]
    refine (hinv.stands d).set ht ⟨hkey, by simp [hwaiters, hd], ?_, hcancelling⟩ fun hjoin => ?_
    · rintro result ⟨hwork, hx⟩
      simp [Transfer.isOpen, hwork, Work.isReturned] at hopen
    · rw [hjoins d] at hjoin
      cases hjoin
  · intro u y hy d hd
    rw [hcallers, place_answer]
    rcases updated_cases htransfers hy with ⟨rfl, rfl⟩ | ⟨-, hy⟩
    · simp [hwaiters] at hd
    · exact hinv.waits u y hy d hd
  · exact forall_updated htransfers (absurd hwaiters) hinv.isOpen
  · intro d hd
    have hfields : (s'.callers d).leaving = (s.callers d).leaving ∧ (s'.callers d).isCancelled = (s.callers d).isCancelled := by
      rw [hcallers]
      by_cases hmem : d ∈ x.waiters <;> simp [hmem]
    rw [hfields.2]
    exact hinv.leaves d (hfields.1 ▸ hd)

/-! ## Joining -/

variable [DecidableEq Key]

/-- A new transfer has no waiters, and is nobody's yet. -/
theorem Attended.beginTransfer (hinv : Attended calls s) (hflights : Flights s) (k : Key) : Attended calls (s.beginTransfer k) := by
  have hkeeps : ∀ d u y, s.transfers u = some y → ∃ y', (s.beginTransfer k).transfers u = some y' ∧ Keeps d y y' ∧
      ((s.callers d).place.joins → y.isOpen → y'.isOpen) := by
    intro d u y hy
    have hu : u ≠ s.next := Nat.ne_of_lt (hflights.known u y hy)
    exact ⟨y, by simpa [update_of_ne hu] using hy, .refl d y, fun _ => id⟩
  refine ⟨fun d => (hinv.stands d).keep (hkeeps d), ?_, ?_, hinv.leaves⟩
  · exact forall_updated rfl nofun hinv.waits
  · exact forall_updated rfl (absurd rfl) hinv.isOpen

theorem JoinStep.attended (h : JoinStep calls s c s') (hflights : Flights s) (hinv : Attended calls s) : Attended calls s' := by
  have hstands := hinv.stands c
  have hleaves := hinv.leaves c
  cases h with
  | refuse hactor h hcancelled | enter hactor h hcancelled | meetTombstone h =>
    simp only [Stands, h] at hstands
    exact hinv.move rfl rfl (by simp [h]) hstands hleaves
  | @find t x h hflight ht hx =>
    simp only [Stands, h] at hstands
    obtain ⟨hkey, hocc⟩ := hflights.key hflight ht
    have hopen : x.isOpen := by simpa [isOpen, occupies, hx] using hocc
    exact hinv.move rfl rfl (by simp [h]) ⟨hstands, x, ht, hkey, hopen⟩ hleaves
  | beginNew h hflight =>
    simp only [Stands, h] at hstands
    have hnew := hinv.beginTransfer hflights (calls c)
    exact hnew.move rfl rfl (by simp [h]) ⟨hstands, _, update_self .., rfl, rfl⟩ hleaves
  | install h =>
    simp only [Stands, h] at hstands
    exact hinv.move rfl rfl (by simp [h]) ⟨hstands.1, id, hstands.2⟩ id
  | @resumeAtOnce t h hcancelled =>
    simp only [Stands, h] at hstands
    obtain ⟨hnone, -, y, hy, hkey, -⟩ := hstands
    have hnot : c ∉ y.waiters := by
      intro hc
      have := hinv.waits _ y hy c hc
      rw [h] at this
      cases this
    refine hinv.move rfl rfl (by simp [h]) (stands_attached rfl hy hkey ?_) hleaves
    exact .inr ⟨.cancellationError, by simp [hnone], hnot, hcancelled⟩
  | wait h hcancelled ht => exact { hinv.wait h hcancelled ht with }

/-! ## Transfers -/

theorem TransferStep.attended (h : TransferStep s s') (hoccupied : Occupied s) (hflights : Flights s) (hinv : Attended calls s) :
    Attended calls s' := by
  have hjoins := hoccupied.alone h.actor
  cases h with
  | cancel hactor hflight ht hx =>
    obtain ⟨rfl, hocc⟩ := hflights.key hflight ht
    have hopen := hocc
    simp only [occupies, hx, Bool.false_eq_true, if_false] at hopen
    exact hinv.answer (a := .transferCancelled _) hjoins ht rfl (fun _ => ⟨rfl, rfl⟩) rfl rfl (by simpa [isOpen, hx] using hopen)
      (fun _ => rfl) rfl
  | finishCancellation hactor hflight ht hx => exact hinv.modify ht rfl (fun d => ⟨rfl, Iff.rfl, fun _ h => h, id⟩) id rfl rfl
  | start hactor ht hwork =>
    refine hinv.modify ht rfl (fun d => ⟨rfl, Iff.rfl, fun _ h => ?_, id⟩) (fun h => ?_) rfl rfl
    · rw [hwork] at h
      cases h.1
    · simpa [isOpen, hwork, Work.isReturned] using h
  | settleCancelled result hactor ht hwork hx =>
    refine hinv.modify ht rfl (fun d => ⟨rfl, Iff.rfl, fun _ h => ?_, id⟩) (fun h => ?_) rfl rfl
    · rw [hwork] at h
      cases h.1
    · simp [isOpen, hx] at h
  | settle result hactor ht hwork hx =>
    have hflight := hflights.inFlight ht hx (by rw [hwork]; rfl)
    rw [if_pos hflight]
    exact hinv.answer (a := .outcome result) hjoins ht rfl (fun _ => ⟨rfl, hx⟩) rfl rfl
      (by simp [isOpen, hx, hwork, Work.isReturned]) id rfl

end Pipette.Phone
