import Pipette.Phone.TransferRegistry

/-!
# The keys of the transfer registry

A `join` is alone on the main actor between its lookup and its registration (`Occupied`). A key is occupied by one transfer,
its newest, from `begin` until it settles or its cancellation is confirmed (`Flights`). Only its work began since the key
became free, unless a transfer was confirmed to have stopped before its work had begun (`Started`).
-/

namespace Pipette.Phone

open Function Registry Work Option

variable {Key R : Type} {calls : Nat → Key} {s s' : Registry Key R} {c t : Nat} {x x' : Transfer Key R}
  {f g : Nat → Option (Transfer Key R)} {y : Transfer Key R} {k : Key}

/-! ## The main actor -/

/-- Only the caller the main actor runs is in the middle of its `join`. -/
def Occupied (s : Registry Key R) : Prop := ∀ c, (s.callers c).place.joins → s.actor = some c

theorem Occupied.alone (h : Occupied s) (hactor : s.actor = none) (c : Nat) : (s.callers c).place.joins = false := by
  by_contra hjoins
  have := h c (by simpa using hjoins)
  rw [hactor] at this
  cases this

/-- A step that leaves every caller where it is. -/
theorem Occupied.keep (h : Occupied s) (hplace : ∀ c, (s'.callers c).place = (s.callers c).place) (hactor : s'.actor = s.actor) :
    Occupied s' := by
  intro c hc
  rw [hplace] at hc
  rw [hactor]
  exact h c hc

theorem place_answer (waiters : List Nat) (a : Answer Key R) (c : Nat) :
    ((s.answer waiters a).callers c).place = (s.callers c).place := by
  simp only [answer]
  split <;> rfl

theorem LeaveStep.place (h : LeaveStep calls s c s') (d : Nat) : (s'.callers d).place = (s.callers d).place := by
  cases h <;> by_cases hd : d = c <;> simp [hd]

theorem LeaveStep.occupied (h : LeaveStep calls s c s') (hinv : Occupied s) : Occupied s' := by
  have hactor : s'.actor = s.actor := by cases h <;> rfl
  exact hinv.keep h.place hactor

theorem Occupied.move (hinv : Occupied s) (hactor : s.actor = none ∨ (s.callers c).place.joins)
    (hothers : ∀ d, d ≠ c → s'.callers d = s.callers d) (hnow : (s'.callers c).place.joins → s'.actor = some c) : Occupied s' := by
  intro d hd
  by_cases hdc : d = c
  · subst hdc
    exact hnow hd
  rw [hothers d hdc] at hd
  have hthere := hinv d hd
  rcases hactor with hactor | hactor
  · rw [hactor] at hthere
    cases hthere
  · rw [hinv c hactor] at hthere
    exact absurd (some.inj hthere).symm hdc

section

variable [DecidableEq Key]

theorem JoinStep.others (h : JoinStep calls s c s') {d : Nat} (hd : d ≠ c) : s'.callers d = s.callers d := by
  cases h <;> simp [hd]

theorem JoinStep.occupied (h : JoinStep calls s c s') (hinv : Occupied s) : Occupied s' := by
  have hothers := fun d (hd : d ≠ c) => h.others hd
  have hhere : (s.callers c).place.joins → s.actor = some c := hinv c
  cases h with
  | refuse hactor => exact hinv.move (.inl hactor) hothers (by simp [Place.joins])
  | enter hactor => exact hinv.move (.inl hactor) hothers (by simp)
  | meetTombstone h | resumeAtOnce h | wait h => exact hinv.move (.inr (by rw [h]; rfl)) hothers (by simp [Place.joins])
  | find h | beginNew h | install h => exact hinv.move (.inr (by rw [h]; rfl)) hothers fun _ => hhere (by rw [h]; rfl)

theorem TransferStep.actor (h : TransferStep s s') : s.actor = none := by cases h <;> assumption

theorem TransferStep.place (h : TransferStep s s') (c : Nat) : (s'.callers c).place = (s.callers c).place := by
  cases h with
  | cancel => exact place_answer _ _ c
  | finishCancellation | start | settleCancelled => rfl
  | settle =>
    rw [place_answer]
    split <;> rfl

theorem TransferStep.occupied (h : TransferStep s s') (hinv : Occupied s) : Occupied s' := by
  intro c hc
  rw [h.place] at hc
  rw [hinv.alone h.actor] at hc
  cases hc

end

/-! ## Keys and transfers -/

/-- The transfer has its key: it is a tombstone, or it has not settled. -/
def Transfer.occupies (x : Transfer Key R) : Bool := if x.isCancelling then !x.confirmed else !x.work.isReturned

/-- The transfer of a key is the one that occupies it, and the newest. -/
structure Flights (s : Registry Key R) : Prop where
  known : ∀ t x, s.transfers t = some x → t < s.next
  flight : ∀ k t, s.inFlight k = some t ↔ ∃ x, s.transfers t = some x ∧ x.key = k ∧ x.occupies
  newest : ∀ k t, s.inFlight k = some t → ∀ u y, s.transfers u = some y → y.key = k → u ≤ t
  confirmed : ∀ t x, s.transfers t = some x → x.confirmed → x.isCancelling
  begun : ∀ k, s.begun k = if s.inFlight k = none then 0 else 1

theorem flights_empty : Flights (empty : Registry Key R) where
  known t x h := by cases h
  flight k t := by simp [empty]
  newest k t h := by cases h
  confirmed t x h := by cases h
  begun k := by simp [empty]

theorem updated_cases (h : g = update f t (some x')) {u : Nat}
    (hy : g u = some y) : u = t ∧ y = x' ∨ u ≠ t ∧ f u = some y := by
  subst h
  by_cases hu : u = t
  · subst hu
    rw [update_self] at hy
    exact .inl ⟨rfl, (some.inj hy).symm⟩
  · rw [update_of_ne hu] at hy
    exact .inr ⟨hu, hy⟩

/-- What holds of the row that is set and of every other holds of all of them. -/
theorem forall_updated {P : Nat → Transfer Key R → Prop} (h : g = update f t (some x'))
    (hnew : P t x') (hold : ∀ u y, f u = some y → P u y) (u : Nat) (y : Transfer Key R) (hy : g u = some y) : P u y := by
  rcases updated_cases h hy with ⟨rfl, rfl⟩ | ⟨-, hy⟩
  · exact hnew
  · exact hold u y hy

/-- What a transfer looks like to the registry of keys is unchanged. -/
theorem Flights.modify (hinv : Flights s) (ht : s.transfers t = some x) (htransfers : s'.transfers = update s.transfers t (some x'))
    (hkey : x'.key = x.key) (hoccupies : x'.occupies = x.occupies) (hconfirmed : x'.confirmed → x'.isCancelling)
    (hflight : s'.inFlight = s.inFlight) (hnext : s'.next = s.next) (hbegun : s'.begun = s.begun) : Flights s' := by
  refine ⟨?_, ?_, ?_, ?_, ?_⟩
  · rw [hnext]
    exact forall_updated htransfers (hinv.known t x ht) hinv.known
  · intro k u
    rw [hflight, hinv.flight, htransfers]
    by_cases hu : u = t
    · subst hu
      simp [ht, hkey, hoccupies]
    · simp [update_of_ne hu]
  · intro k u hu
    rw [hflight] at hu
    exact forall_updated htransfers (fun hk => hinv.newest k u hu t x ht (hkey.symm.trans hk)) (hinv.newest k u hu)
  · exact forall_updated htransfers hconfirmed hinv.confirmed
  · intro k
    rw [hbegun, hflight]
    exact hinv.begun k

/-- The other transfers that occupy a key have other keys. -/
theorem Flights.key_ne (hinv : Flights s) (hflight : s.inFlight x.key = some t) {u : Nat}
    (hy : s.transfers u = some y) (hocc : y.occupies) (hne : u ≠ t) : y.key ≠ x.key := by
  intro heq
  have hu := (hinv.flight y.key u).2 ⟨y, hy, rfl, hocc⟩
  rw [heq, hflight] at hu
  exact hne (some.inj hu).symm

attribute [local simp] Transfer.occupies

theorem LeaveStep.flights (h : LeaveStep calls s c s') (hinv : Flights s) : Flights s' := by
  cases h with
  | stopWaiting _ _ _ ht => exact hinv.modify ht rfl rfl rfl (hinv.confirmed _ _ ht :) rfl rfl rfl
  | _ => exact { hinv with }

/-- A transfer that is not cancelled and has not settled has its key. -/
theorem Flights.inFlight (hinv : Flights s) (ht : s.transfers t = some x) (hx : x.isCancelling = false)
    (hwork : x.work.isReturned = false) : s.inFlight x.key = some t :=
  (hinv.flight x.key t).2 ⟨x, ht, rfl, by simp [hx, hwork]⟩

theorem Flights.key (hinv : Flights s) (hflight : s.inFlight k = some t) (ht : s.transfers t = some x) :
    x.key = k ∧ x.occupies := by
  obtain ⟨y, hy, hkey, hocc⟩ := (hinv.flight k t).1 hflight
  rw [ht] at hy
  cases hy
  exact ⟨hkey, hocc⟩

theorem Flights.not_confirmed (hinv : Flights s) (ht : s.transfers t = some x) (hx : x.isCancelling = false) : x.confirmed = false := by
  by_contra h
  have := hinv.confirmed t x ht (by simpa using h)
  rw [hx] at this
  cases this

section

variable [DecidableEq Key]

/-- The transfer of a key gives it up. -/
theorem Flights.free (hinv : Flights s) (ht : s.transfers t = some x) (hflight : s.inFlight x.key = some t)
    (htransfers : s'.transfers = update s.transfers t (some x')) (hkey : x'.key = x.key) (hoccupies : x'.occupies = false)
    (hconfirmed : x'.confirmed → x'.isCancelling) (hflight' : s'.inFlight = update s.inFlight x.key none)
    (hnext : s'.next = s.next) (hbegun : s'.begun = update s.begun x.key 0) : Flights s' := by
  have hother : ∀ {k u}, s'.inFlight k = some u → k ≠ x.key ∧ s.inFlight k = some u := by
    intro k u hu
    have hk : k ≠ x.key := by
      rintro rfl
      simp [hflight'] at hu
    rw [hflight', update_of_ne hk] at hu
    exact ⟨hk, hu⟩
  refine ⟨?_, ?_, ?_, ?_, ?_⟩
  · rw [hnext]
    exact forall_updated htransfers (hinv.known t x ht) hinv.known
  · intro k u
    constructor
    · intro hu
      obtain ⟨hk, hu⟩ := hother hu
      obtain ⟨y, hy, hykey, hyocc⟩ := (hinv.flight k u).1 hu
      have hne : u ≠ t := by
        rintro rfl
        rw [ht] at hy
        cases hy
        exact hk hykey.symm
      exact ⟨y, by rw [htransfers, update_of_ne hne, hy], hykey, hyocc⟩
    · rintro ⟨y, hy, rfl, hyocc⟩
      rcases updated_cases htransfers hy with ⟨rfl, rfl⟩ | ⟨hne, hy⟩
      · rw [hoccupies] at hyocc
        cases hyocc
      rw [hflight', update_of_ne (hinv.key_ne hflight hy hyocc hne), (hinv.flight y.key u).2 ⟨y, hy, rfl, hyocc⟩]
  · intro k u hu
    have hu' := hinv.newest k u (hother hu).2
    exact forall_updated htransfers (fun hk => hu' t x ht (hkey.symm.trans hk)) hu'
  · exact forall_updated htransfers hconfirmed hinv.confirmed
  · intro k
    rw [hbegun, hflight']
    by_cases hk : k = x.key
    · subst hk
      simp
    · simp [update_of_ne hk, hinv.begun k]

theorem Flights.beginTransfer (hinv : Flights s) (hfree : s.inFlight k = none) : Flights (s.beginTransfer k) := by
  have hnew : s.transfers s.next = none := by
    cases h : s.transfers s.next with
    | none => rfl
    | some x =>
      have := hinv.known _ _ h
      omega
  have hnone : ∀ u y, s.transfers u = some y → y.occupies → y.key ≠ k := by
    intro u y hy hocc heq
    have := (hinv.flight k u).2 ⟨y, hy, heq, hocc⟩
    rw [hfree] at this
    cases this
  refine ⟨?_, ?_, ?_, ?_, ?_⟩
  · exact forall_updated rfl (Nat.lt_succ_self _) fun u y hy => Nat.lt_succ_of_lt (hinv.known u y hy)
  · intro l u
    by_cases hu : u = s.next
    · subst hu
      by_cases hl : l = k
      · subst hl
        simp [isReturned]
      have hno : s.inFlight l ≠ some s.next := by
        intro h
        obtain ⟨y, hy, -⟩ := (hinv.flight l s.next).1 h
        rw [hnew] at hy
        cases hy
      simp [update_of_ne hl, hno, Ne.symm hl]
    · by_cases hl : l = k
      · subst hl
        have hne : s.next ≠ u := fun h => hu h.symm
        simp only [Registry.beginTransfer, update_self, some.injEq, hne, update_of_ne hu, false_iff]
        rintro ⟨y, hy, hkey, hocc⟩
        exact hnone u y hy hocc hkey
      · simp [update_of_ne hl, update_of_ne hu, hinv.flight]
  · intro l u hu
    by_cases hl : l = k
    · subst hl
      obtain rfl : s.next = u := by simpa using hu
      exact forall_updated rfl (fun _ => Nat.le_refl _) fun w y hy _ => Nat.le_of_lt (hinv.known w y hy)
    · simp only [Registry.beginTransfer, update_of_ne hl] at hu
      exact forall_updated rfl (fun hkey => absurd hkey.symm hl) (hinv.newest l u hu)
  · exact forall_updated rfl nofun hinv.confirmed
  · intro l
    by_cases hl : l = k
    · subst hl
      have := hinv.begun l
      simp_all
    · simp [update_of_ne hl, hinv.begun l]

theorem JoinStep.flights (h : JoinStep calls s c s') (hinv : Flights s) : Flights s' := by
  cases h with
  | beginNew _ hflight => exact { hinv.beginTransfer hflight with }
  | wait _ _ ht => exact hinv.modify ht rfl rfl rfl (hinv.confirmed _ _ ht :) rfl rfl rfl
  | _ => exact { hinv with }

theorem TransferStep.flights (h : TransferStep s s') (hinv : Flights s) : Flights s' := by
  cases h with
  | cancel hactor hflight ht hx =>
    obtain ⟨-, hocc⟩ := hinv.key hflight ht
    have hconf := hinv.not_confirmed ht hx
    exact hinv.modify ht rfl rfl (by rw [hocc]; simp [hconf]) (by simp [hconf]) rfl rfl rfl
  | finishCancellation hactor hflight ht hx =>
    obtain ⟨rfl, -⟩ := hinv.key hflight ht
    exact hinv.free ht hflight rfl rfl (by simp [hx]) (fun _ => hx) rfl rfl rfl
  | start hactor ht hwork =>
    exact hinv.modify ht rfl rfl (by simp [hwork, isReturned]) (hinv.confirmed _ _ ht :) rfl rfl rfl
  | settleCancelled result hactor ht hwork hx =>
    exact hinv.modify ht rfl rfl (by simp [hx]) (hinv.confirmed _ _ ht :) rfl rfl rfl
  | settle result hactor ht hwork hx =>
    have hflight := hinv.inFlight ht hx (by rw [hwork]; rfl)
    rw [if_pos hflight]
    exact hinv.free ht hflight rfl rfl (by simp [hx, isReturned])
      (hinv.confirmed _ _ ht :) rfl rfl rfl

end

/-! ## How often the work of a key was started -/

/-- As long as no transfer was confirmed to have stopped before its work had begun, a transfer whose work has not begun has
its key, and of the works of a key only its transfer's began since it became free. -/
structure Started (s : Registry Key R) : Prop where
  waiting : ∀ t x, s.transfers t = some x → x.work.runs = 0 → x.occupies
  idle : ∀ k, s.inFlight k = none → s.ran k = 0
  ran : ∀ t x, s.transfers t = some x → x.occupies → s.ran x.key = x.work.runs

theorem started_empty : Started (empty : Registry Key R) where
  waiting t x h := by cases h
  idle k _ := rfl
  ran t x h := by cases h

theorem Started.modify (hinv : Started s) (ht : s.transfers t = some x) (htransfers : s'.transfers = update s.transfers t (some x'))
    (hkey : x'.key = x.key) (hwork : x'.work.runs = x.work.runs) (hoccupies : x'.occupies = x.occupies) (hflight : s'.inFlight = s.inFlight)
    (hran : s'.ran = s.ran) : Started s' := by
  refine ⟨?_, ?_, ?_⟩
  · refine forall_updated htransfers (fun hruns => ?_) hinv.waiting
    rw [hoccupies]
    exact hinv.waiting t x ht (hwork ▸ hruns)
  · rw [hflight, hran]
    exact hinv.idle
  · rw [hran]
    refine forall_updated htransfers (fun hocc => ?_) hinv.ran
    rw [hkey, hwork]
    exact hinv.ran t x ht (hoccupies ▸ hocc)

theorem LeaveStep.started (h : LeaveStep calls s c s') (hinv : Started s) : Started s' := by
  cases h with
  | stopWaiting _ _ _ ht => exact hinv.modify ht rfl rfl rfl rfl rfl rfl
  | _ => exact { hinv with }

theorem Started.ran_le_one (hinv : Started s) (hflights : Flights s) (k : Key) : s.ran k ≤ 1 := by
  cases hk : s.inFlight k with
  | none => simp [hinv.idle k hk]
  | some t =>
    obtain ⟨x, hx, rfl, hocc⟩ := (hflights.flight k t).1 hk
    rw [hinv.ran t x hx hocc]
    cases x.work <;> simp [runs]

variable [DecidableEq Key] (hinv : Started s)
include hinv

theorem Started.free (hflights : Flights s) (hflight : s.inFlight x.key = some t)
    (htransfers : s'.transfers = update s.transfers t (some x')) (hoccupies : x'.occupies = false)
    (hruns : x'.work.runs ≠ 0) (hflight' : s'.inFlight = update s.inFlight x.key none)
    (hran : s'.ran = update s.ran x.key 0) : Started s' := by
  refine ⟨?_, ?_, ?_⟩
  · exact forall_updated htransfers (fun hzero => absurd hzero hruns) hinv.waiting
  · intro k hk
    rw [hran]
    by_cases hkey : k = x.key
    · rw [hkey, update_self]
    · rw [hflight', update_of_ne hkey] at hk
      rw [update_of_ne hkey]
      exact hinv.idle k hk
  · intro u y hy hocc
    rcases updated_cases htransfers hy with ⟨rfl, rfl⟩ | ⟨hne, hy⟩
    · rw [hoccupies] at hocc
      cases hocc
    rw [hran, update_of_ne (hflights.key_ne hflight hy hocc hne)]
    exact hinv.ran u y hy hocc

theorem Started.beginTransfer (hfree : s.inFlight k = none) : Started (s.beginTransfer k) := by
  refine ⟨?_, ?_, ?_⟩
  · exact forall_updated rfl (fun _ => rfl) hinv.waiting
  · intro l hl
    by_cases hkey : l = k
    · subst hkey
      simp at hl
    · simp only [Registry.beginTransfer, update_of_ne hkey] at hl
      exact hinv.idle l hl
  · exact forall_updated rfl (fun _ => hinv.idle k hfree) hinv.ran

theorem Started.start (hflights : Flights s) (ht : s.transfers t = some x) (hwork : x.work = .created) :
    Started { s.setTransfer t { x with work := .running } with ran := update s.ran x.key (s.ran x.key + 1) } := by
  have hocc := hinv.waiting t x ht (by rw [hwork]; rfl)
  have hflight := (hflights.flight x.key t).2 ⟨x, ht, rfl, hocc⟩
  refine ⟨?_, ?_, ?_⟩
  · exact forall_updated rfl nofun hinv.waiting
  · intro k hk
    have hkey : k ≠ x.key := by
      rintro rfl
      exact absurd (hflight.symm.trans hk) (some_ne_none t)
    simpa [update_of_ne hkey] using hinv.idle k hk
  · intro u y hy hoccy
    rcases updated_cases rfl hy with ⟨rfl, rfl⟩ | ⟨hne, hy⟩
    · have hzero := hinv.ran u x ht hocc
      rw [hwork] at hzero
      simp [hzero, runs]
    simpa [update_of_ne (hflights.key_ne hflight hy hoccy hne)] using hinv.ran u y hy hoccy

omit hinv

theorem JoinStep.started (h : JoinStep calls s c s') (hinv : Started s) : Started s' := by
  cases h with
  | beginNew _ hflight => exact { hinv.beginTransfer hflight with }
  | wait _ _ ht => exact hinv.modify ht rfl rfl rfl rfl rfl rfl
  | _ => exact { hinv with }

theorem TransferStep.started (h : TransferStep s s') (hflights : Flights s) (hinv : Started s) (hearly : s'.early = false) :
    Started s' := by
  cases h with
  | cancel hactor hflight ht hx =>
    obtain ⟨-, hocc⟩ := hflights.key hflight ht
    have hconf := hflights.not_confirmed ht hx
    exact hinv.modify ht rfl rfl rfl (by rw [hocc]; simp [hconf]) rfl rfl
  | @finishCancellation key t x hactor hflight ht hx =>
    obtain ⟨rfl, -⟩ := hflights.key hflight ht
    have hruns : x.work.runs ≠ 0 := by
      intro hzero
      simp [hzero] at hearly
    exact hinv.free hflights hflight rfl (by simp [hx]) hruns rfl rfl
  | start hactor ht hwork => exact hinv.start hflights ht hwork
  | settleCancelled result hactor ht hwork hx =>
    exact hinv.modify ht rfl rfl (by rw [hwork]; rfl) (by simp [hx]) rfl rfl
  | settle result hactor ht hwork hx =>
    have hflight := hflights.inFlight ht hx (by rw [hwork]; rfl)
    rw [if_pos hflight]
    exact hinv.free hflights hflight rfl (by simp [hx, isReturned]) (by simp [runs]) rfl rfl

end Pipette.Phone
