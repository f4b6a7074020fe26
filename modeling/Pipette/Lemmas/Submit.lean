import Pipette.Worker.Submit

/-!
# The rounds of a submit

`dispositionOf` is what one round makes of its replies, `roundEvents` what it records, and `afterRounds` the world a round
finds. The loop settles at the first round whose disposition is not transient (`submitPlanResultWithBackoff_settles`); every
other fact is read off that.
-/

namespace Pipette.Worker

open Retry List ApiError

/-- The disposition of one submit, from the replies to its POST and to the reclaim after a `404`. -/
def dispositionOf (post reclaim : Reply) : SubmitDisposition :=
  match sendJson post with
  | .ok jobId => .accepted jobId
  | .error err =>
    if err.status = some 409 then .dropped
    else if err.status = some 404 then
      match sendEmpty reclaim with
      | .ok () => .retryTransient
      | .error re => if re.isTransient then .retryTransient else .dropped
    else if err.isTransient then .retryTransient
    else .fatal err

/-- What round `n` makes of its replies. -/
abbrev Env.disposition (e : Env) (n : Nat) : SubmitDisposition := dispositionOf (e.post n) (e.reclaim n)

/-- The dispositions `post_completion` answers with `Ok(true)`. -/
def SubmitDisposition.reportHeld : SubmitDisposition → Bool
  | .accepted _ | .dropped => true
  | .retryTransient | .fatal _ => false

/-- The calls of one submit, with their replies. -/
def roundEvents (e : Env) (body : Body) (n : Nat) : List Event :=
  match sendJson (e.post n) with
  | .error (.httpStatus 404) => [.post body (e.post n), .reclaim (e.reclaim n)]
  | _ => [.post body (e.post n)]

/-- The world after `j` rounds of the same body. -/
def afterRounds (e : Env) (body : Body) : Nat → World → World
  | 0, w => w
  | j + 1, w => afterRounds e body j { w with posts := w.posts + 1, log := w.log ++ roundEvents e body (w.posts + 1) }

/-- Round `n` is sent again: its disposition is transient and the wait after it runs to its end. -/
def SentAgain (e : Env) (n : Nat) : Prop := dispositionOf (e.post n) (e.reclaim n) = .retryTransient ∧ e.stops n = false

/-! ## One round -/

/-- A `404` or a `409` to a reclaim is not transient: the first two arms give what the last gives. -/
theorem not_transient_of_status {err : ApiError} (h : err.status = some 404 ∨ err.status = some 409) :
    err.isTransient = false := by
  cases err <;> simp_all [status, isTransient]
  omega

/-- One submit is the disposition of its two replies, and adds its calls to the log. -/
theorem trySubmitPlanResult_eq (e : Env) (body : Body) (w : World) : trySubmitPlanResult e body w =
      (e.disposition (w.posts + 1), afterRounds e body 1 w) := by
  unfold trySubmitPlanResult submitResult reclaim Env.disposition dispositionOf
  simp only [afterRounds, roundEvents]
  cases hp : sendJson (e.post (w.posts + 1)) with
  | ok jobId => simp
  | error err =>
    by_cases h409 : err.status = some 409
    · cases err <;> simp_all [status]
    by_cases h404 : err.status = some 404
    · obtain rfl : err = .httpStatus 404 := by cases err <;> simp_all [status]
      cases hr : sendEmpty (e.reclaim (w.posts + 1)) with
      | ok _ => simp [hr]
      | error re =>
        by_cases hre : re.status = some 404 ∨ re.status = some 409
        · simp [hr, hre, not_transient_of_status hre]
        · by_cases ht : re.isTransient <;> simp [hr, hre, ht]
    · have hne : err ≠ .httpStatus 404 := by
        rintro rfl
        exact h404 rfl
      by_cases ht : err.isTransient <;> cases err <;> simp_all [status]

@[simp] theorem afterRounds_posts (e : Env) (body : Body) (j : Nat) (w : World) :
    (afterRounds e body j w).posts = w.posts + j := by
  induction j generalizing w with
  | zero => rfl
  | succ j ih =>
    rw [afterRounds, ih]
    simp only
    omega

@[simp] theorem afterRounds_frame (e : Env) (body : Body) (j : Nat) (w : World) :
    (afterRounds e body j w).synced = w.synced ∧ (afterRounds e body j w).evals = w.evals := by
  induction j generalizing w with
  | zero => exact ⟨rfl, rfl⟩
  | succ j ih => exact ih _

variable {e : Env} {body : Body} {j : Nat} {w : World} {n : Nat}

/-- What `j` rounds record: the calls of each, in order. -/
theorem mem_afterRounds_log {ev : Event} :
    ev ∈ (afterRounds e body j w).log ↔ ev ∈ w.log ∨ ∃ i < j, ev ∈ roundEvents e body (w.posts + i + 1) := by
  induction j generalizing w with
  | zero => simp [afterRounds]
  | succ j ih =>
    rw [afterRounds, ih]
    simp only [mem_append]
    constructor
    · rintro ((h | h) | ⟨i, hi, h⟩)
      · exact .inl h
      · exact .inr ⟨0, by omega, h⟩
      · exact .inr ⟨i + 1, by omega, by rwa [show w.posts + (i + 1) + 1 = w.posts + 1 + i + 1 by omega]⟩
    · rintro (h | ⟨i, hi, h⟩)
      · exact .inl (.inl h)
      · cases i with
        | zero => exact .inl (.inr h)
        | succ i => exact .inr ⟨i, by omega, by rwa [show w.posts + 1 + i + 1 = w.posts + (i + 1) + 1 by omega]⟩

/-- A round records POSTs of its own body only, each with the reply of its number. -/
theorem post_mem_roundEvents {b : Body} {r : Reply} : Event.post b r ∈ roundEvents e body n ↔ b = body ∧ r = e.post n := by
  unfold roundEvents
  split <;> simp

/-- A round files nothing and finalizes nothing. -/
theorem not_retired_mem_roundEvents :
    (∀ id, Event.filed id ∉ roundEvents e body n) ∧ ∀ d, Event.finalized d ∉ roundEvents e body n := by
  unfold roundEvents
  constructor <;> intro x <;> split <;> simp

/-! ## The whole loop -/

/-- Two rounds that are not transient and come after transient ones only are one round. -/
theorem round_unique {d : Nat → SubmitDisposition} (hn : ∀ m < n, d m = .retryTransient) (hj : ∀ m < j, d m = .retryTransient)
    (hnd : d n ≠ .retryTransient) (hjd : d j ≠ .retryTransient) : n = j := by
  obtain hlt | heq | hgt := Nat.lt_trichotomy n j
  · exact absurd (hj n hlt) hnd
  · exact heq
  · exact absurd (hn j hgt) hjd

/-- A round whose disposition is not transient settles the loop. -/
theorem submitRound_stop (body : Body) (k : Nat) (h : e.disposition (w.posts + 1) ≠ .retryTransient) :
    submitRound e body k w = (.stop (e.disposition (w.posts + 1)), afterRounds e body 1 w) := by
  rw [submitRound, trySubmitPlanResult_eq]
  cases hd : e.disposition (w.posts + 1) <;> simp_all

/-- The loop ends at the first round that settles it, or with every round but the last sent again. -/
theorem backoff_submit_cases (e : Env) (body : Body) (ns : List Nat) (w : World) :
    (∃ j < ns.length, (∀ i < j, SentAgain e (w.posts + i + 1)) ∧ e.disposition (w.posts + j + 1) ≠ .retryTransient ∧
      backoff (submitRound e body) (backoffSleep e) ns w =
        (some (e.disposition (w.posts + j + 1)), afterRounds e body (j + 1) w)) ∨
    (∃ j ≤ ns.length, (∀ i < j, e.disposition (w.posts + i + 1) = .retryTransient) ∧
      (j < ns.length → ∃ i < j, e.stops (w.posts + i + 1)) ∧
      backoff (submitRound e body) (backoffSleep e) ns w = (none, afterRounds e body j w)) := by
  induction ns generalizing w with
  | nil => exact .inr ⟨0, by simp, by simp, by simp, rfl⟩
  | cons n ns ih =>
    by_cases hd : e.disposition (w.posts + 1) = .retryTransient
    · have hround : submitRound e body n w = (.go, afterRounds e body 1 w) := by simp [submitRound, trySubmitPlanResult_eq, hd]
      cases hs : e.stops (w.posts + 1) with
      | true =>
        refine .inr ⟨1, by simp, ?_, fun _ => ⟨0, by omega, by simpa using hs⟩, ?_⟩
        · intro i hi
          obtain rfl : i = 0 := by omega
          exact hd
        · simp [backoff, hround, backoffSleep, hs]
      | false =>
        have hstep : backoff (submitRound e body) (backoffSleep e) (n :: ns) w =
            backoff (submitRound e body) (backoffSleep e) ns (afterRounds e body 1 w) :=
          by simp [backoff, hround, backoffSleep, hs]
        rw [hstep]
        have hshift : ∀ i, (afterRounds e body 1 w).posts + i + 1 = w.posts + (i + 1) + 1 := by
          intro i
          rw [afterRounds_posts]
          omega
        simp only [length_cons]
        rcases ih (afterRounds e body 1 w) with ⟨j, hj, hbefore, hlast, heq⟩ | ⟨j, hj, hbefore, hstop, heq⟩
        · simp only [hshift] at hbefore hlast heq
          refine .inl ⟨j + 1, by omega, ?_, hlast, heq⟩
          intro i hi
          cases i with
          | zero => exact ⟨hd, hs⟩
          | succ i => exact hbefore i (by omega)
        simp only [hshift] at hbefore hstop
        refine .inr ⟨j + 1, by omega, ?_, ?_, heq⟩
        · intro i hi
          cases i with
          | zero => exact hd
          | succ i => exact hbefore i (by omega)
        · intro hlt
          obtain ⟨i, hi, h⟩ := hstop (by omega)
          exact ⟨i + 1, by omega, h⟩
    · refine .inl ⟨0, by simp, by simp, hd, ?_⟩
      simp [backoff, submitRound_stop body n hd]

/-- A round that is reached and not transient settles the submit with its disposition. -/
theorem submitPlanResultWithBackoff_settles (body : Body) (hj : j < attempts)
    (hbefore : ∀ i < j, SentAgain e (w.posts + i + 1))
    (hlast : e.disposition (w.posts + j + 1) ≠ .retryTransient) :
    submitPlanResultWithBackoff e body w = (e.disposition (w.posts + j + 1), afterRounds e body (j + 1) w) := by
  unfold submitPlanResultWithBackoff
  rcases backoff_submit_cases e body (range' 1 attempts) w with
    ⟨k, -, hkbefore, hklast, heq⟩ | ⟨k, hk, hkbefore, hkstop, heq⟩
  · obtain rfl := round_unique (fun i hi => (hbefore i hi).1) (fun i hi => (hkbefore i hi).1) hlast hklast
    rw [heq]
  exfalso
  rw [length_range'] at hk hkstop
  by_cases hjk : j < k
  · exact hlast (hkbefore j hjk)
  · obtain ⟨i, hi, hstop⟩ := hkstop (by omega)
    have := (hbefore i (by omega)).2
    simp [hstop] at this

/-- A submit makes at least one round and at most `attempts`, each but the last sent again. One that settles does so with the
disposition of its last round, which was reached; one that does not was transient in every round. -/
theorem submitPlanResultWithBackoff_rounds (e : Env) (body : Body) (w : World) :
    ∃ j < attempts, (submitPlanResultWithBackoff e body w).2 = afterRounds e body (j + 1) w ∧
      (∀ i < j, e.disposition (w.posts + i + 1) = .retryTransient) ∧
      (submitPlanResultWithBackoff e body w).1 = e.disposition (w.posts + j + 1) ∧
      ((submitPlanResultWithBackoff e body w).1 ≠ .retryTransient → ∀ i < j, SentAgain e (w.posts + i + 1)) := by
  unfold submitPlanResultWithBackoff
  rcases backoff_submit_cases e body (range' 1 attempts) w with
    ⟨j, hj, hbefore, hlast, heq⟩ | ⟨j, hj, hbefore, hstop, heq⟩
  · rw [length_range'] at hj
    refine ⟨j, hj, ?_, fun i hi => (hbefore i hi).1, ?_, fun _ => hbefore⟩ <;> rw [heq]
  rw [length_range'] at hj hstop
  cases j with
  | zero =>
    -- the first round is always made
    obtain ⟨i, hi, -⟩ := hstop (by decide)
    exact absurd hi (by omega)
  | succ j =>
    refine ⟨j, by omega, ?_, fun i hi => hbefore i (by omega), ?_, fun hne => ?_⟩
    · rw [heq]
    · rw [heq, hbefore j (by omega)]
    · simp [heq] at hne

end Pipette.Worker
