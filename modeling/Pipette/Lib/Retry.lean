import Mathlib

/-!
# Bounded retry loops

A loop over a schedule of attempts that threads a state, with a pause before each attempt but the first. `backoff` runs a
schedule, `retrying` until a failure cannot be mended; what every attempt keeps, `retrying` keeps, and what an attempt
establishes when it succeeds holds of the whole (`retrying_spec`).
-/

namespace Retry

universe u v w

/-- Whether a loop goes on, or stops with an answer. -/
inductive Flow (α : Type u) where
  | go
  | stop (answer : α)
  deriving DecidableEq

section Backoff

variable {ν : Type u} {σ : Type v} {α : Type w}
variable (attempt : ν → σ → Flow α × σ) (pause : ν → σ → Bool × σ)

/-- Run `attempt` for each entry of the schedule until it stops with an answer, pausing after each that gives none. There is
none when the schedule runs out or a pause breaks the loop. -/
def backoff : List ν → σ → Option α × σ
  | [], s => (none, s)
  | n :: ns, s =>
    match attempt n s with
    | (.stop a, s₁) => (some a, s₁)
    | (.go, s₁) =>
      match pause n s₁ with
      | (true, s₂) => (none, s₂)
      | (false, s₂) => backoff ns s₂

end Backoff

section Retrying

variable {σ : Type u} {ε : Type v} {α : Type w}

/-- Whether another attempt can succeed where this one failed, and the wait the failure asks for. -/
inductive Disposition where
  | permanent
  | transient (retryAfter : Option Nat)
  deriving DecidableEq

/-- Run `attempt` until it succeeds, fails permanently, asks to wait longer than `limit`, or has failed `budget` times after
the first. -/
def retrying (classify : ε → Disposition) (limit : Nat) (attempt : σ → Except ε α × σ) : Nat → σ → Except ε α × σ
  | 0, s => attempt s
  | budget + 1, s =>
    match attempt s with
    | (.ok a, s₁) => (.ok a, s₁)
    | (.error err, s₁) =>
      match classify err with
      | .permanent => (.error err, s₁)
      | .transient (some asked) =>
        if limit < asked then (.error err, s₁) else retrying classify limit attempt budget s₁
      | .transient none => retrying classify limit attempt budget s₁

/-- How many attempts there are, the first included, and the longest wait a failure may ask for. -/
structure Policy where
  attempts : Nat
  retryAfterLimit : Nat

/-- `retrying` under a policy. A policy of no attempts makes one all the same. -/
def Policy.retrying (policy : Policy) (classify : ε → Disposition) (attempt : σ → Except ε α × σ) : σ → Except ε α × σ :=
  Retry.retrying classify policy.retryAfterLimit attempt (policy.attempts - 1)

variable {classify : ε → Disposition} {limit : Nat} {attempt : σ → Except ε α × σ} {I : σ → Prop}

/-- What every attempt keeps holds before each and at the end, so what an attempt establishes from it when it succeeds holds of
the whole. -/
theorem retrying_spec {Q : α → σ → Prop}
    (h : ∀ s, I s → I (attempt s).2 ∧ ∀ a, (attempt s).1 = .ok a → Q a (attempt s).2) (budget : Nat) {s : σ} (hs : I s) :
    I (retrying classify limit attempt budget s).2 ∧ ∀ a, (retrying classify limit attempt budget s).1 = .ok a →
      Q a (retrying classify limit attempt budget s).2 := by
  induction budget generalizing s with
  | zero => exact h s hs
  | succ budget ih =>
    rw [retrying]
    have h₁ := h s hs
    rcases ha : attempt s with ⟨err | b, s₁⟩ <;> rw [ha] at h₁
    · simp only
      split
      · exact ⟨h₁.1, nofun⟩
      · split
        · exact ⟨h₁.1, nofun⟩
        · exact ih h₁.1
      · exact ih h₁.1
    · exact h₁

end Retrying

end Retry
