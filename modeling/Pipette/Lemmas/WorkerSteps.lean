import Pipette.Lemmas.JobOps

/-!
# What one operation of the worker does

Every operation adds itself to the log, raises flags at most, and answers as `World.Allows` says; what each keeps, a program
of them keeps, also where it is killed.
-/

namespace Pipette.Proxy

open Threads

variable {F : Formats} {published : Surroundings → Prop} {t : Tid} {o : Op F} {r : Ans o} {s s' : World F}

variable (h : (machine published).step t o s r s')
include h

/-- The heartbeat and the signal handler may have raised their flags; then the operation is answered and recorded. -/
theorem step_cases :
    ∃ lost stop : Bool, (s.lost → lost) ∧ (lost → s.lost ∨ s.beating) ∧ (s.stop → stop) ∧
      ({ s with lost := lost, stop := stop } : World F).Allows published o r ∧
      s' = ({ s with lost := lost, stop := stop } : World F).record o r := by
  obtain ⟨beats, signalled, hallows, rfl⟩ := h
  refine ⟨(s.advance beats signalled).lost, (s.advance beats signalled).stop, ?_, ?_, ?_, hallows, rfl⟩
  · intro hlost
    simp [World.advance, hlost]
  · intro hlost
    simp only [World.advance, Bool.or_eq_true, Bool.and_eq_true] at hlost
    exact hlost.imp_right And.left
  · intro hstop
    simp [World.advance, hstop]

theorem step_log : ∃ lost stop, s'.log = ⟨o, r, lost, stop⟩ :: s.log := by
  obtain ⟨lost, stop, -, -, -, -, rfl⟩ := step_cases h
  exact ⟨lost, stop, rfl⟩

/-- Without a heartbeat nothing raises `lost`, and no other operation than its start begins one. -/
theorem step_still (hs : s.beating = false)
    (hlease : o.stage ≠ .lease) (hbegins : o.stage ≠ .begins) :
    s'.beating = false ∧ s'.lost = s.lost ∧ ∃ stop, s'.log = ⟨o, r, s.lost, stop⟩ :: s.log := by
  obtain ⟨lost, stop, hkept, hraised, -, -, rfl⟩ := step_cases h
  have hlost : lost = s.lost := by
    cases hs' : s.lost with
    | true => exact hkept hs'
    | false =>
      cases lost with
      | false => rfl
      | true =>
        rcases hraised rfl with h | h
        · rw [hs'] at h
          cases h
        · rw [hs] at h
          cases h
  subst hlost
  cases o with
  | startHeartbeat | joinHeartbeat => exact absurd rfl hlease
  | jobStarts job => exact absurd rfl hbegins
  | storeInstalled record => cases r <;> exact ⟨hs, rfl, stop, rfl⟩
  | dropLease => exact ⟨rfl, rfl, stop, rfl⟩
  | _ => exact ⟨hs, rfl, stop, rfl⟩

omit h

/-- What the operations of some stages keep, a program that does no others keeps. -/
theorem Does.triple {α : Type} {stages : List Stage} {p : Act F α} {A K : World F → Prop} (hp : Does stages p)
    (hstep : ∀ o s r s', stages.contains o.stage → K s → A s → (machine published).step t o s r s' → K s' ∧ A s') :
    SafeTriple (machine published) t K A p fun _ => A :=
  .only hp hstep

end Pipette.Proxy
