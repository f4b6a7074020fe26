import Pipette.Lemmas.WorkerSteps
import Pipette.Proxy.JobLog

/-!
# The log of one claim, operation by operation

What an operation adds to each reading of the log, and what a claim that has sent nothing yet keeps until it launches.
-/

namespace Pipette.Proxy

open Threads

variable {F : Formats} {published : Surroundings → Prop} {t : Tid}

/-! ## Readings of the log -/

variable {log : List (Event F)} {e : Event F}

theorem Told.cons {o : Op F} {r : Ans o} (h : Told log o r) (e : Event F) : Told (e :: log) o r := by
  obtain ⟨lost, stop, h⟩ := h
  exact ⟨lost, stop, .tail _ h⟩

theorem listing_cons {after : Bool} (h : e.listing after = none) (log : List (Event F)) :
    listing after (e :: log) = listing after log := by
  simp [listing, h]

theorem chosenBuild_cons (h : e.op.stage ≠ .chooses) (log : List (Event F)) : chosenBuild (e :: log) = chosenBuild log := by
  obtain ⟨op, _⟩ := e
  cases op <;> first | rfl | exact absurd rfl h

theorem listing_before (h : e.op.stage ≠ .lists) : e.listing false = none := by
  obtain ⟨op, answer, lost, stop⟩ := e
  cases op with
  | listResults after =>
    cases after with
    | true => cases answer <;> rfl
    | false => exact absurd rfl h
  | _ => rfl

theorem endedByStop_cons (h : e.op.stage ≠ .launches) (hidle : e.raised = false ∨ log.head?.any Event.silent = false) :
    endedByStop (e :: log) = endedByStop log := by
  obtain ⟨op, _⟩ := e
  cases op with
  | launch job plan build => exact absurd rfl h
  | _ => rcases hidle with hidle | hidle <;> simp [endedByStop, hidle, Event.stopped]

theorem lostUnseen_cons (h : e.drops = false) : lostUnseen (e :: log) = lostUnseen log := by simp [lostUnseen, h]

theorem not_drops (h : e.op.stage ≠ .drops) : e.drops = false := by
  obtain ⟨op, _⟩ := e
  cases op <;> first | rfl | exact absurd rfl h

theorem not_silent (h : e.op.stage ≠ .launches) : e.silent = false := by
  obtain ⟨op, _⟩ := e
  cases op <;> first | rfl | exact absurd rfl h

/-! ## Laws -/

variable (h : e.op.stage ≠ .posts)
include h

theorem Lawful.of_stage (earlier : List (Event F)) : Lawful e earlier := by
  obtain ⟨op, _⟩ := e
  cases op with
  | submit body | deleteResult result => exact absurd rfl h
  | _ => exact ⟨nofun, nofun, nofun, nofun, nofun⟩

theorem not_success : e.postsSuccess = false := by
  obtain ⟨op, _⟩ := e
  cases op with
  | submit body => exact absurd rfl h
  | _ => rfl

theorem not_failure : e.postsFailure = false := by
  obtain ⟨op, _⟩ := e
  cases op with
  | submit body => exact absurd rfl h
  | _ => rfl

omit h

theorem posts_of_failure (h : e.postsFailure) : e.posts := by
  obtain ⟨op, _⟩ := e
  cases op with
  | submit body => rfl
  | _ => cases h

/-- Every event of the log is lawful after those before it. -/
def Laws (log : List (Event F)) : Prop := ∀ later e earlier, log = later ++ e :: earlier → Lawful e earlier

theorem Laws.cons (h : Laws log) (he : Lawful e log) : Laws (e :: log) := by
  intro later e' earlier heq
  cases later with
  | nil =>
    cases heq
    exact he
  | cons e'' later =>
    obtain ⟨-, heq⟩ := List.cons.inj heq
    exact h later e' earlier heq

/-- A log in which nothing is posted or deleted. -/
def Mute (log : List (Event F)) : Prop := ∀ e ∈ log, e.op.stage ≠ .posts

theorem Mute.cons (h : Mute log) (he : e.op.stage ≠ .posts) : Mute (e :: log) := by
  intro e' he'
  rcases List.mem_cons.1 he' with rfl | he'
  · exact he
  · exact h e' he'

theorem Mute.laws (h : Mute log) : Laws log := by
  rintro later e earlier rfl
  exact .of_stage (h e (by simp)) earlier

theorem Mute.ownOnly (h : Mute log) : OwnOnly log := ⟨h.laws, .inl fun e he => not_success (h e he)⟩

/-! ## Before anything is sent -/

/-- The claim has sent nothing: its listing before the run, its build, and whether a stop ended its run. -/
structure Sofar (before : Option (List ListedResult)) (chosen : Option (Build F)) (stopped : Bool) (s : World F) : Prop where
  mute : Mute s.log
  listed : listing false s.log = before
  chose : chosenBuild s.log = chosen
  ended : endedByStop s.log = stopped
  seen : lostUnseen s.log = false
  idle : s.log.head?.any Event.silent = false

/-- No heartbeat runs, and the lease is lost or not. -/
structure Still (lost : Bool) (s : World F) : Prop where
  still : s.beating = false
  lease : s.lost = lost

variable {before : Option (List ListedResult)} {chosen : Option (Build F)} {stopped : Bool} {s s' : World F} {o : Op F} {r : Ans o}

/-- The stages that change nothing of `Sofar`. -/
def Stage.plain : Stage → Bool
  | .asks | .lease | .installs | .begins | .ends | .claims => true
  | _ => false

theorem Sofar.step (h : Sofar before chosen stopped s) (hstep : (machine published).step t o s r s') (ho : o.stage.plain) :
    Sofar before chosen stopped s' := by
  have hne : ∀ stage : Stage, stage.plain = false → o.stage ≠ stage := by
    rintro stage hplain rfl
    rw [hplain] at ho
    cases ho
  obtain ⟨lost, stop, hlog⟩ := step_log hstep
  refine ⟨?_, ?_, ?_, ?_, ?_, ?_⟩ <;> rw [hlog]
  · exact h.mute.cons (hne .posts rfl)
  · rw [listing_cons (listing_before (hne .lists rfl))]
    exact h.listed
  · rw [chosenBuild_cons (hne .chooses rfl)]
    exact h.chose
  · rw [endedByStop_cons (hne .launches rfl) (.inr h.idle)]
    exact h.ended
  · rw [lostUnseen_cons (not_drops (hne .drops rfl))]
    exact h.seen
  · exact not_silent (hne .launches rfl)

theorem Still.step {lost : Bool} (h : Still lost s) (hstep : (machine published).step t o s r s') (hlease : o.stage ≠ .lease)
    (hbegins : o.stage ≠ .begins) : Still lost s' ∧ ∃ stop, s'.log = ⟨o, r, lost, stop⟩ :: s.log := by
  obtain ⟨hstill, hlost, stop, hlog⟩ := step_still hstep h.still hlease hbegins
  rw [h.lease] at hlost hlog
  exact ⟨⟨hstill, hlost⟩, stop, hlog⟩

end Pipette.Proxy
