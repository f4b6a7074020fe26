import Pipette.Lemmas.Pending

/-!
# A pending result is submitted once

Any number of processes that submit one pending result, in any interleaving, with POSTs refused and processes killed: at most
one POST is accepted, the result is always in one place, and once it has moved it is not posted again. A submit whose job id
is unusable, or cannot be read, ends without a marker, so the next one posts the result again.
-/

namespace Pipette.Results

open Threads Worker

variable {π : Type} {payload : π} {d : Disk π}

/-- A result that was just saved as pending: no process has begun, and it has no marker. -/
structure AtRest (payload : π) (d : Disk π) : Prop where
  pending : ∃ dir, d.pending = some dir ∧ dir.payload = payload ∧ dir.marker = none
  holder : ∀ lock, d.holder lock = none
  posts : d.posts = []
  unmarked : ∀ t, d.unmarked t = false

/-- Every acceptance reaches the client with a job id that names a directory under `synced/`. -/
def UsableJobIds (answers : Answer → Bool) : Prop :=
  ∀ answer, answers answer → answer.isAccepted →
    ∃ jobId, answer = .accepted (some jobId) ∧ (checkJobId jobId).isSome

/-- At most one POST is accepted, the result is in one place, and once it has moved no later step posts it. -/
structure SubmittedOnce (answers : Answer → Bool) (payload : π) (d : Disk π) (p : Pool (Op π) Ans (Disk π)) : Prop where
  once : p.state.accepted ≤ 1
  stored : Stored d.synced payload p.state
  silent : p.state.pending = none → ∀ p', Reaches (machine π true answers) p p' → p'.state.posts = p.state.posts

theorem AtRest.inv (h : AtRest payload d) : Inv d.synced payload d := by
  obtain ⟨dir, hdir, hpayload, -⟩ := h.pending
  refine ⟨.inl ⟨dir, hdir, hpayload, rfl⟩, fun t ht => ?_, .inl ?_⟩
  · rw [h.unmarked t] at ht
    cases ht
  · simp [Disk.accepted, h.posts]

section Runs

variable {answers : Answer → Bool} (husable : UsableJobIds answers) (preflight : π → Option π) (hrest : AtRest payload d)

include husable hrest

theorem submits_holds : (submits preflight d).Holds (protocol d.synced payload) (machine π true answers) := by
  refine ⟨hrest.inv, fun t => ?_⟩
  refine (Protocol.Triple.bind (spec_submitPendingResult husable preflight) fun _ => ?_) d hrest.inv (hrest.unmarked t)
  exact Protocol.Triple.pure fun _ _ => trivial

variable {preflight} {p : Pool (Op π) Ans (Disk π)} (hp : Reaches (machine π true answers) (submits preflight d) p)

include hp

omit husable hrest hp in
theorem exit_keeps (t : Tid) (s : Disk π) (h : (protocol d.synced payload).inv s) :
    (protocol d.synced payload).inv ((machine π true answers).exit t s) ∧
      (protocol d.synced payload).guar t s ((machine π true answers).exit t s) := ok_exit h

/-- A result that has moved is not posted by any later step. -/
theorem posts_of_moved (hmoved : p.state.pending = none) {p' : Pool (Op π) Ans (Disk π)}
    (hp' : Reaches (machine π true answers) p p') : p'.state.pending = none ∧ p'.state.posts = p.state.posts := by
  induction hp' with
  | refl => exact ⟨hmoved, rfl⟩
  | step t hreach hstep ih =>
    have hguar : Guar t _ _ := Reaches.guar exit_keeps (hp.trans hreach) (submits_holds husable preflight hrest) hstep
    obtain ⟨hpending, -, hposts⟩ := hguar.gone ih.1
    exact ⟨hpending, hposts.trans ih.2⟩

/-- A pending result is submitted once, if every accepted POST is answered with a usable job id. -/
theorem submitted_once : SubmittedOnce answers payload d p := by
  have hinv : Inv d.synced payload p.state := (Reaches.holds exit_keeps hp (submits_holds husable preflight hrest)).1
  refine ⟨?_, hinv.stored, fun hmoved p' hp' => (posts_of_moved husable hrest hp hmoved hp').2⟩
  rcases hinv.once with h | ⟨h, -⟩ <;> omega

end Runs

/-! ## Runs that are played -/

/-- An operation with the answer of the server chosen. -/
def exec (answers : Answer → Bool) (answer : Answer) (t : Tid) (o : Op π) (s : Disk π) : Option (Ans o × Disk π) :=
  if o.isPost && !answers answer then none else some (act true t answer o s)

theorem step_of_exec {answers : Answer → Bool} (answer : Answer) (t : Tid) (o : Op π) (s : Disk π) (r : Ans o) (s' : Disk π)
    (h : exec answers answer t o s = some (r, s')) : (machine π true answers).step t o s r s' := by
  unfold exec at h
  split at h
  · cases h
  · next hanswer =>
    refine ⟨answer, fun hpost => ?_, Option.some.inj h⟩
    simpa [hpost] using hanswer

/-- A disk with one pending result. -/
def savedResult (payload : π) : Disk π where
  lockFile := none
  inodes := 0
  holder _ := none
  pending := some ⟨payload, none, none⟩
  synced _ := none
  posts := []
  unmarked _ := false

/-- Some turns of one process, with one answer of the server. -/
def turns (t : Tid) (n : Nat) (answer : Answer) : List (Turn Answer) := List.replicate n (.run t answer)

/-- A server that accepts a POST as `job-7`, or refuses it. -/
def plainServer (answer : Answer) : Bool := answer = .refused || answer = .accepted (some "job-7")

theorem plainServer_usable : UsableJobIds plainServer := by
  intro answer hanswer haccepted
  rcases answer with _ | jobId
  · cases haccepted
  · obtain rfl : jobId = some "job-7" := by simpa [plainServer] using hanswer
    exact ⟨_, rfl, by decide⟩

/-- Of two processes that race for a result the first posts it, and a third finds it moved. -/
theorem raced_result_submitted_once :
    ∃ p, Reaches (machine Unit true plainServer) (submits some (savedResult ())) p ∧ p.state.pending = none ∧
      p.state.accepted = 1 ∧ SubmittedOnce plainServer () (savedResult ()) p := by
  obtain ⟨p, hreach, hpending, haccepted⟩ : ∃ p, Reaches (machine Unit true plainServer) (submits some (savedResult ())) p ∧
      p.state.pending = none ∧ p.state.accepted = 1 := Pool.exists_of_play step_of_exec
    (turns 0 5 .refused ++ turns 1 2 .refused ++ turns 0 7 (.accepted (some "job-7")) ++ turns 2 5 .refused) (by decide)
  exact ⟨p, hreach, hpending, haccepted, submitted_once plainServer_usable ⟨⟨_, rfl, rfl, rfl⟩, fun _ => rfl, rfl, fun _ => rfl⟩ hreach⟩

/-- A server that accepts POSTs under the job ids `../x` and `../y`. -/
def escapingServer (answer : Answer) : Bool :=
  answer = .accepted (some "../x") || answer = .accepted (some "../y")

/-- Two processes submit a result one after the other, and both POSTs are accepted. -/
theorem refused_job_id_submitted_twice : ∃ p, Reaches (machine Unit true escapingServer) (submits some (savedResult ())) p ∧
      ¬SubmittedOnce escapingServer () (savedResult ()) p := by
  obtain ⟨p, hreach, htwice⟩ : ∃ p, Reaches (machine Unit true escapingServer) (submits some (savedResult ())) p ∧ p.state.accepted = 2 :=
    Pool.exists_of_play step_of_exec (turns 0 7 (.accepted (some "../x")) ++ turns 1 6 (.accepted (some "../y")))
      (by decide)
  refine ⟨p, hreach, fun h => ?_⟩
  have honce := h.once
  omega

end Pipette.Results
