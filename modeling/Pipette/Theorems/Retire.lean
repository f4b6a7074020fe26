import Pipette.Lemmas.Submit

/-!
# When a result is retired

A worker files a result as synced and finalizes its eval checkpoint when `post_completion` says that the server has the
report. That answer also covers a dropped submit: a `409`, and a `404` whose reclaim is refused for good. These answers, and a
success status other than `202`, are the only ones that retire a result the server did not accept.
-/

namespace Pipette.Worker

open Retry World SubmitDisposition ApiError

/-- The run as it is reported, with its device time. -/
def Finished.stamped (run : Finished) (elapsed : Nat) : Finished :=
  { run with payload := { run.payload with deviceTimeMs := some (deviceTimeMs elapsed) } }

/-- The body a successful run is reported with. -/
def resultBody (job : ClaimedJob) (run : Finished) (elapsed : Nat) : Body := .success job.jobId (run.stamped elapsed).payload

/-- Some POST of the run's result was answered with acceptance. -/
def HeldByServer (job : ClaimedJob) (run : Except RunError Finished) (elapsed : Nat) (log : List Event) : Prop :=
  ∃ r, run = .ok r ∧ ∃ accepted, Event.post (resultBody job r elapsed) (.answered 202 accepted) ∈ log

/-- The result is filed, or its checkpoint finalized. -/
def Retired (log : List Event) : Prop := (∃ jobId, Event.filed jobId ∈ log) ∨ ∃ digest, Event.finalized digest ∈ log

/-- The report from `w` retires its result only when the server holds it, and changes nothing on disk otherwise. -/
def RetiresOnlyHeld (e : Env) (job : ClaimedJob) (run : Except RunError Finished) (elapsed : Nat) (leaseLost : Bool)
    (w : World) : Prop :=
  let w' := (submitFinishedRun e job run elapsed leaseLost w).2
  (Retired w'.log → HeldByServer job run elapsed w'.log) ∧
    (¬HeldByServer job run elapsed w'.log → w'.synced = w.synced ∧ w'.evals = w.evals)

/-- A claim whose run is about to be reported: no call made yet. -/
def World.fresh (synced : Text → SyncedResult) (evals : EvalFiles) : World :=
  { synced, evals, posts := 0, log := [] }

/-- A refusal that asking again would not change. -/
def refusedForGood (reply : Reply) : Bool :=
  match sendEmpty reply with
  | .ok () => false
  | .error err => !err.isTransient

/-- Taken for the server having the result, and no acceptance of it: a `409`, a `404` whose reclaim is refused for good, and
an answer that decodes under a success status other than `202`. -/
def takenForHeld (post reclaim : Reply) : Bool :=
  match post with
  | .answered 409 _ => true
  | .answered 404 _ => refusedForGood reclaim
  | .answered status (some _) => isSuccess status && status != 202
  | _ => false

/-- Retiring would leave a trace: the payload can be written under its job id, or there is a checkpoint. -/
def hasWhatToRetire (e : Env) (job : ClaimedJob) (run : Finished) : Bool :=
  (e.writesPayload && (checkJobId job.jobId).isSome) || run.evalCheckpoint.isSome

/-! ## Reading the replies of a settled submit -/

variable {post reclaim : Reply} {body : Body} {w : World}

section Replies

attribute [local simp] dispositionOf sendJson status isTransient reportHeld

/-- A round held for delivered was answered `202`, or is one the worker misreads. -/
theorem accepted_or_takenForHeld (h : (dispositionOf post reclaim).reportHeld) :
    (∃ jobId, post = .answered 202 (some jobId)) ∨ takenForHeld post reclaim := by
  cases post with
  | unsent | transport => simp at h
  | answered status accepted =>
    by_cases hok : isSuccess status
    · cases accepted with
      | none => simp [hok] at h
      | some jobId =>
        by_cases h202 : status = 202
        · exact .inl ⟨jobId, by rw [h202]⟩
        · refine .inr ?_
          unfold takenForHeld
          split <;> simp_all [isSuccess]
    refine .inr ?_
    by_cases h409 : status = 409
    · simp [takenForHeld, h409]
    by_cases h404 : status = 404
    · subst h404
      cases hr : sendEmpty reclaim with
      | ok _ => simp [isSuccess, hr] at h
      | error re =>
        by_cases ht : re.isTransient
        · simp [isSuccess, hr, ht, -isTransient] at h
        · simp [takenForHeld, refusedForGood, hr, ht, -isTransient]
    · by_cases h500 : 500 ≤ status <;> simp [hok, h409, h404, h500] at h

theorem reportHeld_of_takenForHeld (h : takenForHeld post reclaim) :
    (dispositionOf post reclaim).reportHeld := by
  unfold takenForHeld at h
  split at h
  · simp [isSuccess]
  · unfold refusedForGood at h
    cases hr : sendEmpty reclaim <;> simp_all [isSuccess]
  · simp only [Bool.and_eq_true, bne_iff_ne, ne_eq] at h
    simp [h.1]
  · cases h

theorem takenForHeld_accepted (accepted : Option Text) (reclaim : Reply) :
    takenForHeld (.answered 202 accepted) reclaim = false := by
  cases accepted <;> simp [takenForHeld]

theorem dispositionOf_accepted (accepted : Option Text) (reclaim : Reply) :
    dispositionOf (.answered 202 accepted) reclaim ≠ .retryTransient := by
  cases accepted <;> simp [isSuccess]

end Replies

/-! ## What a report leaves behind -/

/-- Filing a result and retiring its checkpoint adds what there was to retire to the log, and no POST. -/
theorem retire_log (e : Env) (job : ClaimedJob) (r : Finished) (w : World) :
    let w' := finalizeEvalCheckpoint e r.evalCheckpoint (storeCompletedResult e job.jobId r.payload r.extras w)
    (hasWhatToRetire e job r → Retired w'.log) ∧
      (∀ body reply, Event.post body reply ∈ w'.log ↔ Event.post body reply ∈ w.log) ∧
      (hasWhatToRetire e job r = false → w' = w) := by
  unfold hasWhatToRetire finalizeEvalCheckpoint storeCompletedResult saveResult Retired
  cases checkJobId job.jobId <;> cases e.writesPayload <;> cases r.evalCheckpoint <;> simp

variable {e : Env}

/-- The rounds of a body record nothing filed and nothing finalized. -/
theorem not_retired_afterRounds {j : Nat} (h : ¬Retired w.log) : ¬Retired (afterRounds e body j w).log := by
  rintro (⟨id, hid⟩ | ⟨d, hd⟩)
  · rcases mem_afterRounds_log.1 hid with h' | ⟨i, -, hi⟩
    · exact h (.inl ⟨id, h'⟩)
    · exact not_retired_mem_roundEvents.1 id hi
  · rcases mem_afterRounds_log.1 hd with h' | ⟨i, -, hi⟩
    · exact h (.inr ⟨d, h'⟩)
    · exact not_retired_mem_roundEvents.2 d hi

/-- `w'` is `w` after calls only: nothing on disk has moved. -/
structure CallsOnly (w w' : World) : Prop where
  synced : w'.synced = w.synced
  evals : w'.evals = w.evals
  retired : ¬Retired w.log → ¬Retired w'.log

theorem CallsOnly.refl (w : World) : CallsOnly w w := ⟨rfl, rfl, id⟩

theorem CallsOnly.trans {w' w'' : World} (h : CallsOnly w w') (h' : CallsOnly w' w'') : CallsOnly w w'' :=
  ⟨h'.synced.trans h.synced, h'.evals.trans h.evals, fun hw => h'.retired (h.retired hw)⟩

/-- Posting a body ends in `Ok(true)` exactly as the disposition of the loop says. -/
theorem postCompletion_fst (e : Env) (body : Body) (w : World) :
    (postCompletion e body w).1 = .ok true ↔ (submitPlanResultWithBackoff e body w).1.reportHeld := by
  unfold postCompletion
  rcases submitPlanResultWithBackoff e body w with ⟨d, w'⟩
  cases d <;> simp [reportHeld]

theorem postCompletion_snd (e : Env) (body : Body) (w : World) :
    (postCompletion e body w).2 = (submitPlanResultWithBackoff e body w).2 := by
  unfold postCompletion
  rcases submitPlanResultWithBackoff e body w with ⟨d, w'⟩
  cases d <;> rfl

theorem postCompletion_callsOnly (e : Env) (body : Body) (w : World) : CallsOnly w (postCompletion e body w).2 := by
  obtain ⟨j, -, hworld, -⟩ := submitPlanResultWithBackoff_rounds e body w
  rw [postCompletion_snd, hworld]
  exact ⟨by simp, by simp, not_retired_afterRounds⟩

variable {job : ClaimedJob}

open CallsOnly

theorem submitSuccess_callsOnly {r : Finished} (h : (postCompletion e (.success job.jobId r.payload) w).1 ≠ .ok true) :
    CallsOnly w (submitSuccess e job r w).2 := by
  unfold submitSuccess
  have hpost := postCompletion_callsOnly e (.success job.jobId r.payload) w
  rcases hp : postCompletion e (.success job.jobId r.payload) w with ⟨res, w'⟩
  rw [hp] at h hpost
  cases he : e.encodes with
  | false => exact refl w
  | true =>
    rcases res with (_ | _ | err) | (_ | _)
    · exact hpost
    · exact hpost
    · have hfail := postCompletion_callsOnly e (.failure job.jobId (.notSubmitted err) true r.payload.deviceTimeMs) w'
      simp only [reportRefusedSubmission, submitFailure]
      rcases hq : postCompletion e (.failure job.jobId (.notSubmitted err) true r.payload.deviceTimeMs) w' with ⟨_ | _, w''⟩ <;>
        rw [hq] at hfail <;> exact hpost.trans hfail
    · exact hpost
    · exact absurd rfl h

theorem submitSuccess_retires {r : Finished} (he : e.encodes)
    (h : (postCompletion e (.success job.jobId r.payload) w).1 = .ok true) :
    (submitSuccess e job r w).2 = finalizeEvalCheckpoint e r.evalCheckpoint
      (storeCompletedResult e job.jobId r.payload r.extras (postCompletion e (.success job.jobId r.payload) w).2) := by
  unfold submitSuccess
  rcases hp : postCompletion e (.success job.jobId r.payload) w with ⟨res, w'⟩
  rw [hp] at h
  obtain rfl : res = .ok true := h
  simp [he]

/-- A report that makes calls only retires nothing, so it retires only what the server holds. -/
theorem CallsOnly.retiresOnlyHeld {run : Except RunError Finished} {elapsed : Nat}
    {leaseLost : Bool} {synced : Text → SyncedResult} {evals : EvalFiles}
    (h : CallsOnly (fresh synced evals) (submitFinishedRun e job run elapsed leaseLost (fresh synced evals)).2) :
    RetiresOnlyHeld e job run elapsed leaseLost (fresh synced evals) := by
  have hfresh : ¬Retired (fresh synced evals).log := by simp [Retired, fresh]
  exact ⟨fun hr => absurd hr (h.retired hfresh), fun _ => ⟨h.synced, h.evals⟩⟩

/-- A failed run is never filed: its report makes calls only. -/
theorem submitFinishedRun_error_callsOnly (e : Env) (job : ClaimedJob) (err : RunError) (elapsed : Nat) (leaseLost : Bool)
    (w : World) : CallsOnly w (submitFinishedRun e job (.error err) elapsed leaseLost w).2 := by
  have hfail := postCompletion_callsOnly e
    (.failure job.jobId (.runFailed err.text) err.retriable (some (deviceTimeMs elapsed))) w
  simp only [submitFinishedRun, submitFailure]
  split
  · exact refl w
  split
  · exact refl w
  split
  · exact refl w
  · rcases hq : postCompletion e (.failure job.jobId (.runFailed err.text) err.retriable (some (deviceTimeMs elapsed))) w
      with ⟨_ | _, w'⟩ <;> rw [hq] at hfail <;> exact hfail

theorem ne_retryTransient_of_reportHeld {d : SubmitDisposition} (h : d.reportHeld) : d ≠ .retryTransient := by
  rintro rfl
  simp [reportHeld] at h

/-- A submit taken for delivered was settled by a reached round that is held for delivered. -/
theorem exists_round_of_reportHeld (h : (submitPlanResultWithBackoff e body w).1.reportHeld) :
    ∃ j < attempts, (∀ i < j, SentAgain e (w.posts + i + 1)) ∧ (e.disposition (w.posts + j + 1)).reportHeld := by
  obtain ⟨j, hj, -, -, hlast, hagain⟩ := submitPlanResultWithBackoff_rounds e body w
  exact ⟨j, hj, hagain (ne_retryTransient_of_reportHeld h), hlast ▸ h⟩

/-- The world after a report settled by round `j`, held for delivered: its rounds, then what is retired. -/
theorem submitFinishedRun_settled (job : ClaimedJob) (r : Finished) (elapsed : Nat) {j : Nat}
    (he : e.encodes) (hj : j < attempts) (hbefore : ∀ i < j, SentAgain e (w.posts + i + 1))
    (hlast : (e.disposition (w.posts + j + 1)).reportHeld) :
    (submitFinishedRun e job (.ok r) elapsed false w).2 = finalizeEvalCheckpoint e (r.stamped elapsed).evalCheckpoint
        (storeCompletedResult e job.jobId (r.stamped elapsed).payload (r.stamped elapsed).extras
          (afterRounds e (resultBody job r elapsed) (j + 1) w)) := by
  have hsettle := submitPlanResultWithBackoff_settles (resultBody job r elapsed) hj hbefore
    (ne_retryTransient_of_reportHeld hlast)
  have hok : (postCompletion e (resultBody job r elapsed) w).1 = .ok true := by
    rw [postCompletion_fst, hsettle]
    exact hlast
  have hretire := submitSuccess_retires he hok
  rw [show (submitFinishedRun e job (.ok r) elapsed false w).2 = (submitSuccess e job (r.stamped elapsed) w).2 from rfl, hretire]
  rw [show (postCompletion e (.success job.jobId (r.stamped elapsed).payload) w).2 = _ from
    (postCompletion_snd e (resultBody job r elapsed) w).trans (congrArg Prod.snd hsettle)]

section Settled

attribute [local simp] World.fresh

variable {e : Env} (job : ClaimedJob) (r : Finished) (elapsed : Nat) (synced : Text → SyncedResult) (evals : EvalFiles) {j : Nat}

/-- A submit settled by a `202`: the server holds the result. -/
theorem heldByServer_of_accepted (he : e.encodes) (hj : j < attempts) (hbefore : ∀ i < j, SentAgain e (i + 1))
    {jobId : Text} (hacc : e.post (j + 1) = .answered 202 (some jobId)) :
    HeldByServer job (.ok r) elapsed (submitFinishedRun e job (.ok r) elapsed false (fresh synced evals)).2.log := by
  have hlast : (e.disposition (j + 1)).reportHeld := by
    rw [Env.disposition, hacc]
    rfl
  rw [submitFinishedRun_settled job r elapsed he hj (by simpa using hbefore) (by simpa using hlast)]
  refine ⟨r, rfl, some jobId, ((retire_log e job (r.stamped elapsed) _).2.1 _ _).2 ?_⟩
  refine mem_afterRounds_log.2 (.inr ⟨j, by omega, post_mem_roundEvents.2 ⟨rfl, ?_⟩⟩)
  simpa using hacc.symm

/-- A submit settled by a misread answer: no POST of the result was answered `202`. -/
theorem not_heldByServer_of_takenForHeld (he : e.encodes) (hj : j < attempts)
    (hbefore : ∀ i < j, SentAgain e (i + 1)) (htaken : takenForHeld (e.post (j + 1)) (e.reclaim (j + 1))) :
    ¬HeldByServer job (.ok r) elapsed (submitFinishedRun e job (.ok r) elapsed false (fresh synced evals)).2.log := by
  have hlast := reportHeld_of_takenForHeld htaken
  rw [submitFinishedRun_settled job r elapsed he hj (by simpa using hbefore) (by simpa using hlast)]
  rintro ⟨r₁, -, acc, hmem⟩
  rcases mem_afterRounds_log.1 (((retire_log e job (r.stamped elapsed) _).2.1 _ _).1 hmem) with h | ⟨i, hi, h⟩
  · simp at h
  have hpost : e.post (i + 1) = .answered 202 acc := by simpa using (post_mem_roundEvents.1 h).2.symm
  obtain hlt | rfl : i < j ∨ i = j := by omega
  · have hd := (hbefore i hlt).1
    rw [hpost] at hd
    exact dispositionOf_accepted acc _ hd
  · rw [hpost, takenForHeld_accepted] at htaken
    cases htaken

/-- A submit settled by a misread answer retires only what the server holds exactly when there was nothing to retire. -/
theorem retiresOnlyHeld_of_takenForHeld (he : e.encodes) (hj : j < attempts)
    (hbefore : ∀ i < j, SentAgain e (i + 1)) (htaken : takenForHeld (e.post (j + 1)) (e.reclaim (j + 1))) :
    RetiresOnlyHeld e job (.ok r) elapsed false (fresh synced evals) ↔ hasWhatToRetire e job r = false := by
  have hnot := not_heldByServer_of_takenForHeld job r elapsed synced evals he hj hbefore htaken
  have hfinal := submitFinishedRun_settled job r elapsed (w := fresh synced evals) he hj
    (by simpa using hbefore) (by simpa using reportHeld_of_takenForHeld htaken)
  obtain ⟨hretired, -, hsame⟩ := retire_log e job (r.stamped elapsed)
    (afterRounds e (resultBody job r elapsed) (j + 1) (fresh synced evals))
  rw [← hfinal] at hretired hsame
  cases hwhat : hasWhatToRetire e job r with
  | true => exact iff_of_false (fun h => hnot (h.1 (hretired hwhat))) (by simp)
  | false =>
    refine iff_of_true (retiresOnlyHeld ?_) rfl
    rw [hsame hwhat]
    exact ⟨by simp, by simp, not_retired_afterRounds⟩

end Settled

/-- Reporting a run retires its result only when the server accepted it, exactly when no submit of it is settled by an answer
the worker takes for the server having it: a `409`, a `404` whose reclaim is refused for good, or a success status other
than `202` (or there was nothing to retire). -/
theorem retiresOnlyHeld_iff (e : Env) (job : ClaimedJob) (run : Except RunError Finished) (elapsed : Nat) (leaseLost : Bool)
    (synced : Text → SyncedResult) (evals : EvalFiles) :
    RetiresOnlyHeld e job run elapsed leaseLost (World.fresh synced evals) ↔
      ∀ r, run = .ok r → leaseLost = false → e.encodes → hasWhatToRetire e job r →
        ∀ n < attempts, (∀ m < n, SentAgain e (m + 1)) → takenForHeld (e.post (n + 1)) (e.reclaim (n + 1)) = false := by
  rcases run with err | r
  · exact iff_of_true (submitFinishedRun_error_callsOnly e job err elapsed leaseLost _).retiresOnlyHeld
      (fun r hr => by simp at hr)
  by_cases hreport : leaseLost = false ∧ e.encodes
  swap
  · refine iff_of_true (retiresOnlyHeld ?_) (fun r _ hl he => absurd ⟨hl, he⟩ hreport)
    cases leaseLost with
    | true => exact refl _
    | false =>
      have he : e.encodes = false := by simpa using hreport
      simpa [submitFinishedRun, submitSuccess, he] using refl (fresh synced evals)
  obtain ⟨rfl, he⟩ := hreport
  have hzero : ∀ i, (fresh synced evals).posts + i + 1 = i + 1 := by simp [fresh]
  by_cases hheld : (submitPlanResultWithBackoff e (resultBody job r elapsed) (fresh synced evals)).1.reportHeld
  · obtain ⟨j, hj, hbefore, hlast⟩ := exists_round_of_reportHeld hheld
    simp only [hzero] at hbefore hlast
    rcases accepted_or_takenForHeld hlast with ⟨jobId, hacc⟩ | htaken
    · have hlog := heldByServer_of_accepted job r elapsed synced evals he hj hbefore hacc
      refine iff_of_true ⟨fun _ => hlog, fun h => absurd hlog h⟩ ?_
      intro _ _ _ _ _ n _ hn
      by_contra htaken
      have hd := ne_retryTransient_of_reportHeld (reportHeld_of_takenForHeld (by simpa using htaken))
      obtain rfl := round_unique (fun m hm => (hn m hm).1) (fun m hm => (hbefore m hm).1) hd
        (ne_retryTransient_of_reportHeld hlast)
      rw [hacc, takenForHeld_accepted] at htaken
      exact htaken rfl
    rw [retiresOnlyHeld_of_takenForHeld job r elapsed synced evals he hj hbefore htaken]
    constructor
    · intro hwhat r₁ hr₁ _ _ hwhat₁
      cases hr₁
      simp [hwhat] at hwhat₁
    · intro h
      by_contra hwhat
      have := h r rfl rfl he (by simpa using hwhat) j hj hbefore
      simp [htaken] at this
  · refine iff_of_true (retiresOnlyHeld ?_) ?_
    · exact submitSuccess_callsOnly
        fun h => hheld ((postCompletion_fst e (resultBody job r elapsed) _).1 h)
    · intro _ _ _ _ _ n hn hbefore
      by_contra htaken
      have hd := reportHeld_of_takenForHeld (by simpa using htaken)
      refine hheld ?_
      rw [submitPlanResultWithBackoff_settles _ hn (by simpa only [hzero] using hbefore)
        (by simpa only [hzero] using ne_retryTransient_of_reportHeld hd)]
      simpa only [hzero] using hd

/-- A server that answers every POST with `409`, on a machine whose disk takes every write. -/
def supersededEnv : Env where
  post _ := .answered 409 none
  reclaim _ := .transport
  stops _ := false
  stopRequested := false
  encodes := true
  writesPayload := true
  writesExtras := true
  checkpointIo := ⟨true, true, true, true, true, []⟩

/-- A finished eval run with a checkpoint. -/
def evalRun : Finished where
  payload := ⟨none, []⟩
  extras := []
  evalCheckpoint := some "0011223344556677"

/-- A POST answered `409` has the result filed as synced and its checkpoint finalized, and the server holds nothing of it. -/
theorem superseded_result_retired : ¬RetiresOnlyHeld supersededEnv ⟨"job-abc"⟩ (.ok evalRun) 3000 false
      (World.fresh (fun _ => ⟨none, none⟩) fun name =>
        if name = sessionPath "0011223344556677" then
          some ⟨.header ⟨"0011223344556677", none⟩, [.row ⟨"s0", "answer", false, none, .eos, none, some 4⟩], false⟩
        else none) := by
  rw [retiresOnlyHeld_of_takenForHeld _ _ _ _ _ (j := 0) rfl (by decide) (by simp) rfl]
  decide

end Pipette.Worker
