import Pipette.Theorems.Retire

/-!
# What a worker reports of one claim

A report settles once: nothing is sent after a `202` or a `409`, a failure is never followed by a success, and a successful
run is reported failed only when its result was refused. The last part breaks at a success status whose body does not decode:
the submit takes it for a refusal, and the worker reports a retriable failure of a result the server has accepted.
-/

namespace Pipette.Worker

open Retry List World

/-! ## The POSTs of a report -/

/-- The POSTs of a log with their replies, in order. -/
def postsOf (log : List Event) : List (Body × Reply) :=
  log.filterMap fun
    | .post body reply => some (body, reply)
    | _ => none

/-- The server has settled the claim: it holds the result, or another attempt superseded it. -/
def Reply.settles : Reply → Bool
  | .answered status _ => status == 202 || status == 409
  | _ => false

/-- Sending again would not change it: the server refused it, or this client could not send it at all. A `404` asks for a
reclaim, a `409` settles the claim, and a `5xx` or no answer is sent again. -/
def Reply.refuses : Reply → Bool
  | .unsent => true
  | .transport => false
  | .answered status _ => !isSuccess status && status != 404 && status != 409 && decide (status < 500)

/-- A success status whose body does not decode. -/
def Reply.undecodable : Reply → Bool
  | .answered status accepted => isSuccess status && accepted.isNone
  | _ => false

def Body.isFailure : Body → Bool
  | .success .. => false
  | .failure .. => true

/-- A failure that returns the job to the queue. -/
def Body.isRetriable : Body → Bool
  | .success .. => false
  | .failure _ _ retriable _ => retriable

/-- Not reported: the lease was lost, a held touch stopped the run, or it was cancelled on request. -/
def unreported (e : Env) (run : Except RunError Finished) (leaseLost : Bool) : Bool :=
  leaseLost ||
    match run with
    | .ok _ => false
    | .error err => err.heldTouch || (e.stopRequested && err.cancelled)

/-- The POSTs make at most one settled report of the run. -/
structure OneReport (e : Env) (run : Except RunError Finished) (leaseLost : Bool) (posts : List (Body × Reply)) : Prop where
  /-- A run that is not reported sends nothing. -/
  silent : unreported e run leaseLost → posts = []
  /-- Nothing follows a POST that settled the claim. -/
  settled : posts.Pairwise fun x _ => x.2.settles = false
  /-- No success follows a failure. -/
  order : posts.Pairwise fun x y => x.1.isFailure → y.1.isFailure
  /-- A successful run is reported failed only after its success was refused, and then retriable. -/
  refused : ∀ r, run = .ok r → ∀ before y after, posts = before ++ y :: after → y.1.isFailure →
    y.1.isRetriable ∧ ∃ x ∈ before, x.1.isFailure = false ∧ x.2.refuses
  /-- No body is sent more often than the backoff has attempts. -/
  bounded : ∀ body, (posts.map Prod.fst).count body ≤ attempts

/-! ## Reading the replies -/

variable {post : Reply} {body : Body} {first j : Nat} {success failure : Body} {k : Nat}

section Replies

attribute [local simp] dispositionOf sendJson ApiError.isTransient ApiError.status Reply.refuses Reply.undecodable Reply.settles

/-- A round that is sent again settled nothing and refused nothing. -/
theorem not_settled_of_retryTransient {reclaim : Reply} (h : dispositionOf post reclaim = .retryTransient) :
    post.settles = false ∧ post.refuses = false := by
  cases post with
  | unsent => simp at h
  | transport => exact ⟨rfl, rfl⟩
  | answered status accepted =>
    by_cases hok : isSuccess status
    · cases accepted <;> simp [hok] at h
    have h202 : status ≠ 202 := by
      rintro rfl
      exact hok rfl
    by_cases h409 : status = 409
    · simp [isSuccess, h409] at h
    by_cases h404 : status = 404
    · simp [h404]
    · by_cases h500 : 500 ≤ status
      · simp [h202, h409, h500]
      · simp [hok, h409, h404, h500] at h

/-- A round is fatal exactly when its POST was refused or answered with a success that does not decode. -/
theorem fatal_iff (post reclaim : Reply) :
    (∃ err, dispositionOf post reclaim = .fatal err) ↔ post.refuses ∨ post.undecodable := by
  cases post with
  | unsent | transport => simp
  | answered status accepted =>
    by_cases hok : isSuccess status
    · cases accepted <;> simp [hok]
    by_cases h409 : status = 409
    · simp [h409, isSuccess]
    by_cases h404 : status = 404
    · subst h404
      cases hr : sendEmpty reclaim with
      | ok _ => simp [hr, isSuccess]
      | error re =>
        by_cases ht : re.isTransient <;> simp [hr, ht, isSuccess, -ApiError.isTransient]
    · by_cases h500 : 500 ≤ status
      · simp [hok, h409, h404, h500]
      · simp [hok, h409, h404, h500]
        omega

theorem undecodable_not_refuses (h : post.undecodable) : post.refuses = false := by
  cases post <;> simp_all

theorem settles_of_refuses (h : post.refuses) : post.settles = false := by
  cases post with
  | unsent | transport => rfl
  | answered status accepted =>
    have h202 : status ≠ 202 := by
      rintro rfl
      cases h
    simp_all

end Replies

/-! ## The POSTs of the two submits -/

/-- The POSTs of `j` rounds of one body, the first of them number `first`. -/
def sends (e : Env) (body : Body) (first j : Nat) : List (Body × Reply) := (range' first j).map fun n => (body, e.post n)

theorem postsOf_append (a b : List Event) : postsOf (a ++ b) = postsOf a ++ postsOf b := filterMap_append

theorem postsOf_roundEvents (e : Env) (body : Body) (n : Nat) : postsOf (roundEvents e body n) = [(body, e.post n)] := by
  unfold roundEvents
  split <;> rfl

theorem postsOf_afterRounds (e : Env) (body : Body) (j : Nat) (w : World) :
    postsOf (afterRounds e body j w).log = postsOf w.log ++ sends e body (w.posts + 1) j := by
  induction j generalizing w with
  | zero => simp [afterRounds, sends]
  | succ j ih =>
    rw [afterRounds, ih]
    simp [postsOf_append, postsOf_roundEvents, sends, range'_succ]

variable {e : Env}

theorem mem_sends {x : Body × Reply} : x ∈ sends e body first j ↔ ∃ i < j, x = (body, e.post (first + i)) := by
  simp only [sends, mem_map, mem_range'_1]
  constructor
  · rintro ⟨n, ⟨hle, hlt⟩, rfl⟩
    exact ⟨n - first, by omega, by rw [Nat.add_sub_cancel' hle]⟩
  · rintro ⟨i, hi, rfl⟩
    exact ⟨first + i, by omega, rfl⟩

theorem fst_of_mem_sends {x : Body × Reply} (h : x ∈ sends e body first j) : x.1 = body := by
  obtain ⟨i, -, rfl⟩ := mem_sends.1 h
  rfl

theorem map_fst_sends (e : Env) (body : Body) (first j : Nat) : (sends e body first j).map Prod.fst = replicate j body := by
  induction j generalizing first with
  | zero => rfl
  | succ j ih => simpa [sends, range'_succ, replicate_succ] using ih (first + 1)

/-- Rounds of which all but the last are sent again settle nothing before the last. -/
theorem sends_settled (body : Body) (h : ∀ i, i + 1 < j → e.disposition (first + i) = .retryTransient) :
    (sends e body first j).Pairwise fun x _ => x.2.settles = false := by
  refine pairwise_map.2 (List.Pairwise.imp_of_mem ?_ (pairwise_lt_range' 1))
  intro a b ha hb hab
  rw [mem_range'_1] at ha hb
  have hround := h (a - first) (by omega)
  rw [Nat.add_sub_cancel' ha.1] at hround
  exact (not_settled_of_retryTransient hround).1

theorem sends_order (e : Env) (body : Body) (first j : Nat) :
    (sends e body first j).Pairwise fun x y => x.1.isFailure → y.1.isFailure := by
  refine pairwise_map.2 ((pairwise_lt_range' 1).imp ?_)
  exact fun _ h => h

/-- One submit adds its rounds to the POSTs, all but the last of them sent again. -/
theorem submit_sends (e : Env) (body : Body) (w : World) :
    ∃ j < attempts, postsOf (submitPlanResultWithBackoff e body w).2.log = postsOf w.log ++ sends e body (w.posts + 1) (j + 1) ∧
      (submitPlanResultWithBackoff e body w).2.posts = w.posts + (j + 1) ∧
      (∀ i < j, e.disposition (w.posts + 1 + i) = .retryTransient) ∧
      (submitPlanResultWithBackoff e body w).1 = e.disposition (w.posts + 1 + j) ∧
      ((submitPlanResultWithBackoff e body w).1 ≠ .retryTransient → ∀ i < j, SentAgain e (w.posts + 1 + i)) := by
  obtain ⟨j, hj, hworld, hbefore, hlast, hagain⟩ := submitPlanResultWithBackoff_rounds e body w
  simp only [Nat.add_right_comm w.posts _ 1] at hbefore hlast hagain
  exact ⟨j, hj, by rw [hworld, postsOf_afterRounds], by rw [hworld, afterRounds_posts], hbefore, hlast, hagain⟩

theorem postsOf_retire (e : Env) (job : ClaimedJob) (r : Finished) (w : World) :
    postsOf (finalizeEvalCheckpoint e r.evalCheckpoint (storeCompletedResult e job.jobId r.payload r.extras w)).log =
      postsOf w.log := by
  unfold finalizeEvalCheckpoint storeCompletedResult saveResult
  cases checkJobId job.jobId <;> cases e.writesPayload <;> cases r.evalCheckpoint <;> simp [postsOf_append] <;> simp [postsOf]

/-- A success that was not refused is followed by no other submit. -/
theorem submitSuccess_posts (he : e.encodes) (job : ClaimedJob) (r : Finished) (w : World)
    (h : ∀ err, (submitPlanResultWithBackoff e (.success job.jobId r.payload) w).1 ≠ .fatal err) :
    postsOf (submitSuccess e job r w).2.log =
      postsOf (submitPlanResultWithBackoff e (.success job.jobId r.payload) w).2.log := by
  rcases hs : submitPlanResultWithBackoff e (.success job.jobId r.payload) w with ⟨d, w'⟩
  rw [hs] at h
  cases d with
  | fatal err => exact absurd rfl (h err)
  | accepted | dropped => simp [submitSuccess, he, postCompletion, hs, postsOf_retire]
  | retryTransient => simp [submitSuccess, he, postCompletion, hs]

/-- A refused success is followed by the submit of a retriable failure. -/
theorem submitSuccess_posts_fatal (he : e.encodes) (job : ClaimedJob) (r : Finished) (w : World)
    {err : ApiError} (h : (submitPlanResultWithBackoff e (.success job.jobId r.payload) w).1 = .fatal err) :
    postsOf (submitSuccess e job r w).2.log =
      postsOf (submitPlanResultWithBackoff e (.failure job.jobId (.notSubmitted err) true r.payload.deviceTimeMs)
        (submitPlanResultWithBackoff e (.success job.jobId r.payload) w).2).2.log := by
  rcases hs : submitPlanResultWithBackoff e (.success job.jobId r.payload) w with ⟨d, w'⟩
  rw [hs] at h
  obtain rfl : d = .fatal err := h
  rw [← postCompletion_snd]
  simp only [submitSuccess, he, postCompletion, hs, reportRefusedSubmission, submitFailure]
  rcases submitPlanResultWithBackoff e (.failure job.jobId (.notSubmitted err) true r.payload.deviceTimeMs) w' with ⟨d', w''⟩
  cases d' <;> rfl

theorem submitFinishedRun_error_posts (e : Env) (job : ClaimedJob) (err : RunError) (elapsed : Nat) (leaseLost : Bool) (w : World)
    (h : unreported e (.error err) leaseLost = false) :
    postsOf (submitFinishedRun e job (.error err) elapsed leaseLost w).2.log = postsOf (submitPlanResultWithBackoff e
        (.failure job.jobId (.runFailed err.text) err.retriable (some (deviceTimeMs elapsed))) w).2.log := by
  simp only [unreported, Bool.or_eq_false_iff] at h
  simp only [submitFinishedRun, h, submitFailure, ← postCompletion_snd]
  rcases postCompletion e (.failure job.jobId (.runFailed err.text) err.retriable (some (deviceTimeMs elapsed))) w with
    ⟨_ | _, w'⟩ <;> rfl

theorem submitFinishedRun_unreported (job : ClaimedJob) {run : Except RunError Finished} (elapsed : Nat)
    {leaseLost : Bool} (w : World) (h : unreported e run leaseLost) :
    (submitFinishedRun e job run elapsed leaseLost w).2 = w := by
  rcases run with err | r
  · simp only [unreported, Bool.or_eq_true, Bool.and_eq_true] at h
    unfold submitFinishedRun
    by_cases ht : err.heldTouch
    · simp [ht]
    cases hl : leaseLost
    · obtain ⟨hstop, hcancel⟩ : e.stopRequested ∧ err.cancelled := by simpa [hl, ht] using h
      simp [ht, hstop, hcancel]
    · simp [ht]
  · obtain rfl : leaseLost := by simpa [unreported] using h
    rfl

/-! ## One report -/

section OneReport

variable {e : Env} {run : Except RunError Finished} {leaseLost : Bool}

theorem OneReport.nil : OneReport e run leaseLost [] where
  silent := fun _ => rfl
  settled := List.Pairwise.nil
  order := List.Pairwise.nil
  refused := by
    intro _ _ before y after h
    simp at h
  bounded := by simp

/-- The rounds of one submit are one report, unless they report a successful run failed. -/
theorem OneReport.submit (hreport : unreported e run leaseLost = false) (hj : j < attempts)
    (hbefore : ∀ i < j, e.disposition (first + i) = .retryTransient)
    (hbody : ∀ r, run = .ok r → body.isFailure = false) : OneReport e run leaseLost (sends e body first (j + 1)) where
  silent := by simp [hreport]
  settled := sends_settled body fun i hi => hbefore i (by omega)
  order := sends_order e body first (j + 1)
  refused := by
    intro r hr before y after hsplit hfail
    have hy : y ∈ sends e body first (j + 1) := by simp [hsplit]
    simp [fst_of_mem_sends hy, hbody r hr] at hfail
  bounded := by
    intro b
    rw [map_fst_sends, count_replicate]
    split <;> omega

/-- A success refused in its last round and then the rounds of a retriable failure are one report. -/
theorem OneReport.refusal (hreport : unreported e run leaseLost = false) (hj : j < attempts) (hk : k < attempts)
    (hbefore : ∀ i < j, e.disposition (first + i) = .retryTransient)
    (hrefuses : (e.post (first + j)).refuses)
    (hafter : ∀ i < k, e.disposition (first + (j + 1) + i) = .retryTransient)
    (hsuccess : success.isFailure = false) (hfailure : failure.isFailure) (hretriable : failure.isRetriable) :
    OneReport e run leaseLost (sends e success first (j + 1) ++ sends e failure (first + (j + 1)) (k + 1)) where
  silent := by simp [hreport]
  settled := by
    refine pairwise_append.2 ⟨sends_settled success fun i hi => hbefore i (by omega),
      sends_settled failure fun i hi => hafter i (by omega), ?_⟩
    intro x hx y _
    obtain ⟨i, hi, rfl⟩ := mem_sends.1 hx
    obtain hlt | rfl : i < j ∨ i = j := by omega
    · exact (not_settled_of_retryTransient (hbefore i hlt)).1
    · exact settles_of_refuses hrefuses
  order := by
    refine pairwise_append.2 ⟨sends_order .., sends_order .., ?_⟩
    intro x hx y _ hfail
    simp [fst_of_mem_sends hx, hsuccess] at hfail
  refused := by
    intro r _ before y after hsplit hfail
    have hnot : y ∉ sends e success first (j + 1) := fun hy => by simp [fst_of_mem_sends hy, hsuccess] at hfail
    -- a failure is in the second submit, so all of the first is before it
    have hfirst : ∀ x ∈ sends e success first (j + 1), x ∈ before := by
      rcases append_eq_append_iff.1 hsplit with ⟨extra, rfl, -⟩ | ⟨_ | ⟨z, zs⟩, hsends, hrest⟩
      · exact fun x hx => mem_append_left _ hx
      · simp [hsends]
      · exact absurd (by simp [hsends, (cons.inj hrest).1]) hnot
    have hy : y ∈ sends e success first (j + 1) ++ sends e failure (first + (j + 1)) (k + 1) := by simp [hsplit]
    rw [fst_of_mem_sends ((mem_append.1 hy).resolve_left hnot)]
    exact ⟨hretriable, _, hfirst _ (mem_sends.2 ⟨j, by omega, rfl⟩), hsuccess, hrefuses⟩
  bounded := by
    intro b
    have hne : success ≠ failure := by
      rintro rfl
      simp [hsuccess] at hfailure
    rw [map_append, map_fst_sends, map_fst_sends, count_append, count_replicate, count_replicate]
    by_cases hs : success = b
    · subst hs
      simp only [beq_self_eq_true, if_true, beq_iff_eq, hne.symm, if_false]
      omega
    · simp only [beq_iff_eq, hs, if_false]
      split <;> omega

end OneReport

/-- The report of a successful run: the rounds of its success, and those of a retriable failure exactly when the last of them
was refused or answered with a success that does not decode. -/
theorem success_posts (he : e.encodes) (job : ClaimedJob) (r : Finished) (elapsed : Nat)
    (synced : Text → SyncedResult) (evals : EvalFiles) :
    let posts := postsOf (submitFinishedRun e job (.ok r) elapsed false (fresh synced evals)).2.log
    ∃ j < attempts, (∀ i < j, e.disposition (1 + i) = .retryTransient) ∧
      (e.disposition (1 + j) ≠ .retryTransient → ∀ i < j, SentAgain e (1 + i)) ∧
      (submitPlanResultWithBackoff e (resultBody job r elapsed) (fresh synced evals)).1 = e.disposition (1 + j) ∧
      ((¬∃ err, e.disposition (1 + j) = .fatal err) ∧ posts = sends e (resultBody job r elapsed) 1 (j + 1) ∨
        ∃ err, e.disposition (1 + j) = .fatal err ∧
          ∃ k < attempts, (∀ i < k, e.disposition (1 + (j + 1) + i) = .retryTransient) ∧
            posts = sends e (resultBody job r elapsed) 1 (j + 1) ++
              sends e (.failure job.jobId (.notSubmitted err) true (some (deviceTimeMs elapsed))) (1 + (j + 1)) (k + 1)) := by
  intro posts
  obtain ⟨j, hj, hposts, hcount, hbefore, hlast, hagain⟩ := submit_sends e (resultBody job r elapsed) (fresh synced evals)
  have hzero : (fresh synced evals).posts + 1 = 1 := rfl
  have hempty : postsOf (fresh synced evals).log = [] := rfl
  simp only [hzero, hempty, nil_append] at hposts hbefore hlast hagain
  rw [hlast] at hagain
  refine ⟨j, hj, hbefore, hagain, hlast, ?_⟩
  by_cases hfatal : ∃ err, e.disposition (1 + j) = .fatal err
  · obtain ⟨err, herr⟩ := hfatal
    obtain ⟨k, hk, hposts', -, hafter, -⟩ := submit_sends e
      (.failure job.jobId (.notSubmitted err) true (some (deviceTimeMs elapsed)))
      (submitPlanResultWithBackoff e (resultBody job r elapsed) (fresh synced evals)).2
    have hnext : (submitPlanResultWithBackoff e (resultBody job r elapsed) (fresh synced evals)).2.posts + 1 =
        1 + (j + 1) := by
      rw [hcount]
      simp only [fresh]
      omega
    rw [hnext] at hafter hposts'
    rw [hposts] at hposts'
    exact .inr ⟨err, herr, k, hk, hafter,
      (submitSuccess_posts_fatal he job (r.stamped elapsed) _ (hlast.trans herr)).trans hposts'⟩
  · refine .inl ⟨hfatal, (submitSuccess_posts he job (r.stamped elapsed) _ ?_).trans hposts⟩
    exact fun err herr => hfatal ⟨err, hlast.symm.trans herr⟩

/-- A POST of a success that was reached and answered with a success that does not decode is fatal. -/
theorem submit_fatal_of_undecodable (body : Body) {synced : Text → SyncedResult} {evals : EvalFiles} {n : Nat}
    (hn : n < attempts) (hreached : ∀ m < n, SentAgain e (m + 1)) (h : (e.post (n + 1)).undecodable) :
    ∃ err, e.disposition (n + 1) = .fatal err ∧
      (submitPlanResultWithBackoff e body (fresh synced evals)).1 = .fatal err := by
  obtain ⟨err, herr⟩ := (fatal_iff (e.post (n + 1)) (e.reclaim (n + 1))).2 (.inr h)
  have hzero : ∀ i, (fresh synced evals).posts + i + 1 = i + 1 := by simp [fresh]
  have hsettles := submitPlanResultWithBackoff_settles body (w := fresh synced evals) hn
    (by simpa only [hzero] using hreached) (by simp [hzero, herr])
  exact ⟨err, herr, by simp [hsettles, hzero, herr]⟩

/-- A failure that follows an answer that does not decode follows no refusal. -/
theorem not_oneReport_of_undecodable {r : Finished} (hbefore : ∀ i < j, e.disposition (first + i) = .retryTransient)
    (hlast : (e.post (first + j)).undecodable) (hfailure : failure.isFailure) :
    ¬OneReport e (.ok r) false (sends e success first (j + 1) ++ sends e failure (first + (j + 1)) (k + 1)) := by
  intro h
  have hcons : sends e failure (first + (j + 1)) (k + 1) =
      (failure, e.post (first + (j + 1))) :: sends e failure (first + (j + 1) + 1) k := rfl
  obtain ⟨-, x, hx, -, hrefuses⟩ := h.refused r rfl _ _ _ (by rw [hcons]) hfailure
  obtain ⟨i, hi, rfl⟩ := mem_sends.1 hx
  have hnot : (e.post (first + i)).refuses = false := by
    obtain hlt | rfl : i < j ∨ i = j := by omega
    · exact (not_settled_of_retryTransient (hbefore i hlt)).2
    · exact undecodable_not_refuses hlast
  rw [hnot] at hrefuses
  cases hrefuses

/-- A server that accepts the result with an answer that does not decode, and then takes the failure for superseded. -/
def undecodedEnv : Env where
  post n := if n = 1 then .answered 202 none else .answered 409 none
  reclaim _ := .transport
  stops _ := false
  stopRequested := false
  encodes := true
  writesPayload := true
  writesExtras := true
  checkpointIo := ⟨true, true, true, true, true, []⟩

/-- A finished run without a checkpoint. -/
def measuredRun : Finished where
  payload := ⟨none, "tokens=1"⟩
  extras := []
  evalCheckpoint := none

end Pipette.Worker
