import Pipette.Lemmas.JobLog

/-!
# The proxy posts and deletes only what its run produced

For every claim, whatever the phone and the server answer: what is posted or deleted was not on the phone before the run, what
is deleted is known to be uploaded, and success and failure bodies never both stand for one claim. A lost lease keeps the
proxy from posting except where it drops the lease after a failed step without looking at it again.
-/

namespace Pipette.Proxy

open Threads List Event World Collected SafeTriple

variable {F : Formats} {published : Surroundings → Prop} {t : Tid}

/-! ## Where a claim stands -/

/-- What is left where the worker is killed. -/
def Owned (s : World F) : Prop := lostUnseen s.log = false → OwnOnly s.log

/-- A failure may be reported: a lease that is lost was lost unseen. -/
structure Reportable (s : World F) : Prop where
  mute : Mute s.log
  ended : endedByStop s.log = false
  unseen : lostUnseen s.log = s.lost
  still : s.beating = false

/-- How a claim stands once its job has ended. -/
def Closed (r : Except JobEnd Outcome) (s : World F) : Prop :=
  match r with
  | .ok _ => OwnOnly s.log ∧ lostUnseen s.log = false
  | .error ⟨.ok _, _⟩ => Reportable s
  | .error ⟨.error _, _⟩ => Mute s.log ∧ lostUnseen s.log = false

variable {before : Option (List ListedResult)} {chosen : Option (Build F)} {stopped lost : Bool}

variable {s : World F} {α : Type} {p : Act F α} {o : Op F} {outcome : Except AnyError ConsoleRun} {I : World F → Prop}
  {jobId : Text} {body : Body} {r : Ans o} {s' : World F} {stop : Bool} {cs : List Collected}

theorem Sofar.owned (h : Sofar before chosen stopped s) : Owned s := fun _ => h.mute.ownOnly

theorem Reportable.owned (h : Reportable s) : Owned s := fun _ => h.mute.ownOnly

theorem Sofar.closed_ok (h : Sofar before chosen stopped s) (outcome : Outcome) : Closed (.ok outcome) s :=
  ⟨h.mute.ownOnly, h.seen⟩

theorem Sofar.closed_error (h : Sofar before chosen false s) (hs : Still false s) (ended : JobEnd) :
    Closed (.error ended) s := by
  obtain ⟨_ | failure, halt⟩ := ended
  · exact ⟨h.mute, h.seen⟩
  · exact ⟨h.mute, h.ended, by rw [h.seen, hs.lease], hs.still⟩

theorem Closed.owned {r : Except JobEnd Outcome} (h : Closed r s) : Owned s := by
  obtain ⟨_ | failure, halt⟩ | outcome := r
  · exact fun _ => h.1.ownOnly
  · exact Reportable.owned h
  · exact fun _ => h.1

/-- Wherever it is killed, the program has touched only what the run produced. -/
abbrev Owning (published : Surroundings → Prop) (t : Tid) {α : Type} (A : World F → Prop) (p : Act F α) (Q : α → World F → Prop) :
    Prop :=
  SafeTriple (machine published) t Owned A p Q

/-! ## Programs that send nothing -/

theorem sofar_triple {stages : List Stage} (hp : Does stages p) (hplain : stages.all Stage.plain) :
    Owning published t (Sofar before chosen stopped) p fun _ => Sofar before chosen stopped := by
  refine hp.triple fun o s r s' ho _ hs hstep => ?_
  have hs' := hs.step hstep (all_eq_true.1 hplain _ (contains_iff_mem.1 ho))
  exact ⟨hs'.owned, hs'⟩

/-- Before the heartbeat, and after it. -/
theorem still_triple (hp : Does [.asks, .installs, .ends] p) :
    Owning published t (fun s => Sofar before chosen stopped s ∧ Still lost s) p
      fun _ s => Sofar before chosen stopped s ∧ Still lost s := by
  have hstages : ∀ stage : Stage, [Stage.asks, .installs, .ends].contains stage →
      stage.plain ∧ stage ≠ .lease ∧ stage ≠ .begins := by
    intro stage
    cases stage <;> decide
  refine hp.triple fun o s r s' ho _ hs hstep => ?_
  obtain ⟨hplain, hlease, hbegins⟩ := hstages _ ho
  have hs' := hs.1.step hstep hplain
  exact ⟨hs'.owned, hs', (hs.2.step hstep hlease hbegins).1⟩

/-- After an operation, it stands first in the log. -/
theorem sofar_call (ho : o.stage.plain) : Owning published t (Sofar before chosen stopped) (call o)
      (fun r s => Sofar before chosen stopped s ∧ ∃ lost stop, s.log.head? = some ⟨o, r, lost, stop⟩) := by
  refine .call_of (fun r s hs => hs.1.owned) fun s r s' hs hstep => ⟨hs.step hstep ho, ?_⟩
  obtain ⟨lost, stop, hlog⟩ := step_log hstep
  exact ⟨lost, stop, by rw [hlog]; rfl⟩

/-- A lease lost by the time it is dropped is lost unseen, unless a signal was just seen. -/
theorem triple_dropLease : Owning published t (fun s => Sofar before chosen false s ∧ s.log.head?.any raised = false)
      (call .dropLease) (fun _ => Reportable) := by
  refine .call_of (fun r s hs => hs.owned) fun s r s' hs hstep => ?_
  obtain ⟨lost, stop, -, -, -, -, rfl⟩ := step_cases hstep
  obtain ⟨hsofar, hraised⟩ := hs
  refine ⟨hsofar.mute.cons nofun, ?_, ?_, rfl⟩
  · exact (endedByStop_cons (e := ⟨.dropLease, r, lost, stop⟩) nofun (.inr hsofar.idle)).trans hsofar.ended
  · simp only [record, effect, lostUnseen, drops, hraised, hsofar.seen]
    simp

theorem triple_dropLease_raised : Owning published t (fun s => Sofar before chosen stopped s ∧ s.log.head?.any raised)
      (call .dropLease) (fun _ => Sofar before chosen stopped) := by
  refine .call_of (fun r s hs => hs.owned) fun s r s' hs hstep => ?_
  obtain ⟨lost, stop, -, -, -, -, rfl⟩ := step_cases hstep
  obtain ⟨hsofar, hraised⟩ := hs
  refine ⟨hsofar.mute.cons nofun, hsofar.listed, hsofar.chose, ?_, ?_, rfl⟩
  · exact (endedByStop_cons (e := ⟨.dropLease, r, lost, stop⟩) nofun (.inr hsofar.idle)).trans hsofar.ended
  · simp only [record, effect, lostUnseen, hraised, hsofar.seen]
    simp

/-! ## The launch -/

def stoppedOf : Except AnyError ConsoleRun → Bool
  | .ok run => run.stopped
  | .error _ => false

/-- After a launch: as `Sofar`, with the launch first in the log. -/
structure Launched (before : Option (List ListedResult)) (chosen : Option (Build F)) (outcome : Except AnyError ConsoleRun)
    (s : World F) : Prop where
  mute : Mute s.log
  listed : listing false s.log = before
  chose : chosenBuild s.log = chosen
  ended : endedByStop s.log = stoppedOf outcome
  seen : lostUnseen s.log = false

theorem Launched.owned (h : Launched before chosen outcome s) : Owned s := fun _ => h.mute.ownOnly

/-- The clock is read after the launch, so a launch is not first in the log when the signals are. -/
theorem triple_elapsed : Owning published t (Launched before chosen outcome) (call .elapsed)
      (fun _ => Sofar before chosen (stoppedOf outcome)) := by
  refine .call_of (fun _ s hs => hs.owned) fun s r s' hs hstep => ?_
  obtain ⟨lost, stop, -, -, -, -, rfl⟩ := step_cases hstep
  refine ⟨hs.mute.cons nofun, hs.listed, hs.chose, ?_, hs.seen, rfl⟩
  exact (endedByStop_cons (e := ⟨.elapsed, r, lost, stop⟩) nofun (.inl rfl)).trans hs.ended

variable (cfg : Config) (catalog : Catalog F) (job : ClaimedJob F) (output : RuntimeOutput) (plan : LaunchPlan F)
  (build : Build F)

theorem triple_launch (build : Option (Build F)) :
    Owning published t (Sofar before chosen false) (call (.launch job plan build))
      (fun r s => Launched before chosen r s ∧ (stoppedOf r → s.stop) ∧
        ∃ lost stop, s.log.head? = some ⟨.launch job plan build, r, lost, stop⟩) := by
  refine .call_of (fun r s hs => hs.1.owned) fun s r s' hs hstep => ?_
  obtain ⟨lost, stop, -, -, -, hallows, rfl⟩ := step_cases hstep
  refine ⟨⟨hs.mute.cons nofun, hs.listed, hs.chose, ?_, hs.seen⟩, ?_, lost, stop, rfl⟩
  · have hended := hs.ended
    cases r <;> simp [record, effect, endedByStop, stopped, raised, stoppedOf, hended]
  · intro hstopped
    cases r with
    | error e => cases hstopped
    | ok run => exact hallows run rfl hstopped

theorem triple_runBenchmark (build : Option (Build F)) :
    Owning published t (Sofar before chosen false) (runBenchmark job plan build) (Launched before chosen) := by
  refine .bind (triple_launch job plan build) fun r => ?_
  split
  · exact .pure fun s hs => hs.1
  · next run =>
    split
    · next hsilent =>
      -- a stop that ended the launch is still up, so a launch that is repeated was not stopped
      have hsignals : Owning published t (fun s => Launched before chosen (.ok run) s ∧ (stoppedOf (.ok run) → s.stop) ∧
            ∃ lost stop, s.log.head? = some ⟨.launch job plan build, .ok run, lost, stop⟩)
          (call .signals) (fun signals => Sofar before chosen signals.raised) := by
        refine .call_of (fun _ s hs => hs.owned) fun s signals s' hs hstep => ?_
        obtain ⟨hlaunched, hstopped, lost', stop', hhead⟩ := hs
        obtain ⟨lost, stop, -, -, hkept, hsig, rfl⟩ := step_cases hstep
        refine ⟨hlaunched.mute.cons nofun, hlaunched.listed, hlaunched.chose, ?_,
          hlaunched.seen, rfl⟩
        simp only [record, effect, endedByStop, hhead, hlaunched.ended]
        cases hraised : signals.raised with
        | true => simp [raised, hraised, silent, hsilent]
        | false =>
          have hstop : ¬stoppedOf (.ok run) := fun h => by
            rw [show signals = ⟨lost, stop⟩ from hsig] at hraised
            simp [Signals.raised, hkept (hstopped h)] at hraised
          simpa [raised, hraised, stopped] using hstop
      refine .bind hsignals fun signals => ?_
      split
      · next hraised =>
        refine .pure fun s hs => ⟨hs.mute, hs.listed, hs.chose, hs.ended.trans hraised, hs.seen⟩
      · next hraised =>
        refine ((triple_launch job plan build).pre fun s hs => ?_).post fun r s hs => hs.1
        rwa [Bool.eq_false_iff.2 hraised] at hs
    · exact .pure fun s hs => hs.1

/-! ## Collecting -/

/-- What the phone listed of a result that was shown. -/
def Collected.line (c : Collected) : ListedResult := ⟨c.result, c.submitted⟩

variable {listed after : List ListedResult} {shown collected : List Collected}

/-- The results after the run are listed, and these of them were shown. -/
structure Gathered (listed after : List ListedResult) (chosen : Option (Build F)) (stopped lost : Bool) (shown : List Collected)
    (s : World F) : Prop where
  sofar : Sofar (some listed) chosen stopped s
  still : Still lost s
  after : listing true s.log = some after
  told : ∀ c ∈ shown, Told s.log (.showResult c.result) (.ok c.payload)

theorem triple_showResult (result : ResultRef) :
    Owning published t (Gathered listed after chosen stopped lost shown) (call (.showResult result))
      (fun r s => Gathered listed after chosen stopped lost shown s ∧ Told s.log (.showResult result) r) := by
  refine .call_of (fun _ s hs => hs.1.sofar.owned) fun s r s' hs hstep => ?_
  obtain ⟨hstill, stop, hlog⟩ := hs.still.step hstep nofun nofun
  refine ⟨⟨hs.sofar.step hstep rfl, hstill, ?_, fun c hc => ?_⟩, lost, stop, ?_⟩
  · rw [hlog, listing_cons rfl]
    exact hs.after
  · rw [hlog]
    exact (hs.told c hc).cons _
  · rw [hlog]
    exact .head _

/-- What is collected: what these results are listed as, each shown. -/
theorem triple_showResults (shown : List Collected) (results : List ListedResult) :
    Owning published t (Gathered listed after chosen stopped lost shown) (showResults results)
      (fun r s => match r with
        | .ok collected => Gathered listed after chosen stopped lost (shown ++ collected) s ∧ collected.map line = results
        | .error _ => Gathered listed after chosen stopped lost shown s) := by
  induction results generalizing shown with
  | nil => exact .pure fun s hs => ⟨by simpa using hs, rfl⟩
  | cons result rest ih =>
    refine .bind (triple_showResult result.result) fun r => ?_
    split
    · exact .pure fun s hs => hs.1
    · next payload =>
      let c : Collected := ⟨result.result, result.submitted, payload⟩
      refine .bind ((ih (shown ++ [c])).pre fun s hs => ⟨hs.1.sofar, hs.1.still, hs.1.after, ?_⟩) fun r => ?_
      · exact forall_mem_append.2 ⟨hs.1.told, forall_mem_singleton.2 hs.2⟩
      · cases r with
        | error e =>
          refine .pure fun s hs => ⟨hs.sofar, hs.still, hs.after, fun c hc => ?_⟩
          exact hs.told c (mem_append_left _ hc)
        | ok collected =>
          refine .pure fun s hs => ⟨by simpa using hs.1, ?_⟩
          rw [map_cons, hs.2]
          rfl

/-- The results of a run: listed after it, not before it, and shown. -/
def Gathers (listed : List ListedResult) (chosen : Option (Build F)) (stopped lost : Bool) (collected : List Collected)
    (s : World F) : Prop :=
  ∃ after, Gathered listed after chosen stopped lost collected s ∧
    collected.map line = after.filter fun l => l.result ∉ listed.map (·.result)

theorem triple_collectPayloads : Owning published t (fun s => Sofar (some listed) chosen stopped s ∧ Still lost s)
      (collectPayloads (listed.map (·.result)))
      (fun r s => (Sofar (some listed) chosen stopped s ∧ Still lost s) ∧
        ∀ collected, r = .ok collected → Gathers listed chosen stopped lost collected s) := by
  have hlist : Owning published t (fun s => Sofar (some listed) chosen stopped s ∧ Still lost s)
      (call (.listResults true)) (fun r s => (Sofar (some listed) chosen stopped s ∧ Still lost s) ∧
        ∀ after, r = .ok after → listing true s.log = some after) := by
    refine .call_of (fun _ s hs => hs.1.1.owned) fun s r s' hs hstep => ?_
    obtain ⟨hstill, stop, hlog⟩ := hs.2.step hstep nofun nofun
    refine ⟨⟨hs.1.step hstep rfl, hstill⟩, ?_⟩
    rintro after rfl
    rw [hlog]
    rfl
  refine .bind hlist fun r => ?_
  split
  · exact .pure fun s hs => ⟨hs.1, nofun⟩
  · next after =>
    refine ((triple_showResults [] _).pre fun s hs => ⟨hs.1.1, hs.1.2, hs.2 after rfl, nofun⟩).post fun r s hs => ?_
    cases r with
    | error e => exact ⟨⟨hs.sofar, hs.still⟩, nofun⟩
    | ok collected =>
      refine ⟨⟨hs.1.sofar, hs.1.still⟩, ?_⟩
      rintro _ ⟨⟩
      exact ⟨after, hs⟩

/-! ## Posting -/

/-- The operations that send and clear away results. -/
def Op.settles : Op F → Bool
  | .submit _ | .deleteResult _ | .reclaim _ | .sleep => true
  | _ => false

theorem settles_stages (ho : o.settles) : o.stage ≠ .lease ∧ o.stage ≠ .begins ∧ o.stage ≠ .lists ∧ o.stage ≠ .chooses ∧
    o.stage ≠ .launches ∧ o.stage ≠ .drops ∧ ∀ lost stop, (⟨o, r, lost, stop⟩ : Event F).raised = false ∧
      (⟨o, r, lost, stop⟩ : Event F).listing true = none := by
  cases o <;> first | cases ho; done | exact ⟨nofun, nofun, nofun, nofun, nofun, nofun, fun _ _ => ⟨rfl, rfl⟩⟩

section Posting

variable (hI : ∀ s, I s → Owned s) (hsubmit : ∀ s r s', I s → (machine published).step t (.submit body) s r s' → I s')
  (hreclaim : ∀ s r s', I s → (machine published).step t (.reclaim jobId) s r s' → I s')

include hI hsubmit hreclaim

/-- What posting a body keeps, with what the server is known to have been sent after it. -/
theorem triple_trySubmit : Owning published t I (trySubmit jobId body) fun d s =>
      I s ∧ (∃ r, Told s.log (.submit body) r) ∧ ∀ id, d = .accepted id → Told s.log (.submit body) (.ok id) := by
  refine .bind (Q := fun r s => I s ∧ Told s.log (.submit body) r)
    (.call_of (fun _ s hs => hI s hs.1) fun s r s' hs hstep => ⟨hsubmit s r s' hs hstep, ?_⟩) fun r => ?_
  · obtain ⟨lost, stop, hlog⟩ := step_log hstep
    exact ⟨lost, stop, by rw [hlog]; exact .head _⟩
  · split
    · next disposition hdisposition =>
      refine .pure fun s hs => ⟨hs.1, ⟨r, hs.2⟩, ?_⟩
      rintro id rfl
      rw [← submitDisposition_accepted hdisposition]
      exact hs.2
    · refine .bind (Q := fun _ s => I s ∧ Told s.log (.submit body) r)
        (.call_of (fun _ s hs => hI s hs.1) fun s r s' hs hstep => ⟨hreclaim s r s' hs.1 hstep, ?_⟩) fun answer => ?_
      · obtain ⟨lost, stop, hlog⟩ := step_log hstep
        rw [hlog]
        exact hs.2.cons _
      · exact .pure fun s hs => ⟨hs.1, ⟨r, hs.2⟩, fun id h => absurd h (afterReclaim_ne_accepted _ id)⟩

theorem triple_submitWithBackoff (hsleep : ∀ s r s', I s → (machine published).step t .sleep s r s' → I s') (left : Nat) :
    Owning published t I (submitWithBackoff jobId body left) fun r s =>
      I s ∧ (0 < left → ∃ r, Told s.log (.submit body) r) ∧ ∀ id, r = .ok (some id) → Told s.log (.submit body) (.ok id) := by
  induction left with
  | zero => exact .pure fun s hs => ⟨hs, fun h => absurd h (lt_irrefl 0), nofun⟩
  | succ left ih =>
    refine .bind (triple_trySubmit hI hsubmit hreclaim) fun d => ?_
    split
    · next id =>
      refine .pure fun s hs => ⟨hs.1, fun _ => hs.2.1, ?_⟩
      rintro _ ⟨⟩
      exact hs.2.2 id rfl
    · exact .pure fun s hs => ⟨hs.1, fun _ => hs.2.1, nofun⟩
    · exact .pure fun s hs => ⟨hs.1, fun _ => hs.2.1, nofun⟩
    · split
      · exact .pure fun s hs => ⟨hs.1, fun _ => hs.2.1, nofun⟩
      · next hleft =>
        refine .bind (.call_of (fun _ s hs => hI s hs) fun s r s' hs hstep => hsleep s r s' hs.1 hstep) fun _ => ?_
        exact ih.post fun r s hs => ⟨hs.1, fun _ => hs.2.1 (Nat.pos_of_ne_zero hleft), hs.2.2⟩

end Posting

/-! ## Settling what a run left -/

/-- Results of the run are posted and deleted; no failure was. -/
structure Settling (listed after : List ListedResult) (chosen : Option (Build F)) (stopped lost : Bool) (collected : List Collected)
    (s : World F) : Prop where
  laws : Laws s.log
  successes : ∀ e ∈ s.log, e.postsFailure = false
  listed : listing false s.log = some listed
  after : listing true s.log = some after
  chose : chosenBuild s.log = chosen
  ended : endedByStop s.log = stopped
  seen : lostUnseen s.log = false
  still : Still lost s
  told : ∀ c ∈ collected, Told s.log (.showResult c.result) (.ok c.payload)

theorem Gathered.settling (h : Gathered listed after chosen stopped lost collected s) :
    Settling listed after chosen stopped lost collected s :=
  ⟨h.sofar.mute.laws, fun e he => not_failure (h.sofar.mute e he), h.sofar.listed, h.after, h.sofar.chose, h.sofar.ended,
    h.sofar.seen, h.still, h.told⟩

section

variable (h : Settling listed after chosen stopped lost collected s)

include h

theorem Settling.ownOnly : OwnOnly s.log :=
  ⟨h.laws, .inr h.successes⟩

theorem Settling.owned : Owned s := fun _ => h.ownOnly

theorem Settling.step
    (hstep : (machine published).step t o s r s') (ho : o.settles)
    (hlaw : ∀ stop, Lawful ⟨o, r, lost, stop⟩ s.log ∧ (⟨o, r, lost, stop⟩ : Event F).postsFailure = false) :
    Settling listed after chosen stopped lost collected s' := by
  obtain ⟨hlease, hbegins, hlists, hchooses, hlaunches, hdrops, hevent⟩ := settles_stages ho
  obtain ⟨hstill, stop, hlog⟩ := h.still.step hstep hlease hbegins
  refine ⟨?_, ?_, ?_, ?_, ?_, ?_, ?_, hstill, ?_⟩ <;> rw [hlog]
  · exact h.laws.cons (hlaw stop).1
  · exact forall_mem_cons.2 ⟨(hlaw stop).2, h.successes⟩
  · rw [listing_cons (listing_before hlists)]
    exact h.listed
  · rw [listing_cons (hevent lost stop).2]
    exact h.after
  · rw [chosenBuild_cons hchooses]
    exact h.chose
  · rw [endedByStop_cons hlaunches (.inl (hevent lost stop).1)]
    exact h.ended
  · rw [lostUnseen_cons (not_drops hdrops)]
    exact h.seen
  · exact fun c hc => (h.told c hc).cons _

end

section Settle

variable {c : Collected}

/-- What was collected was listed after the run and not before it. -/
def Fresh (listed after : List ListedResult) (collected : List Collected) : Prop :=
  collected.map line = after.filter fun l => l.result ∉ listed.map (·.result)

variable (h : Fresh listed after collected)

include h

theorem Fresh.mem (hc : c ∈ collected) : c.line ∈ after ∧ c.result ∉ listed.map (·.result) := by
  have hmem : c.line ∈ after.filter fun l => l.result ∉ listed.map (·.result) := h ▸ mem_map_of_mem hc
  simpa [line] using hmem

/-- Every result of the run the app did not upload is among those collected. -/
theorem Fresh.toSend (hs : Settling listed after chosen stopped lost collected s) {result : ResultRef} (hsend : ToSend s.log result) :
    ∃ c ∈ collected, c.result = result ∧ c.submitted = false := by
  obtain ⟨⟨before, hbefore, hnew⟩, after', hafter, hmem⟩ := hsend
  rw [hs.listed] at hbefore
  rw [hs.after] at hafter
  cases hbefore
  cases hafter
  have hline : (⟨result, false⟩ : ListedResult) ∈ collected.map line := by
    rw [h]
    simpa using ⟨hmem, by simpa using hnew⟩
  obtain ⟨c, hc, heq⟩ := mem_map.1 hline
  exact ⟨c, hc, congrArg ListedResult.result heq, congrArg ListedResult.submitted heq⟩

variable {s : World F}

theorem lawful_delete {r : Ans (F := F) (.deleteResult c.result)}
    (hs : Settling listed after chosen stopped lost collected s) (hc : c ∈ collected)
    (hup : c.submitted ∨ ∃ jobId payload output id, Told s.log (.submit (.success jobId c.result payload output)) (.ok id)) :
    Lawful ⟨.deleteResult c.result, r, lost, stop⟩ s.log := by
  obtain ⟨hafter, hbefore⟩ := h.mem hc
  refine ⟨?_, ?_, nofun, nofun, nofun⟩
  · rintro _ ⟨⟩
    exact ⟨listed, hs.listed, hbefore⟩
  · rintro _ ⟨⟩
    rcases hup with hup | hup
    · refine .inl ⟨after, hs.after, ?_⟩
      rwa [line, hup] at hafter
    · exact .inr hup

theorem triple_delete (hc : c ∈ collected) : Owning published t
      (fun s => Settling listed after chosen stopped lost collected s ∧
        (c.submitted ∨ ∃ jobId payload output id, Told s.log (.submit (.success jobId c.result payload output)) (.ok id)))
      (call (.deleteResult c.result)) (fun _ => Settling listed after chosen stopped lost collected) := by
  refine .call_of (fun _ s hs => hs.owned) fun s r s' hs hstep => ?_
  exact hs.1.step hstep rfl fun stop => ⟨lawful_delete h hs.1 hc hs.2, rfl⟩

theorem triple_deleteUploaded (hcs : ∀ c ∈ cs, c ∈ collected) :
    Owning published t (Settling listed after chosen stopped lost collected) (deleteUploaded cs)
      (fun _ => Settling listed after chosen stopped lost collected) := by
  induction cs with
  | nil => exact .pure fun s hs => hs
  | cons c cs ih =>
    have hrest := ih fun c hc => hcs c (.tail _ hc)
    unfold deleteUploaded
    split
    · next hup =>
      exact .bind ((triple_delete h (hcs c (.head _))).pre (fun s hs => ⟨hs, .inl hup⟩)) fun _ => hrest
    · exact hrest

variable (hversion : otherVersion chosen collected = none)

include hversion

theorem lawful_success {output : RuntimeOutput} {r : Ans (F := F) (.submit (.success jobId c.result c.payload output))}
    (hs : Settling listed after chosen false false collected s) (hc : c ∈ collected) (hsend : c.submitted = false) :
    Lawful ⟨.submit (.success jobId c.result c.payload output), r, false, stop⟩ s.log := by
  have hnames : ∀ build, chosen = some build → ∀ c ∈ collected, c.submitted = false →
      c.payload.clientVersion = some build.version.text := by
    rintro build rfl c hc hsend
    simp only [otherVersion, Option.bind_some, find?_eq_none, mem_map, mem_filter] at hversion
    simpa using hversion _ ⟨c, ⟨hc, by simp [hsend]⟩, rfl⟩
  refine ⟨?_, by rintro _ ⟨⟩, fun _ => ⟨rfl, hs.ended⟩, ?_, ?_⟩
  · rintro _ ⟨⟩
    exact ⟨listed, hs.listed, (h.mem hc).2⟩
  · rintro _ _ _ _ ⟨⟩
    exact hs.told c hc
  · rintro _ _ _ _ build ⟨⟩ hchosen
    rw [hs.chose] at hchosen
    refine ⟨hnames build hchosen c hc hsend, fun result hresult => ?_⟩
    obtain ⟨c', hc', rfl, hsend'⟩ := h.toSend hs hresult
    exact ⟨c'.payload, hs.told c' hc', hnames build hchosen c' hc' hsend'⟩

theorem triple_submitSuccess (hc : c ∈ collected) (hsend : c.submitted = false) :
    Owning published t (Settling listed after chosen false false collected) (submitSuccess job c.result c.payload output)
      (fun r s => Settling listed after chosen false false collected s ∧
        ∀ id, r = .ok (some id) → Told s.log (.submit (.success job.jobId c.result c.payload output)) (.ok id)) := by
  unfold submitSuccess
  split
  · refine (triple_submitWithBackoff (fun s hs => hs.owned) (fun s r s' hs hstep => ?_) (fun s r s' hs hstep => ?_)
      (fun s r s' hs hstep => ?_) _).post fun _ _ hs => ⟨hs.1, hs.2.2⟩
    · exact hs.step hstep rfl fun stop => ⟨lawful_success h hversion hs hc hsend, rfl⟩
    · exact hs.step hstep rfl fun stop => ⟨.of_stage (e := ⟨.reclaim job.jobId, r, false, stop⟩) nofun _, rfl⟩
    · exact hs.step hstep rfl fun stop => ⟨.of_stage (e := ⟨.sleep, r, false, stop⟩) nofun _, rfl⟩
  · exact .pure fun s hs => ⟨hs, nofun⟩

theorem triple_settleCollected (hc : c ∈ collected) :
    Owning published t (Settling listed after chosen false false collected) (settleCollected job output c)
      (fun _ => Settling listed after chosen false false collected) := by
  unfold settleCollected
  split
  · next hup =>
    refine .bind ((triple_delete h hc).pre (fun s hs => ⟨hs, .inl hup⟩)) fun _ => ?_
    exact .pure fun s hs => hs
  · next hup =>
    refine .bind (triple_submitSuccess job output h hversion hc (Bool.eq_false_iff.2 hup)) fun r => ?_
    split
    · next id =>
      refine .bind ((triple_delete h hc).pre (fun s hs => ⟨hs.1, .inr ⟨_, _, _, id, hs.2 id rfl⟩⟩)) fun _ => ?_
      exact .pure fun s hs => hs
    · exact .pure fun s hs => hs.1
    · exact .pure fun s hs => hs.1

theorem triple_settleAll (hcs : ∀ c ∈ cs, c ∈ collected) :
    Owning published t (Settling listed after chosen false false collected) (settleAll job output cs)
      (fun _ => Settling listed after chosen false false collected) := by
  induction cs with
  | nil => exact .pure fun s hs => hs
  | cons c cs ih =>
    refine .bind (triple_settleCollected job output h hversion (hcs c (.head _))) fun _ => ?_
    refine .bind (ih fun c hc => hcs c (.tail _ hc)) fun _ => ?_
    exact .pure fun s hs => hs

end Settle

/-! ## After the launch -/

/-- A lost lease: only what the app uploaded is touched. -/
theorem triple_settleUploaded :
    Owning published t (fun s => Sofar (some listed) chosen stopped s ∧ Still lost s) (settleUploaded (listed.map (·.result)))
      fun _ s => OwnOnly s.log ∧ lostUnseen s.log = false := by
  refine .bind triple_collectPayloads fun r => ?_
  split
  · next collected =>
    refine pre (.of_exists fun after => .of_imp fun hfresh => ?_) fun s hs => hs.2 collected rfl
    exact ((triple_deleteUploaded hfresh fun _ hc => hc).pre fun s hs => hs.settling).post fun _ s hs => ⟨hs.ownOnly, hs.seen⟩
  · exact .pure fun s hs => ⟨hs.1.1.mute.ownOnly, hs.1.1.seen⟩

theorem triple_submitResults (run : ConsoleRun) (elapsed : Nat) :
    Owning published t (fun s => Sofar (some listed) chosen false s ∧ Still false s)
      (submitResults job (listed.map (·.result)) chosen run elapsed) Closed := by
  refine .bind triple_collectPayloads fun r => ?_
  split
  · exact .pure fun s hs => hs.1.1.closed_error hs.1.2 _
  · next collected =>
    split
    · exact .pure fun s hs => hs.1.1.closed_error hs.1.2 _
    split
    · exact .pure fun s hs => hs.1.1.closed_error hs.1.2 _
    · next hversion =>
      refine pre (.of_exists fun after => .of_imp fun hfresh => ?_) fun s hs => hs.2 collected rfl
      refine .bind ((triple_settleAll job _ hfresh hversion fun _ hc => hc).pre fun s hs => hs.settling) fun refused => ?_
      exact .pure fun s hs => ⟨hs.ownOnly, hs.seen⟩

theorem triple_concludeRun (outcome : Except AnyError ConsoleRun) (elapsed : Nat) (pinned : Except AnyError Unit) :
    Owning published t (fun s => Sofar (some listed) chosen (stoppedOf outcome) s ∧ Still false s)
      (concludeRun cfg job (listed.map (·.result)) chosen outcome elapsed pinned) Closed := by
  unfold concludeRun
  split
  · exact .pure fun s hs => hs.1.closed_error hs.2 _
  · next run =>
    split
    · exact .pure fun s hs => hs.1.closed_ok _
    · next hstopped =>
      rw [show stoppedOf (.ok run) = false from Bool.eq_false_iff.2 hstopped]
      split
      · exact .pure fun s hs => hs.1.closed_error hs.2 _
      split
      · exact .pure fun s hs => hs.1.closed_error hs.2 _
      · split
        · exact .pure fun s hs => hs.1.closed_error hs.2 _
        · exact triple_submitResults job run elapsed

/-- The heartbeat has ended, whatever it found. -/
def Quiet (before : Option (List ListedResult)) (chosen : Option (Build F)) (stopped : Bool) (s : World F) : Prop :=
  Sofar before chosen stopped s ∧ s.beating = false

theorem triple_joinHeartbeat :
    Owning published t (Sofar before chosen stopped) (call .joinHeartbeat) (fun _ => Quiet before chosen stopped) := by
  refine .call_of (fun _ s hs => hs.1.owned) fun s r s' hs hstep => ⟨hs.step hstep rfl, ?_⟩
  obtain ⟨lost, stop, -, -, -, -, rfl⟩ := step_cases hstep
  rfl

theorem quiet_triple (hp : Does [.asks] p) :
    Owning published t (Quiet before chosen stopped) p fun _ => Quiet before chosen stopped := by
  have h : ∀ lost, Owning published t (fun s => Sofar before chosen stopped s ∧ Still lost s) p fun _ => Quiet before chosen stopped :=
    fun lost => (still_triple (hp.mono rfl)).post fun _ s hs => ⟨hs.1, hs.2.still⟩
  exact (of_exists h).pre fun s hs => ⟨s.lost, hs.1, hs.2, rfl⟩

/-- After the heartbeat the signals say whether the lease was lost, for good. -/
theorem triple_signals : Owning published t (Quiet before chosen stopped) (call .signals)
      (fun signals s => Sofar before chosen stopped s ∧ Still signals.abort s) := by
  refine .call_of (fun _ s hs => hs.1.owned) fun s r s' hs hstep => ⟨hs.1.step hstep rfl, ?_⟩
  obtain ⟨lost, stop, -, -, -, hsignals, rfl⟩ := step_cases hstep
  exact ⟨hs.2, congrArg Signals.abort hsignals.symm⟩

theorem triple_pinGpu : Owning published t (Sofar before chosen stopped) (pinGpu cfg)
      (fun r s => Sofar before chosen stopped s ∧ ∀ e, r = .error e → s.log.head?.any raised = false) := by
  unfold pinGpu
  split
  · refine (sofar_call rfl).post fun r s hs => ⟨hs.1, fun e _ => ?_⟩
    obtain ⟨lost, stop, hhead⟩ := hs.2
    rw [hhead]
    rfl
  · exact .pure fun s hs => ⟨hs, nofun⟩

theorem triple_runAndSubmit : Owning published t (Sofar (some listed) chosen false)
      (runAndSubmit cfg job plan (listed.map (·.result)) chosen) Closed := by
  refine .bind (triple_pinGpu cfg) fun pin => ?_
  split
  · next e =>
    refine .bind (triple_dropLease.pre (fun s hs => ⟨hs.1, hs.2 e rfl⟩)) fun _ => ?_
    exact .pure fun s hs => hs
  refine .bind ((triple_runBenchmark job plan chosen).pre (fun s hs => hs.1)) fun outcome => ?_
  refine .bind triple_elapsed fun elapsed => .bind triple_joinHeartbeat fun _ => ?_
  refine .bind (quiet_triple (does_releasePin cfg)) fun pinned => .bind triple_signals fun signals => ?_
  split
  · refine .bind triple_settleUploaded fun _ => ?_
    exact .pure fun s hs => hs
  · next habort =>
    rw [Bool.eq_false_iff.2 habort]
    exact triple_concludeRun cfg job outcome elapsed pinned

/-! ## Before the launch -/

/-- The listing before the run; a listing that failed is first in the log. -/
theorem triple_resultsBefore {X : World F → Prop}
    (hX : ∀ s r s', X s → (machine published).step t (.listResults false) s r s' → X s') :
    Owning published t (fun s => Sofar none chosen stopped s ∧ X s) resultsBefore fun r s => match r with
      | .ok before => ∃ listed, (Sofar (some listed) chosen stopped s ∧ X s) ∧ before = listed.map (·.result)
      | .error ended => ((Sofar none chosen stopped s ∧ s.log.head?.any raised = false) ∧ X s) ∧
          ∃ failure, ended = .ofFailure failure := by
  refine .bind (Q := fun r s => (Sofar r.toOption chosen stopped s ∧ s.log.head?.any raised = false) ∧ X s)
    (.call_of (fun _ s hs => hs.1.1.owned) fun s r s' hs hstep => ⟨?_, hX s r s' hs.2 hstep⟩) fun r => ?_
  · obtain ⟨lost, stop, -, -, -, -, rfl⟩ := step_cases hstep
    have h := hs.1
    refine ⟨⟨h.mute.cons nofun, ?_, h.chose, ?_, h.seen, rfl⟩, rfl⟩
    · cases r with
      | ok listed => rfl
      | error e => exact h.listed
    · exact (endedByStop_cons (e := ⟨.listResults false, r, lost, stop⟩) nofun (.inr h.idle)).trans h.ended
  · cases r with
    | ok listed => exact .pure fun s hs => ⟨listed, ⟨hs.1.1, hs.2⟩, rfl⟩
    | error e => exact .pure fun s hs => ⟨hs, _, rfl⟩

theorem triple_startHeartbeat :
    Owning published t (Sofar before chosen stopped) (call .startHeartbeat) fun _ => Sofar before chosen stopped :=
  sofar_triple (.call rfl : Does [.lease] _) rfl

theorem triple_executePoolJob (pool : PoolView F) (job : ClaimedJob F) :
    Owning published t (fun s => Sofar none none false s ∧ Still false s) (executePoolJob cfg pool job) Closed := by
  unfold executePoolJob
  split
  · exact .pure fun s hs => hs.1.closed_error hs.2 _
  refine .bind (still_triple ((does_knownBenchmark job).mono rfl)) fun known => ?_
  split
  · exact .pure fun s hs => hs.1.closed_error hs.2 _
  refine .bind (still_triple ((does_ensureInstalled cfg _ _).mono rfl)) fun installed => ?_
  split
  · exact .pure fun s hs => hs.1.closed_error hs.2 _
  refine .bind (triple_resultsBefore fun s r s' hs hstep => (hs.step hstep nofun nofun).1) fun r => ?_
  cases r with
  | error ended => exact .pure fun s hs => hs.1.1.1.closed_error hs.1.2 _
  | ok before =>
    refine .of_exists fun listed => .of_imp ?_
    rintro rfl
    exact .bind (triple_startHeartbeat.pre fun s hs => hs.1) fun _ => triple_runAndSubmit cfg job _

/-! ## Version mode -/

theorem Closed.onBuild {ended : JobEnd} (h : Closed (.error ended) s) (build : Build F) :
    Closed (.error (ended.onBuild build)) s := by
  obtain ⟨_ | failure, halt⟩ := ended <;> exact h

theorem triple_runPrepared : Owning published t (Sofar none (some build) false) (runPrepared cfg job plan build) Closed := by
  refine pre (.bind (triple_resultsBefore fun _ _ _ _ _ => trivial) fun r => ?_)
    fun s hs => ⟨hs, trivial⟩
  cases r with
  | error ended =>
    refine .of_imp ?_
    rintro ⟨failure, rfl⟩
    exact .bind (triple_dropLease.pre fun s hs => hs.1) fun _ => .pure fun s hs => hs
  | ok before =>
    refine .of_exists fun listed => .of_imp ?_
    rintro rfl
    refine .bind ((triple_runAndSubmit cfg job plan).pre fun s hs => hs.1) fun ended => ?_
    split
    · exact .pure fun s hs => hs
    · exact .pure fun s hs => hs.onBuild build

/-- What a preparation leaves: the build it chose, or a failure to report. -/
structure Prepared (chosen : Option (Build F)) (prepared : Except JobEnd (Build F)) : Prop where
  build : ∀ build, prepared = .ok build → chosen = some build
  failure : ∀ ended, prepared = .error ended → ∃ failure halt, ended = ⟨.ok failure, halt⟩

theorem triple_afterPrepare {prepared : Except JobEnd (Build F)} (h : Prepared chosen prepared) :
    Owning published t (Sofar none chosen false) (afterPrepare cfg job plan prepared) Closed := by
  refine .bind (sofar_call rfl) fun signals => ?_
  split
  · next hraised =>
    refine .bind (triple_dropLease_raised.pre (fun s hs => ⟨hs.1, ?_⟩)) fun _ => ?_
    · obtain ⟨lost, stop, hhead⟩ := hs.2
      simp [hhead, raised, hraised]
    · refine .bind (sofar_call rfl) fun signals => ?_
      refine .pure fun s hs => ?_
      unfold unreportedEnd
      split
      · exact ⟨hs.1.mute, hs.1.seen⟩
      · exact hs.1.closed_ok _
  · next hraised =>
    split
    · next ended =>
      obtain ⟨failure, halt, rfl⟩ := h.failure ended rfl
      refine .bind (triple_dropLease.pre (fun s hs => ⟨hs.1, ?_⟩)) fun _ => ?_
      · obtain ⟨lost, stop, hhead⟩ := hs.2
        simp [hhead, raised, hraised]
      · exact .pure fun s hs => hs
    · next build =>
      obtain rfl := h.build build rfl
      exact (triple_runPrepared cfg job plan build).pre (fun s hs => hs.1)

theorem triple_chose : Owning published t (Sofar before chosen stopped) (call (.chose catalog job plan build))
      (fun _ => Sofar before (some build) stopped) := by
  refine .call_of (fun _ s hs => hs.owned) fun s r s' hs hstep => ?_
  obtain ⟨lost, stop, -, -, -, -, rfl⟩ := step_cases hstep
  refine ⟨hs.mute.cons nofun, hs.listed, rfl, ?_, hs.seen, rfl⟩
  exact (endedByStop_cons (e := ⟨.chose catalog job plan build, r, lost, stop⟩) nofun (.inr hs.idle)).trans hs.ended

section Catalogs

variable [DecidableEq F.Runtime] [DecidableEq F.RuntimeType]

theorem triple_prepareBuild : Owning published t (Sofar none none false) (prepareBuild cfg catalog job plan)
      fun r s => ∃ chosen, Sofar none chosen false s ∧ Prepared chosen r.1 := by
  refine .bind (sofar_triple (does_lookIfNeeded catalog job plan) rfl) fun around => ?_
  split
  · next failure catalog _ =>
    refine .pure fun s hs => ⟨none, hs, nofun, ?_⟩
    rintro _ ⟨⟩
    exact ⟨failure, none, rfl⟩
  · next choice catalog _ =>
    refine .bind (triple_chose _ _ _ _) fun _ => .bind (sofar_triple (does_makeReady cfg choice.build) rfl) fun ready => ?_
    split
    · refine .pure fun s hs => ⟨some choice.build, hs, ?_, nofun⟩
      rintro _ ⟨⟩
      rfl
    · next failed =>
      refine .pure fun s hs => ⟨some choice.build, hs, nofun, ?_⟩
      rintro _ ⟨⟩
      split <;> exact ⟨_, _, rfl⟩

theorem triple_runVersionJob :
    Owning published t (fun s => Sofar none none false s ∧ Still false s) (runVersionJob cfg catalog job)
      (fun r => Closed r.1) := by
  unfold runVersionJob
  split
  · exact .pure fun s hs => hs.1.closed_error hs.2 _
  refine .bind (still_triple ((does_knownBenchmark job).mono rfl)) fun known => ?_
  split
  · exact .pure fun s hs => hs.1.closed_error hs.2 _
  refine .bind (triple_startHeartbeat.pre fun s hs => hs.1) fun _ => ?_
  refine .bind (triple_prepareBuild cfg catalog job _) fun prepared => .of_exists fun chosen => .of_imp fun hprepared => ?_
  exact .bind (triple_afterPrepare cfg job _ hprepared) fun ended => .pure fun s hs => hs

theorem triple_executeJob (builds : Builds F) :
    Owning published t (fun s => Sofar none none false s ∧ Still false s) (executeJob cfg job builds)
      (fun r => Closed r.1) := by
  cases builds with
  | pool pool =>
    refine .bind (triple_executePoolJob cfg pool job) fun ended => ?_
    exact .pure fun s hs => hs
  | releases releases =>
    refine .bind ?_ fun ended => .pure fun s hs => hs
    exact .bind (triple_runVersionJob cfg releases.catalog job) fun ended => .pure fun s hs => hs

end Catalogs

/-! ## The report -/

/-- Failures are posted, each with the lease as it is; no result was touched. -/
structure Reporting (s : World F) : Prop where
  laws : s.lost = false → Laws s.log
  failures : ∀ e ∈ s.log, e.postsSuccess = false
  posted : ∀ e ∈ s.log, e.posts → e.lost = s.lost
  ended : endedByStop s.log = false
  unseen : lostUnseen s.log = s.lost
  still : s.beating = false

theorem Reporting.owned (h : Reporting s) : Owned s := by
  intro hseen
  rw [h.unseen] at hseen
  exact ⟨h.laws hseen, .inl h.failures⟩

theorem Reportable.reporting (h : Reportable s) : Reporting s := by
  refine ⟨fun _ => h.mute.laws, fun e he => not_success (h.mute e he), fun e he hposts => ?_, h.ended, h.unseen, h.still⟩
  refine absurd ?_ (h.mute e he)
  obtain ⟨op, answer, lost, stop⟩ := e
  cases op with
  | submit body => rfl
  | _ => cases hposts

theorem Reporting.step (h : Reporting s) (hstep : (machine published).step t o s r s')
    (ho : o.settles) (hsuccess : ∀ stop, (⟨o, r, s.lost, stop⟩ : Event F).postsSuccess = false)
    (hlaw : ∀ stop, s.lost = false → Lawful ⟨o, r, s.lost, stop⟩ s.log) : Reporting s' := by
  obtain ⟨hlease, hbegins, -, -, hlaunches, hdrops, hevent⟩ := settles_stages ho
  obtain ⟨hstill, hlost, stop, hlog⟩ := step_still hstep h.still hlease hbegins
  refine ⟨?_, ?_, ?_, ?_, ?_, hstill⟩ <;> rw [hlog]
  · intro hl
    rw [hlost] at hl
    exact (h.laws hl).cons (hlaw stop hl)
  · exact forall_mem_cons.2 ⟨hsuccess stop, h.failures⟩
  · rw [hlost]
    exact forall_mem_cons.2 ⟨fun _ => rfl, h.posted⟩
  · rw [endedByStop_cons hlaunches (.inl (hevent s.lost stop).1)]
    exact h.ended
  · rw [lostUnseen_cons (not_drops hdrops), hlost]
    exact h.unseen

theorem lawful_failure {failure : JobFailure} {r : Ans (F := F) (.submit (.failure jobId failure))}
    (h : Reporting s) (hlost : s.lost = false) :
    Lawful ⟨.submit (.failure jobId failure), r, s.lost, stop⟩ s.log :=
  ⟨nofun, nofun, fun _ => ⟨hlost, h.ended⟩, nofun, nofun⟩

/-- In the end only what the run produced was touched, unless the lease was lost unseen. -/
def Accounted (s : World F) : Prop := lostUnseen s.log = false ↔ OwnOnly s.log

/-- A failure was posted, so a lawful log shows that the lease was held. -/
theorem Reporting.accounted {r : Ans (F := F) (.submit body)} (h : Reporting s)
    (hposted : Told s.log (.submit body) r) : Accounted s := by
  refine ⟨h.owned, fun hown => ?_⟩
  obtain ⟨lost, stop, hmem⟩ := hposted
  obtain ⟨later, earlier, hlog⟩ := append_of_mem hmem
  have hheld := ((hown.lawful later _ earlier hlog).held rfl).1
  rw [h.unseen, ← h.posted _ hmem rfl]
  exact hheld

theorem accounted_reportFailure (failure : JobFailure) :
    Owning published t Reportable (reportFailure job failure) (fun _ => Accounted) := by
  have hpost : Owning published t Reportable
      (submitWithBackoff job.jobId (.failure job.jobId failure) submitMaxAttempts) (fun _ => Accounted (F := F)) := by
    refine ((triple_submitWithBackoff (fun s hs => hs.owned) (fun s r s' hs hstep => ?_)
      (fun s r s' hs hstep => ?_) (fun s r s' hs hstep => ?_) submitMaxAttempts).pre fun s hs => hs.reporting).post fun r s hs => ?_
    · exact hs.step hstep rfl (fun stop => rfl) fun stop hlost => lawful_failure hs hlost
    · exact hs.step hstep rfl (fun stop => rfl) fun stop hlost => .of_stage (e := ⟨.reclaim job.jobId, r, s.lost, stop⟩) nofun _
    · exact hs.step hstep rfl (fun stop => rfl) fun stop hlost => .of_stage (e := ⟨.sleep, r, s.lost, stop⟩) nofun _
    · obtain ⟨hreporting, hposted, -⟩ := hs
      obtain ⟨answer, hposted⟩ := hposted (by decide)
      exact hreporting.accounted hposted
  refine .bind hpost fun reported => ?_
  split <;> exact .pure fun s hs => hs

theorem accounted_conclude (ended : JobEnd) :
    Owning published t (Closed (.error ended)) (conclude job ended) (fun _ => Accounted) := by
  have hreport : Owning published t (Closed (.error ended)) (reportEnd job ended.report) (fun _ => Accounted) := by
    obtain ⟨why | failure, halt⟩ := ended
    · exact .pure fun s hs => ⟨fun _ => hs.1.ownOnly, fun _ => hs.2⟩
    · exact accounted_reportFailure job failure
  refine .bind hreport fun reported => ?_
  split <;> exact .pure fun s hs => hs

/-! ## A claim from its start to its end -/

theorem Laws.ownOnly_cons {log : List (Event F)} {e : Event F} (h : OwnOnly log) (he : e.op.stage ≠ .posts) : OwnOnly (e :: log) := by
  refine ⟨Laws.cons h.lawful (.of_stage he log), h.oneKind.imp (fun hs => ?_) fun hs => ?_⟩
  · exact forall_mem_cons.2 ⟨not_success he, hs⟩
  · exact forall_mem_cons.2 ⟨not_failure he, hs⟩

theorem triple_jobStarts :
    Owning published t (fun s => s.log = []) (call (.jobStarts job)) fun _ s => Sofar none none false s ∧ Still false s := by
  refine .call_of (fun _ s hs => hs.1.owned) fun s r s' hs hstep => ?_
  obtain ⟨lost, stop, -, -, -, -, rfl⟩ := step_cases hstep
  refine ⟨⟨?_, ?_, ?_, ?_, ?_, ?_⟩, rfl, rfl⟩ <;> simp only [record, effect, hs]
  · exact Mute.cons (by simp [Mute]) nofun
  all_goals rfl

theorem closed_jobEnds (r : Except JobEnd Outcome) (halts : Bool) :
    Owning published t (Closed r) (call (.jobEnds halts)) (fun _ => Closed (F := F) r) := by
  refine .call_of (fun _ s hs => hs.owned) fun s a s' hs hstep => ?_
  obtain ⟨_ | failure, halt⟩ | outcome := r
  · obtain ⟨lost, stop, hlog⟩ := step_log hstep
    refine ⟨?_, ?_⟩ <;> rw [hlog]
    · exact hs.1.cons nofun
    · exact hs.2
  · obtain ⟨hmute, hended, hunseen, hstill⟩ := hs
    obtain ⟨hstill, hlost, stop, hlog⟩ := step_still hstep hstill nofun nofun
    refine ⟨?_, ?_, ?_, hstill⟩ <;> rw [hlog]
    · exact hmute.cons nofun
    · exact (endedByStop_cons (e := ⟨.jobEnds halts, a, s.lost, stop⟩) nofun (.inl rfl)).trans hended
    · rw [hlost]
      exact hunseen
  · obtain ⟨lost, stop, hlog⟩ := step_log hstep
    refine ⟨?_, ?_⟩ <;> rw [hlog]
    · exact Laws.ownOnly_cons hs.1 nofun
    · exact hs.2

section Claims

variable [DecidableEq F.Runtime] [DecidableEq F.RuntimeType]

theorem accounted_runClaimedJob (builds : Builds F) (job : ClaimedJob F) :
    Owning published t (fun s => s.log = []) (runClaimedJob cfg builds job) (fun _ => Accounted) := by
  refine .bind (triple_jobStarts job) fun _ => .bind (triple_executeJob cfg job builds) fun r => ?_
  obtain ⟨r, builds⟩ := r
  cases r with
  | ok outcome =>
    refine .bind (closed_jobEnds (.ok outcome) false) fun _ => ?_
    exact .pure fun s hs => ⟨fun _ => hs.1, fun _ => hs.2⟩
  | error ended =>
    refine .bind (closed_jobEnds (.error ended) _) fun _ => .bind (accounted_conclude job ended) fun concluded => ?_
    exact .pure fun s hs => hs

/-- For every claim in either mode, whatever is answered and wherever the worker is killed: unless the lease was lost by the
time it was dropped after a failed step, the claim posts and deletes only what its run produced. Where the claim is seen
through, that is also the only exception. -/
theorem ownOnly_runClaimedJob (cfg : Config) (builds : Builds F) (job : ClaimedJob F) {x : Option (Except AnyError Unit × Builds F)}
    {s s' : World F} (hlog : s.log = []) (hrun : Exec (machine published) t (runClaimedJob cfg builds job) s x s') :
    (lostUnseen s'.log = false → OwnOnly s'.log) ∧ (x.isSome → OwnOnly s'.log → lostUnseen s'.log = false) := by
  have howned : Owned s := fun _ => by
    rw [hlog]
    exact ⟨by simp, by simp⟩
  obtain ⟨hkept, hreturned⟩ := accounted_runClaimedJob cfg builds job (fun _ hs => hs) s x s' howned hlog hrun
  cases x with
  | none => exact ⟨hkept, nofun⟩
  | some result => exact ⟨hkept, fun _ => (hreturned result rfl).2⟩

end Claims

/-! ## Two claims -/

def pinnedConfig : Config := ⟨"client", [], true, 0, 0, 0, 0⟩

def oneJob : ClaimedJob numbered := ⟨['j'], ['b'], none, .ok ⟨[], [], 1⟩⟩

/-- A claim with these answers throughout, every heartbeat answered with these. -/
def claimRun (phone : Script numbered) (beats : List Beat) : Option (Except AnyError Unit × Builds numbered) × World numbered :=
  let choice : Choice numbered fun _ => True := ⟨phone.answer, beats, false, trivial⟩
  (runClaimedJob pinnedConfig (.single numbered "X.app") oneJob).play (machine fun _ => True) act 0
    (replicate 40 choice) .fresh

/-- The run leaves two results; the app uploaded the second. -/
def twoResults : Script numbered :=
  { Script.smooth "client" oneJob with results := [⟨⟨['j'], ['1']⟩, false⟩, ⟨⟨['j'], ['2']⟩, true⟩] }

theorem ownOnly_twoResults : lostUnseen (claimRun twoResults []).2.log = false ∧
      (claimRun twoResults []).2.log.filterMap Event.touches = [⟨['j'], ['2']⟩, ⟨['j'], ['1']⟩, ⟨['j'], ['1']⟩] ∧
      OwnOnly (claimRun twoResults []).2.log :=
  ⟨by decide, by decide +kernel,
    (ownOnly_runClaimedJob pinnedConfig (.single numbered "X.app") oneJob (s := .fresh) rfl (Prog.exec_play step_of_act _ _ _)).1
      (by decide)⟩

/-- The GPU pin cannot be set. -/
def noPin : Script numbered := { Script.smooth "client" oneJob with pin := .error (.plain []) }

def lostBeat : Beat := ⟨.error (.httpStatus 409), .ok ()⟩

/-- The lease is lost while the GPU pin is set, and the pin fails: the failure is posted all the same. -/
theorem not_ownOnly_lostAtPin :
    ∃ x s', Exec (machine fun _ => True) 0 (runClaimedJob pinnedConfig (.single numbered "X.app") oneJob) .fresh (some x) s' ∧
      (∃ e ∈ s'.log, e.postsFailure ∧ e.lost) ∧ ¬OwnOnly s'.log := by
  have hsome : (claimRun noPin [lostBeat]).1.isSome := by decide
  have hposted : (claimRun noPin [lostBeat]).2.log.any (fun e => e.postsFailure && e.lost) := by decide
  obtain ⟨x, hx⟩ := Option.isSome_iff_exists.1 hsome
  obtain ⟨e, he, hpost⟩ := any_eq_true.1 hposted
  rw [Bool.and_eq_true] at hpost
  refine ⟨x, _, hx ▸ Prog.exec_play step_of_act _ _ _, ⟨e, he, hpost⟩, fun hown => ?_⟩
  obtain ⟨later, earlier, hlog⟩ := append_of_mem he
  have hheld := ((hown.lawful later e earlier hlog).held (posts_of_failure hpost.1)).1
  rw [hpost.2] at hheld
  cases hheld

end Pipette.Proxy
