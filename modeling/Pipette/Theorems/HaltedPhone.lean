import Pipette.Lemmas.WorkerSteps

/-!
# A halted or spent phone claims no more

Once a job ends with a halt, the device polls for no further claim, whatever becomes of the report; and with a positive
`max_jobs` it claims at most so many jobs over all its restarts.
-/

namespace Pipette.Proxy

open Threads List Event AnyError

variable {F : Formats}

/-- A job ended with a halt. -/
def Event.halts : Event F → Bool
  | ⟨.jobEnds halts, _, _, _⟩ => halts
  | _ => false

/-- A poll for a claim. -/
def Event.polls : Event F → Bool
  | ⟨.claim, _, _, _⟩ => true
  | _ => false

/-- A poll that was answered with a job. -/
def Event.claims : Event F → Bool
  | ⟨.claim, .ok (some _), _, _⟩ => true
  | _ => false

/-- No poll comes after a halt, and the budget of jobs is kept. -/
structure Retires (maxJobs : Nat) (log : List (Event F)) : Prop where
  halted : ∀ later e earlier, log = later ++ e :: earlier → e.halts → ∀ e' ∈ later, ¬e'.polls
  budget : 0 < maxJobs → log.countP claims ≤ maxJobs

/-! ## What a halt is -/

/-- A halt is an error that the claim loop knows as one. -/
def JobEnd.Sound (ended : JobEnd) : Prop := ∀ e, ended.halt = some e → e.haltsPhone

theorem JobEnd.sound_ofFailure (failure : JobFailure) : (JobEnd.ofFailure failure).Sound := nofun

theorem haltsPhone_operatorNeeded (e : AnyError) : e.operatorNeeded.haltsPhone := by
  simp [haltsPhone, needsOperator, operatorNeeded]

theorem sound_installFailed (e : AnyError) : (installFailed e).Sound := by
  intro halt h
  simp only [installFailed] at h
  split at h
  · next hreplaced =>
    cases h
    simp [haltsPhone, hreplaced]
  · cases h

/-- Every end of a job is sound. -/
def SoundEnd {α : Type} (r : Except JobEnd α) : Prop := ∀ ended, r = .error ended → ended.Sound

variable {α : Type} {ended : JobEnd} {prepared : Except JobEnd (Build F)} {log : List (Event F)} {e : Event F} {p : Act F α}
  {d : Device F}

theorem soundEnd_ok (a : α) : SoundEnd (.ok a : Except JobEnd α) := nofun

theorem soundEnd_error (h : ended.Sound) : SoundEnd (.error ended : Except JobEnd α) := by
  rintro _ ⟨⟩
  exact h

theorem soundEnd_ofFailure (failure : JobFailure) : SoundEnd (.error (.ofFailure failure) : Except JobEnd α) :=
  soundEnd_error (JobEnd.sound_ofFailure failure)

variable (rounds : Nat) (cfg : Config) (job : ClaimedJob F) (plan : LaunchPlan F) (before : List ResultRef)

variable (build : Option (Build F))

theorem returns_submitResults (run : ConsoleRun) (elapsed : Nat) :
    (submitResults job before build run elapsed).Returns SoundEnd := by
  refine .after fun collected => ?_
  split
  · exact soundEnd_ofFailure _
  split
  · exact soundEnd_ofFailure _
  · split
    · exact soundEnd_ofFailure _
    · exact .after fun _ => soundEnd_ok _

theorem returns_concludeRun (outcome : Except AnyError ConsoleRun) (elapsed : Nat) (pinned : Except AnyError Unit) :
    (concludeRun cfg job before build outcome elapsed pinned).Returns SoundEnd := by
  unfold concludeRun
  split
  · exact soundEnd_ofFailure _
  split
  · exact soundEnd_ok _
  split
  · exact soundEnd_ofFailure _
  split
  · exact soundEnd_ofFailure _
  · split
    · exact soundEnd_ofFailure _
    · exact returns_submitResults _ _ _ _ _

theorem returns_runAndSubmit : (runAndSubmit cfg job plan before build).Returns SoundEnd := by
  refine .after fun pin => ?_
  split
  · exact .after fun _ => soundEnd_ofFailure _
  refine .after fun outcome => .after fun elapsed => .after fun _ => ?_
  refine .after fun pinned => .after fun signals => ?_
  split
  · exact .after fun _ => soundEnd_ok _
  · exact returns_concludeRun _ _ _ _ _ _ _

theorem returns_knownBenchmark : (knownBenchmark job).Returns SoundEnd := by
  refine .after fun found => ?_
  split
  · exact soundEnd_ok _
  · split
    · exact soundEnd_ofFailure _
    · exact soundEnd_ok _

theorem returns_resultsBefore : (resultsBefore (F := F)).Returns SoundEnd := by
  refine .after fun listed => ?_
  split
  · exact soundEnd_ok _
  · exact soundEnd_ofFailure _

theorem returns_executePoolJob (pool : PoolView F) : (executePoolJob cfg pool job).Returns SoundEnd := by
  unfold executePoolJob
  split
  · exact soundEnd_ofFailure _
  refine .bind (returns_knownBenchmark job) fun known hknown => ?_
  split
  · exact soundEnd_error (hknown _ rfl)
  refine .after fun installed => ?_
  split
  · exact soundEnd_error (sound_installFailed _)
  refine .bind returns_resultsBefore fun before hbefore => ?_
  split
  · exact soundEnd_error (hbefore _ rfl)
  · exact .after fun _ => returns_runAndSubmit _ _ _ _ _

theorem JobEnd.Sound.onBuild (h : ended.Sound) (build : Build F) : (ended.onBuild build).Sound := h

theorem returns_runPrepared (build : Build F) : (runPrepared cfg job plan build).Returns SoundEnd := by
  refine .bind returns_resultsBefore fun before hbefore => ?_
  split
  · exact .after fun _ => soundEnd_error ((hbefore _ rfl).onBuild build)
  refine .bind (returns_runAndSubmit _ _ _ _ _) fun ended hended => ?_
  split
  · exact soundEnd_ok _
  · exact soundEnd_error ((hended _ rfl).onBuild build)

theorem soundEnd_unreportedEnd {signals : Signals} (h : SoundEnd prepared) : SoundEnd (unreportedEnd signals prepared) := by
  unfold unreportedEnd
  split
  · next report halt =>
    refine soundEnd_error fun e he => ?_
    cases he
    exact h ⟨report, some halt⟩ rfl halt rfl
  · exact soundEnd_ok _

theorem returns_afterPrepare (h : SoundEnd prepared) : (afterPrepare cfg job plan prepared).Returns SoundEnd := by
  refine .after fun signals => ?_
  split
  · exact .after fun _ => .after fun _ => soundEnd_unreportedEnd h
  · split
    · exact .after fun _ => soundEnd_error (h _ rfl)
    · exact returns_runPrepared _ _ _ _

section Catalogs

variable [DecidableEq F.Runtime] [DecidableEq F.RuntimeType]

omit [DecidableEq F.RuntimeType] in
theorem offeredHalt_haltsPhone {catalog : Catalog F} {e : AnyError} (h : offeredHalt catalog = some e) : e.haltsPhone := by
  unfold offeredHalt at h
  split at h
  · cases h
  · cases h
    exact haltsPhone_operatorNeeded _

variable (catalog : Catalog F)

omit [DecidableEq F.RuntimeType] in
theorem sound_prepareFailed (build : Build F) (failed : Failed) :
    (prepareFailed catalog build failed).1.Sound := by
  unfold prepareFailed
  split
  · rintro _ ⟨⟩
    exact haltsPhone_operatorNeeded _
  · exact fun e he => offeredHalt_haltsPhone he
  · nofun

theorem returns_prepareBuild : (prepareBuild cfg catalog job plan).Returns fun r => SoundEnd r.1 := by
  refine .after fun around => ?_
  split
  · exact soundEnd_ofFailure _
  refine .after fun _ => .after fun ready => ?_
  split
  · exact soundEnd_ok _
  · exact soundEnd_error (sound_prepareFailed _ _ _)

theorem returns_runVersionJob : (runVersionJob cfg catalog job).Returns fun r => SoundEnd r.1 := by
  unfold runVersionJob
  split
  · exact soundEnd_ofFailure _
  refine .bind (returns_knownBenchmark job) fun known hknown => ?_
  split
  · exact soundEnd_error (hknown _ rfl)
  · refine .after fun _ => .bind (returns_prepareBuild _ _ _ _) fun prepared hprepared => ?_
    exact .bind (returns_afterPrepare _ _ _ hprepared) fun _ hended => hended

theorem returns_executeJob (builds : Builds F) : (executeJob cfg job builds).Returns fun r => SoundEnd r.1 := by
  unfold executeJob
  split
  · exact .bind (returns_executePoolJob _ _ _) fun _ hended => hended
  · next releases =>
    have hversion : (executeVersionJob cfg releases job).Returns fun r => SoundEnd r.1 :=
      .bind (returns_runVersionJob _ _ _) fun _ hended => hended
    exact .bind hversion fun _ hended => hended

end Catalogs

/-! ## What the log keeps -/

variable {published : Surroundings → Prop} {t : Tid} {maxJobs n : Nat} {s s' : World F}

theorem claims_of_not_polls (he : ¬e.polls) : e.claims = false := by
  by_contra hn
  exact he (by unfold claims at hn; split at hn <;> simp_all [polls])

theorem Retires.cons (h : Retires maxJobs log) (he : ¬e.polls) : Retires maxJobs (e :: log) := by
  refine ⟨?_, fun hmax => ?_⟩
  · intro later e' earlier hlog hhalts
    cases later with
    | nil => simp
    | cons x later =>
      cases hlog
      exact forall_mem_cons.2 ⟨he, h.halted later e' earlier rfl hhalts⟩
  · rw [countP_cons, claims_of_not_polls he]
    exact h.budget hmax

/-- A poll keeps what is asked for where no job has halted and the budget is not spent. -/
theorem Retires.poll (h : Retires maxJobs log) (hhalts : ∀ e ∈ log, ¬e.halts)
    (hbudget : 0 < maxJobs → log.countP claims < maxJobs) : Retires maxJobs (e :: log) := by
  refine ⟨?_, fun hmax => ?_⟩
  · intro later e' earlier hlog he'
    cases later with
    | nil => simp
    | cons x later =>
      cases hlog
      exact absurd he' (hhalts e' (by simp))
  · have := hbudget hmax
    rw [countP_cons]
    split <;> omega

theorem not_polls_of_stage (h : e.op.stage ≠ .claims) : ¬e.polls := by
  obtain ⟨op, _⟩ := e
  cases op <;> simp_all [polls, Op.stage]

theorem not_halts_of_stage (h : e.op.stage ≠ .ends) : ¬e.halts := by
  obtain ⟨op, _⟩ := e
  cases op <;> simp_all [halts, Op.stage]

/-- What holds wherever the worker is killed. -/
def Kept (maxJobs : Nat) (s : World F) : Prop := Retires maxJobs s.log

/-- So many jobs were claimed, and under the condition none has halted. -/
structure Claimed (n : Nat) (fresh : Prop) (s : World F) : Prop where
  count : s.log.countP claims = n
  fresh : fresh → ∀ e ∈ s.log, ¬e.halts

variable {q : Prop}

/-- What is not a poll keeps the count; it keeps the log free of halts unless it is the halt. -/
theorem Claimed.cons {q' : Prop} {s' : World F} (hk : Kept maxJobs s) (h : Claimed n q s) (hlog : s'.log = e :: s.log)
    (hpolls : ¬e.polls) (hhalts : q' → q ∧ ¬e.halts) : Kept maxJobs s' ∧ Claimed n q' s' := by
  unfold Kept
  refine ⟨?_, ?_, fun hq => ?_⟩ <;> rw [hlog]
  · exact hk.cons hpolls
  · rw [countP_cons, claims_of_not_polls hpolls]
    exact h.count
  · exact forall_mem_cons.2 ⟨(hhalts hq).2, h.fresh (hhalts hq).1⟩

/-- What is neither a poll nor the end of a job changes nothing here. -/
theorem Claimed.step {o : Op F} {r : Ans o} (hk : Kept maxJobs s) (h : Claimed n q s) (hstep : (machine published).step t o s r s')
    (hclaims : o.stage ≠ .claims) (hends : o.stage ≠ .ends) : Kept maxJobs s' ∧ Claimed n q s' := by
  obtain ⟨lost, stop, hlog⟩ := step_log hstep
  exact h.cons hk hlog (not_polls_of_stage hclaims) fun hq => ⟨hq, not_halts_of_stage hends⟩

/-! ## One job -/

/-- A program that neither polls nor ends a job. -/
theorem claimed_triple {stages : List Stage} (hp : Does stages p)
    (hclaims : stages.contains .claims = false) (hends : stages.contains .ends = false) :
    SafeTriple (machine published) t (Kept maxJobs) (Claimed n q) p fun _ => Claimed n q := by
  refine hp.triple fun o s r s' ho hk hs hstep => hs.step hk hstep ?_ ?_
  · intro h
    rw [h, hclaims] at ho
    cases ho
  · intro h
    rw [h, hends] at ho
    cases ho

theorem triple_jobEnds (halts : Bool) :
    SafeTriple (machine published) t (Kept maxJobs) (Claimed n True) (call (.jobEnds halts))
      fun _ => Claimed (F := F) n (halts = false) := by
  refine .call fun s r s' hk hs hstep => ?_
  obtain ⟨lost, stop, hlog⟩ := step_log hstep
  refine hs.cons hk hlog nofun ?_
  rintro rfl
  exact ⟨trivial, by simp [halts]⟩

/-- After a job: unless its error halts the phone, none has halted. -/
theorem triple_conclude (h : ended.Sound) :
    SafeTriple (machine published) t (Kept maxJobs) (Claimed n (ended.halt.isSome = false)) (conclude job ended)
      fun ran => Claimed n (∀ e, ran = .error e → ¬e.haltsPhone) := by
  have hdoes : Does [.asks, .posts] (reportEnd job ended.report) := by
    unfold reportEnd
    split
    · exact does_reportFailure _ _
    · exact .pure _
  refine .bind (claimed_triple hdoes rfl rfl) fun reported => ?_
  split
  · next hhalt => exact .pure fun s hs => ⟨hs.count, fun _ => hs.fresh (by rw [hhalt]; rfl)⟩
  · next halt hhalt => exact .pure fun s hs => ⟨hs.count, fun hran => absurd (h halt hhalt) (hran halt rfl)⟩

/-! ## Where the device may poll -/

variable {cfg : Config}

/-- The device may poll: no job has halted, and the budget is not spent. -/
structure Ready (cfg : Config) (tally : Tally) (s : World F) : Prop where
  claimed : Claimed tally.attempted True s
  budget : 0 < cfg.maxJobs → tally.attempted < cfg.maxJobs

/-- A program of a device that may poll. -/
abbrev Polling (published : Surroundings → Prop) (t : Tid) (cfg : Config) (tally : Tally) {α : Type} (p : Act F α)
    (Q : α → World F → Prop) : Prop :=
  SafeTriple (machine published) t (Kept cfg.maxJobs) (Ready cfg tally) p Q

/-- After a round: a loop that goes on may poll again, and so may one that is started over. -/
structure Rounded (cfg : Config) (r : Round × Device F) (s : World F) : Prop where
  goOn : r.1 = .goOn → Ready cfg r.2.tally s
  restart : ∀ e, r.1 = .leave (.error e) → ¬e.haltsPhone → Ready cfg r.2.tally s

theorem Rounded.of_ready {round : Round} (h : Ready cfg d.tally s) : Rounded cfg (round, d) s := ⟨fun _ => h, fun _ _ _ => h⟩

/-- After a loop: one that is started over may poll again. -/
def Looped (cfg : Config) (r : Ended × Device F) (s : World F) : Prop :=
  ∀ e, r.1 = .returned (.error e) → ¬e.haltsPhone → Ready cfg r.2.tally s

theorem Looped.of_ready {ended : Ended} (h : Ready cfg d.tally s) : Looped cfg (ended, d) s := fun _ _ _ => h

theorem ready_triple {tally : Tally} (hp : Does [.asks, .installs] p) :
    Polling published t cfg tally p fun _ => Ready cfg tally := by
  refine hp.triple fun o s r s' ho hk hs hstep => ?_
  have hne : ∀ stage, [Stage.asks, .installs].contains stage = false → o.stage ≠ stage := by
    rintro stage hstage rfl
    rw [hstage] at ho
    cases ho
  obtain ⟨hk', hclaimed⟩ := hs.claimed.step hk hstep (hne _ rfl) (hne _ rfl)
  exact ⟨hk', hclaimed, hs.budget⟩

/-- After a poll: one job more was claimed if the answer is one. -/
def Polled (cfg : Config) (tally : Tally) : Ans (F := F) .claim → World F → Prop
  | .ok (some _) => Claimed (tally.attempted + 1) True
  | _ => Ready cfg tally

theorem triple_claim (tally : Tally) : Polling published t cfg tally (call (F := F) .claim) (Polled cfg tally) := by
  refine .call fun s r s' hk hs hstep => ?_
  obtain ⟨lost, stop, hlog⟩ := step_log hstep
  have hfresh := hs.claimed.fresh trivial
  have hretires : Kept cfg.maxJobs s' := by
    rw [Kept, hlog]
    exact hk.poll hfresh fun hmax => by rw [hs.claimed.count]; exact hs.budget hmax
  have hfresh' : ∀ e ∈ s'.log, ¬e.halts := by
    rw [hlog]
    exact forall_mem_cons.2 ⟨by simp [halts], hfresh⟩
  have hcount := congrArg (countP claims) hlog
  rw [countP_cons, hs.claimed.count] at hcount
  rcases r with e | _ | job
  · exact ⟨hretires, ⟨hcount, fun _ => hfresh'⟩, hs.budget⟩
  · exact ⟨hretires, ⟨hcount, fun _ => hfresh'⟩, hs.budget⟩
  · exact ⟨hretires, hcount, fun _ => hfresh'⟩

/-! ## The claim loop -/

variable (d) [DecidableEq F.Runtime] [DecidableEq F.RuntimeType]

theorem triple_runClaimedJob (cfg : Config) (builds : Builds F) (job : ClaimedJob F) :
    SafeTriple (machine published) t (Kept maxJobs) (Claimed n True) (runClaimedJob cfg builds job)
      fun r => Claimed n (∀ e, r.1 = .error e → ¬e.haltsPhone) := by
  have hstarts : Does [.begins] (call (.jobStarts job)) := .call rfl
  refine .bind (claimed_triple hstarts rfl rfl) fun _ => ?_
  refine .bind ((claimed_triple (does_executeJob cfg job builds) rfl rfl).returns (returns_executeJob cfg job builds)) fun r => ?_
  obtain ⟨ended, builds⟩ := r
  dsimp only
  split
  · refine .bind ((triple_jobEnds false).pre fun s hs => hs.1) fun _ => ?_
    exact .pure fun s hs => ⟨hs.count, fun _ => hs.fresh rfl⟩
  · next ended =>
    refine SafeTriple.of_imp fun hsound => ?_
    refine .bind (triple_jobEnds ended.halt.isSome) fun _ => ?_
    exact .bind (triple_conclude job (hsound ended rfl)) fun concluded => .pure fun s hs => hs

omit [DecidableEq F.RuntimeType] in
theorem triple_nextClaim :
    SafeTriple (machine published) t (Kept cfg.maxJobs) (Claimed d.tally.attempted True) (afterJob.nextClaim cfg d)
      (Rounded cfg) := by
  unfold afterJob.nextClaim
  split
  · exact .pure fun s hs => ⟨nofun, nofun⟩
  · next hleft =>
    have hbudget : 0 < cfg.maxJobs → d.tally.attempted < cfg.maxJobs := fun hmax => by
      by_contra hn
      exact hleft ⟨hmax, not_lt.1 hn⟩
    refine SafeTriple.pre (A := Ready cfg d.tally) ?_ fun s hs => ⟨hs, hbudget⟩
    refine .bind (ready_triple (.call rfl)) fun signals => ?_
    split
    · exact .bind (ready_triple ((does_pace _).mono rfl)) fun _ => .pure fun _ => .of_ready
    refine .bind (ready_triple ((does_reassertProfile _).mono rfl)) fun reported => ?_
    split
    · exact .pure fun _ => .of_ready
    · exact .bind (ready_triple ((does_pace _).mono rfl)) fun _ => .pure fun _ => .of_ready

omit [DecidableEq F.RuntimeType] in
theorem triple_afterJob (ran : Except AnyError Unit) :
    SafeTriple (machine published) t (Kept cfg.maxJobs) (Claimed d.tally.attempted (∀ e, ran = .error e → ¬e.haltsPhone))
      (afterJob cfg d ran) (Rounded cfg) := by
  unfold afterJob
  split
  · next e =>
    split
    · next hhalts =>
      refine .pure fun s hs => ⟨nofun, ?_⟩
      rintro _ ⟨⟩ hn
      exact absurd hhalts hn
    · next hhalts =>
      refine (triple_nextClaim d).pre fun s hs => ⟨hs.count, fun _ => hs.fresh ?_⟩
      rintro _ ⟨⟩
      exact hhalts
  · exact (triple_nextClaim { d with tally := { d.tally with completed := d.tally.completed + 1 } }).pre
      fun s hs => ⟨hs.count, fun _ => hs.fresh nofun⟩

theorem triple_pollRound : Polling published t cfg d.tally (pollRound cfg d) (Rounded cfg) := by
  refine .bind (triple_claim d.tally) fun r => ?_
  rcases r with e | _ | job
  · change Polling published t cfg d.tally _ (Rounded cfg)
    split
    · next hjob => exact absurd hjob (pollClaim_error_ne_job e)
    · exact .bind (ready_triple (.call rfl)) fun _ => .pure fun _ => .of_ready
    · exact .pure fun _ => .of_ready
    · exact .pure fun _ => .of_ready
    · exact .bind (ready_triple (.call rfl)) fun _ => .pure fun _ => .of_ready
    · exact .pure fun _ => .of_ready
  · exact .bind (ready_triple (.call rfl)) fun _ => .pure fun _ => .of_ready
  · refine .bind (triple_runClaimedJob cfg d.builds job) fun ran => ?_
    exact triple_afterJob { d with builds := ran.2, tally := { d.tally with attempted := d.tally.attempted + 1 } } ran.1

theorem triple_claimRound : Polling published t cfg d.tally (claimRound cfg d) (Rounded cfg) := by
  refine .bind (ready_triple ((does_refreshBuilds d.builds).mono rfl)) fun refreshed => ?_
  obtain ⟨refreshed, builds⟩ := refreshed
  dsimp only
  split
  · exact .pure fun _ hs => .of_ready hs
  refine .bind (ready_triple (.call rfl)) fun probed => ?_
  split
  · exact .bind (ready_triple (.call rfl)) fun _ => .pure fun _ hs => .of_ready hs
  split
  · exact triple_pollRound { d with builds := builds }
  · refine .bind (ready_triple ((does_reassertProfile _).mono rfl)) fun reported => ?_
    split <;> exact .pure fun _ hs => .of_ready hs

theorem triple_claimLoop : Polling published t cfg d.tally (claimLoop cfg rounds d) (Looped cfg) := by
  induction rounds generalizing d with
  | zero => exact .pure fun _ => Looped.of_ready
  | succ rounds ih =>
    refine .bind (ready_triple (.call rfl)) fun signals => ?_
    split
    · exact .pure fun _ => Looped.of_ready
    refine .bind (triple_claimRound d) fun r => ?_
    obtain ⟨round, d⟩ := r
    cases round with
    | goOn => exact (ih d).pre fun s hs => hs.goOn rfl
    | leave result =>
      refine .pure fun s hs => ?_
      rintro e ⟨⟩ hn
      exact hs.restart e rfl hn

/-! ## The device -/

theorem triple_runOne : Polling published t cfg d.tally (runOne cfg rounds d) (Looped cfg) := by
  refine .bind (ready_triple (does_startBuilds cfg rounds d.builds)) fun started => ?_
  obtain ⟨started, builds⟩ := started
  dsimp only
  split
  · exact .pure fun _ hs => .of_ready hs
  · exact .pure fun _ hs => .of_ready hs
  refine .bind (ready_triple ((does_connect _).mono rfl)) fun connected => ?_
  split
  · exact .pure fun _ hs => .of_ready hs
  · exact .pure fun _ hs => .of_ready hs
  · exact triple_claimLoop { d with builds := builds } rounds

theorem triple_runDevice (starts : Nat) :
    Polling published t cfg d.tally (runDevice cfg rounds starts d) fun _ _ => True := by
  induction starts generalizing d with
  | zero => exact .pure fun _ _ => trivial
  | succ starts ih =>
    refine .bind (triple_runOne d rounds) fun r => ?_
    obtain ⟨ended, d⟩ := r
    dsimp only
    split
    · exact .pure fun _ _ => trivial
    · exact .pure fun _ _ => trivial
    · next e =>
      split
      · exact .pure fun _ _ => trivial
      · next hact =>
        -- what is not for an operator is no halt, so the device that starts over has met none
        have hhalts : ¬e.haltsPhone := fun h => hact (by simp [isOperatorActionable, h])
        refine SafeTriple.pre ?_ fun s hs => hs e rfl hhalts
        refine .bind (ready_triple (.call rfl)) fun signals => ?_
        split
        · exact .pure fun _ _ => trivial
        refine .bind (ready_triple (.call rfl)) fun waited => ?_
        split
        · exact ih d
        · exact .pure fun _ _ => trivial

/-- Whatever is answered, and wherever the worker is killed: no poll comes after a job that ended with a halt, and the device
claims at most `max_jobs` jobs over all its restarts. -/
theorem retires_runDevice (cfg : Config) (rounds starts : Nat) (builds : Builds F) (osVersion : Option Text) {x : Option Ended}
    {s s' : World F} (hlog : s.log = [])
    (hrun : Exec (machine published) t (runDevice cfg rounds starts ⟨builds, ⟨0, 0⟩, osVersion⟩) s x s') :
    Retires cfg.maxJobs s'.log := by
  have hkept : Kept cfg.maxJobs s := by
    refine ⟨?_, ?_⟩ <;> simp [hlog]
  have hready : Ready cfg ⟨0, 0⟩ s := by
    refine ⟨⟨?_, ?_⟩, id⟩ <;> simp [hlog]
  exact (triple_runDevice _ rounds starts (fun _ hs => hs) s x s' hkept hready hrun).1

def twoJobs : Config := ⟨"client", [], false, 0, 0, 0, 2⟩

/-- The run of a phone that takes the build and then reports another client. -/
def replacedRun : Option Ended × World numbered :=
  let phone : Script numbered := .smooth "other" ⟨['j'], ['b'], none, .ok ⟨[], [], 1⟩⟩
  let choice : Choice numbered fun _ => True := ⟨phone.answer, [], false, trivial⟩
  (runDevice twoJobs 5 5 ⟨.single numbered "X.app", ⟨0, 0⟩, none⟩).play (machine fun _ => True) act 0
    (replicate 40 choice) .fresh

/-- The first job ends with a halt: one job of two was claimed. -/
theorem retires_replacedRun :
    replacedRun.2.log.any halts ∧ replacedRun.2.log.countP claims = 1 ∧ Retires 2 replacedRun.2.log :=
  ⟨by decide, by decide +kernel,
    retires_runDevice twoJobs 5 5 (.single numbered "X.app") none (s := .fresh) rfl (Prog.exec_play step_of_act _ _ _)⟩

end Pipette.Proxy
