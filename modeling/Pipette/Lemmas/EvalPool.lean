import Pipette.Lemmas.EvalAttempt

/-!
# The pool

In a round each claimed sample is held by one worker, lost, or closed (`Round.Tracked`), whoever moves next. Every step takes
from the round's weight (`Round.weight`), and one that ends without an error has closed every claimed sample but the lost ones
(`tracked_run`); round after round the pool closes all (`sends_poolFrom`).
-/

namespace Pipette.Measurement

open Evals List Round

variable {k : Codec} {start : Session} (env : Env)

/-! ## Workers -/

/-- The samples a worker holds. -/
def PoolWorker.held : PoolWorker → List Sample
  | .claimed sample => [sample]
  | .attempting a => a.group
  | .stopping dropped | .losing dropped => dropped
  | .claiming | .failing _ | .returned _ => []

/-- A worker with an error has dropped its sample. -/
def PoolWorker.broken : PoolWorker → Bool
  | .failing _ | .returned (.error _) => true
  | _ => false

/-- The steps a worker can take before its next claim. -/
def PoolWorker.weight : PoolWorker → Nat
  | .claiming => 1
  | .claimed _ => 6
  | .attempting a => 4 + a.unrecorded
  | .stopping _ => 3
  | .losing _ => 2
  | .failing _ => 1
  | .returned _ => 0

/-- Where the samples of a worker stand. -/
def PoolWorker.Stands (log : List Event) : PoolWorker → Prop
  | .claimed sample => phase log sample.id = some .fresh
  | .attempting a => a.Tracked log
  | .stopping dropped | .losing dropped => ∀ s ∈ dropped, phase log s.id = some .lost
  | .failing e | .returned (.error e) => e ≠ .stuck
  | .claiming | .returned (.ok ()) => True

structure PoolWorker.Tracked (log : List Event) (w : PoolWorker) : Prop where
  nodup : (w.held.map (·.id)).Nodup
  stands : w.Stands log

theorem PoolWorker.Tracked.congr {log log' : List Event} {w : PoolWorker} (h : w.Tracked log)
    (hphase : ∀ s ∈ w.held, phase log' s.id = phase log s.id) : w.Tracked log' := by
  refine ⟨h.nodup, ?_⟩
  have hstands := h.stands
  unfold Stands at hstands ⊢
  split
  · exact (hphase _ (by simp [held])).trans hstands
  · exact hstands.congr hphase
  · exact fun s hs => (hphase s hs).trans (hstands s hs)
  · exact fun s hs => (hphase s hs).trans (hstands s hs)
  all_goals exact hstands

open PoolWorker (held Stands)

/-- A step that claims nothing: it may change the phases of the worker's samples, and the worker keeps them, hands them over
as lost, or leaves them closed unless it has an error. -/
structure WorkerStep (r r' : Round k start) (w w' : PoolWorker) : Prop where
  advance : Advance w.held (w'.error = some .killed) r.cell.log r'.cell.log
  claimed : r'.claimed = r.claimed
  workers : r'.workers = r.workers
  tracked : w'.Tracked r'.cell.log
  held : (r'.lost = r.lost ∧ ∀ s ∈ w'.held, s ∈ w.held) ∨
    (r'.lost = r.lost ++ w.held ∧ w'.held = [] ∧ ∀ s ∈ w.held, phase r'.cell.log s.id = some .lost)
  kept : w'.broken = false → ∀ s ∈ w.held, s ∈ r'.lost ∨ s ∈ w'.held ∨ phase r'.cell.log s.id = some (.closed true)
  broken : w'.broken = false → w.broken = false
  weight : w'.weight < w.weight

variable {rest : List Sample} {alone : Bool} {r : Round k start} {w : PoolWorker}

variable {r' : Round k start} {w' : PoolWorker} {cell : Cell k start} {α : Type} {l : List α} {fuel : Nat}

/-- A worker that drops its samples, closed or with an error. -/
theorem WorkerStep.drop (hadvance : Advance w.held (w'.error = some .killed) r.cell.log r'.cell.log)
    (hclaimed : r'.claimed = r.claimed) (hworkers : r'.workers = r.workers) (hlost : r'.lost = r.lost) (hheld : w'.held = [])
    (hstands : w'.Stands r'.cell.log) (hkept : w'.broken = false → ∀ s ∈ w.held, phase r'.cell.log s.id = some (.closed true))
    (hbroken : w'.broken = false → w.broken = false) (hweight : w'.weight < w.weight) : WorkerStep r r' w w' where
  advance := hadvance
  claimed := hclaimed
  workers := hworkers
  tracked := ⟨by rw [hheld]; exact nodup_nil, hstands⟩
  held := .inl ⟨hlost, fun s hs => by simp [hheld] at hs⟩
  kept := fun h s hs => .inr (.inr (hkept h s hs))
  broken := hbroken
  weight := hweight

theorem workerStep_attempting {a : Attempt} (h : (PoolWorker.attempting a).Tracked r.cell.log) (hopen : Open r.cell.log) :
    WorkerStep r (PoolWorker.step env rest alone r (.attempting a)).2 (.attempting a)
      (PoolWorker.step env rest alone r (.attempting a)).1 := by
  have htracked : a.Tracked r.cell.log := h.stands
  have hmoved := moved_move env htracked hopen
  dsimp only [PoolWorker.step]
  split
  · next a' cell hmove =>
    rw [hmove] at hmoved
    have hfollows := hmoved.more a' rfl
    refine ⟨hmoved.advance.mono (fun _ hs => hs) nofun, rfl, rfl, ⟨hfollows.tracked.nodup, hfollows.tracked⟩,
      .inl ⟨rfl, fun s hs => ?_⟩, fun _ s hs => .inr (.inl ?_), fun _ => rfl, ?_⟩
    · exact (congrArg (s ∈ ·) hfollows.group).mp hs
    · exact (congrArg (s ∈ ·) hfollows.group).mpr hs
    · have hcount := hfollows.unrecorded
      simp only [PoolWorker.weight]
      omega
  · next cell hmove =>
    rw [hmove] at hmoved
    obtain ⟨-, hsettled⟩ := hmoved.ended [] rfl
    refine .drop (hmoved.advance.mono (fun _ hs => hs) nofun) rfl rfl rfl rfl trivial (fun _ s hs => ?_)
      (fun _ => rfl) (by simp only [PoolWorker.weight]; omega)
    rcases hsettled s hs with ⟨hmem, -⟩ | ⟨-, hclosed⟩
    · cases hmem
    · exact hclosed
  · next sample dropped cell hmove =>
    rw [hmove] at hmoved
    obtain ⟨hlost, hsettled⟩ := hmoved.ended _ rfl
    have hsub : ∀ s ∈ sample :: dropped, s ∈ a.group := fun s hs => htracked.lost s (hlost ▸ hs)
    refine ⟨hmoved.advance.mono (fun _ hs => hs) nofun, rfl, rfl, ⟨?_, fun s hs => ?_⟩, .inl ⟨rfl, hsub⟩, fun _ s hs => ?_,
      fun _ => rfl, ?_⟩
    · exact hlost ▸ htracked.lostNodup
    · rcases hsettled s (hsub s hs) with ⟨-, hp⟩ | ⟨hnot, -⟩
      · exact hp
      · exact absurd hs hnot
    · rcases hsettled s hs with ⟨hmem, -⟩ | ⟨-, hclosed⟩
      · exact .inr (.inl hmem)
      · exact .inr (.inr hclosed)
    · simp only [PoolWorker.weight]
      omega
  · next cell hmove =>
    rw [hmove] at hmoved
    exact .drop (hmoved.advance.mono (fun _ hs => hs) nofun) rfl rfl rfl rfl (by simp [Stands])
      nofun (fun _ => rfl) (by simp only [PoolWorker.weight]; omega)
  · next cell hmove =>
    rw [hmove] at hmoved
    exact .drop (hmoved.advance.mono (fun _ hs => hs) (fun _ => rfl)) rfl rfl rfl rfl (by simp [Stands])
      nofun (fun _ => rfl) (by simp only [PoolWorker.weight]; omega)
  · next e cell hpanicked hkilled hmove =>
    rw [hmove] at hmoved
    refine .drop (hmoved.advance.mono (fun _ hs => hs) fun h => ?_) rfl rfl rfl rfl (fun he => ?_) nofun (fun _ => rfl)
      (by simp only [PoolWorker.weight]; omega)
    · exact absurd (Except.error.inj (Next.ended.inj h)) hkilled
    · exact hmoved.fueled (by rw [he])

theorem workerStep_step (rest : List Sample) (alone : Bool) (h : w.Tracked r.cell.log) (hopen : Open r.cell.log) (hlive : w.live) (hclaiming : w ≠ .claiming) :
    WorkerStep r (w.step env rest alone r).2 w (w.step env rest alone r).1 := by
  cases w with
  | claiming => exact absurd rfl hclaiming
  | returned result => cases hlive
  | attempting a => exact workerStep_attempting env h hopen
  | claimed sample =>
    have hfresh : phase r.cell.log sample.id = some .fresh := h.stands
    obtain ⟨hsent, hflying⟩ := advance_sent hopen alone h.nodup fun s hs => .inl (by
      rw [mem_singleton.1 hs]; exact hfresh)
    rw [← Cell.sending_log] at hsent hflying
    exact ⟨hsent.mono (fun _ hs => hs) nofun, rfl, rfl, ⟨h.nodup, tracked_fresh h.nodup hflying⟩,
      .inl ⟨rfl, fun s hs => hs⟩, fun _ s hs => .inr (.inl hs), fun _ => rfl, by simp [PoolWorker.step, PoolWorker.weight, Attempt.unrecorded, Attempt.fresh]⟩
  | stopping dropped =>
    exact ⟨.refl hopen, rfl, rfl, ⟨h.nodup, h.stands⟩, .inl ⟨rfl, fun s hs => hs⟩, fun _ s hs => .inr (.inl hs),
      fun _ => rfl, Nat.lt_succ_self 2⟩
  | losing dropped =>
    exact ⟨.refl hopen, rfl, rfl, ⟨nodup_nil, trivial⟩, .inr ⟨rfl, rfl, h.stands⟩,
      fun _ s hs => .inl (mem_append_right _ hs), fun _ => rfl, Nat.lt_succ_self 1⟩
  | failing e => exact .drop (.refl hopen) rfl rfl rfl rfl h.stands nofun nofun Nat.zero_lt_one

/-! ## Rounds -/

/-- The samples of a round that are lost or held by a worker. -/
def Round.holdings (r : Round k start) : List Sample := r.lost ++ r.workers.flatMap PoolWorker.held

/-- The steps a round can still take. -/
def Round.weight (rest : List Sample) (r : Round k start) : Nat :=
  6 * (rest.length - r.claimed) + (r.workers.map PoolWorker.weight).sum

/-- A round that began with `log`: each claimed sample is lost, held by one worker, or closed. -/
structure Round.Tracked (rest : List Sample) (log : List Event) (r : Round k start) : Prop where
  bound : r.claimed ≤ rest.length
  advance : Advance (rest.take r.claimed) (∃ w ∈ r.workers, w.error = some .killed) log r.cell.log
  nodup : (r.holdings.map (·.id)).Nodup
  sub : ∀ s ∈ r.holdings, s ∈ rest.take r.claimed
  lost : ∀ s ∈ r.lost, phase r.cell.log s.id = some .lost
  workers : ∀ w ∈ r.workers, w.Tracked r.cell.log
  kept : (∀ w ∈ r.workers, w.broken = false) →
    ∀ s ∈ rest.take r.claimed, s ∈ r.holdings ∨ phase r.cell.log s.id = some (.closed true)
  begun : r.claimed = 0 → r.stopped = false ∧ ∀ w ∈ r.workers, w = .claiming

theorem tracked_fresh_round (hopen : Open cell.log) (workers : Nat) : (fresh workers cell).Tracked rest cell.log where
  bound := Nat.zero_le _
  advance := .refl hopen
  nodup := by
    have hnone : (fresh workers cell).holdings = [] := by simp [holdings, fresh, held]
    rw [hnone]
    exact nodup_nil
  sub := by simp [holdings, fresh, held]
  lost := fun s hs => nomatch hs
  workers := by
    intro w hw
    rw [eq_of_mem_replicate hw]
    exact ⟨nodup_nil, trivial⟩
  kept := by simp [fresh]
  begun := fun _ => ⟨rfl, fun w hw => eq_of_mem_replicate hw⟩

variable {log : List Event} {others workers : List PoolWorker}

/-- The holdings of a round, with those of one worker apart. -/
theorem holdings_perm (hworkers : workers.Perm (w :: others)) (lost : List Sample) :
    (lost ++ workers.flatMap held).Perm (w.held ++ (lost ++ others.flatMap held)) :=
  ((hworkers.flatMap_right _).append_left lost).trans (perm_append_comm_assoc ..)

variable (h : r.Tracked rest log)
include h

theorem Round.Tracked.nodup_perm (hworkers : r.workers.Perm (w :: others)) :
    ((w.held ++ (r.lost ++ others.flatMap held)).map (·.id)).Nodup :=
  ((holdings_perm hworkers r.lost).map _).nodup_iff.1 h.nodup

/-- The ids of what the others hold are not those of a worker. -/
theorem Round.Tracked.other (hworkers : r.workers.Perm (w :: others)) {s t : Sample}
    (hs : s ∈ r.lost ++ others.flatMap held) (ht : t ∈ w.held) : t.id ≠ s.id := by
  have hnodup := h.nodup_perm hworkers
  rw [map_append, nodup_append] at hnodup
  exact hnodup.2.2 _ (mem_map_of_mem ht) _ (mem_map_of_mem hs)

/-- A step of one worker that claims nothing keeps the round together. -/
theorem Round.Tracked.update (hrest : (rest.map (·.id)).Nodup)
    (hbefore : r.workers.Perm (w :: others)) (hafter : workers.Perm (w' :: others)) (hstep : WorkerStep r r' w w')
    (hbegun : r.claimed ≠ 0) : ({ r' with workers := workers } : Round k start).Tracked rest log := by
  have hheld : ∀ s ∈ w.held, s ∈ rest.take r.claimed := fun s hs =>
    h.sub s ((holdings_perm hbefore r.lost).mem_iff.2 (mem_append_left _ hs))
  have hframe : ∀ s ∈ r.lost ++ others.flatMap held, phase r'.cell.log s.id = phase r.cell.log s.id :=
    fun s hs => hstep.advance.frame fun t ht => h.other hbefore hs ht
  -- what is held after the step was held before it, and the others hold what they held
  have hnew : ((w'.held ++ (r'.lost ++ others.flatMap held)).map (·.id)).Nodup ∧
      (∀ s ∈ w'.held ++ (r'.lost ++ others.flatMap held), s ∈ r.holdings) ∧
      ∀ s ∈ r.lost ++ others.flatMap held, s ∈ w'.held ++ (r'.lost ++ others.flatMap held) := by
    have hnodup := h.nodup_perm hbefore
    have hmem (s : Sample) : s ∈ r.holdings ↔ _ := (holdings_perm hbefore r.lost).mem_iff
    rcases hstep.held with ⟨hlost, hsub⟩ | ⟨hlost, hnone, -⟩
    · rw [hlost]
      refine ⟨?_, fun s hs => (hmem s).2 ?_, fun s hs => mem_append_right _ hs⟩
      · rw [map_append, nodup_append] at hnodup ⊢
        refine ⟨hstep.tracked.nodup, hnodup.2.1, fun id hid => hnodup.2.2 id ?_⟩
        obtain ⟨s, hs, rfl⟩ := mem_map.1 hid
        exact mem_map_of_mem (hsub s hs)
      · exact mem_append.2 ((mem_append.1 hs).imp_left (hsub s))
    · have hperm : (w'.held ++ (r'.lost ++ others.flatMap held)).Perm
          (w.held ++ (r.lost ++ others.flatMap held)) := by
        rw [hlost, hnone, nil_append, append_assoc]
        exact perm_append_comm_assoc ..
      exact ⟨(hperm.map _).nodup_iff.2 hnodup, fun s hs => (hmem s).2 (hperm.mem_iff.1 hs),
        fun s hs => hperm.mem_iff.2 (mem_append_right _ hs)⟩
  have hholdings (s : Sample) : s ∈ r'.lost ++ workers.flatMap held ↔ _ := (holdings_perm hafter r'.lost).mem_iff
  have hmem (u : PoolWorker) : u ∈ workers ↔ u = w' ∨ u ∈ others := hafter.mem_iff.trans mem_cons
  have hmem' (u : PoolWorker) : u ∈ r.workers ↔ u = w ∨ u ∈ others := hbefore.mem_iff.trans mem_cons
  refine ⟨hstep.claimed ▸ h.bound, ?_, ?_, ?_, ?_, ?_, ?_, fun hzero => absurd (hstep.claimed ▸ hzero) hbegun⟩
  · dsimp only
    rw [hstep.claimed]
    exact h.advance.trans (hstep.advance.mono hheld fun he => ⟨w', (hmem w').2 (.inl rfl), he⟩)
  · exact ((holdings_perm hafter r'.lost).map _).nodup_iff.2 hnew.1
  · intro s hs
    rw [hstep.claimed]
    exact h.sub s (hnew.2.1 s ((hholdings s).1 hs))
  · intro s hs
    have hkept (hs : s ∈ r.lost) := (hframe s (mem_append_left _ hs)).trans (h.lost s hs)
    rcases hstep.held with ⟨hlost, -⟩ | ⟨hlost, -, hphase⟩
    · exact hkept (hlost ▸ hs)
    · exact (mem_append.1 (show s ∈ r.lost ++ w.held from hlost ▸ hs)).elim hkept (hphase s)
  · intro u hu
    rcases (hmem u).1 hu with rfl | hu
    · exact hstep.tracked
    · refine (h.workers u ((hmem' u).2 (.inr hu))).congr fun s hs => hframe s (mem_append_right _ ?_)
      exact mem_flatMap.2 ⟨u, hu, hs⟩
  · intro hbroken s hs
    rw [hstep.claimed] at hs
    rw [holdings, hholdings]
    have hw' : w'.broken = false := hbroken w' ((hmem w').2 (.inl rfl))
    have hall : ∀ u ∈ r.workers, u.broken = false := by
      intro u hu
      rcases (hmem' u).1 hu with rfl | hu
      · exact hstep.broken hw'
      · exact hbroken u ((hmem u).2 (.inr hu))
    by_cases hheld' : s ∈ w.held
    · rcases hstep.kept hw' s hheld' with hs | hs | hs
      · exact .inl (mem_append_right _ (mem_append_left _ hs))
      · exact .inl (mem_append_left _ hs)
      · exact .inr hs
    rcases h.kept hall s hs with hs' | hs'
    · have hs' := (holdings_perm hbefore r.lost).mem_iff.1 hs'
      exact .inl (hnew.2.2 s ((mem_append.1 hs').resolve_left hheld'))
    · refine .inr ((hstep.advance.frame fun t ht heq => hheld' ?_).trans hs')
      have hst := inj_on_of_nodup_map hrest (mem_of_mem_take (hheld t ht)) (mem_of_mem_take hs) heq
      exact hst ▸ ht

theorem Round.Tracked.claim {sample : Sample} (hrest : (rest.map (·.id)).Nodup)
    (hfresh : ∀ s ∈ rest, phase log s.id = some .fresh) (hbefore : r.workers.Perm (.claiming :: others))
    (hafter : workers.Perm (.claimed sample :: others)) (hsample : rest[r.claimed]? = some sample) :
    ({ r with claimed := r.claimed + 1, cell := r.cell.tick, workers := workers } : Round k start).Tracked rest log := by
  have htake : rest.take (r.claimed + 1) = rest.take r.claimed ++ [sample] := by
    rw [take_add_one, hsample]
    rfl
  have hnew : ∀ s ∈ rest.take r.claimed, s.id ≠ sample.id := by
    have hnodup : ((rest.take (r.claimed + 1)).map (·.id)).Nodup := hrest.sublist ((take_sublist _ _).map _)
    rw [htake, map_append] at hnodup
    exact fun s hs => (nodup_append.1 hnodup).2.2 _ (mem_map.2 ⟨s, hs, rfl⟩) _ (by simp)
  have hholdings : (r.lost ++ workers.flatMap held).Perm (sample :: r.holdings) :=
    (holdings_perm hafter r.lost).trans ((holdings_perm hbefore r.lost).symm.cons sample)
  have hmem (s : Sample) : s ∈ r.lost ++ workers.flatMap held ↔ s = sample ∨ s ∈ r.holdings :=
    hholdings.mem_iff.trans mem_cons
  have hworker {u : PoolWorker} (hu : u ∈ workers) : u = .claimed sample ∨ u ∈ r.workers :=
    (mem_cons.1 (hafter.mem_iff.1 hu)).imp_right fun hu => hbefore.mem_iff.2 (mem_cons_of_mem _ hu)
  have hworker' {u : PoolWorker} (hu : u ∈ r.workers) : u = .claiming ∨ u ∈ workers :=
    (mem_cons.1 (hbefore.mem_iff.1 hu)).imp_right fun hu => hafter.mem_iff.2 (mem_cons_of_mem _ hu)
  refine ⟨(List.getElem?_eq_some_iff.1 hsample).1, ?_, ?_, ?_, h.lost, ?_, ?_, fun hzero => nomatch hzero⟩
  · refine h.advance.mono (fun s hs => by rw [htake]; exact mem_append_left _ hs) ?_
    rintro ⟨u, hu, herror⟩
    rcases hworker' hu with rfl | hu
    · cases herror
    · exact ⟨u, hu, herror⟩
  · refine (hholdings.map _).nodup_iff.2 (nodup_cons.2 ⟨fun hid => ?_, h.nodup⟩)
    obtain ⟨s, hs, hid⟩ := mem_map.1 hid
    exact hnew s (h.sub s hs) hid
  · intro s hs
    rw [htake]
    rcases (hmem s).1 hs with rfl | hs
    · simp
    · exact mem_append_left _ (h.sub s hs)
  · intro u hu
    rcases hworker hu with rfl | hu
    · refine ⟨nodup_singleton _, ?_⟩
      exact (h.advance.frame hnew).trans (hfresh sample (mem_of_getElem? hsample))
    · exact h.workers u hu
  · intro hbroken s hs
    have hall : ∀ u ∈ r.workers, u.broken = false := by
      intro u hu
      rcases hworker' hu with rfl | hu
      · rfl
      · exact hbroken u hu
    rw [htake] at hs
    rcases mem_append.1 hs with hs | hs
    · exact (h.kept hall s hs).imp_left fun hs => (hmem s).2 (.inr hs)
    · exact .inl ((hmem s).2 (.inl (List.mem_singleton.1 hs)))

omit h

theorem exists_set_perm {l : List α} {i : Nat} {x : α} (h : l[i]? = some x) :
    ∃ rest : List α, l.Perm (x :: rest) ∧ ∀ y, (l.set i y).Perm (y :: rest) := by
  obtain ⟨hlt, rfl⟩ := List.getElem?_eq_some_iff.1 h
  refine ⟨l.take i ++ l.drop (i + 1), ?_, fun y => ?_⟩
  · have hsplit : l = l.take i ++ l[i] :: l.drop (i + 1) := by simp
    exact (List.Perm.of_eq hsplit).trans perm_middle
  · rw [set_eq_take_append_cons_drop, if_pos hlt]
    exact perm_middle

/-- A worker's step leaves the list of the workers to the round. -/
theorem PoolWorker.step_workers (w : PoolWorker) (r : Round k start) : (w.step env rest alone r).2.workers = r.workers := by
  unfold PoolWorker.step
  repeat' split
  all_goals rfl

/-- What a step of a round is: a worker that is not back takes it, in a process that runs. -/
theorem Round.step_cases (hstep : r.step env rest alone = some r') :
    (∀ w ∈ r.workers, w.error ≠ some .killed) ∧ ∃ w others workers, r.workers.Perm (w :: others) ∧ w.live ∧
      workers.Perm ((w.step env rest alone r).1 :: others) ∧ r' = { (w.step env rest alone r).2 with workers := workers } := by
  obtain ⟨i, hi, hstep⟩ := Option.bind_eq_some_iff.1 hstep
  obtain ⟨w, hw, hstep⟩ := Option.bind_eq_some_iff.1 hstep
  have hmem := mem_of_getElem? hi
  unfold running at hmem
  split at hmem
  · cases hmem
  · next hkilled =>
    refine ⟨fun w hw herror => hkilled (any_eq_true.2 ⟨w, hw, by simpa using herror⟩), w, ?_⟩
    obtain ⟨others, hperm, hset⟩ := exists_set_perm hw
    have hlive := (mem_filter.1 hmem).2
    refine ⟨others, _, hperm, by simpa [hw] using hlive, hset _, ?_⟩
    rw [← PoolWorker.step_workers env w r]
    exact (Option.some.inj hstep).symm

/-- A round that cannot step has lost its process or has every worker back. -/
theorem Round.step_eq_none (hstep : r.step env rest alone = none) : r.killed ∨ ∀ w ∈ r.workers, w.live = false := by
  unfold step at hstep
  by_cases hkilled : r.killed
  · exact .inl hkilled
  refine .inr fun w hw => ?_
  by_contra hlive
  obtain ⟨i, hi⟩ := getElem?_of_mem hw
  have hrunning : i ∈ r.running := by
    rw [running, if_neg hkilled]
    refine List.mem_filter.2 ⟨List.mem_range.2 (List.getElem?_eq_some_iff.1 hi).1, ?_⟩
    simpa [hi] using hlive
  have hlt : env.pick r.cell.clock % r.running.length < r.running.length := Nat.mod_lt _ (length_pos_of_mem hrunning)
  have hmem := getElem_mem hlt
  rw [getElem?_eq_getElem hlt] at hstep
  generalize r.running[env.pick r.cell.clock % r.running.length] = j at hstep hmem
  rw [running, if_neg hkilled] at hmem
  have hj := (mem_filter.1 hmem).2
  cases hw' : r.workers[j]? with
  | none => simp [hw'] at hj
  | some w' => simp [hw'] at hstep

theorem weight_perm (hworkers : workers.Perm (w :: others)) :
    (workers.map PoolWorker.weight).sum = w.weight + (others.map PoolWorker.weight).sum :=
  (hworkers.map _).sum_nat.trans sum_cons

variable (h : r.Tracked rest log)
include h

/-- A step keeps the round together and takes from its weight. -/
theorem Round.Tracked.step (hrest : (rest.map (·.id)).Nodup)
    (hfresh : ∀ s ∈ rest, phase log s.id = some .fresh) (hne : rest ≠ []) (hstep : r.step env rest alone = some r') :
    r'.Tracked rest log ∧ r'.weight rest < r.weight rest := by
  obtain ⟨hkilled, w, others, workers, hbefore, hlive, hafter, rfl⟩ := step_cases env hstep
  have hopen : Open r.cell.log := h.advance.toOpen fun ⟨w, hw, herror⟩ => hkilled w hw herror
  have hw : w ∈ r.workers := hbefore.mem_iff.2 mem_cons_self
  by_cases hclaiming : w = .claiming
  · subst hclaiming
    dsimp only [PoolWorker.step] at hafter ⊢
    split at hafter
    · next sample hsample hstop =>
      rw [← hstop] at *
      refine ⟨h.claim hrest hfresh hbefore hafter hsample, ?_⟩
      have hlt : r.claimed < rest.length := (List.getElem?_eq_some_iff.1 hsample).1
      simp only [weight, weight_perm hbefore, weight_perm hafter, PoolWorker.weight]
      omega
    · next hstop =>
      have hstep' : WorkerStep r { r with cell := r.cell.tick } .claiming (.returned (.ok ())) :=
        .drop (.refl hopen) rfl rfl rfl rfl trivial (fun _ s hs => nomatch hs) (fun _ => rfl) Nat.zero_lt_one
      refine ⟨h.update hrest hbefore hafter hstep' fun hzero => ?_, ?_⟩
      · obtain ⟨sample, others, rfl⟩ := exists_cons_of_ne_nil hne
        exact hstop sample (by rw [hzero]; rfl) (h.begun hzero).1
      · simp only [weight, weight_perm hbefore, weight_perm hafter, PoolWorker.weight]
        omega
  · have hstep' := workerStep_step env rest alone (h.workers w hw) hopen hlive hclaiming
    refine ⟨h.update hrest hbefore hafter hstep' fun hzero => hclaiming ((h.begun hzero).2 w hw), ?_⟩
    have hclaimed := hstep'.claimed
    have hweight := hstep'.weight
    simp only [weight, weight_perm hbefore, weight_perm hafter, hclaimed]
    omega

/-- A round with fuel for its weight ends. -/
theorem Round.Tracked.run (alone : Bool) (hrest : (rest.map (·.id)).Nodup)
    (hfresh : ∀ s ∈ rest, phase log s.id = some .fresh) (hne : rest ≠ []) (hfuel : r.weight rest ≤ fuel) :
    (run env rest alone fuel r).Tracked rest log ∧ (run env rest alone fuel r).step env rest alone = none := by
  induction fuel generalizing r with
  | zero =>
    refine ⟨h, ?_⟩
    cases hstep : r.step env rest alone with
    | none => exact hstep
    | some r' =>
      have hweight := (h.step env hrest hfresh hne hstep).2
      omega
  | succ fuel ih =>
    unfold run
    split
    · next hstep => exact ⟨h, hstep⟩
    · next r' hstep =>
      obtain ⟨htracked, hweight⟩ := h.step env hrest hfresh hne hstep
      exact ih htracked (by omega)

omit h in
theorem Round.returned_of_ok (hok : r.result = .ok ()) : ∀ w ∈ r.workers, w = .returned (.ok ()) := by
  unfold result at hok
  split at hok
  · cases hok
  split at hok
  · cases hok
  next herror =>
  split at hok
  · cases hok
  next hlive =>
  intro w hw
  have herror := findSome?_eq_none_iff.1 herror w hw
  have hlive : w.live = false := by
    by_contra hlive'
    exact hlive (any_eq_true.2 ⟨w, hw, by simpa using hlive'⟩)
  cases w with
  | returned result =>
    cases result with
    | error e => cases herror
    | ok u => rfl
  | _ => cases hlive

/-- A round that is over, and the settling of what it lost, close every claimed sample. -/
theorem Round.Tracked.settle (hok : r.result = .ok ()) :
    Sends (rest.take r.claimed) log (Measurement.settle env r.lost r.cell).2.log (Measurement.settle env r.lost r.cell).1 := by
  have hback := returned_of_ok hok
  have hheld : r.holdings = r.lost := by
    have hnone : r.workers.flatMap held = [] := by
      refine flatMap_eq_nil_iff.2 fun w hw => ?_
      rw [hback w hw]
      rfl
    rw [holdings, hnone, append_nil]
  have hopen : Open r.cell.log := by
    refine h.advance.toOpen ?_
    rintro ⟨w, hw, hkilled⟩
    rw [hback w hw] at hkilled
    cases hkilled
  have hbroken : ∀ w ∈ r.workers, w.broken = false := fun w hw => by
    rw [hback w hw]
    rfl
  have hsettled : Settled (rest.take r.claimed) r.lost r.cell.log := by
    intro s hs
    by_cases hlost : s ∈ r.lost
    · exact .inl ⟨hlost, h.lost s hlost⟩
    · exact .inr ⟨hlost, (h.kept hbroken s hs).resolve_left (hheld ▸ hlost)⟩
  exact sends_of_settled env h.advance hopen hsettled (fun s hs => h.sub s (hheld ▸ hs)) (hheld ▸ h.nodup)

/-- A round that is over without an error of a worker is over for every worker. -/
theorem Round.Tracked.result_fueled (hstep : r.step env rest alone = none) : r.result ≠ .error .stuck := by
  unfold result
  split
  · simp
  next hkilled =>
  split
  · next e herror =>
    obtain ⟨w, hw, herror⟩ := exists_of_findSome?_eq_some herror
    have hstands := (h.workers w hw).stands
    cases w with
    | returned result =>
      cases result with
      | error e' =>
        cases herror
        exact fun hstuck => hstands (Except.error.inj hstuck)
      | ok u => cases herror
    | _ => cases herror
  · rw [if_neg]
    · exact nofun
    · simpa using (step_eq_none env hstep).resolve_left hkilled

omit h

theorem Round.result_killed (h : ∃ w ∈ r.workers, w.error = some .killed) : r.result = .error .killed := by
  obtain ⟨w, hw, herror⟩ := h
  exact if_pos (any_eq_true.2 ⟨w, hw, by simpa using herror⟩)

/-- A round that is over with every worker back has claimed a sample. -/
theorem Round.Tracked.claimed_pos (h : r.Tracked rest log) (hworkers : r.workers ≠ []) (hok : r.result = .ok ()) : 0 < r.claimed := by
  refine Nat.pos_of_ne_zero fun hzero => ?_
  obtain ⟨w, ws, hw⟩ := exists_cons_of_ne_nil hworkers
  have hmem : w ∈ r.workers := by simp [hw]
  cases ((h.begun hzero).2 w hmem).symm.trans (returned_of_ok hok w hmem)

theorem Round.run_workers : (run env rest alone fuel r).workers.length = r.workers.length := by
  induction fuel generalizing r with
  | zero => rfl
  | succ fuel ih =>
    unfold run
    split
    · rfl
    · next r' hstep =>
      obtain ⟨-, w, others, workers, hbefore, -, hafter, rfl⟩ := step_cases env hstep
      exact ih.trans (hafter.length_eq.trans hbefore.length_eq.symm)

theorem sends_poolFrom {workers : ℕ+} {pending : List Sample} (hopen : Open cell.log)
    (hnodup : (pending.map (·.id)).Nodup) (hfresh : ∀ s ∈ pending, phase cell.log s.id = some .fresh)
    (hfuel : pending.length ≤ fuel) :
    Sends pending cell.log (poolFrom env workers fuel pending cell).2.log (poolFrom env workers fuel pending cell).1 := by
  induction fuel generalizing pending cell with
  | zero =>
    obtain rfl := length_eq_zero_iff.1 (Nat.le_zero.1 hfuel)
    exact .nil hopen rfl
  | succ fuel ih =>
    cases pending with
    | nil => exact .nil hopen rfl
    | cons sample others =>
      unfold poolFrom
      dsimp only
      set rest := sample :: others with hrest
      set n := min workers.val rest.length with hn
      have hnpos : 0 < n := lt_min workers.pos (by simp [hrest])
      have hweight : (fresh n cell).weight rest ≤ 6 * rest.length + n := by
        simp [weight, fresh, PoolWorker.weight]
      obtain ⟨htracked, hover⟩ :=
        (tracked_fresh_round hopen n).run env (decide (n = 1)) hnodup hfresh (cons_ne_nil _ _) hweight
      have hworkers : (run env rest (decide (n = 1)) (6 * rest.length + n) (.fresh n cell)).workers ≠ [] := by
        rw [← length_pos_iff, run_workers]
        simpa [fresh] using hnpos
      generalize run env rest (decide (n = 1)) (6 * rest.length + n) (.fresh n cell) = r at htracked hover hworkers ⊢
      have htake : ∀ s ∈ rest.take r.claimed, s ∈ rest := fun s hs => mem_of_mem_take hs
      have hsplit : rest = rest.take r.claimed ++ rest.drop r.claimed := (take_append_drop _ _).symm
      split
      · next e hresult =>
        refine ⟨htracked.advance.mono htake fun hkilled => ?_, nofun, ?_⟩
        · exact hresult.symm.trans (result_killed hkilled)
        · exact fun h => htracked.result_fueled env hover (hresult.trans h)
      · next hresult =>
        have hsettle := htracked.settle env hresult
        split
        · next e cell' hrun =>
          rw [hrun] at hsettle
          exact hsettle.error htake
        · next cell' hrun =>
          rw [hrun] at hsettle
          have hopen' : Open cell'.log := hsettle.advance.toOpen nofun
          have hpos := htracked.claimed_pos hworkers hresult
          have hlength : (rest.drop r.claimed).length ≤ fuel := by
            rw [length_drop]
            omega
          rw [hsplit] at hnodup
          have hdrop : ((rest.drop r.claimed).map (·.id)).Nodup := (nodup_append.1 (map_append ▸ hnodup)).2.1
          have hrest' := ih hopen' hdrop (fun s hs => (hsettle.frame hnodup hs).trans (hfresh s (mem_of_mem_drop hs))) hlength
          have hall := hsettle.append hrest' hnodup
          rwa [← hsplit] at hall

end Pipette.Measurement
