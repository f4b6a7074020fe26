import Pipette.Lemmas.WorkerSteps

/-!
# An invariant of a device

What every question and poll keeps, and the start, the refresh and each job keep with the builds they hand on, a device keeps
over all its rounds and restarts. The rule is for any logic of programs (`Circuit`), and used for a device that runs alone and
may be killed (`Upheld`).
-/

namespace Pipette.Proxy

open Threads

variable {F : Formats} [DecidableEq F.Runtime] [DecidableEq F.RuntimeType]

/-- `T` takes what holds of some builds to what holds of the builds handed on, and `E` to what holds at the end. -/
structure Circuit (cfg : Config) (T : (α : Type) → Builds F → Act F α → (α → Builds F) → Prop)
    (E : (α : Type) → Builds F → Act F α → Prop) : Prop where
  pure : ∀ {α : Type} {builds : Builds F} {a : α} {f : α → Builds F}, f a = builds → T α builds (Pure.pure a) f
  bind : ∀ {α β : Type} {builds : Builds F} {p : Act F α} {f : α → Builds F} {q : α → Act F β} {g : β → Builds F},
    T α builds p f → (∀ a, T β (f a) (q a) g) → T β builds (p >>= q) g
  ended : ∀ {α : Type} {builds : Builds F} {a : α}, E α builds (Pure.pure a)
  ends : ∀ {α β : Type} {builds : Builds F} {p : Act F α} {f : α → Builds F} {q : α → Act F β},
    T α builds p f → (∀ a, E β (f a) (q a)) → E β builds (p >>= q)
  asked : ∀ {α : Type} {builds : Builds F} {p : Act F α}, Does [.asks, .claims] p → T α builds p fun _ => builds
  starts : ∀ probes builds, T _ builds (startBuilds cfg probes builds) (·.2)
  refreshes : ∀ builds, T _ builds (refreshBuilds builds) (·.2)
  runs : ∀ builds job, T _ builds (runClaimedJob cfg builds job) (·.2)

namespace Circuit

variable {cfg : Config} {T : (α : Type) → Builds F → Act F α → (α → Builds F) → Prop}
  {E : (α : Type) → Builds F → Act F α → Prop} (h : Circuit cfg T E)

include h

variable (rounds : Nat) (d : Device F)

theorem nextClaim : T _ d.builds (afterJob.nextClaim cfg d) (·.2.builds) := by
  unfold afterJob.nextClaim
  split
  · exact h.pure rfl
  refine h.bind (h.asked (.call rfl)) fun signals => ?_
  split
  · exact h.bind (h.asked ((does_pace _).mono rfl)) fun _ => h.pure rfl
  refine h.bind (h.asked ((does_reassertProfile _).mono rfl)) fun reported => ?_
  split
  · exact h.pure rfl
  · exact h.bind (h.asked ((does_pace _).mono rfl)) fun _ => h.pure rfl

theorem afterJob (ran : Except AnyError Unit) : T _ d.builds (Proxy.afterJob cfg d ran) (·.2.builds) := by
  unfold Proxy.afterJob
  split
  · split
    · exact h.pure rfl
    · exact h.nextClaim d
  · exact h.nextClaim { d with tally := { d.tally with completed := d.tally.completed + 1 } }

theorem pollRound : T _ d.builds (Proxy.pollRound cfg d) (·.2.builds) := by
  refine h.bind (h.asked (.call rfl)) fun answer => ?_
  split
  · refine h.bind (h.runs d.builds _) fun ran => ?_
    exact h.afterJob { d with builds := ran.2, tally := { d.tally with attempted := d.tally.attempted + 1 } } ran.1
  · exact h.bind (h.asked (.call rfl)) fun _ => h.pure rfl
  · exact h.pure rfl
  · exact h.pure rfl
  · exact h.bind (h.asked (.call rfl)) fun _ => h.pure rfl
  · exact h.pure rfl

theorem claimRound : T _ d.builds (Proxy.claimRound cfg d) (·.2.builds) := by
  refine h.bind (h.refreshes d.builds) fun refreshed => ?_
  obtain ⟨refreshed, builds⟩ := refreshed
  dsimp only
  split
  · exact h.pure rfl
  refine h.bind (h.asked (.call rfl)) fun probed => ?_
  split
  · exact h.bind (h.asked (.call rfl)) fun _ => h.pure rfl
  split
  · exact h.pollRound { d with builds := builds }
  · refine h.bind (h.asked ((does_reassertProfile _).mono rfl)) fun reported => ?_
    split <;> exact h.pure rfl

theorem claimLoop : T _ d.builds (Proxy.claimLoop cfg rounds d) (·.2.builds) := by
  induction rounds generalizing d with
  | zero => exact h.pure rfl
  | succ rounds ih =>
    refine h.bind (h.asked (.call rfl)) fun signals => ?_
    split
    · exact h.pure rfl
    refine h.bind (h.claimRound d) fun r => ?_
    obtain ⟨round, d⟩ := r
    cases round with
    | goOn => exact ih d
    | leave result => exact h.pure rfl

theorem runOne : T _ d.builds (Proxy.runOne cfg rounds d) (·.2.builds) := by
  refine h.bind (h.starts rounds d.builds) fun started => ?_
  obtain ⟨started, builds⟩ := started
  dsimp only
  split
  · exact h.pure rfl
  · exact h.pure rfl
  refine h.bind (h.asked ((does_connect _).mono rfl)) fun connected => ?_
  split
  · exact h.pure rfl
  · exact h.pure rfl
  · exact h.claimLoop rounds { d with builds := builds }

theorem runDevice (starts : Nat) (d : Device F) : E _ d.builds (Proxy.runDevice cfg rounds starts d) := by
  induction starts generalizing d with
  | zero => exact h.ended
  | succ starts ih =>
    refine h.ends (h.runOne rounds d) fun r => ?_
    obtain ⟨ended, d⟩ := r
    dsimp only
    split
    · exact h.ended
    · exact h.ended
    split
    · exact h.ended
    refine h.ends (h.asked (.call rfl)) fun signals => ?_
    split
    · exact h.ended
    refine h.ends (h.asked (.call rfl)) fun waited => ?_
    split
    · exact ih d
    · exact h.ended

end Circuit

/-! ## A device that runs alone -/

variable {published : Surroundings → Prop} {t : Tid}

/-- What a device keeps: `I` of its builds and the world, and `K` wherever it is killed. -/
structure Upheld (published : Surroundings → Prop) (t : Tid) (cfg : Config) (K : World F → Prop)
    (I : Builds F → World F → Prop) : Prop where
  asks : ∀ builds o s r s', [Stage.asks, .claims].contains o.stage → K s → I builds s → (machine published).step t o s r s' →
    K s' ∧ I builds s'
  starts : ∀ probes builds, SafeTriple (machine published) t K (I builds) (startBuilds cfg probes builds) fun r => I r.2
  refreshes : ∀ builds, SafeTriple (machine published) t K (I builds) (refreshBuilds builds) fun r => I r.2
  runs : ∀ builds job, SafeTriple (machine published) t K (I builds) (runClaimedJob cfg builds job) fun r => I r.2

theorem Upheld.runDevice {cfg : Config} {K : World F → Prop} {I : Builds F → World F → Prop} (h : Upheld published t cfg K I)
    (rounds starts : Nat) (d : Device F) :
    SafeTriple (machine published) t K (I d.builds) (Proxy.runDevice cfg rounds starts d) fun _ _ => True :=
  Circuit.runDevice (T := fun _ builds p f => SafeTriple (machine published) t K (I builds) p fun a => I (f a))
    (E := fun _ builds p => SafeTriple (machine published) t K (I builds) p fun _ _ => True)
    { pure := fun hf => .pure fun _ hs => hf ▸ hs
      bind := .bind
      ended := .pure fun _ _ => trivial
      ends := .bind
      asked := fun hp => hp.triple fun o s r s' ho => h.asks _ o s r s' ho
      starts := h.starts
      refreshes := h.refreshes
      runs := h.runs } rounds starts d

end Pipette.Proxy
