import Mathlib

/-!
# Threads that share a state

A thread runs a tree of operations on a shared state, each atomic. Threads interleave in any order, and any can be killed
between two operations. A protocol is an invariant and, for each thread, a guarantee of its steps; the others may rely on
both. `Keeps` says that a program keeps to the protocol whatever the others do in between, and that its result meets a
postcondition. If every thread does, the invariant holds in every state reached and every step meets its guarantee
(`Reaches.holds`, `Reaches.guar`). `SafeTriple` is for a thread that runs alone, and says besides what holds wherever it is
killed.
-/

namespace Threads

open Function

/-- A thread. -/
abbrev Tid := Nat

/-- A program: it ends with a value, or does an operation and goes on with the answer. -/
inductive Prog (Op : Type) (Ans : Op → Type) (α : Type) where
  | done (a : α)
  | op (o : Op) (next : Ans o → Prog Op Ans α)

variable {Op : Type} {Ans : Op → Type} {σ α β : Type}

namespace Prog

/-- One program after the other. -/
def bind : Prog Op Ans α → (α → Prog Op Ans β) → Prog Op Ans β
  | .done a, f => f a
  | .op o next, f => .op o fun r => (next r).bind f

instance : Monad (Prog Op Ans) where
  pure := .done
  bind := Prog.bind

/-- One operation. -/
def call (o : Op) : Prog Op Ans (Ans o) := .op o .done

/-- Every operation that the program can do is one of `ok`. -/
def Only (ok : Op → Prop) : Prog Op Ans α → Prop
  | .done _ => True
  | .op o next => ok o ∧ ∀ r, (next r).Only ok

variable {p : Prog Op Ans α} {f : α → Prog Op Ans β}

variable {ok : Op → Prop}

/-- The operations of both parts. -/
theorem Only.bind (hp : p.Only ok) (hf : ∀ a, (f a).Only ok) : (p >>= f).Only ok := by
  induction p with
  | done a => exact hf a
  | op o next ih => exact ⟨hp.1, fun r => ih r (hp.2 r)⟩

/-- More operations. -/
theorem Only.mono {ok ok' : Op → Prop} (hp : p.Only ok) (h : ∀ o, ok o → ok' o) : p.Only ok' := by
  induction p with
  | done a => trivial
  | op o next ih => exact ⟨h o hp.1, fun r => ih r (hp.2 r)⟩

theorem Only.pure (a : α) : (Pure.pure a : Prog Op Ans α).Only ok := trivial

theorem Only.call {o : Op} (h : ok o) : (Prog.call o : Prog Op Ans (Ans o)).Only ok := ⟨h, fun _ => trivial⟩

/-- Whatever the operations answer, the program returns with `Q`. -/
def Returns (Q : α → Prop) : Prog Op Ans α → Prop
  | .done a => Q a
  | .op _ next => ∀ r, (next r).Returns Q

/-- One program after the other. -/
theorem Returns.bind {P : α → Prop} {Q : β → Prop} (hp : p.Returns P)
    (hf : ∀ a, P a → (f a).Returns Q) : (p >>= f).Returns Q := by
  induction p with
  | done a => exact hf a hp
  | op o next ih => exact fun r => ih r (hp r)

theorem Returns.after {Q : β → Prop} (hf : ∀ a, (f a).Returns Q) : (p >>= f).Returns Q := by
  induction p with
  | done a => exact hf a
  | op o next ih => exact ih

/-- The same program with its operations among others. -/
def embed {Op' : Type} {Ans' : Op' → Type} (f : Op → Op') (g : (o : Op) → Ans' (f o) → Ans o) :
    Prog Op Ans α → Prog Op' Ans' α
  | .done a => .done a
  | .op o next => .op (f o) fun r => (next (g o r)).embed f g

section Embed

variable {Op' : Type} {Ans' : Op' → Type} {f : Op → Op'} {g : (o : Op) → Ans' (f o) → Ans o}

theorem embed_bind (p : Prog Op Ans α) (q : α → Prog Op Ans β) :
    (p >>= q).embed f g = p.embed f g >>= fun a => (q a).embed f g := by
  induction p with
  | done a => rfl
  | op o next ih => exact congrArg (Prog.op (f o)) (funext fun r => ih (g o r))

/-- The operations of the embedded program. -/
theorem Only.embed {ok' : Op' → Prop} (hp : p.Only ok) (h : ∀ o, ok o → ok' (f o)) : (p.embed f g).Only ok' := by
  induction p with
  | done a => trivial
  | op o next ih => exact ⟨h o hp.1, fun r => ih (g o r) (hp.2 (g o r))⟩

end Embed

end Prog

/-- `step t o s r s'`: thread `t` doing `o` in `s` can be answered `r` with the state `s'`. A killed thread leaves `exit t s`. -/
structure Machine (Op : Type) (Ans : Op → Type) (σ : Type) where
  step : Tid → (o : Op) → σ → Ans o → σ → Prop
  exit : Tid → σ → σ

/-- The shared state, and what each thread has still to do. -/
structure Pool (Op : Type) (Ans : Op → Type) (σ : Type) where
  state : σ
  todo : Tid → Prog Op Ans Unit

/-- Thread `t` does its next operation, or is killed. -/
inductive Step (M : Machine Op Ans σ) (t : Tid) : Pool Op Ans σ → Pool Op Ans σ → Prop where
  | run {s s' : σ} {todo : Tid → Prog Op Ans Unit} {o : Op} {next : Ans o → Prog Op Ans Unit} {r : Ans o} :
      todo t = .op o next → M.step t o s r s' → Step M t ⟨s, todo⟩ ⟨s', update todo t (next r)⟩
  | kill {s : σ} {todo : Tid → Prog Op Ans Unit} : Step M t ⟨s, todo⟩ ⟨M.exit t s, update todo t (.done ())⟩

/-- The pools that are reached from `init` by steps of any threads. -/
inductive Reaches (M : Machine Op Ans σ) (init : Pool Op Ans σ) : Pool Op Ans σ → Prop where
  | refl : Reaches M init init
  | step {p p' : Pool Op Ans σ} (t : Tid) : Reaches M init p → Step M t p p' → Reaches M init p'

/-! ## Runs that meet a condition -/

/-- The steps that lead to a state with `ok`. -/
def Machine.within (M : Machine Op Ans σ) (ok : σ → Prop) : Machine Op Ans σ where
  step t o s r s' := M.step t o s r s' ∧ ok s'
  exit := M.exit

variable {M : Machine Op Ans σ}

/-- Where no step makes `ok` true again, a run that ends with it met it all along. -/
theorem Reaches.within {ok : σ → Prop} (hstep : ∀ t o s r s', M.step t o s r s' → ok s' → ok s)
    (hexit : ∀ t s, ok (M.exit t s) → ok s) {init p : Pool Op Ans σ} (h : Reaches M init p) (hok : ok p.state) :
    Reaches (M.within ok) init p := by
  induction h with
  | refl => exact .refl
  | step t _ hlast ih =>
    cases hlast with
    | run htodo hdo => exact .step t (ih (hstep _ _ _ _ _ hdo hok)) (.run htodo ⟨hdo, hok⟩)
    | kill => exact .step t (ih (hexit _ _ hok)) .kill

/-! ## Protocols -/

/-- What every state meets, and what every step of a thread meets. -/
structure Protocol (σ : Type) where
  inv : σ → Prop
  guar : Tid → σ → σ → Prop

namespace Protocol

variable (P : Protocol σ) (M : Machine Op Ans σ)

/-- What the threads other than `t` do in some steps. -/
def Others (t : Tid) : σ → σ → Prop := Relation.ReflTransGen fun s s' => P.inv s' ∧ ∃ u, u ≠ t ∧ P.guar u s s'

/-- What thread `t` knows stays true whatever the other threads do. -/
def Stable (t : Tid) (A : σ → Prop) : Prop := ∀ u s s', u ≠ t → P.inv s → P.inv s' → P.guar u s s' → A s → A s'

/-- From `s` on the program keeps to the protocol, and what it returns meets `Q`. -/
def Keeps (t : Tid) : Prog Op Ans α → (α → σ → Prop) → σ → Prop
  | .done a, Q, s => Q a s
  | .op o next, Q, s => ∀ s', P.Others t s s' → ∀ r s'', M.step t o s' r s'' →
      P.inv s'' ∧ P.guar t s' s'' ∧ Keeps t (next r) Q s''

/-- Where `A` holds, the program keeps to the protocol and returns with `Q`. -/
def Triple (t : Tid) (A : σ → Prop) (p : Prog Op Ans α) (Q : α → σ → Prop) : Prop := ∀ s, P.inv s → A s → P.Keeps M t p Q s

variable {P M} {t : Tid} {A B : σ → Prop} {s s' : σ}

/-- The other threads keep the invariant. -/
theorem Others.inv (h : P.Others t s s') (hs : P.inv s) : P.inv s' := by
  induction h with
  | refl => exact hs
  | tail _ hstep _ => exact hstep.1

/-- What is known stays true over any steps of the others. -/
theorem Stable.others (hA : P.Stable t A) (h : P.Others t s s') (hs : P.inv s) (ha : A s) : A s' := by
  induction h with
  | refl => exact ha
  | @tail b c hab hstep ih =>
    obtain ⟨hinv, u, hu, hguar⟩ := hstep
    exact hA u b c hu (Others.inv hab hs) hinv hguar ih

/-- What is known can be joined. -/
theorem Stable.and (hA : P.Stable t A) (hB : P.Stable t B) : P.Stable t fun s => A s ∧ B s :=
  fun u s s' hu hs hs' hguar h => ⟨hA u s s' hu hs hs' hguar h.1, hB u s s' hu hs hs' hguar h.2⟩

theorem Stable.const (p : Prop) : P.Stable t fun _ => p := fun _ _ _ _ _ _ _ h => h

theorem Stable.imp {p : Prop} (hA : p → P.Stable t A) : P.Stable t fun s => p → A s :=
  fun u s s' hu hs hs' hguar h hp => hA hp u s s' hu hs hs' hguar (h hp)

/-! ## Rules -/

/-- A program that keeps to the protocol still does after steps of the others. -/
theorem Keeps.others (h : P.Keeps M t p (fun _ _ => True) s) (ho : P.Others t s s') : P.Keeps M t p (fun _ _ => True) s' := by
  cases p with
  | done a => trivial
  | op o next => exact fun s'' h' => h s'' (ho.trans h')

variable {Q : α → σ → Prop} {X : σ → Prop}

/-- One program after the other keeps to the protocol. -/
theorem Keeps.bind {R : β → σ → Prop} {s : σ}
    (hs : P.inv s) (hp : P.Keeps M t p Q s) (hf : ∀ a s, P.inv s → Q a s → P.Keeps M t (f a) R s) :
    P.Keeps M t (p.bind f) R s := by
  induction p generalizing s with
  | done a => exact hf a s hs hp
  | op o next ih =>
    intro s' ho r s'' hstep
    obtain ⟨hinv, hguar, hrest⟩ := hp s' ho r s'' hstep
    exact ⟨hinv, hguar, ih r hinv hrest⟩

/-- What no step of any thread makes false can be carried along. -/
theorem Keeps.carry {R : α → σ → Prop} (hX : ∀ u s s', P.guar u s s' → X s → X s') {s : σ} (hp : P.Keeps M t p Q s) (hx : X s)
    (hR : ∀ a s, Q a s → X s → R a s) : P.Keeps M t p R s := by
  have hothers : ∀ {s s'}, P.Others t s s' → X s → X s' := by
    intro s s' ho hx
    induction ho with
    | refl => exact hx
    | tail _ hstep ih =>
      obtain ⟨-, u, -, hguar⟩ := hstep
      exact hX u _ _ hguar ih
  induction p generalizing s with
  | done a => exact hR a s hp hx
  | op o next ih =>
    intro s' ho r s'' hstep
    obtain ⟨hinv, hguar, hrest⟩ := hp s' ho r s'' hstep
    exact ⟨hinv, hguar, ih r hrest (hX t _ _ hguar (hothers ho hx))⟩

namespace Triple

/-- The rule of sequence. -/
theorem bind {R : β → σ → Prop}
    (hp : P.Triple M t A p Q) (hf : ∀ a, P.Triple M t (Q a) (f a) R) : P.Triple M t A (p >>= f) R :=
  fun s hs ha => Keeps.bind hs (hp s hs ha) fun a s hs hq => hf a s hs hq

variable {a : α} {q : Prop}

theorem pure (h : ∀ s, A s → Q a s) : P.Triple M t A (Pure.pure a) Q := fun s _ ha => h s ha

/-- The rule of an operation: the others may step before it. -/
theorem call {o : Op} {Q : Ans o → σ → Prop} (hA : P.Stable t A)
    (hstep : ∀ s r s', P.inv s → A s → M.step t o s r s' → P.inv s' ∧ P.guar t s s' ∧ Q r s') :
    P.Triple M t A (Prog.call o) Q :=
  fun _ hs ha s' ho r s'' hdo => hstep s' r s'' (Others.inv ho hs) (hA.others ho hs ha) hdo

/-- A stronger precondition. -/
theorem pre (h : P.Triple M t A p Q) (hA : ∀ s, B s → A s) : P.Triple M t B p Q := fun s hs hb => h s hs (hA s hb)

/-- A weaker postcondition. -/
theorem post {Q R : α → σ → Prop} (h : P.Triple M t A p Q) (hQ : ∀ a s, Q a s → R a s) : P.Triple M t A p R :=
  fun s hs ha => (h s hs ha).carry (X := fun _ => True) (fun _ _ _ _ hx => hx) trivial fun a s hq _ => hQ a s hq

/-- What no step of any thread makes false is kept. -/
theorem frame (h : P.Triple M t A p Q)
    (hX : ∀ u s s', P.guar u s s' → X s → X s') : P.Triple M t (fun s => A s ∧ X s) p fun a s => Q a s ∧ X s :=
  fun s hs ha => (h s hs ha.1).carry hX ha.2 fun _ _ => And.intro

/-- A program that ends with the failure of its first part. -/
theorem attempt {ε : Type} {p : Prog Op Ans (Except ε α)} {f : Except ε α → Prog Op Ans (Except ε β)} {Q : Except ε α → σ → Prop}
    {R : Except ε β → σ → Prop} (hp : P.Triple M t A p Q) (herr : ∀ e s, Q (.error e) s → R (.error e) s)
    (hok : ∀ a, P.Triple M t (Q (.ok a)) (f (.ok a)) R) (hf : ∀ e, f (.error e) = Pure.pure (.error e) := by intro _; rfl) :
    P.Triple M t A (p >>= f) R := by
  refine .bind hp fun r => ?_
  cases r with
  | error e =>
    rw [hf]
    exact .pure (herr e)
  | ok a => exact hok a

/-- A program of operations that each keep what is known. -/
theorem only (hp : p.Only ok) (hA : P.Stable t A)
    (hstep : ∀ o s r s', ok o → P.inv s → A s → M.step t o s r s' → P.inv s' ∧ P.guar t s s' ∧ A s') :
    P.Triple M t A p fun _ => A := by
  intro s hs ha
  induction p generalizing s with
  | done a => exact ha
  | op o next ih =>
    intro s' ho r s'' hdo
    obtain ⟨hinv, hguar, ha'⟩ := hstep o s' r s'' hp.1 (Others.inv ho hs) (hA.others ho hs ha) hdo
    exact ⟨hinv, hguar, ih r (hp.2 r) s'' hinv ha'⟩

/-- A precondition that does not depend on the state. -/
theorem of_imp (h : q → P.Triple M t A p Q) : P.Triple M t (fun s => q ∧ A s) p Q :=
  fun s hs ha => h ha.1 s hs ha.2

/-- A first part whose answer is known. -/
theorem bind_eq {R : β → σ → Prop} (hp : P.Triple M t A p fun r s => r = a ∧ B s) (hf : P.Triple M t B (f a) R) :
    P.Triple M t A (p >>= f) R :=
  hp.bind fun _ => of_imp fun h => h ▸ hf

end Triple

end Protocol

/-! ## Every run keeps to the protocol -/

section Runs

variable {P : Protocol σ} {M : Machine Op Ans σ} {init p p' : Pool Op Ans σ}

/-- The invariant holds, and every thread keeps to the protocol. -/
def Pool.Holds (P : Protocol σ) (M : Machine Op Ans σ) (p : Pool Op Ans σ) : Prop :=
  P.inv p.state ∧ ∀ t, P.Keeps M t (p.todo t) (fun _ _ => True) p.state

variable (hexit : ∀ t s, P.inv s → P.inv (M.exit t s) ∧ P.guar t s (M.exit t s))

include hexit

variable {t : Tid}

/-- One step of any thread meets its guarantee and leaves every thread keeping to the protocol. -/
theorem Step.holds (h : Step M t p p') (hp : p.Holds P M) : p'.Holds P M ∧ P.guar t p.state p'.state := by
  have hnext : ∀ {s s' : σ} {todo : Tid → Prog Op Ans Unit} {q : Prog Op Ans Unit}, P.inv s' → P.guar t s s' →
      (∀ u, P.Keeps M u (todo u) (fun _ _ => True) s) → P.Keeps M t q (fun _ _ => True) s' →
      (⟨s', update todo t q⟩ : Pool Op Ans σ).Holds P M := by
    intro s s' todo q hinv hguar hall hq
    refine ⟨hinv, fun u => ?_⟩
    by_cases hu : u = t
    · subst hu
      simpa using hq
    · have hother : P.Others u s s' := Relation.ReflTransGen.single ⟨hinv, t, fun h => hu h.symm, hguar⟩
      simpa [update_of_ne hu] using (hall u).others hother
  cases h with
  | run htodo hstep =>
    have hkeeps := hp.2 t
    simp only [htodo] at hkeeps
    obtain ⟨hinv, hguar, hrest⟩ := hkeeps _ .refl _ _ hstep
    exact ⟨hnext hinv hguar hp.2 hrest, hguar⟩
  | kill =>
    obtain ⟨hinv, hguar⟩ := hexit t _ hp.1
    exact ⟨hnext hinv hguar hp.2 trivial, hguar⟩

/-- In every pool that is reached the invariant holds. -/
theorem Reaches.holds (h : Reaches M init p) (hinit : init.Holds P M) : p.Holds P M := by
  induction h with
  | refl => exact hinit
  | step t _ hstep ih => exact (hstep.holds hexit ih).1

/-- Every step of a run meets the guarantee of its thread. -/
theorem Reaches.guar (h : Reaches M init p) (hinit : init.Holds P M) (hstep : Step M t p p') : P.guar t p.state p'.state :=
  (hstep.holds hexit (h.holds hexit hinit)).2

end Runs

/-! ## Runs that are played -/

/-- Runs can be joined. -/
theorem Reaches.trans {p q r : Pool Op Ans σ} (h : Reaches M p q) (h' : Reaches M q r) : Reaches M p r := by
  induction h' with
  | refl => exact h
  | step t _ hstep ih => exact .step t ih hstep

/-- A thread does its next operation, with a choice of what is left open, or is killed. -/
inductive Turn (χ : Type) where
  | run (t : Tid) (c : χ)
  | kill (t : Tid)

section Play

variable {χ : Type} (M : Machine Op Ans σ) (exec : χ → Tid → (o : Op) → σ → Option (Ans o × σ))

/-- The pool after a turn, `exec` saying what an operation is answered and leaves. -/
def Pool.turn : Turn χ → Pool Op Ans σ → Option (Pool Op Ans σ)
  | .run t c, p =>
    match p.todo t with
    | .done _ => none
    | .op o next => (exec c t o p.state).map fun a => ⟨a.2, update p.todo t (next a.1)⟩
  | .kill t, p => some ⟨M.exit t p.state, update p.todo t (.done ())⟩

/-- The pool after some turns. -/
def Pool.play : List (Turn χ) → Pool Op Ans σ → Option (Pool Op Ans σ)
  | [], p => some p
  | x :: xs, p => (p.turn M exec x).bind (Pool.play xs)

variable {M exec} (hexec : ∀ c t o s r s', exec c t o s = some (r, s') → M.step t o s r s') {p p' : Pool Op Ans σ}

include hexec

/-- A turn is a step of its thread. -/
theorem Pool.step_of_turn {x : Turn χ} (h : p.turn M exec x = some p') : ∃ t, Step M t p p' := by
  cases x with
  | run t c =>
    simp only [Pool.turn] at h
    split at h
    · cases h
    · next o next htodo =>
      obtain ⟨⟨r, s'⟩, hdone, rfl⟩ := Option.map_eq_some_iff.1 h
      exact ⟨t, .run htodo (hexec c t o p.state r s' hdone)⟩
  | kill t =>
    cases h
    exact ⟨t, .kill⟩

/-- What is played is a run. -/
theorem Pool.reaches_of_play {xs : List (Turn χ)} (h : p.play M exec xs = some p') : Reaches M p p' := by
  induction xs generalizing p with
  | nil =>
    cases h
    exact .refl
  | cons x xs ih =>
    obtain ⟨q, hq, hrest⟩ := Option.bind_eq_some_iff.1 h
    obtain ⟨t, hstep⟩ := Pool.step_of_turn hexec hq
    exact (Reaches.step t .refl hstep).trans (ih hrest)

/-- A run found by playing it. -/
theorem Pool.exists_of_play {Q : Pool Op Ans σ → Prop} [DecidablePred Q] (xs : List (Turn χ))
    (h : ((p.play M exec xs).any fun p' => decide (Q p'))) : ∃ p', Reaches M p p' ∧ Q p' := by
  obtain ⟨p', hp', hq⟩ := (Option.any_eq_true _ _).1 h
  exact ⟨p', Pool.reaches_of_play hexec hp', of_decide_eq_true hq⟩

end Play

/-! ## A thread that runs alone -/

/-- A run of a program with no other thread in between, to its result or to where it is killed. -/
inductive Exec (M : Machine Op Ans σ) (t : Tid) : Prog Op Ans α → σ → Option α → σ → Prop where
  | done {a : α} {s : σ} : Exec M t (.done a) s (some a) s
  | op {o : Op} {next : Ans o → Prog Op Ans α} {r : Ans o} {x : Option α} {s s' s'' : σ} :
      M.step t o s r s' → Exec M t (next r) s' x s'' → Exec M t (.op o next) s x s''
  | kill {p : Prog Op Ans α} {s : σ} : Exec M t p s none (M.exit t s)

/-- A run of one program after the other: it is killed in the first, or goes on with the second. -/
theorem Exec.bind_cases {x : Option β} (h : Exec M t (p >>= f) s x s') :
    (x = none ∧ Exec M t p s none s') ∨ ∃ a s₁, Exec M t p s (some a) s₁ ∧ Exec M t (f a) s₁ x s' := by
  induction p generalizing s with
  | done a => exact .inr ⟨a, s, .done, h⟩
  | op o next ih =>
    cases h with
    | op hdo hrest =>
      rcases ih _ hrest with ⟨hx, hrun⟩ | ⟨a, s₁, hrun, hf⟩
      · exact .inl ⟨hx, .op hdo hrun⟩
      · exact .inr ⟨a, s₁, .op hdo hrun, hf⟩
    | kill => exact .inl ⟨rfl, .kill⟩

/-- Runs in sequence. -/
theorem Exec.bind {x : Option β}
    {s s₁ s' : σ} (h : Exec M t p s (some a) s₁) (hf : Exec M t (f a) s₁ x s') : Exec M t (p >>= f) s x s' := by
  induction p generalizing s with
  | done b =>
    cases h
    exact hf
  | op o next ih =>
    cases h with
    | op hdo hrest => exact .op hdo (ih _ hrest)

theorem Exec.call {o : Op} {r : Ans o} (h : M.step t o s r s') : Exec M t (Prog.call o) s (some r) s' := .op h .done

/-- What a run returns. -/
theorem Exec.returns {Q : α → Prop} (h : Exec M t p s (some a) s') (hp : p.Returns Q) : Q a := by
  induction p generalizing s with
  | done b =>
    cases h
    exact hp
  | op o next ih =>
    cases h with
    | op hdo hrest => exact ih _ hrest (hp _)

/-- Where `A` holds besides `K`, the program returns with `Q`, and keeps `K` wherever it is killed. -/
def SafeTriple (M : Machine Op Ans σ) (t : Tid) (K A : σ → Prop) (p : Prog Op Ans α) (Q : α → σ → Prop) : Prop :=
  (∀ s, K s → K (M.exit t s)) → ∀ s x s', K s → A s → Exec M t p s x s' → K s' ∧ ∀ a, x = some a → Q a s'

namespace SafeTriple

variable {M : Machine Op Ans σ} {t : Tid} {A B K : σ → Prop} {p : Prog Op Ans α} {Q R : α → σ → Prop}

theorem pure (h : ∀ s, A s → Q a s) : SafeTriple M t K A (Pure.pure a) Q := by
  intro hexit s x s' hk ha hrun
  cases hrun with
  | done =>
    refine ⟨hk, ?_⟩
    rintro _ ⟨⟩
    exact h s ha
  | kill => exact ⟨hexit s hk, nofun⟩

/-- An operation that keeps `K`. -/
theorem call {o : Op} {Q : Ans o → σ → Prop} (hstep : ∀ s r s', K s → A s → M.step t o s r s' → K s' ∧ Q r s') :
    SafeTriple M t K A (Prog.call o) Q := by
  intro hexit s x s' hk ha hrun
  cases hrun with
  | op hdo hrest =>
    obtain ⟨hk', hq⟩ := hstep s _ _ hk ha hdo
    exact pure (fun _ h => h) hexit _ x s' hk' hq hrest
  | kill => exact ⟨hexit s hk, nofun⟩

/-- An operation whose outcome gives `K`. -/
theorem call_of {o : Op} {Q : Ans o → σ → Prop} (hK : ∀ r s, Q r s → K s)
    (hstep : ∀ s r s', A s → M.step t o s r s' → Q r s') : SafeTriple M t K A (Prog.call o) Q := by
  refine .call fun s r s' _ ha hdo => ?_
  have hq := hstep s r s' ha hdo
  exact ⟨hK r s' hq, hq⟩

/-- The rule of sequence. -/
theorem bind {R : β → σ → Prop} (hp : SafeTriple M t K A p Q)
    (hf : ∀ a, SafeTriple M t K (Q a) (f a) R) : SafeTriple M t K A (p >>= f) R := by
  intro hexit s x s' hk ha hrun
  rcases hrun.bind_cases with ⟨rfl, hkilled⟩ | ⟨a, s₁, hfirst, hrest⟩
  · exact ⟨(hp hexit s _ s' hk ha hkilled).1, nofun⟩
  · obtain ⟨hk₁, hq⟩ := hp hexit s _ s₁ hk ha hfirst
    exact hf a hexit s₁ x s' hk₁ (hq a rfl) hrest

variable (h : SafeTriple M t K A p Q)
include h

/-- A stronger precondition. -/
theorem pre (hA : ∀ s, B s → A s) : SafeTriple M t K B p Q :=
  fun hexit s x s' hk hb hrun => h hexit s x s' hk (hA s hb) hrun

/-- A weaker postcondition. -/
theorem post (hQ : ∀ a s, Q a s → R a s) : SafeTriple M t K A p R := by
  intro hexit s x s' hk ha hrun
  obtain ⟨hk', hq⟩ := h hexit s x s' hk ha hrun
  exact ⟨hk', fun a hx => hQ a s' (hq a hx)⟩

/-- With what the program returns whatever it is answered. -/
theorem returns {P : α → Prop} (hp : p.Returns P) :
    SafeTriple M t K A p fun a s => Q a s ∧ P a := by
  intro hexit s x s' hk ha hrun
  obtain ⟨hk', hq⟩ := h hexit s x s' hk ha hrun
  refine ⟨hk', ?_⟩
  rintro a rfl
  exact ⟨hq a rfl, hrun.returns hp⟩

omit h

/-- A precondition that does not depend on the state. -/
theorem of_imp (h : q → SafeTriple M t K A p Q) : SafeTriple M t K (fun s => A s ∧ q) p Q :=
  fun hexit s x s' hk ha => h ha.2 hexit s x s' hk ha.1

theorem of_const (h : q → SafeTriple M t K (fun _ => True) p Q) : SafeTriple M t K (fun _ => q) p Q :=
  fun hexit s x s' hk hq => h hq hexit s x s' hk trivial

/-- A choice that does not depend on the state. -/
theorem of_exists {ι : Sort*} {C : ι → σ → Prop} (h : ∀ i, SafeTriple M t K (C i) p Q) : SafeTriple M t K (fun s => ∃ i, C i s) p Q :=
  fun hexit s x s' hk ⟨i, hc⟩ => h i hexit s x s' hk hc

/-- A program of operations that each keep what is known. -/
theorem only (hp : p.Only ok)
    (hstep : ∀ o s r s', ok o → K s → A s → M.step t o s r s' → K s' ∧ A s') : SafeTriple M t K A p fun _ => A := by
  intro hexit s x s' hk ha hrun
  induction p generalizing s with
  | done a =>
    cases hrun with
    | done => exact ⟨hk, fun _ _ => ha⟩
    | kill => exact ⟨hexit s hk, nofun⟩
  | op o next ih =>
    cases hrun with
    | op hdo hrest =>
      obtain ⟨hk', ha'⟩ := hstep o s _ _ hp.1 hk ha hdo
      exact ih _ (hp.2 _) _ hk' ha' hrest
    | kill => exact ⟨hexit s hk, nofun⟩

end SafeTriple

section PlayAlone

variable {χ : Type} (M : Machine Op Ans σ) (exec : χ → Tid → (o : Op) → σ → Option (Ans o × σ)) (t : Tid)

/-- The run of a program whose operations make these choices; it is killed when none is left. -/
def Prog.play : List χ → Prog Op Ans α → σ → Option α × σ
  | _, .done a, s => (some a, s)
  | [], .op _ _, s => (none, M.exit t s)
  | c :: cs, .op o next, s =>
    match exec c t o s with
    | some (r, s') => play cs (next r) s'
    | none => (none, M.exit t s)

variable {M exec t}

/-- What is played is a run of the program. -/
theorem Prog.exec_play (hexec : ∀ c t o s r s', exec c t o s = some (r, s') → M.step t o s r s') (cs : List χ)
    (p : Prog Op Ans α) (s : σ) : Exec M t p s (p.play M exec t cs s).1 (p.play M exec t cs s).2 := by
  induction cs generalizing p s with
  | nil =>
    cases p with
    | done a => exact .done
    | op o next => exact .kill
  | cons c cs ih =>
    cases p with
    | done a => exact .done
    | op o next =>
      simp only [Prog.play]
      split
      · next r s' hdo => exact .op (hexec c t o s r s' hdo) (ih _ _)
      · exact .kill

end PlayAlone

end Threads
