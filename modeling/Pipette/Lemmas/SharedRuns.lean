import Pipette.Store.Processes

/-!
# Runs that are played

One way the operations of the shared disk can go, as a function: nothing fails, and what the file system and the plan choose is
given (`perform`). What is played this way is reached (`play_reaches`).
-/

namespace Pipette.Shared

open Files Threads Option Bool

variable {μ : Type}

/-- What is left open in an operation that does not fail. -/
inductive Choice where
  | plain
  | unique (u : Text)
  | names (names : List Text)
  | targets (targets : List Target)
  | time (now : Int)

def dirAt (tr : Tree Text (Data μ)) (p : StorePath) : Bool :=
  match tr p with
  | some .dir => true
  | _ => false

theorem dirAt_iff {tr : Tree Text (Data μ)} {p : StorePath} : dirAt tr p ↔ tr p = some .dir := by
  unfold dirAt
  split
  · next h => simp [h]
  · next h => simpa using h

/-- Threads from `n` on share no lock. -/
def Few (n : Nat) (d : Disk μ) : Prop := ∀ h u, n ≤ u → d.shared h u = false

/-- The lock can be taken, when only threads below `n` share any. -/
def takable (n : Nat) (d : Disk μ) (h : Handle) : Bool := d.excl h = none && (List.range n).all fun u => !d.shared h u

variable {n : Nat} {d : Disk μ} {t : Tid} {c : Choice} {d' : Disk μ} {o : Op μ} {r : Ans o} {x : Tid × Choice}
  {p p' : Pool (Op μ) Ans (Disk μ)} {xs : List (Tid × Choice)} {init : Pool (Op μ) Ans (Disk μ)}

theorem free_of_takable {h : Handle} (hfew : Few n d) (hfree : takable n d h) : d.Free h := by
  simp only [takable, and_eq_true, decide_eq_true_eq, List.all_eq_true, List.mem_range, not_eq_true'] at hfree
  refine ⟨hfree.1, fun u => ?_⟩
  by_cases hu : u < n
  · exact hfree.2 u hu
  · exact hfew h u (Nat.le_of_not_lt hu)

/-- A file can be written at `p`. -/
def writable (d : Disk μ) (p : StorePath) : Bool := dirAt d.tree p.dropLast && !dirAt d.tree p

theorem writable_iff {p : StorePath} : writable d p ↔ d.tree p.dropLast = some .dir ∧ d.tree p ≠ some .dir := by
  rw [writable, and_eq_true, not_eq_true', ← not_eq_true, dirAt_iff, dirAt_iff]

/-- The operation as it goes when nothing fails, or nothing when it has to wait or is not played. -/
def perform (n : Nat) (t : Tid) (c : Choice) (d : Disk μ) : (o : Op μ) → Option (Ans o × Disk μ)
  | .exists p => some ((d.tree p).isSome, d)
  | .read p =>
    match d.tree p with
    | some (.file content) => some (decode content, d)
    | _ => some (.failed, d)
  | .mkdirs p => if clear p d.tree then some (true, d.withTree (mkdirAll p d.tree)) else none
  | .openFile p => if fileAt d.tree p then some (.opened (d.gen p), d) else if (d.tree p).isNone then some (.notFound, d) else none
  | .openCreate p =>
    if fileAt d.tree p then some (some (d.gen p), d)
    else if (d.tree p).isNone && dirAt d.tree p.dropLast then some (some (d.gen p + 1), d.create p) else none
  | .createStagingLock k key =>
    match c with
    | .unique u =>
      if isUnique u && !d.seen k (stagedName key u) && (d.tree (stagedLockPath k (stagedName key u))).isNone && dirAt d.tree (staging k) then
        some (some ⟨k, stagedName key u, d.gen (stagedLockPath k (stagedName key u)) + 1⟩,
          (d.create (stagedLockPath k (stagedName key u))).use k (stagedName key u))
      else none
    | _ => none
  | .lock h | .tryLock h => if takable n d h then some (.locked, d.lockExcl t h) else none
  | .lockShared h => if d.excl h = none then some (.locked, d.lockShared t h) else none
  | .unlock h => some ((), d.unlock t h)
  | .fill p => if dirAt d.tree p then some (true, d.withTree d.tree) else none
  | .write p m => if writable d p then some (true, d.withTree (write p (.file (.manifest m)) d.tree)) else none
  | .replace p m => if writable d p then some ((), d.withTree (write p (.file (.manifest m)) d.tree)) else none
  | .rename .. => none
  | .moveOut p k key =>
    match c with
    | .unique u =>
      if isUnique u && !d.seen k (stagedName key u) && (d.tree p).isSome && !decide (p <+: stagedPath k (stagedName key u)) &&
          dirAt d.tree (staging k) then
        some (.moved (stagedName key u), (d.withTree (move p (stagedPath k (stagedName key u)) d.tree)).use k (stagedName key u))
      else none
    | _ => none
  | .remove p => some (.removed, d.withTree (remove (fun _ => false) p d.tree))
  | .list p =>
    match c with
    | .names names => if names.all fun name => decide (IsName name) && (d.tree (p ++ [name])).isSome then some (names, d) else none
    | _ => some ([], d)
  | .clock =>
    match c with
    | .time now => some (now, d)
    | _ => some (0, d)
  | .measure => some (0, d)
  | .choose found =>
    match c with
    | .targets targets => if targets.all fun x => decide (x ∈ found) then some (targets, d) else none
    | _ => some ([], d)
  | .note m => some ((), d.noted t m)

/-- What is performed is done. -/
theorem does_of_perform (hfew : Few n d) (h : perform n t c d o = some (r, d')) : does true t o d r d' := by
  cases o with
  | «exists» p =>
    cases h
    exact ⟨rfl, rfl⟩
  | read p =>
    simp only [perform] at h
    split at h
    · next content hc =>
      cases h
      exact ⟨rfl, .inr ⟨content, hc, rfl⟩⟩
    · cases h
      exact ⟨rfl, .inl rfl⟩
  | mkdirs p =>
    obtain ⟨hclear, ⟨⟩⟩ := ite_none_right_eq_some.1 h
    exact ⟨p, List.prefix_rfl, hclear, rfl, fun _ => rfl⟩
  | openFile p =>
    simp only [perform] at h
    split at h
    · next hfile =>
      cases h
      exact ⟨rfl, .inl ⟨rfl, hfile⟩⟩
    split at h
    · next hnone =>
      cases h
      exact ⟨rfl, .inr (.inl ⟨rfl, by simpa using hnone⟩)⟩
    · cases h
  | openCreate p =>
    simp only [perform] at h
    split at h
    · next hfile =>
      cases h
      exact .inl ⟨rfl, hfile, rfl⟩
    split at h
    · next hnew =>
      cases h
      simp only [and_eq_true, isNone_iff_eq_none] at hnew
      exact .inr (.inl ⟨rfl, hnew.1, dirAt_iff.1 hnew.2, rfl⟩)
    · cases h
  | createStagingLock k key =>
    cases c with
    | unique u =>
      obtain ⟨hnew, ⟨⟩⟩ := ite_none_right_eq_some.1 h
      simp only [and_eq_true, isNone_iff_eq_none, not_eq_true'] at hnew
      exact .inl ⟨u, hnew.1.1.1, hnew.1.1.2, hnew.1.2, dirAt_iff.1 hnew.2, rfl, rfl⟩
    | _ => cases h
  | lock handle =>
    obtain ⟨hfree, ⟨⟩⟩ := ite_none_right_eq_some.1 h
    exact .inl ⟨rfl, rfl, free_of_takable hfew hfree, rfl⟩
  | tryLock handle =>
    obtain ⟨hfree, ⟨⟩⟩ := ite_none_right_eq_some.1 h
    exact .inl (.inl ⟨rfl, rfl, free_of_takable hfew hfree, rfl⟩)
  | lockShared handle =>
    obtain ⟨hfree, ⟨⟩⟩ := ite_none_right_eq_some.1 h
    exact .inl ⟨rfl, rfl, hfree, rfl⟩
  | unlock handle | measure | note m =>
    cases h
    exact rfl
  | fill p =>
    obtain ⟨hdir, ⟨⟩⟩ := ite_none_right_eq_some.1 h
    exact .inl ⟨dirAt_iff.1 hdir, d.tree, Within.refl _ _, rfl⟩
  | write p m =>
    obtain ⟨hdir, ⟨⟩⟩ := ite_none_right_eq_some.1 h
    exact .inl ⟨(writable_iff.1 hdir).1, (writable_iff.1 hdir).2, .inl rfl⟩
  | replace p m =>
    obtain ⟨hdir, ⟨⟩⟩ := ite_none_right_eq_some.1 h
    exact .inl ⟨(writable_iff.1 hdir).1, (writable_iff.1 hdir).2, rfl⟩
  | rename p q => cases h
  | moveOut p k key =>
    cases c with
    | unique u =>
      obtain ⟨hnew, ⟨⟩⟩ := ite_none_right_eq_some.1 h
      simp only [and_eq_true, not_eq_true', decide_eq_false_iff_not] at hnew
      exact .inl ⟨u, hnew.1.1.1.1, hnew.1.1.1.2, hnew.1.1.2, hnew.1.2, dirAt_iff.1 hnew.2, rfl, rfl⟩
    | _ => cases h
  | remove p =>
    cases h
    exact ⟨_, rfl, fun _ => rfl⟩
  | list p =>
    cases c with
    | names names =>
      obtain ⟨hnames, ⟨⟩⟩ := ite_none_right_eq_some.1 h
      simp only [List.all_eq_true, and_eq_true, decide_eq_true_eq] at hnames
      exact ⟨rfl, hnames⟩
    | _ =>
      cases h
      exact ⟨rfl, fun _ hname => nomatch hname⟩
  | clock =>
    simp only [perform] at h
    split at h <;> cases h <;> exact rfl
  | choose found =>
    cases c with
    | targets targets =>
      obtain ⟨htargets, ⟨⟩⟩ := ite_none_right_eq_some.1 h
      simp only [List.all_eq_true, decide_eq_true_eq] at htargets
      exact ⟨rfl, htargets⟩
    | _ =>
      cases h
      exact ⟨rfl, fun _ hx => nomatch hx⟩

/-- Only the thread itself comes to share a lock. -/
theorem few_of_perform (ht : t < n) (hfew : Few n d) (h : perform n t c d o = some (r, d')) : Few n d' := by
  have hsame : ∀ {x : Disk μ}, x.shared = d.shared → Few n x := fun hx => by
    intro h u hu
    rw [hx]
    exact hfew h u hu
  cases o <;> simp only [perform] at h <;> (repeat' split at h) <;> cases h
  case lockShared.isTrue handle _ =>
    intro h u hu
    have hne : u ≠ t := (Nat.lt_of_lt_of_le ht hu).ne'
    simp [Disk.lockShared, hne, hfew h u hu]
  case unlock handle =>
    intro h u hu
    simp [Disk.unlock, hfew h u hu]
  case note m => cases m <;> exact hsame rfl
  all_goals exact hsame rfl

/-- The next operation of a thread below `n` as it is played. -/
def turn (n : Nat) (x : Tid × Choice) (p : Pool (Op μ) Ans (Disk μ)) : Option (Pool (Op μ) Ans (Disk μ)) :=
  match p.todo x.1 with
  | .done _ => none
  | .op o next =>
    if x.1 < n then (perform n x.1 x.2 p.state o).map fun a => ⟨a.2, Function.update p.todo x.1 (next a.1)⟩ else none

def play (n : Nat) : List (Tid × Choice) → Pool (Op μ) Ans (Disk μ) → Option (Pool (Op μ) Ans (Disk μ))
  | [], p => some p
  | x :: xs, p => (turn n x p).bind (play n xs)

/-- So many turns of one thread in which nothing is left open. -/
def turns (t : Tid) (k : Nat) : List (Tid × Choice) := List.replicate k (t, .plain)

theorem step_of_turn (hfew : Few n p.state) (h : turn n x p = some p') : Step (machine μ true) x.1 p p' ∧ Few n p'.state := by
  unfold turn at h
  split at h
  · cases h
  · next o next htodo =>
    split at h
    · next ht =>
      obtain ⟨⟨r, d'⟩, hperform, rfl⟩ := map_eq_some_iff.1 h
      exact ⟨.run htodo (does_of_perform hfew hperform), few_of_perform ht hfew hperform⟩
    · cases h

theorem play_reaches (hfew : Few n p.state)
    (hp : Reaches (machine μ true) init p) (h : play n xs p = some p') : Reaches (machine μ true) init p' ∧ Few n p'.state := by
  induction xs generalizing p with
  | nil =>
    cases h
    exact ⟨hp, hfew⟩
  | cons x xs ih =>
    obtain ⟨q, hq, hrest⟩ := bind_eq_some_iff.1 h
    obtain ⟨hstep, hfew'⟩ := step_of_turn hfew hq
    exact ih hfew' (.step x.1 hp hstep) hrest

theorem exists_of_play {Q : Pool (Op μ) Ans (Disk μ) → Prop} [DecidablePred Q] (xs : List (Tid × Choice)) (hfew : Few n init.state)
    (h : ((play n xs init).any fun p => decide (Q p))) : ∃ p, Reaches (machine μ true) init p ∧ Q p := by
  obtain ⟨p, hp, hcheck⟩ := (any_eq_true _ _).1 h
  exact ⟨p, (play_reaches hfew .refl hp).1, of_decide_eq_true hcheck⟩

theorem exists_step_of_play {Q : Pool (Op μ) Ans (Disk μ) → Pool (Op μ) Ans (Disk μ) → Prop} [∀ p, DecidablePred (Q p)]
    (xs : List (Tid × Choice)) (x : Tid × Choice) (hfew : Few n init.state)
    (h : ((play n xs init).any fun p => (turn n x p).any fun p' => decide (Q p p'))) :
    ∃ p p', Reaches (machine μ true) init p ∧ Step (machine μ true) x.1 p p' ∧ Q p p' := by
  obtain ⟨p, hp, hcheck⟩ := (any_eq_true _ _).1 h
  obtain ⟨hreach, hfew'⟩ := play_reaches hfew .refl hp
  obtain ⟨p', hp', hafter⟩ := (any_eq_true _ _).1 hcheck
  exact ⟨p, p', hreach, (step_of_turn hfew' hp').1, of_decide_eq_true hafter⟩

end Pipette.Shared
