import Pipette.Lemmas.SharedLocks

/-!
# What a process knows

Assertions about the shared disk that stay true whatever the other processes do, about locks that are held and what they
guard. The specifications of the programs are stated with them (`Spec`).
-/

namespace Pipette.Shared

open Files Threads

variable {α μ : Type} {A : Artifacts α μ} {mode : Mode α} {t u : Tid} {d d' : Disk μ}

/-! ## Specifications -/

/-- On a file system with locks, the program keeps to the protocol from `I` and returns with `Q`. -/
def Spec {β : Type} (A : Artifacts α μ) (mode : Mode α) (t : Tid) (I : Disk μ → Prop) (p : Act μ β) (Q : β → Disk μ → Prop) : Prop :=
  (protocol A mode).Triple (machine μ true) t I p Q

/-- The assertion stays true whatever the other threads do. -/
def Lasts (A : Artifacts α μ) (mode : Mode α) (t : Tid) (I : Disk μ → Prop) : Prop := (protocol A mode).Stable t I

section Rules

variable {β γ : Type} {I J : Disk μ → Prop}

variable {p : Act μ β} {Q : β → Disk μ → Prop} {o : Op μ} {g : Nat} {e : Entry} {m : μ} {st : Staged}

namespace Spec

theorem bind {f : β → Act μ γ} {R : γ → Disk μ → Prop} (hp : Spec A mode t I p Q)
    (hf : ∀ b, Spec A mode t (Q b) (f b) R) : Spec A mode t I (p >>= f) R :=
  Protocol.Triple.bind hp hf

theorem ret {b : β} (h : ∀ d, I d → Q b d) : Spec A mode t I (pure b) Q := Protocol.Triple.pure h

theorem same {b : β} (h : I = Q b) : Spec A mode t I (pure b) Q := .ret fun _ hd => h ▸ hd

theorem pre (h : Spec A mode t I p Q) (hI : ∀ d, J d → I d) : Spec A mode t J p Q := Protocol.Triple.pre h hI

theorem post {R : β → Disk μ → Prop} (h : Spec A mode t I p Q) (hQ : ∀ b d, Q b d → R b d) : Spec A mode t I p R :=
  Protocol.Triple.post h hQ

theorem of_false : Spec A mode t (fun _ => False) p Q := fun _ _ h => h.elim

/-- What no step of any thread makes false is carried along. -/
theorem frame {X : Disk μ → Prop} (h : Spec A mode t I p Q)
    (hX : ∀ u d d', Guar A mode u d d' → X d → X d') : Spec A mode t (fun d => I d ∧ X d) p fun b d => Q b d ∧ X d :=
  Protocol.Triple.frame h hX

/-- What the precondition says whatever the disk is. -/
theorem of_imp {q : Prop} (h : q → Spec A mode t I p Q) : Spec A mode t (fun d => q ∧ I d) p Q :=
  Protocol.Triple.of_imp h

/-- One operation: every step it can do keeps to the protocol and ends in `Q`. -/
theorem op {Q : Ans o → Disk μ → Prop} (hI : Lasts A mode t I)
    (h : ∀ d r d', Inv A mode d → I d → does true t o d r d' → Ok A mode t d d' ∧ Q r d') : Spec A mode t I (call o) Q := by
  refine Protocol.Triple.call hI fun d r d' hinv hd hdo => ?_
  obtain ⟨⟨hinv', hguar⟩, hq⟩ := h d r d' hinv hd hdo
  exact ⟨hinv', hguar, hq⟩

theorem look {Q : Ans o → Disk μ → Prop} (hI : Lasts A mode t I)
    (hsame : ∀ d r d', does true t o d r d' → d' = d) (h : ∀ d r, Inv A mode d → I d → does true t o d r d → Q r d) :
    Spec A mode t I (call o) Q := by
  refine .op hI fun d r d' hinv hd hdo => ?_
  obtain rfl := hsame d r d' hdo
  exact ⟨ok_refl hinv, h _ r hinv hd hdo⟩

/-- An operation that only looks and need not be known of. -/
theorem still (hI : Lasts A mode t I) (hsame : ∀ d r d', does true t o d r d' → d' = d) : Spec A mode t I (call o) fun _ => I :=
  .look hI hsame fun _ _ _ hd _ => hd

end Spec

variable {p : StorePath}

theorem Spec.exists {J : Bool → Disk μ → Prop} (hI : Lasts A mode t I)
    (h : ∀ d, Inv A mode d → I d → J (d.tree p).isSome d) : Spec A mode t I (call (.exists p)) J := by
  refine .look hI (fun _ _ _ h => h.1) fun d r hinv hd hdo => ?_
  obtain ⟨-, rfl⟩ := hdo
  exact h d hinv hd

/-- A removal, step by step, of a path where each step keeps to the protocol. -/
theorem Spec.removePath (hI : Lasts A mode t I)
    (h : ∀ d keep, Inv A mode d → I d → Ok A mode t d (d.withTree (remove keep p d.tree)) ∧ I (d.withTree (remove keep p d.tree)))
    (fuel : Nat) : Spec A mode t I (removePath p fuel) fun _ => I := by
  induction fuel with
  | zero => exact .same rfl
  | succ fuel ih =>
    refine .bind (.op (Q := fun _ => I) hI ?_) fun r => ?_
    · rintro d r d' hinv hd ⟨keep, rfl, -⟩
      exact h d keep hinv hd
    · cases r with
      | removed | failed => exact .same rfl
      | more => exact ih

end Rules

/-! ## Locks of entries -/

/-- The file is at its path. -/
def Open (h : Handle) (d : Disk μ) : Prop := fileAt d.tree h.path ∧ d.gen h.path = h.gen

theorem Guar.keeps_open (hguar : Guar A mode u d d') {k : StoreKind} {key suffix : Text}
    (h : Open ⟨entryLockPath k key suffix, g⟩ d) : Open ⟨entryLockPath k key suffix, g⟩ d' := by
  obtain ⟨hfile, hgen⟩ := hguar.lockFile k (key ++ suffix) h.1
  exact ⟨hfile, hgen.trans h.2⟩

variable (k : StoreKind) (key suffix : Text)

theorem lasts_open (g : Nat) : Lasts A mode t (Open ⟨entryLockPath k key suffix, g⟩) :=
  fun _ _ _ _ _ _ hguar h => hguar.keeps_open h

theorem lasts_excl (h : Handle) : Lasts A mode t fun d => d.excl h = some t :=
  fun _ _ _ hu _ _ hguar hx => (hguar.excl h t hu.symm).2 hx

/-- The thread holds the lock of the file, which is at its path. -/
def Has (t : Tid) (h : Handle) (d : Disk μ) : Prop := Open h d ∧ d.excl h = some t

theorem lasts_has (g : Nat) : Lasts A mode t (Has t ⟨entryLockPath k key suffix, g⟩) :=
  (lasts_open k key suffix g).and (lasts_excl _)

theorem Has.holds (h : Has t ⟨p, g⟩ d) : Holds d t p := by
  refine ⟨h.1.1, ?_⟩
  have hgen : d.gen p = g := h.1.2
  rw [hgen]
  exact h.2

theorem Holds.unique (h : Holds d t p) (h' : Holds d u p) : t = u := by simpa using h.2.symm.trans h'.2

/-- The thread shares the lock of the file, which is at its path. -/
def HasShared (t : Tid) (h : Handle) (d : Disk μ) : Prop := Open h d ∧ d.shared h t

theorem lasts_hasShared (g : Nat) : Lasts A mode t (HasShared t ⟨entryLockPath k key suffix, g⟩) :=
  (lasts_open k key suffix g).and fun _ _ _ hu _ _ hguar h => (hguar.shared _ t hu.symm).trans h

theorem HasShared.shares (h : HasShared t ⟨e.usePath, g⟩ d) : Shares d t e := by
  refine ⟨h.1.1, ?_⟩
  have hgen : d.gen e.usePath = g := h.1.2
  rw [hgen]
  exact h.2

/-- An entry whose in-use lock is shared stays readable. -/
theorem lasts_readable (he : e.Proper) (g : Nat) :
    Lasts A mode t fun d => HasShared t ⟨e.usePath, g⟩ d ∧ (mode = .tidy → Readable A d.tree e) := by
  intro u d d' hu hinv hinv' hguar h
  refine ⟨lasts_hasShared _ _ _ g u d d' hu hinv hinv' hguar h.1, fun htidy => ?_⟩
  refine (hguar.readable htidy e he (h.2 htidy) fun hholds => ?_).1
  have hfree := hinv.apart _ _ t hholds.2
  rw [h.1.shares.2] at hfree
  cases hfree

/-! ## Missing entries and manifests -/

/-- The artifact is not in its store: nothing is there, or nothing of it has been published. -/
def Missing (A : Artifacts α μ) (mode : Mode α) (a : α) (d : Disk μ) : Prop :=
  (mode = .tidy → Absent d.tree (entryOf A a)) ∧ ∀ b, mode = .calm b → b = a ∧ d.published = []

/-- An entry that is missing stays so while its lock is held. -/
theorem lasts_missing {a : α} (he : (entryOf A a).Proper) (g : Nat) :
    Lasts A mode t fun d => Has t ⟨(entryOf A a).lockPath, g⟩ d ∧ Missing A mode a d := by
  intro u d d' hu hinv hinv' hguar h
  have hnot : ¬Holds d u (entryOf A a).lockPath := fun hholds => hu (hholds.unique h.1.holds)
  refine ⟨lasts_has _ _ _ g u d d' hu hinv hinv' hguar h.1, fun htidy => ?_, fun b hb => ?_⟩
  · exact hguar.absent htidy _ he (h.2.1 htidy) hnot
  · obtain ⟨rfl, hpub⟩ := h.2.2 b hb
    exact ⟨rfl, (hguar.published b hb).1 hpub hnot⟩

/-- The manifest is that of the one publish, stamped some times. -/
def Got (A : Artifacts α μ) (mode : Mode α) (m : μ) (d : Disk μ) : Prop :=
  ∀ a, mode = .calm a → ∃ m₀, d.published = [((entryOf A a).dir, m₀)] ∧ Stamped A m₀ m

theorem Guar.keeps_got (hguar : Guar A mode u d d') (h : Got A mode m d) : Got A mode m d' := by
  intro a ha
  obtain ⟨m₀, hpub, hstamped⟩ := h a ha
  exact ⟨m₀, ((hguar.published a ha).2 (by simp [hpub])).trans hpub, hstamped⟩

theorem lasts_got (m : μ) : Lasts A mode t (Got A mode m) := fun _ _ _ _ _ _ hguar h => hguar.keeps_got h

theorem Got.stamp (h : Got A mode m d) (now : Int) : Got A mode (A.stamp now m) d := by
  intro a ha
  obtain ⟨m₀, hpub, hstamped⟩ := h a ha
  exact ⟨m₀, hpub, hstamped.tail ⟨now, rfl⟩⟩

/-! ## Notes and staged directories -/

/-- What the thread has noted. -/
def Notes (t : Tid) (given : Option Staged) (fetching : Option Entry) (d : Disk μ) : Prop :=
  d.given t = given ∧ d.fetching t = fetching ∧ d.inUse t = none

theorem lasts_notes (given : Option Staged) (fetching : Option Entry) : Lasts A mode t (Notes t given fetching) :=
  fun _ _ _ hu _ _ hguar h =>
    ⟨(hguar.given t hu.symm).trans h.1, (hguar.fetching t hu.symm).trans h.2.1, (hguar.inUse t hu.symm).trans h.2.2⟩

/-- The staged name and its lock file, which may be gone, are of the thread's making. -/
structure Fresh (st : Staged) (d : Disk μ) : Prop where
  name : IsStagedName st.name
  seen : d.seen st.store st.name
  gen : d.gen st.lockPath = st.gen
  file : fileAt d.tree st.lockPath ∨ d.tree st.lockPath = none

theorem Guar.keeps_fresh (hguar : Guar A mode u d d') (h : Fresh st d) : Fresh st d' := by
  refine ⟨h.name, hguar.seen _ _ h.seen, (hguar.stagedGen _ _ h.seen).trans h.gen, ?_⟩
  have hspent : d'.tree st.lockPath = d.tree st.lockPath ∨ d'.tree st.lockPath = none := hguar.spent _ _ h.seen
  rcases hspent with hsame | hnone
  · rw [fileAt_congr hsame, hsame]
    exact h.file
  · exact .inr hnone

theorem lasts_fresh (st : Staged) : Lasts A mode t (Fresh st) := fun _ _ _ _ _ _ hguar h => hguar.keeps_fresh h

/-- The thread has locked the lock file it made. -/
def Own (t : Tid) (st : Staged) (d : Disk μ) : Prop := Fresh st d ∧ d.excl st.lock = some t

theorem lasts_own (st : Staged) : Lasts A mode t (Own t st) := (lasts_fresh st).and (lasts_excl _)

/-- Nobody else holds the lock of a staged directory that is the thread's own. -/
theorem Own.only (h : Own t st d) (hu : Holds d u st.lockPath) : u = t := by
  have hexcl := hu.2
  rw [h.1.gen] at hexcl
  simpa using hexcl.symm.trans h.2

/-- The thread holds the lock file at its path. -/
def Held (t : Tid) (st : Staged) (d : Disk μ) : Prop := Own t st d ∧ fileAt d.tree st.lockPath

theorem Held.holds (h : Held t st d) : Holds d t st.lockPath := by
  refine ⟨h.2, ?_⟩
  rw [h.1.1.gen]
  exact h.1.2

/-- While the lock file is held, nobody else touches it or the staged directory. -/
theorem lasts_held {C : Tree Text (Data μ) → Prop}
    (hC : ∀ tr tr' : Tree Text (Data μ), (∀ p, st.dir <+: p → tr' p = tr p) → C tr → C tr') :
    Lasts A mode t fun d => Held t st d ∧ C d.tree := by
  intro u d d' hu hinv hinv' hguar h
  have hsame := hguar.staged t hu.symm st.store st.name h.1.1.1.name h.1.holds
  refine ⟨⟨lasts_own st u d d' hu hinv hinv' hguar h.1.1, ?_⟩, hC _ _ (fun p hp => hsame p (.inl hp)) h.2⟩
  have hlock : d'.tree st.lockPath = d.tree st.lockPath := hsame _ (.inr List.prefix_rfl)
  rw [fileAt_congr hlock]
  exact h.1.2

end Pipette.Shared
