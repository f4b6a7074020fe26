import Pipette.Lemmas.ModelStore
import Pipette.Store.Processes

/-!
# The protocol of the shared stores

What every process leaves the others to rely on, as an invariant of the disk and a guarantee of each step (`protocol`): locks
are dropped only by their holders, the lock files of entries stay, a staged name is used once, and what another process has
locked is left alone. What is said of entries holds of stores in which every entry is whole (`Mode.tidy`); what is said of one
artifact's publishes, where nothing is swept (`Mode.calm`).
-/

namespace Pipette.Shared

open Files Threads List

/-! ## Paths -/

@[simp] theorem storeRoot_length (k : StoreKind) : (storeRoot k).length = 1 := by cases k <;> rfl

variable {k k' : StoreKind} {x x' child name : Text}

theorem storeRoot_inj (h : storeRoot k = storeRoot k') : k = k' := by
  cases k <;> cases k' <;> first | rfl | exact absurd h (by decide)

/-- A path leads through one child of one store. -/
theorem child_inj {p : StorePath} (h : storeRoot k ++ [x] <+: p) (h' : storeRoot k' ++ [x'] <+: p) : k = k' ∧ x = x' := by
  have heq : storeRoot k ++ [x] = storeRoot k' ++ [x'] := by
    refine (prefix_of_prefix_length_le h h' ?_).eq_of_length ?_ <;> simp
  have hparts := append_inj heq (by simp)
  exact ⟨storeRoot_inj hparts.1, by simpa using hparts.2⟩

theorem staging_child_inj {p : StorePath} (h : staging k ++ [x] <+: p) (h' : staging k' ++ [x'] <+: p) : k = k' ∧ x = x' := by
  have hk := (child_inj ((prefix_append (staging k) [x]).trans h) ((prefix_append (staging k') [x']).trans h')).1
  subst hk
  have heq : staging k ++ [x] = staging k ++ [x'] := by
    refine (prefix_of_prefix_length_le h h' ?_).eq_of_length ?_ <;> simp
  exact ⟨rfl, by simpa using heq⟩

theorem staging_child_eq (h : staging k ++ [x] = staging k' ++ [x']) : k = k' ∧ x = x' :=
  staging_child_inj (p := staging k' ++ [x']) (by rw [h]) prefix_rfl

/-- The staged name that a child of `.staging` belongs to. -/
def stagedBase (child : Text) : Text := (stagedDirOfLock child).getD child

/-- The name of a staged directory. -/
def IsStagedName (name : Text) : Prop := ∃ key u, isUnique u ∧ name = stagedName key u

theorem stagedDirOfLock_append (name : Text) : stagedDirOfLock (name ++ lockSuffix) = some name := by
  have hsuffix : lockSuffix.isSuffixOf (name ++ lockSuffix) := isSuffixOf_iff_suffix.2 (suffix_append _ _)
  rw [stagedDirOfLock, if_pos hsuffix, length_append, Nat.add_sub_cancel, take_left]

theorem eq_append_of_stagedDirOfLock (h : stagedDirOfLock child = some name) : child = name ++ lockSuffix := by
  unfold stagedDirOfLock at h
  split at h
  · next hsuffix =>
    obtain ⟨rest, rfl⟩ := isSuffixOf_iff_suffix.1 hsuffix
    rw [length_append, Nat.add_sub_cancel, take_left, Option.some.injEq] at h
    rw [h]
  · cases h

theorem stagedBase_lock (name : Text) : stagedBase (name ++ lockSuffix) = name := by
  rw [stagedBase, stagedDirOfLock_append, Option.getD_some]

/-- A lock file and a staged directory are guarded by the lock file of the staged name. -/
theorem stagingLockOf_eq (k : StoreKind) (child : Text) : stagingLockOf k child = stagedLockPath k (stagedBase child) := by
  unfold stagingLockOf stagedBase
  cases h : stagedDirOfLock child with
  | none => rfl
  | some name =>
    rw [eq_append_of_stagedDirOfLock h]
    rfl

/-- A staged name ends in a hex digit, so it is no lock file's. -/
theorem IsStagedName.not_lock (h : IsStagedName name) : stagedDirOfLock name = none := by
  obtain ⟨key, u, hu, rfl⟩ := h
  cases hd : stagedDirOfLock (stagedName key u) with
  | none => rfl
  | some name =>
    have hlast : (stagedName key u).getLast? = some 'k' := by
      rw [eq_append_of_stagedDirOfLock hd]
      simp [lockSuffix]
    simp only [isUnique, Bool.and_eq_true, decide_eq_true_eq, all_eq_true] at hu
    obtain ⟨c, hc⟩ : ∃ c, u.getLast? = some c := by
      cases u with
      | nil => simp at hu
      | cons x xs => exact ⟨_, getLast?_eq_some_getLast (cons_ne_nil _ _)⟩
    have hk : u.getLast? = some 'k' := by
      rw [stagedName, getLast?_append, hc] at hlast
      rw [hc]
      exact hlast
    have hmem : 'k' ∈ "0123456789abcdef".toList := hu.2 'k' (mem_of_getLast? hk)
    exact absurd hmem (by decide)

theorem IsStagedName.ne_append (h : IsStagedName name) (other : Text) : name ≠ other ++ lockSuffix := by
  rintro rfl
  have hlock := h.not_lock
  rw [stagedDirOfLock_append] at hlock
  cases hlock

theorem IsStagedName.base (h : IsStagedName name) : stagedBase name = name := by rw [stagedBase, h.not_lock, Option.getD_none]

/-- A path at or below a staged directory or its lock file. -/
def InStaged (k : StoreKind) (name : Text) (p : StorePath) : Prop := stagedPath k name <+: p ∨ stagedLockPath k name <+: p

/-- A child of `.staging` is part of the staged name it belongs to, and of no other. -/
theorem stagedBase_of_inStaged {p : StorePath} (hname : IsStagedName name)
    (hp : stagedPath k child <+: p) (h : InStaged k' name p) : k' = k ∧ name = stagedBase child := by
  rcases h with h | h
  · obtain ⟨rfl, rfl⟩ := staging_child_inj hp h
    exact ⟨rfl, hname.base.symm⟩
  · obtain ⟨rfl, rfl⟩ := staging_child_inj hp h
    exact ⟨rfl, (stagedBase_lock name).symm⟩

/-- An entry whose key is a name that the store does not use itself. -/
def Entry.Proper (e : Entry) : Prop := IsName e.key ∧ e.key ≠ stagingName ∧ e.key ≠ locksName

instance (e : Entry) : Decidable e.Proper := inferInstanceAs (Decidable (_ ∧ _))

namespace Entry.Proper

variable {e e' : Entry} {p : StorePath}

theorem dir_eq (h : e.Proper) : e.dir = storeRoot e.store ++ [e.key] := by
  simp [Entry.dir, entryPath, h.1.1, h.1.2.1, h.1.2.2]

theorem not_staging (h : e.Proper) (hp : e.dir <+: p) : ¬staging k <+: p := by
  intro hs
  rw [h.dir_eq] at hp
  exact h.2.1 (child_inj hp hs).2

theorem not_locks (h : e.Proper) (hp : e.dir <+: p) : ¬locks k <+: p := by
  intro hs
  rw [h.dir_eq] at hp
  exact h.2.2 (child_inj hp hs).2

theorem eq_of_below (h : e.Proper) (h' : e'.Proper) (hp : e.dir <+: p) (hp' : e'.dir <+: p) : e = e' := by
  rw [h.dir_eq] at hp
  rw [h'.dir_eq] at hp'
  obtain ⟨hk, hx⟩ := child_inj hp hp'
  cases e
  cases e'
  simp_all

end Entry.Proper

/-! ## The protocol -/

section Protocol

variable {α μ : Type} (A : Artifacts α μ) (tree : Tree Text (Data μ))

/-- Nothing of the entry is there. -/
def Absent (e : Entry) : Prop := ∀ p, e.dir <+: p → tree p = none

/-- The entry is there with a manifest of its own that is read without an error. -/
def Readable (e : Entry) : Prop :=
  tree e.dir = some .dir ∧ ∃ m, tree e.manifest = some (.file (.manifest m)) ∧ A.policy m ∧ A.home m = e.key

/-- The second manifest is the first, stamped some times. -/
def Stamped (m m' : μ) : Prop := Relation.ReflTransGen (fun m m' => ∃ now, m' = A.stamp now m) m m'

/-- The artifact has not been published and is not there, or has been published once and is. -/
def Once (a : α) (tree : Tree Text (Data μ)) (published : List (StorePath × μ)) : Prop :=
  published = [] ∧ tree (entryOf A a).manifest = none ∨
    ∃ m₀ m, published = [((entryOf A a).dir, m₀)] ∧ tree (entryOf A a).manifest = some (.file (.manifest m)) ∧
      A.policy m ∧ A.fits a m ∧ A.home m = A.key a ∧ Stamped A m₀ m

/-- The thread holds the lock of the file at `p`. -/
def Holds (d : Disk μ) (t : Tid) (p : StorePath) : Prop := fileAt d.tree p ∧ d.excl ⟨p, d.gen p⟩ = some t

/-- The thread holds the in-use lock of the entry with others. -/
def Shares (d : Disk μ) (t : Tid) (e : Entry) : Prop := fileAt d.tree e.usePath ∧ d.shared ⟨e.usePath, d.gen e.usePath⟩ t

/-- What is followed besides staging and locks: whole entries, or the publishes of one artifact. -/
inductive Mode (α : Type) where
  | base
  | tidy
  | calm (a : α)

structure Inv (mode : Mode α) (d : Disk μ) : Prop where
  /-- A file locked by one thread alone is locked by no other. -/
  apart : ∀ h u v, d.excl h = some u → d.shared h v = false
  /-- A staged name that is in `.staging` is a used one. -/
  seen : ∀ k child, IsStagedName (stagedBase child) → (d.tree (staging k ++ [child])).isSome →
    d.seen k (stagedBase child)
  /-- A fetch holds the lock file beside the staged directory it has been given. -/
  given : ∀ t st, d.given t = some st → IsStagedName st.name ∧ d.gen st.lockPath = st.gen ∧ Holds d t st.lockPath
  /-- A process that fetches holds the lock of the entry. -/
  fetching : ∀ t e, d.fetching t = some e → Holds d t e.lockPath
  /-- An entry in use is there. -/
  inUse : mode = .tidy → ∀ t e lock, d.inUse t = some (e, lock) →
    e.Proper ∧ lock = ⟨e.usePath, d.gen e.usePath⟩ ∧ Shares d t e ∧ Readable A d.tree e
  whole : mode = .tidy → ∀ e : Entry, e.Proper → Absent d.tree e ∨ Readable A d.tree e
  proper : ∀ a, mode = .calm a → (entryOf A a).Proper
  once : ∀ a, mode = .calm a → Once A a d.tree d.published
  ended : ∀ a, mode = .calm a → ∀ t m, d.ended t = some m → ∃ m₀, d.published = [((entryOf A a).dir, m₀)] ∧ Stamped A m₀ m

structure Guar (mode : Mode α) (t : Tid) (d d' : Disk μ) : Prop where
  /-- The locks and notes of others stay. -/
  excl : ∀ h u, u ≠ t → (d'.excl h = some u ↔ d.excl h = some u)
  shared : ∀ h u, u ≠ t → d'.shared h u = d.shared h u
  given : ∀ u, u ≠ t → d'.given u = d.given u
  fetching : ∀ u, u ≠ t → d'.fetching u = d.fetching u
  inUse : ∀ u, u ≠ t → d'.inUse u = d.inUse u
  ended : ∀ u, u ≠ t → d'.ended u = d.ended u
  /-- A used staged name stays used, and no second lock file is made for it. -/
  seen : ∀ k name, d.seen k name → d'.seen k name
  stagedGen : ∀ k name, d.seen k name → d'.gen (stagedLockPath k name) = d.gen (stagedLockPath k name)
  spent : ∀ k name, d.seen k name →
    d'.tree (stagedLockPath k name) = d.tree (stagedLockPath k name) ∨ d'.tree (stagedLockPath k name) = none
  /-- What another holds staged is left alone. -/
  staged : ∀ u, u ≠ t → ∀ k name, IsStagedName name → Holds d u (stagedLockPath k name) →
    ∀ p, InStaged k name p → d'.tree p = d.tree p
  /-- The lock files of entries stay. -/
  lockFile : ∀ k name, fileAt d.tree (locks k ++ [name]) →
    fileAt d'.tree (locks k ++ [name]) ∧ d'.gen (locks k ++ [name]) = d.gen (locks k ++ [name])
  /-- An entry is published only under its lock. -/
  absent : mode = .tidy → ∀ e : Entry, e.Proper → Absent d.tree e → ¬Holds d t e.lockPath → Absent d'.tree e
  /-- An entry is moved or deleted only under its in-use lock. -/
  readable : mode = .tidy → ∀ e : Entry, e.Proper → Readable A d.tree e → ¬Holds d t e.usePath →
    Readable A d'.tree e ∧ ∀ p, e.dir <+: p → p ≠ e.manifest → d'.tree p = d.tree p
  published : ∀ a, mode = .calm a → (d.published = [] → ¬Holds d t (entryOf A a).lockPath → d'.published = []) ∧
    (d.published ≠ [] → d'.published = d.published)

/-- The protocol of the shared stores. -/
def protocol (mode : Mode α) : Protocol (Disk μ) where
  inv := Inv A mode
  guar := Guar A mode

end Protocol

end Pipette.Shared
