import Pipette.Lemmas.Protocol

/-!
# What single operations do to the protocol

An operation that changes files and no locks keeps to the protocol if it meets `FilesStep`, which says what may change where
(`FilesStep.ok`). Every operation of the shared disk is brought under this, or followed by itself.
-/

namespace Pipette.Shared

open Files Threads List

variable {α μ : Type} {A : Artifacts α μ} {mode : Mode α} {t : Tid} {d d' : Disk μ}

/-- The step keeps to the protocol. -/
def Ok (A : Artifacts α μ) (mode : Mode α) (t : Tid) (d d' : Disk μ) : Prop := Inv A mode d' ∧ Guar A mode t d d'

/-- In a step an entry is published under its lock, goes under its in-use lock, or stays. -/
def EntryStep (A : Artifacts α μ) (t : Tid) (d d' : Disk μ) (e : Entry) : Prop :=
  (Absent d.tree e → Absent d'.tree e ∨ Holds d t e.lockPath ∧ Readable A d'.tree e) ∧
  (Readable A d.tree e → (Readable A d'.tree e ∧ ∀ p, e.dir <+: p → p ≠ e.manifest → d'.tree p = d.tree p) ∨
    Holds d t e.usePath ∧ Absent d'.tree e)

/-- What becomes of the publishes of one artifact. -/
def OnceStep (A : Artifacts α μ) (t : Tid) (d d' : Disk μ) (a : α) : Prop :=
  Once A a d'.tree d'.published ∧ (d.published = [] → ¬Holds d t (entryOf A a).lockPath → d'.published = []) ∧
    (d.published ≠ [] → d'.published = d.published)

/-- A step that changes files, generations and used names, but no locks and notes. -/
structure FilesStep (A : Artifacts α μ) (mode : Mode α) (t : Tid) (d d' : Disk μ) : Prop where
  excl : d'.excl = d.excl
  shared : d'.shared = d.shared
  given : d'.given = d.given
  fetching : d'.fetching = d.fetching
  inUse : d'.inUse = d.inUse
  ended : d'.ended = d.ended
  used : ∀ k name, d.seen k name → d'.seen k name
  seen : ∀ k child, IsStagedName (stagedBase child) → (d'.tree (staging k ++ [child])).isSome →
    d'.seen k (stagedBase child)
  stagedGen : ∀ k name, d.seen k name → d'.gen (stagedLockPath k name) = d.gen (stagedLockPath k name)
  spent : ∀ k name, d.seen k name →
    d'.tree (stagedLockPath k name) = d.tree (stagedLockPath k name) ∨ d'.tree (stagedLockPath k name) = none
  staged : ∀ p, d'.tree p ≠ d.tree p → ∀ k name, IsStagedName name → InStaged k name p → ∀ u, Holds d u (stagedLockPath k name) → u = t
  own : ∀ st, d.given t = some st → d'.tree st.lockPath = d.tree st.lockPath
  lockFile : ∀ k name, fileAt d.tree (locks k ++ [name]) →
    fileAt d'.tree (locks k ++ [name]) ∧ d'.gen (locks k ++ [name]) = d.gen (locks k ++ [name])
  entry : mode = .tidy → ∀ e : Entry, e.Proper → EntryStep A t d d' e
  once : ∀ a, mode = .calm a → OnceStep A t d d' a

variable {a : Tree Text (Data μ)} {p : StorePath} {x : Text} {tr : Tree Text (Data μ)} {S : StorePath → Prop} {q : StorePath}
  {st : Staged} {m : μ}

theorem fileAt_congr {b : Tree Text (Data μ)} (h : b p = a p) : fileAt b p = fileAt a p := by
  rw [fileAt, h, fileAt]

theorem ne_none_of_fileAt (h : fileAt a p) : a p ≠ none := by
  intro hp
  simp [fileAt, hp] at h

variable {k : StoreKind} {name : Text}

/-- The name of a staged directory that is held is a used one. -/
theorem Inv.seen_of_holds (hinv : Inv A mode d) {u : Tid} (hname : IsStagedName name)
    (h : Holds d u (stagedLockPath k name)) : d.seen k name := by
  have hseen := hinv.seen k (name ++ lockSuffix)
  rw [stagedBase_lock] at hseen
  exact hseen hname (Option.isSome_iff_ne_none.2 (ne_none_of_fileAt h.1))

theorem InStaged.child (h : InStaged k name p) : ∃ child, stagedPath k child <+: p :=
  h.elim (fun h => ⟨_, h⟩) fun h => ⟨_, h⟩

theorem InStaged.below (h : InStaged k name p) : staging k <+: p :=
  h.child.elim fun _ h => (prefix_append _ _).trans h

theorem not_locks_of_staging {k k' : StoreKind} (h : staging k <+: p) : ¬locks k' <+: p :=
  fun h' => absurd (child_inj h h').2 (by decide)

theorem not_staging_of_locks {k k' : StoreKind} (x : Text) : ¬staging k <+: locks k' ++ [x] :=
  fun h => not_locks_of_staging h (prefix_append _ _)

theorem FilesStep.ok (hinv : Inv A mode d) (h : FilesStep A mode t d d') : Ok A mode t d d' := by
  have hlock : ∀ {u k name}, Holds d u (locks k ++ [name]) → Holds d' u (locks k ++ [name]) := by
    intro u k name hu
    obtain ⟨hfile, hgen⟩ := h.lockFile k name hu.1
    exact ⟨hfile, by rw [hgen, h.excl]; exact hu.2⟩
  refine ⟨⟨?_, h.seen, ?_, ?_, ?_, ?_, hinv.proper, ?_, ?_⟩, ⟨?_, ?_, ?_, ?_, ?_, ?_, h.used, h.stagedGen, h.spent, ?_, h.lockFile, ?_, ?_, ?_⟩⟩
  · rw [h.excl, h.shared]
    exact hinv.apart
  · intro u st hst
    rw [h.given] at hst
    obtain ⟨hname, hgen, hheld⟩ := hinv.given u st hst
    have hgen' : d'.gen st.lockPath = d.gen st.lockPath := h.stagedGen _ _ (hinv.seen_of_holds hname hheld)
    have htree : d'.tree st.lockPath = d.tree st.lockPath := by
      by_contra hne
      have hu := h.staged _ hne _ _ hname (.inr prefix_rfl) u hheld
      subst hu
      exact hne (h.own st hst)
    refine ⟨hname, hgen'.trans hgen, ?_, ?_⟩
    · rw [fileAt_congr htree]
      exact hheld.1
    · rw [hgen', h.excl]
      exact hheld.2
  · intro u e he
    rw [h.fetching] at he
    exact hlock (hinv.fetching u e he)
  · intro htidy u e lock hu
    rw [h.inUse] at hu
    obtain ⟨hproper, hhandle, hshares, hreadable⟩ := hinv.inUse htidy u e lock hu
    obtain ⟨hfile, hgen⟩ := h.lockFile e.store (e.key ++ useSuffix) hshares.1
    have hgen' : d'.gen e.usePath = d.gen e.usePath := hgen
    refine ⟨hproper, by rw [hgen']; exact hhandle, ⟨hfile, ?_⟩, ?_⟩
    · rw [hgen', h.shared]
      exact hshares.2
    · rcases (h.entry htidy e hproper).2 hreadable with hkept | hgone
      · exact hkept.1
      · -- a thread that holds the lock alone shares it with nobody
        have hfree := hinv.apart _ _ u hgone.1.2
        rw [hshares.2] at hfree
        cases hfree
  · intro htidy e hproper
    obtain ⟨habsent, hreadable⟩ := h.entry htidy e hproper
    rcases hinv.whole htidy e hproper with hold | hold
    · exact (habsent hold).imp id And.right
    · exact (hreadable hold).elim (fun hk => .inr hk.1) fun hg => .inl hg.2
  · exact fun a ha => (h.once a ha).1
  · intro a ha u m hm
    rw [h.ended] at hm
    obtain ⟨m₀, hpub, hstamped⟩ := hinv.ended a ha u m hm
    refine ⟨m₀, ?_, hstamped⟩
    rw [(h.once a ha).2.2 (by simp [hpub]), hpub]
  · exact fun _ _ _ => by rw [h.excl]
  · exact fun _ _ _ => by rw [h.shared]
  · exact fun _ _ => by rw [h.given]
  · exact fun _ _ => by rw [h.fetching]
  · exact fun _ _ => by rw [h.inUse]
  · exact fun _ _ => by rw [h.ended]
  · intro u hu k name hname hheld p hp
    by_contra hne
    exact hu (h.staged p hne k name hname hp u hheld)
  · intro htidy e hproper habsent hnot
    exact ((h.entry htidy e hproper).1 habsent).elim id fun hpub => absurd hpub.1 hnot
  · intro htidy e hproper hreadable hnot
    exact ((h.entry htidy e hproper).2 hreadable).elim id fun hgone => absurd hgone.1 hnot
  · exact fun a ha => (h.once a ha).2

/-! ## Where nothing is followed -/

/-- A path above the entries, the staged directories and the lock files. -/
def Outside (p : StorePath) : Prop :=
  (∀ k name, ¬staging k ++ [name] <+: p) ∧ (∀ k name, ¬locks k ++ [name] <+: p) ∧ ∀ e : Entry, e.Proper → ¬e.dir <+: p

theorem outside_of_child (hx : x = stagingName ∨ x = locksName)
    (hp : p <+: storeRoot k ++ [x]) : Outside p := by
  refine ⟨fun k' name h => ?_, fun k' name h => ?_, fun e he h => ?_⟩
  · exact absurd (h.trans hp).length_le (by simp [staging])
  · exact absurd (h.trans hp).length_le (by simp [locks])
  · rcases hx with rfl | rfl
    · exact he.not_staging (h.trans hp) prefix_rfl
    · exact he.not_locks (h.trans hp) prefix_rfl

theorem EntryStep.of_eq {e : Entry} (h : ∀ p, e.dir <+: p → d'.tree p = d.tree p) : EntryStep A t d d' e := by
  refine ⟨fun ha => .inl fun p hp => (h p hp).trans (ha p hp), fun hr => .inl ⟨?_, fun p hp _ => h p hp⟩⟩
  obtain ⟨hdir, m, hm, hrest⟩ := hr
  exact ⟨(h _ prefix_rfl).trans hdir, m, (h _ (prefix_append _ _)).trans hm, hrest⟩

variable (hinv : Inv A mode d)
include hinv

theorem OnceStep.of_eq {a : α} (ha : mode = .calm a) (hpub : d'.published = d.published)
    (htree : d'.tree (entryOf A a).manifest = d.tree (entryOf A a).manifest) : OnceStep A t d d' a := by
  refine ⟨?_, fun h _ => hpub.trans h, fun _ => hpub⟩
  have hold := hinv.once a ha
  rwa [Once, ← htree, ← hpub] at hold

open FilesStep

open EntryStep

theorem ok_refl : Ok A mode t d d :=
  ok hinv {
    excl := rfl, shared := rfl, given := rfl, fetching := rfl, inUse := rfl, ended := rfl
    used := fun _ _ h => h
    seen := hinv.seen
    stagedGen := fun _ _ _ => rfl
    spent := fun _ _ _ => .inl rfl
    staged := fun _ h => absurd rfl h
    own := fun _ _ => rfl
    lockFile := fun _ _ h => ⟨h, rfl⟩
    entry := fun _ _ _ => of_eq fun _ _ => rfl
    once := fun _ ha => OnceStep.of_eq hinv ha rfl rfl }

/-- A change of the tree in and below staged names that nobody else holds. -/
theorem ok_staged (hw : Within S d.tree tr)
    (hS : ∀ p, S p → Outside p ∨ ∃ k child, stagedPath k child <+: p)
    (hseen : ∀ k child, IsStagedName (stagedBase child) → S (stagedPath k child) → (tr (stagedPath k child)).isSome →
      d.seen k (stagedBase child))
    (hspent : ∀ k name, tr (stagedLockPath k name) = d.tree (stagedLockPath k name) ∨ tr (stagedLockPath k name) = none)
    (hfree : ∀ p, S p → ∀ k name, IsStagedName name → InStaged k name p → ∀ u, Holds d u (stagedLockPath k name) → u = t)
    (hown : ∀ st, d.given t = some st → ¬S st.lockPath) : Ok A mode t d (d.withTree tr) := by
  have hlocks : ∀ k name, tr (locks k ++ [name]) = d.tree (locks k ++ [name]) := by
    intro k name
    refine hw _ fun hs => ?_
    rcases hS _ hs with hout | ⟨k', child, hp⟩
    · exact hout.2.1 k name prefix_rfl
    · exact not_staging_of_locks name ((prefix_append _ _).trans hp)
  have hentries : ∀ e : Entry, e.Proper → ∀ p, e.dir <+: p → tr p = d.tree p := by
    intro e he p hp
    refine hw _ fun hs => ?_
    rcases hS _ hs with hout | ⟨k, child, hc⟩
    · exact hout.2.2 e he hp
    · exact he.not_staging hp ((prefix_append _ _).trans hc)
  refine ok hinv ⟨rfl, rfl, rfl, rfl, rfl, rfl, fun _ _ h => h, ?_, fun _ _ _ => rfl, fun k name _ => hspent k name, ?_, ?_, ?_, ?_, ?_⟩
  · intro k child hname hsome
    by_cases hs : S (stagedPath k child)
    · exact hseen k child hname hs hsome
    · have hsame : tr (staging k ++ [child]) = d.tree (staging k ++ [child]) := hw _ hs
      exact hinv.seen k child hname (hsame ▸ hsome)
  · intro p hne k name hname hp
    exact hfree p (by_contra fun hs => hne (hw p hs)) k name hname hp
  · exact fun st hst => hw _ (hown st hst)
  · exact fun k name h => ⟨(fileAt_congr (hlocks k name)).trans h, rfl⟩
  · exact fun _ e he => of_eq (hentries e he)
  · exact fun a ha => OnceStep.of_eq hinv ha rfl (hentries _ (hinv.proper a ha) _ (prefix_append _ _))

theorem ok_mkdirs (hx : x = stagingName ∨ x = locksName)
    (hq : q <+: storeRoot k ++ [x]) : Ok A mode t d (d.withTree (mkdirAll q d.tree)) := by
  have hout : ∀ p, p <+: q → Outside p := fun p hp => outside_of_child hx (hp.trans hq)
  refine ok_staged hinv (mkdirAll_within q d.tree) (fun p hp => .inl (hout p hp)) ?_ ?_ ?_ ?_
  · exact fun k' child _ hp => absurd prefix_rfl ((hout _ hp).1 k' child)
  · intro k' name
    refine .inl (mkdirAll_within q d.tree (stagedLockPath k' name) fun hp => ?_)
    exact (hout _ hp).1 k' (name ++ lockSuffix) prefix_rfl
  · exact fun p hp k' name _ hin => absurd hin.child (not_exists.2 ((hout p hp).1 k'))
  · exact fun st _ hp => (hout _ hp).1 _ _ prefix_rfl

omit hinv

/-! ## Staged directories -/

/-- A path at or below the staged directory, or above all of them. -/
def InDir (st : Staged) (p : StorePath) : Prop := st.dir <+: p ∨ p <+: staging st.store

theorem not_inDir_lock (hname : IsStagedName st.name) (k : StoreKind) (name : Text) : ¬InDir st (stagedLockPath k name) := by
  rintro (h | h)
  · exact hname.ne_append name (staging_child_inj h prefix_rfl).2
  · exact absurd h.length_le (by simp [stagedLockPath, staging])

theorem ok_inDir (hinv : Inv A mode d) (hname : IsStagedName st.name) (hseen : d.seen st.store st.name)
    (hheld : ∀ u, Holds d u st.lockPath → u = t) (hw : Within (InDir st) d.tree tr) :
    Ok A mode t d (d.withTree tr) := by
  have hlocks := not_inDir_lock hname
  refine ok_staged hinv hw ?_ ?_ ?_ ?_ ?_
  · rintro p (h | h)
    · exact .inr ⟨st.store, st.name, h⟩
    · exact .inl (outside_of_child (.inl rfl) h)
  · rintro k child - (h | h) -
    · obtain ⟨rfl, rfl⟩ := staging_child_inj h prefix_rfl
      rwa [hname.base]
    · exact absurd h.length_le (by simp [stagedPath, staging])
  · exact fun k name => .inl (hw _ (hlocks k name))
  · rintro p (h | h) k name hn hin u hu
    · obtain ⟨rfl, rfl⟩ := stagedBase_of_inStaged hn h hin
      rw [hname.base] at hu
      exact hheld u hu
    · obtain ⟨child, hin⟩ := hin.child
      exact absurd (hin.trans h).length_le (by simp [stagedPath, staging])
  · exact fun st' _ => hlocks st'.store st'.name

/-- A removal of a child of `.staging` whose lock nobody else holds. -/
theorem ok_remove_staged (hinv : Inv A mode d) {child : Text}
    (hheld : IsStagedName (stagedBase child) → ∀ u, Holds d u (stagedLockPath k (stagedBase child)) → u = t)
    (hown : ∀ st, d.given t = some st → ¬stagedPath k child <+: st.lockPath) (keep : StorePath → Bool) :
    Ok A mode t d (d.withTree (remove keep (stagedPath k child) d.tree)) := by
  refine ok_staged hinv (remove_within keep (stagedPath k child) d.tree) (fun p hp => .inr ⟨k, child, hp⟩) ?_ ?_ ?_ hown
  · intro k' child' hn _ hsome
    refine hinv.seen k' child' hn ?_
    unfold remove at hsome
    split at hsome
    · cases hsome
    · exact hsome
  · intro k' name
    unfold remove
    split
    · exact .inr rfl
    · exact .inl rfl
  · intro p hp k' name hn hin u hu
    obtain ⟨rfl, rfl⟩ := stagedBase_of_inStaged hn hp hin
    exact hheld hn u hu

/-! ## Files that are made -/

/-- Making a file where none is changes the tree and the generations there only. -/
theorem create_apply (h : q ≠ p) : (d.create p).tree q = d.tree q ∧ (d.create p).gen q = d.gen q :=
  ⟨write_within _ _ _ _ h, Function.update_of_ne h _ _⟩

variable (hinv : Inv A mode d)
include hinv

variable {seen : StoreKind → Text → Bool}

theorem ok_create (hnone : d.tree p = none) (hentries : ∀ e : Entry, e.Proper → ¬e.dir <+: p)
    (hused : ∀ k n, d.seen k n → seen k n ∧ stagedLockPath k n ≠ p)
    (hseen : ∀ k x, staging k ++ [x] = p → seen k (stagedBase x))
    (hstaged : ∀ k n, IsStagedName n → InStaged k n p → p = stagedLockPath k n) : Ok A mode t d { d.create p with seen } := by
  have hfile : ∀ {q}, fileAt d.tree q → q ≠ p := by
    rintro q hq rfl
    exact ne_none_of_fileAt hq hnone
  have hbelow : ∀ e : Entry, e.Proper → ∀ q, e.dir <+: q → q ≠ p := by
    rintro e he q hq rfl
    exact hentries e he hq
  refine ok hinv ⟨rfl, rfl, rfl, rfl, rfl, rfl, fun k n hn => (hused k n hn).1, ?_, ?_, ?_, ?_, ?_, ?_, ?_, ?_⟩
  · intro k x hn hsome
    by_cases hp : staging k ++ [x] = p
    · exact hseen k x hp
    · exact (hused _ _ (hinv.seen k x hn ((create_apply hp).1 ▸ hsome))).1
  · exact fun k n hn => (create_apply (hused k n hn).2).2
  · exact fun k n hn => .inl (create_apply (hused k n hn).2).1
  · intro q hne k n hn hin u hu
    have hq : q = p := by_contra fun hq => hne (create_apply hq).1
    subst hq
    exact absurd (hstaged k n hn hin).symm (hfile hu.1)
  · exact fun st hst => (create_apply (hfile (hinv.given t st hst).2.2.1)).1
  · exact fun k n h => ⟨(fileAt_congr (create_apply (hfile h)).1).trans h, (create_apply (hfile h)).2⟩
  · exact fun _ e he => of_eq fun q hq => (create_apply (hbelow e he q hq)).1
  · exact fun a ha => OnceStep.of_eq hinv ha rfl (create_apply (hbelow _ (hinv.proper a ha) _ (prefix_append _ _))).1

theorem ok_create_staged (hunseen : d.seen k name = false)
    (hnone : d.tree (stagedLockPath k name) = none) :
    Ok A mode t d ((d.create (stagedLockPath k name)).use k name) := by
  refine ok_create hinv hnone (fun e he hp => he.not_staging hp (prefix_append _ _)) ?_ ?_ ?_
  · intro k' n hn
    refine ⟨by simp [Disk.create, hn], fun heq => ?_⟩
    obtain ⟨rfl, h⟩ := staging_child_eq heq
    obtain rfl := append_cancel_right h
    cases hunseen.symm.trans hn
  · intro k' x hx
    obtain ⟨rfl, rfl⟩ := staging_child_eq hx
    simp [stagedBase_lock]
  · intro k' n hn hin
    have hlock : stagedPath k (name ++ lockSuffix) <+: stagedLockPath k name := prefix_rfl
    obtain ⟨rfl, rfl⟩ := stagedBase_of_inStaged hn hlock hin
    rw [stagedBase_lock]

theorem ok_create_lock (hnone : d.tree (locks k ++ [name]) = none) :
    Ok A mode t d (d.create (locks k ++ [name])) := by
  have hstaging : ∀ k' x, staging k' ++ [x] ≠ locks k ++ [name] := fun k' x heq =>
    not_staging_of_locks name (heq ▸ prefix_append _ _)
  refine @ok_create _ _ _ _ _ _ _ hinv d.seen hnone (fun e he hp => he.not_locks hp (prefix_append _ _)) ?_ ?_ ?_
  · exact fun k' n hn => ⟨hn, hstaging k' _⟩
  · exact fun k' x hx => absurd hx (hstaging k' x)
  · exact fun k' n _ hin => absurd hin.below (not_staging_of_locks name)

/-! ## Entries -/

/-- A change of the tree off the staged directories and the lock files. -/
theorem ok_entries (hw : Within S d.tree tr)
    (hS : ∀ p, S p → ∀ k, ¬staging k <+: p ∧ ¬locks k <+: p)
    (hentry : mode = .tidy → ∀ e : Entry, e.Proper → EntryStep A t d (d.withTree tr) e)
    (honce : ∀ a, mode = .calm a → OnceStep A t d (d.withTree tr) a) : Ok A mode t d (d.withTree tr) := by
  have hstaging : ∀ k x, tr (staging k ++ [x]) = d.tree (staging k ++ [x]) := fun k x =>
    hw _ fun hs => (hS _ hs k).1 (prefix_append _ _)
  have hlocks : ∀ k x, tr (locks k ++ [x]) = d.tree (locks k ++ [x]) := fun k x =>
    hw _ fun hs => (hS _ hs k).2 (prefix_append _ _)
  refine ok hinv ⟨rfl, rfl, rfl, rfl, rfl, rfl, fun _ _ h => h, ?_, fun _ _ _ => rfl, ?_, ?_, ?_, ?_, hentry, honce⟩
  · exact fun k child hn hsome => hinv.seen k child hn (hstaging k child ▸ hsome)
  · exact fun k name _ => .inl (hstaging k _)
  · intro p hne k name _ hin
    exact absurd (hw p fun hs => (hS p hs k).1 hin.below) hne
  · exact fun st _ => hstaging _ _
  · exact fun k name h => ⟨(fileAt_congr (hlocks k name)).trans h, rfl⟩

/-- Removing what is at an entry of which nothing is followed, or nothing is there. -/
theorem ok_remove_entry {e : Entry} (he : e.Proper) (habsent : mode = .tidy → Absent d.tree e)
    (hpub : ∀ a, mode = .calm a → d.published = []) (keep : StorePath → Bool) :
    Ok A mode t d (d.withTree (remove keep e.dir d.tree)) := by
  refine ok_entries hinv (remove_within keep e.dir d.tree) (fun p hp k => ⟨he.not_staging hp, he.not_locks hp⟩) ?_ ?_
  · intro htidy e' he'
    refine of_eq fun p hp => ?_
    by_cases hep : e.dir <+: p
    · exact (remove_eq_none (habsent htidy p hep) _ _).trans (habsent htidy p hep).symm
    · exact remove_within _ _ _ _ hep
  · intro a ha
    have hnone : d.tree (entryOf A a).manifest = none := by
      rcases hinv.once a ha with h | ⟨m₀, m, h, _⟩
      · exact h.2
      · simp [hpub a ha] at h
    exact OnceStep.of_eq hinv ha rfl ((remove_eq_none hnone _ _).trans hnone.symm)

theorem ok_replace {e : Entry} (he : e.Proper) (hpolicy : A.policy m) (hhome : A.home m = e.key)
    (hdir : d.tree e.dir = some .dir)
    (hcalm : ∀ a, mode = .calm a → e = entryOf A a ∧ A.fits a m ∧
      ∃ m₀, d.published = [((entryOf A a).dir, m₀)] ∧ Stamped A m₀ m) :
    Ok A mode t d (d.withTree (write e.manifest (.file (.manifest m)) d.tree)) := by
  have hbelow : e.dir <+: e.manifest := prefix_append _ _
  have hwrite : write e.manifest (.file (.manifest m)) d.tree e.manifest = some (.file (.manifest m)) := by simp [write]
  refine ok_entries hinv (write_within e.manifest _ d.tree) ?_ ?_ ?_
  · rintro p rfl k
    exact ⟨he.not_staging hbelow, he.not_locks hbelow⟩
  · intro _ e' he'
    by_cases heq : e' = e
    · subst heq
      refine ⟨fun ha => ?_, fun _ => .inl ⟨⟨?_, m, hwrite, hpolicy, hhome⟩, fun p _ hp => write_within _ _ _ _ hp⟩⟩
      · rw [ha _ prefix_rfl] at hdir
        cases hdir
      · refine (write_within _ _ _ _ ?_).trans hdir
        intro h
        simpa [Entry.manifest] using congrArg length h
    · refine of_eq fun p hp => write_within _ _ _ _ ?_
      rintro rfl
      exact heq (he'.eq_of_below he hp hbelow)
  · intro a ha
    obtain ⟨rfl, hfits, m₀, hpub, hstamped⟩ := hcalm a ha
    refine ⟨.inr ⟨m₀, m, hpub, hwrite, hpolicy, hfits, hhome, hstamped⟩, fun h => ?_, fun _ => rfl⟩
    simp [hpub] at h

omit hinv

/-- Where no entries are followed, a manifest can be written in any, even one of the store's own names. -/
theorem ok_replace_base (hinv : Inv A .base d) (k : StoreKind) (key : Text) (m : μ) :
    Ok A .base t d (d.withTree (write (entryPath k key ++ [manifestName]) (.file (.manifest m)) d.tree)) := by
  have hother : ∀ {p : StorePath}, p.getLast? ≠ some manifestName →
      write (entryPath k key ++ [manifestName]) (.file (.manifest m)) d.tree p = d.tree p := by
    intro p hp
    refine write_within _ _ _ _ ?_
    rintro rfl
    exact hp (by simp)
  have hlock : ∀ k' name, (stagedLockPath k' name).getLast? ≠ some manifestName := by
    intro k' name h
    have hname : name ++ lockSuffix = manifestName := by simpa [stagedLockPath] using h
    exact (append_lockSuffix_ne name).1 hname
  have hname : ∀ {name}, IsStagedName name → name ≠ manifestName := by
    rintro name ⟨key', u, _, rfl⟩ h
    have hdash : '-' ∈ stagedName key' u := by simp [stagedName]
    rw [h] at hdash
    exact absurd hdash (by decide)
  refine ok hinv ⟨rfl, rfl, rfl, rfl, rfl, rfl, fun _ _ h => h, ?_, fun _ _ _ => rfl, ?_, ?_, ?_, ?_, ?_, ?_⟩
  · intro k' child hn hsome
    refine hinv.seen k' child hn ?_
    by_cases hchild : child = manifestName
    · subst hchild
      have hbase : stagedBase manifestName = manifestName := by decide
      exact absurd hbase (hname hn)
    · have hlast : (staging k' ++ [child]).getLast? ≠ some manifestName := by simpa using hchild
      exact hother hlast ▸ hsome
  · exact fun k' name _ => .inl (hother (hlock k' name))
  · intro p hne k' name hn hin
    have hp : p = entryPath k key ++ [manifestName] := by_contra fun hp => hne (write_within _ _ _ _ hp)
    have hlen : p.length ≤ 3 := by
      rw [hp]
      unfold entryPath
      split
      · simp
      · split <;> simp
    rcases hin with h | h
    · have heq := h.eq_of_length (Nat.le_antisymm h.length_le (hlen.trans (by simp [stagedPath, staging])))
      have hlast : p.getLast? = some name := by rw [← heq]; simp [stagedPath]
      rw [hp] at hlast
      exact absurd (by simpa using hlast.symm) (hname hn)
    have heq := h.eq_of_length (Nat.le_antisymm h.length_le (hlen.trans (by simp [stagedLockPath, staging])))
    refine absurd ?_ (hlock k' name)
    rw [heq, hp]
    simp
  · exact fun st _ => hother (hlock _ _)
  · intro k' name h
    refine ⟨?_, rfl⟩
    show fileAt (write _ _ _) _
    rw [fileAt, write]
    split
    · rfl
    · exact h
  · exact fun h => by cases h
  · exact fun a h => by cases h

/-! ## Renames between a staged directory and an entry -/

section Renames

variable {e : Entry} {k : StoreKind} {name : Text}

/-- The paths of a staged directory are no entry's and no entry lock's, and no staged lock's. -/
theorem not_below_staged (hname : IsStagedName name) :
    (∀ k' x, ¬stagedPath k name <+: locks k' ++ [x]) ∧ (∀ k' n, ¬stagedPath k name <+: stagedLockPath k' n) ∧
      ∀ e : Entry, e.Proper → ∀ p, e.dir <+: p → ¬stagedPath k name <+: p := by
  refine ⟨fun k' x h => ?_, fun k' n h => ?_, fun e he p hp h => ?_⟩
  · exact not_staging_of_locks x ((prefix_append _ _).trans h)
  · exact hname.ne_append n (staging_child_inj h prefix_rfl).2
  · exact he.not_staging hp ((prefix_append _ _).trans h)

theorem not_below_entry (he : e.Proper) : (∀ k' x, ¬e.dir <+: locks k' ++ [x]) ∧ ∀ k' x, ¬e.dir <+: staging k' ++ [x] :=
  ⟨fun _ _ h => he.not_locks h (prefix_append _ _), fun _ _ h => he.not_staging h (prefix_append _ _)⟩

/-- A move between a staged directory that nobody else holds and an entry. -/
theorem ok_between (hinv : Inv A mode d) {published : List (StorePath × μ)} (he : e.Proper)
    (hname : IsStagedName name) (hheld : ∀ u, Holds d u (stagedLockPath k name) → u = t)
    (hw : Within (fun p => stagedPath k name <+: p ∨ e.dir <+: p) d.tree tr) (hused : ∀ k n, d.seen k n → seen k n)
    (hseen : (tr (stagedPath k name)).isSome → seen k name)
    (hentry : mode = .tidy → EntryStep A t d { d with tree := tr, seen, published } e)
    (honce : ∀ a, mode = .calm a → OnceStep A t d { d with tree := tr, seen, published } a) :
    Ok A mode t d { d with tree := tr, seen, published } := by
  obtain ⟨hstLocks, hstLock, hstEntry⟩ := not_below_staged hname
  obtain ⟨heLocks, heStaging⟩ := not_below_entry he
  have hsame : ∀ {p}, ¬stagedPath k name <+: p → ¬e.dir <+: p → tr p = d.tree p := fun h h' => hw _ (not_or.2 ⟨h, h'⟩)
  refine ok hinv ⟨rfl, rfl, rfl, rfl, rfl, rfl, hused, ?_, fun _ _ _ => rfl, ?_, ?_, ?_, ?_, ?_, honce⟩
  · intro k' child hn hsome
    by_cases hp : stagedPath k name <+: staging k' ++ [child]
    · obtain ⟨rfl, rfl⟩ := staging_child_inj hp prefix_rfl
      rw [hname.base]
      exact hseen hsome
    · exact hused _ _ (hinv.seen k' child hn (hsame hp (heStaging k' child) ▸ hsome))
  · exact fun k' n _ => .inl (hsame (hstLock k' n) (heStaging k' _))
  · intro p hne k' n hn hin u hu
    by_cases hp : stagedPath k name <+: p
    · obtain ⟨rfl, rfl⟩ := stagedBase_of_inStaged hn hp hin
      rw [hname.base] at hu
      exact hheld u hu
    · exact absurd (hsame hp fun hep => he.not_staging hep hin.below) hne
  · exact fun st' _ => hsame (hstLock _ _) (heStaging _ _)
  · exact fun k' n h => ⟨(fileAt_congr (hsame (hstLocks k' n) (heLocks k' n))).trans h, rfl⟩
  · intro htidy e' he'
    by_cases heq : e' = e
    · exact heq ▸ hentry htidy
    · exact of_eq fun p hp => hsame (hstEntry e' he' p hp) fun h => heq (he'.eq_of_below he hp h)

/-- Publishing: the staged directory becomes the entry, under the entry's lock. -/
theorem ok_publish (hinv : Inv A mode d) {a : α} (he : (entryOf A a).Proper) (hname : IsStagedName st.name)
    (hheld : ∀ u, Holds d u st.lockPath → u = t) (hlock : Holds d t (entryOf A a).lockPath)
    (habsent : mode = .tidy → Absent d.tree (entryOf A a)) (hcalm : ∀ b, mode = .calm b → b = a ∧ d.published = [])
    (hdir : d.tree st.dir = some .dir) (hm : d.tree (st.dir ++ [manifestName]) = some (.file (.manifest m)))
    (hpolicy : A.policy m) (hfits : A.fits a m) (hhome : A.home m = A.key a) :
    Ok A mode t d (d.renamed st.dir (entryOf A a).dir) := by
  have hmoved : ∀ r, (d.renamed st.dir (entryOf A a).dir).tree ((entryOf A a).dir ++ r) = d.tree (st.dir ++ r) := by
    intro r
    simp [Disk.renamed, move]
  have hreadable : Readable A (d.renamed st.dir (entryOf A a).dir).tree (entryOf A a) := by
    refine ⟨?_, m, (hmoved _).trans hm, hpolicy, hhome⟩
    have htop := hmoved []
    rw [append_nil, append_nil] at htop
    exact htop.trans hdir
  refine ok_between hinv he hname hheld (move_within _ _ _) (fun _ _ h => h) ?_ ?_ ?_
  · have hoff : ¬(entryOf A a).dir <+: stagedPath st.store st.name := (not_below_entry he).2 _ _
    intro hsome
    simp [move, Staged.dir, hoff] at hsome
  · exact fun htidy => ⟨fun _ => .inr ⟨hlock, hreadable⟩, fun hr => by cases hr.1.symm.trans (habsent htidy _ prefix_rfl)⟩
  · intro b hb
    obtain ⟨rfl, hpub⟩ := hcalm b hb
    have hpub' : (d.renamed st.dir (entryOf A b).dir).published = [((entryOf A b).dir, m)] := by
      simp [Disk.renamed, hm, hpub]
    refine ⟨.inr ⟨m, m, hpub', (hmoved _).trans hm, hpolicy, hfits, hhome, .refl⟩, fun _ h => absurd hlock h, ?_⟩
    exact fun h => absurd hpub h

/-- A sweep moves an entry to a fresh staged name, under its in-use lock. -/
theorem ok_moveOut (hinv : Inv A mode d) (he : e.Proper) (hname : IsStagedName name) (hunseen : d.seen e.store name = false)
    (htidy : mode = .tidy → Holds d t e.usePath) (hcalm : ∀ a, mode ≠ .calm a) :
    Ok A mode t d ((d.withTree (move e.dir (stagedPath e.store name) d.tree)).use e.store name) := by
  have hgone : Absent (move e.dir (stagedPath e.store name) d.tree) e := by
    intro p hp
    simp [move, (not_below_staged hname).2.2 e he p hp, hp]
  refine ok_between hinv he hname ?_ ((move_within _ _ _).mono fun _ => Or.symm) ?_ (by simp)
    (fun h => ⟨fun _ => .inl hgone, fun _ => .inr ⟨htidy h, hgone⟩⟩) fun a ha => absurd ha (hcalm a)
  · -- the name is fresh, so nobody holds its lock
    intro u hu
    cases hunseen.symm.trans (hinv.seen_of_holds hname hu)
  · intro k' n hn
    simp [Disk.withTree, hn]

end Renames

end Pipette.Shared
