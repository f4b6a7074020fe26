import Pipette.Lemmas.SharedSteps

/-!
# Locks and notes in the protocol

Taking and dropping locks, noting, and being killed change no file, so they keep to the protocol if the thread still holds the
locks that its own notes speak of (`LocksStep.ok`).
-/

namespace Pipette.Shared

open Files Threads Function Disk

variable {α μ : Type} {A : Artifacts α μ} {mode : Mode α} {t : Tid} {d d' : Disk μ}

/-- A step that changes locks and notes of the thread, and no files. -/
structure LocksStep (A : Artifacts α μ) (mode : Mode α) (t : Tid) (d d' : Disk μ) : Prop where
  tree : d'.tree = d.tree
  gen : d'.gen = d.gen
  seen : d'.seen = d.seen
  published : d'.published = d.published
  apart : ∀ h u v, d'.excl h = some u → d'.shared h v = false
  excl : ∀ h u, u ≠ t → (d'.excl h = some u ↔ d.excl h = some u)
  shared : ∀ h u, u ≠ t → d'.shared h u = d.shared h u
  given : ∀ u, u ≠ t → d'.given u = d.given u
  fetching : ∀ u, u ≠ t → d'.fetching u = d.fetching u
  inUse : ∀ u, u ≠ t → d'.inUse u = d.inUse u
  ended : ∀ u, u ≠ t → d'.ended u = d.ended u
  ownGiven : ∀ st, d'.given t = some st → IsStagedName st.name ∧ d'.gen st.lockPath = st.gen ∧ Holds d' t st.lockPath
  ownFetching : ∀ e, d'.fetching t = some e → Holds d' t e.lockPath
  ownInUse : mode = .tidy → ∀ e lock, d'.inUse t = some (e, lock) →
    e.Proper ∧ lock = ⟨e.usePath, d'.gen e.usePath⟩ ∧ Shares d' t e ∧ Readable A d'.tree e
  ownEnded : ∀ a, mode = .calm a → ∀ m, d'.ended t = some m → ∃ m₀, d'.published = [((entryOf A a).dir, m₀)] ∧ Stamped A m₀ m

variable (hinv : Inv A mode d)
include hinv

theorem LocksStep.ok (h : LocksStep A mode t d d') : Ok A mode t d d' := by
  have hholds : ∀ {u p}, u ≠ t → Holds d u p → Holds d' u p := by
    intro u p hu hp
    refine ⟨by rw [h.tree]; exact hp.1, ?_⟩
    rw [h.gen, h.excl _ u hu]
    exact hp.2
  refine ⟨⟨h.apart, ?_, ?_, ?_, ?_, ?_, hinv.proper, ?_, ?_⟩,
    ⟨h.excl, h.shared, h.given, h.fetching, h.inUse, h.ended, ?_, ?_, ?_, ?_, ?_, ?_, ?_, ?_⟩⟩
  · rw [h.tree, h.seen]
    exact hinv.seen
  · intro u st hst
    by_cases hu : u = t
    · subst hu
      exact h.ownGiven st hst
    · rw [h.given u hu] at hst
      obtain ⟨hname, hgen, hheld⟩ := hinv.given u st hst
      exact ⟨hname, by rw [h.gen]; exact hgen, hholds hu hheld⟩
  · intro u e he
    by_cases hu : u = t
    · subst hu
      exact h.ownFetching e he
    · rw [h.fetching u hu] at he
      exact hholds hu (hinv.fetching u e he)
  · intro htidy u e lock hlock
    by_cases hu : u = t
    · subst hu
      exact h.ownInUse htidy e lock hlock
    rw [h.inUse u hu] at hlock
    obtain ⟨hproper, hhandle, hshares, hreadable⟩ := hinv.inUse htidy u e lock hlock
    refine ⟨hproper, by rw [h.gen]; exact hhandle, ⟨by rw [h.tree]; exact hshares.1, ?_⟩, by rw [h.tree]; exact hreadable⟩
    rw [h.gen, h.shared _ u hu]
    exact hshares.2
  · rw [h.tree]
    exact hinv.whole
  · rw [h.tree, h.published]
    exact hinv.once
  · intro a ha u m hm
    by_cases hu : u = t
    · subst hu
      exact h.ownEnded a ha m hm
    · rw [h.ended u hu] at hm
      rw [h.published]
      exact hinv.ended a ha u m hm
  · exact fun _ _ hseen => by rw [h.seen]; exact hseen
  · exact fun _ _ _ => by rw [h.gen]
  · exact fun _ _ _ => .inl (by rw [h.tree])
  · exact fun _ _ _ _ _ _ _ _ => by rw [h.tree]
  · exact fun _ _ hfile => ⟨by rw [h.tree]; exact hfile, by rw [h.gen]⟩
  · exact fun _ _ _ habsent _ => by rw [h.tree]; exact habsent
  · exact fun _ _ _ hreadable _ => by rw [h.tree]; exact ⟨hreadable, fun _ _ _ => rfl⟩
  · exact fun _ _ => by rw [h.published]; exact ⟨fun hnil _ => hnil, fun _ => rfl⟩

theorem LocksStep.refl : LocksStep A mode t d d :=
  ⟨rfl, rfl, rfl, rfl, hinv.apart, fun _ _ _ => Iff.rfl, fun _ _ _ => rfl, fun _ _ => rfl, fun _ _ => rfl, fun _ _ => rfl,
    fun _ _ => rfl, hinv.given t, hinv.fetching t, fun htidy => hinv.inUse htidy t, fun a ha => hinv.ended a ha t⟩

/-! ## Locks -/

open LocksStep

variable {h : Handle}

theorem ok_lockExcl (hfree : d.Free h) : Ok A mode t d (d.lockExcl t h) := by
  have hown : ∀ {p}, Holds d t p → Holds (d.lockExcl t h) t p := by
    refine fun hp => ⟨hp.1, ?_⟩
    show update d.excl h (some t) _ = some t
    rw [update_apply]
    split
    · rfl
    · exact hp.2
  refine ok hinv { refl hinv with apart := ?_, excl := ?_, ownGiven := ?_, ownFetching := ?_ }
  · intro h' u v hu
    change update d.excl h (some t) h' = some u at hu
    rw [update_apply] at hu
    split at hu
    · next heq =>
      subst heq
      exact hfree.2 v
    · exact hinv.apart h' u v hu
  · intro h' u hu
    change update d.excl h (some t) h' = some u ↔ _
    rw [update_apply]
    split
    · next heq =>
      subst heq
      rw [hfree.1, Option.some.injEq]
      exact iff_of_false (fun h => hu h.symm) nofun
    · rfl
  · intro st hst
    obtain ⟨hname, hgen, hheld⟩ := hinv.given t st hst
    exact ⟨hname, hgen, hown hheld⟩
  · exact fun e he => hown (hinv.fetching t e he)

theorem ok_lockShared (hfree : d.excl h = none) : Ok A mode t d (d.lockShared t h) := by
  refine ok hinv { refl hinv with apart := ?_, shared := ?_, ownInUse := ?_ }
  · intro h' u v hu
    have hne : h' ≠ h := by
      rintro rfl
      have hsome : d.excl h' = some u := hu
      rw [hfree] at hsome
      cases hsome
    simpa [lockShared, hne] using hinv.apart h' u v hu
  · intro h' u hu
    simp [lockShared, hu]
  · intro htidy e lock hlock
    obtain ⟨hproper, hhandle, hshares, hreadable⟩ := hinv.inUse htidy t e lock hlock
    refine ⟨hproper, hhandle, ⟨hshares.1, ?_⟩, hreadable⟩
    simp only [lockShared, Bool.or_eq_true]
    exact .inr hshares.2

/-- A lock that none of the thread's notes speaks of can be dropped. -/
theorem ok_unlock (hgiven : d.given t = none)
    (hfetching : ∀ e, d.fetching t = some e → e.lockPath ≠ h.path) (hinUse : d.inUse t = none) :
    Ok A mode t d (d.unlock t h) := by
  refine ok hinv { refl hinv with
    apart := ?_, excl := ?_, shared := ?_, ownGiven := ?_, ownFetching := ?_, ownInUse := ?_ }
  · intro h' u v hu
    have hold : d.excl h' = some u := by
      simp only [unlock] at hu
      split at hu
      · cases hu
      · exact hu
    simp [unlock, hinv.apart h' u v hold]
  · intro h' u hu
    simp only [unlock]
    split
    · next heq =>
      rw [heq.2, Option.some.injEq]
      exact iff_of_false nofun fun h => hu h.symm
    · rfl
  · intro h' u hu
    simp [unlock, hu]
  · exact fun st hst => nomatch hgiven.symm.trans hst
  · intro e he
    obtain ⟨hfile, hexcl⟩ := hinv.fetching t e he
    refine ⟨hfile, ?_⟩
    have hne : (⟨e.lockPath, d.gen e.lockPath⟩ : Handle) ≠ h := fun heq => hfetching e he (congrArg Handle.path heq)
    simp only [unlock, hne, false_and, if_false]
    exact hexcl
  · exact fun _ e lock hlock => nomatch hinUse.symm.trans hlock

/-- A thread that is killed leaves files as they are and drops its locks. -/
theorem ok_exit : Ok A mode t d (exit t d) := by
  refine ok hinv ⟨rfl, rfl, rfl, rfl, ?_, ?_, ?_, ?_, ?_, ?_, fun _ _ => rfl, ?_, ?_, ?_, fun a ha => hinv.ended a ha t⟩
  · intro h u v hu
    have hold : d.excl h = some u := by
      simp only [exit] at hu
      split at hu
      · cases hu
      · exact hu
    simp [exit, hinv.apart h u v hold]
  · intro h u hu
    simp only [exit]
    split
    · next heq =>
      rw [heq, Option.some.injEq]
      exact iff_of_false nofun fun h => hu h.symm
    · rfl
  · intro h u hu
    simp [exit, hu]
  · exact fun u hu => update_of_ne hu _ _
  · exact fun u hu => update_of_ne hu _ _
  · exact fun u hu => update_of_ne hu _ _
  · exact fun st hst => by simp [exit] at hst
  · exact fun e he => by simp [exit] at he
  · exact fun _ e lock hlock => by simp [exit] at hlock

omit hinv

/-! ## Notes -/

/-- What a note says is so. -/
def Justified (A : Artifacts α μ) (mode : Mode α) (t : Tid) (d : Disk μ) : Note μ → Prop
  | .given st => IsStagedName st.name ∧ d.gen st.lockPath = st.gen ∧ Holds d t st.lockPath
  | .fetching e => Holds d t e.lockPath
  | .inUse e lock => mode = .tidy → e.Proper ∧ lock = ⟨e.usePath, d.gen e.usePath⟩ ∧ Shares d t e ∧ Readable A d.tree e
  | .ended m => ∀ a, mode = .calm a → ∃ m₀, d.published = [((entryOf A a).dir, m₀)] ∧ Stamped A m₀ m
  | .dropped | .fetched | .released => True

theorem ok_note (hinv : Inv A mode d) {n : Note μ} (hn : Justified A mode t d n) : Ok A mode t d (d.noted t n) := by
  have hbase : LocksStep A mode t d d := .refl hinv
  refine ok hinv ?_
  cases n with
  | given st =>
    refine { hbase with given := fun u hu => update_of_ne hu _ _, ownGiven := fun st' hst => ?_ }
    obtain rfl : st = st' := by simpa [noted] using hst
    exact hn
  | dropped =>
    refine { hbase with given := fun u hu => update_of_ne hu _ _, ownGiven := fun st' hst => ?_ }
    simp [noted] at hst
  | fetching e =>
    refine { hbase with fetching := fun u hu => update_of_ne hu _ _, ownFetching := fun e' he => ?_ }
    obtain rfl : e = e' := by simpa [noted] using he
    exact hn
  | fetched =>
    refine { hbase with fetching := fun u hu => update_of_ne hu _ _, ownFetching := fun e' he => ?_ }
    simp [noted] at he
  | inUse e lock =>
    refine { hbase with inUse := fun u hu => update_of_ne hu _ _, ownInUse := fun htidy e' lock' hlock => ?_ }
    obtain ⟨rfl, rfl⟩ : e = e' ∧ lock = lock' := by simpa [noted] using hlock
    exact hn htidy
  | released =>
    refine { hbase with inUse := fun u hu => update_of_ne hu _ _, ownInUse := fun htidy e' lock' hlock => ?_ }
    simp [noted] at hlock
  | ended m =>
    refine { hbase with ended := fun u hu => update_of_ne hu _ _, ownEnded := fun a ha m' hm => ?_ }
    obtain rfl : m = m' := by simpa [noted] using hm
    exact hn a ha

end Pipette.Shared
