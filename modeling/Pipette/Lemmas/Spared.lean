import Pipette.Lemmas.Sweep

/-!
# Paths a sweep never removes

A path at which only pinned or unevictable entries stand is never removed, in any round: a plan has candidates only, pinning
makes none, and applying a plan puts nothing new outside `.staging`.
-/

namespace Pipette

open List

section Spared

variable {os : Removals} {quota : Nat} {pins : SweepPins} {disk : List StorageEntry}

variable {e x : StorageEntry} {evictions : List StorageEntry} {report : SweepReport}

/-- A plan evicts entries of the survey that are candidates. -/
theorem mem_planLoop {used freed : Nat} {entries : List StorageEntry}
    (h : e ∈ (planLoop used quota pins freed entries).1) : e ∈ entries ∧ isCandidate pins e := by
  fun_induction planLoop used quota pins freed entries with
  | case1 => simp at h
  | case2 => simp at h
  | case3 freed x entries _ _ ih => exact (ih h).imp_left (mem_cons_of_mem _)
  | case4 freed x entries _ hcand evictions total heq ih =>
    rw [heq] at ih
    rcases mem_cons.1 h with rfl | h
    · exact ⟨mem_cons_self, by simpa using hcand⟩
    · exact (ih h).imp_left (mem_cons_of_mem _)

/-- What is left of an entry stands at its path or under `.staging`. -/
theorem leaves_place (h : x ∈ leaves os e) : x.path = e.path ∨ x.path.isStaged := by
  unfold leaves at h
  rcases removeEntry_cases os e with ⟨err, hr⟩ | ⟨left, _, _, hr⟩ | ⟨err, path, left, reason, hs, _, _, _, hr⟩ | hr <;>
    rw [hr] at h <;> simp at h <;> subst h
  · exact .inl rfl
  · exact .inl rfl
  · exact .inr hs

/-- Applying a plan puts nothing at a path outside `.staging` that the plan does not name. -/
theorem mem_of_mem_applySweep (hx : x ∈ (applySweep os evictions report disk).2) (hs : x.path.isStaged = false)
    (hpath : ∀ e ∈ evictions, e.path ≠ x.path) : x ∈ disk := by
  induction evictions generalizing disk report with
  | nil => exact hx
  | cons e es ih =>
    have hreplaced : x ∈ replaceAt e.path (leaves os e) disk := by
      cases hr : removeEntry os e with
      | mk err left =>
        have hleft : left = leaves os e := by simp [leaves, hr]
        subst hleft
        have htail : ∀ y ∈ es, y.path ≠ x.path := fun y hy => hpath y (mem_cons_of_mem _ hy)
        cases err with
        | none | some err => exact ih (by simpa only [applySweep, hr] using hx) htail
    obtain ⟨y, hy, hin⟩ := mem_flatMap.1 hreplaced
    split at hin
    · rcases leaves_place hin with h | h
      · exact absurd h.symm (hpath e mem_cons_self)
      · simp [hs] at h
    · rwa [mem_singleton.1 hin]

theorem mem_removed_of_applySweep
    (hx : x ∈ (applySweep os evictions report disk).1.removed) : x ∈ report.removed ∨ x ∈ evictions := by
  induction evictions generalizing disk report with
  | nil => exact .inl hx
  | cons e es ih =>
    cases hr : removeEntry os e with
    | mk err left =>
      cases err with
      | none =>
        rcases ih (by simpa only [applySweep, hr] using hx) with h | h
        · rcases mem_append.1 h with h | h
          · exact .inl h
          · exact .inr (mem_singleton.1 h ▸ mem_cons_self)
        · exact .inr (mem_cons_of_mem _ h)
      | some err =>
        have hx' : x ∈ (applySweep os es { report with failed := report.failed ++ [(e, err)] }
            (replaceAt e.path left disk)).1.removed := by simpa only [applySweep, hr] using hx
        exact (ih hx').imp_right (mem_cons_of_mem _)

/-- A sweep never removes a path at which only entries that are not up for eviction stand. -/
theorem sweepLoop_spares {fuel : Nat} {done : SweepReport} {out : SweepPlan × SweepReport × List StorageEntry} {p : Place}
    (hp : p.isStaged = false) (hdisk : ∀ x ∈ disk, x.path = p → isCandidate pins x = false)
    (hdone : ∀ x ∈ done.removed, x.path ≠ p) (hrun : sweepLoop os quota fuel pins done disk = some out) :
    ∀ x ∈ out.2.1.removed, x.path ≠ p := by
  induction fuel generalizing pins done disk with
  | zero => simp [sweepLoop] at hrun
  | succ fuel ih =>
    have hplan : ∀ e ∈ (plan (.new disk) quota pins).evictions, e.path ≠ p := by
      intro e he hep
      obtain ⟨hmem, hcand⟩ := mem_planLoop he
      simp [hdisk e (mem_sweepOrder.1 hmem) hep] at hcand
    have hremoved : ∀ x ∈ (done.extend (applySweep os (plan (.new disk) quota pins).evictions .empty disk).1).removed,
        x.path ≠ p := by
      refine forall_mem_append.2 ⟨hdone, fun x hx => ?_⟩
      rcases mem_removed_of_applySweep hx with h | h
      · simp [SweepReport.empty] at h
      · exact hplan x h
    unfold sweepLoop at hrun
    dsimp only at hrun
    split at hrun
    · refine ih ?_ hremoved hrun
      intro x hx hxp
      by_contra hcand
      have hold : x ∈ disk := mem_of_mem_applySweep hx (hxp ▸ hp) fun e he => hxp ▸ hplan e he
      have hcand' := isCandidate_of_pinFailed (by simpa using hcand)
      simp [hdisk x hold hxp] at hcand'
    · cases hrun
      exact hremoved

end Spared

end Pipette
