import Pipette.Lib.Evict
import Pipette.Store.Quota

/-!
# Plans and removals

A plan is read off the survey: all garbage, then live candidates in sweep order while the live entries alone are over the
quota. `removeEntry_cases` lists how a removal can go; what it leaves stands under the same name and cannot be removed by
trying again.
-/

namespace Pipette

open Evict List StorageSurvey Place EntryKind

/-! ## The sweep order -/

/-- A timestamp with the absent one below all others. -/
def stamp (t : Option Int) : WithBot Int := t

/-- The sweep key as a value of a linear order. -/
def sweepKey (e : StorageEntry) : Nat ×ₗ (WithBot Int ×ₗ WithBot Int) :=
  toLex (e.kind.rank, toLex (stamp e.kind.lastUsedAt, stamp e.kind.fetchedAt))

theorem optLe_iff (a b : Option Int) : optLe a b ↔ stamp a ≤ stamp b := by
  cases a with
  | none => exact iff_of_true rfl bot_le
  | some a =>
    cases b with
    | none => exact iff_of_false Bool.false_ne_true (WithBot.not_coe_le_bot a)
    | some b => exact decide_eq_true_iff.trans WithBot.coe_le_coe.symm

theorem sweepLe_iff (a b : StorageEntry) : sweepLe a b ↔ sweepKey a ≤ sweepKey b := by
  have hlt : optLe b.kind.lastUsedAt a.kind.lastUsedAt = false ↔ stamp a.kind.lastUsedAt < stamp b.kind.lastUsedAt := by
    rw [← Bool.not_eq_true, optLe_iff, not_le]
  have heq : a.kind.lastUsedAt = b.kind.lastUsedAt ↔ stamp a.kind.lastUsedAt = stamp b.kind.lastUsedAt := Iff.rfl
  simp only [sweepKey, Prod.Lex.toLex_le_toLex, ← optLe_iff, ← hlt, ← heq, sweepLe, Bool.or_eq_true, Bool.and_eq_true,
    decide_eq_true_eq, Bool.not_eq_true']

instance : IsTrans StorageEntry fun a b => sweepLe a b = true where
  trans a b c hab hbc := by
    rw [sweepLe_iff] at *
    exact hab.trans hbc

instance : Std.Total fun a b : StorageEntry => sweepLe a b = true where
  total a b := by
    rw [sweepLe_iff, sweepLe_iff]
    exact le_total _ _

/-- The entries in sweep order. -/
def sweepOrder (disk : List StorageEntry) : List StorageEntry := disk.insertionSort fun a b => sweepLe a b

variable {disk : List StorageEntry} {e : StorageEntry} {used quota freed : Nat} {pins : SweepPins}

@[simp] theorem mem_sweepOrder : e ∈ sweepOrder disk ↔ e ∈ disk := (perm_insertionSort _ disk).mem_iff

def StorageEntry.isGarbage (e : StorageEntry) : Bool := e.kind.isGarbage

/-- A list in which nothing with `q` stands after something without is what has `q`, then the rest. -/
theorem filter_append_filter_not {α : Type} {q : α → Bool} {l : List α} (h : l.Pairwise fun a b => q b → q a) :
    l.filter q ++ l.filter (fun e => !q e) = l := by
  induction l with
  | nil => rfl
  | cons a l ih =>
    obtain ⟨ha, hl⟩ := pairwise_cons.1 h
    cases hq : q a with
    | true => simpa [hq] using ih hl
    | false =>
      have hnone : l.filter q = [] := by
        rw [filter_eq_nil_iff]
        intro b hb hqb
        simp [ha b hb hqb] at hq
      have hall : l.filter (fun e => !q e) = l := by simpa [hnone] using ih hl
      simp [hq, hnone, hall]

/-- In sweep order garbage stands first. -/
theorem sweepOrder_split (disk : List StorageEntry) :
    (sweepOrder disk).filter (·.isGarbage) ++ (sweepOrder disk).filter (fun e => !e.isGarbage) = sweepOrder disk := by
  refine filter_append_filter_not ((pairwise_insertionSort _ disk).imp ?_)
  intro a b hab hb
  have hrank : a.kind.rank ≤ b.kind.rank := by
    simp only [sweepLe, Bool.or_eq_true, Bool.and_eq_true, decide_eq_true_eq] at hab
    omega
  cases ha : a.kind <;> cases hk : b.kind <;> simp_all [StorageEntry.isGarbage, isGarbage, rank]

/-! ## What a plan evicts -/

/-- The bytes of these entries together. -/
def bytes (es : List StorageEntry) : Nat := (es.map (·.sizeBytes)).sum

@[simp] theorem bytes_nil : bytes [] = 0 := rfl

@[simp] theorem bytes_cons (e : StorageEntry) (es : List StorageEntry) : bytes (e :: es) = e.sizeBytes + bytes es := by
  simp [bytes]

@[simp] theorem bytes_append (a b : List StorageEntry) : bytes (a ++ b) = bytes a + bytes b := by simp [bytes]

theorem bytes_perm {a b : List StorageEntry} (h : a.Perm b) : bytes a = bytes b := (h.map _).sum_eq

/-- The live entries of a disk. -/
def live (disk : List StorageEntry) : List StorageEntry := disk.filter fun e => !e.isGarbage

@[simp] theorem mem_live : e ∈ live disk ↔ e ∈ disk ∧ e.isGarbage = false := by simp [live]

/-- The live entries a sweep with these pins may evict, in sweep order. -/
def candidates (pins : SweepPins) (disk : List StorageEntry) : List StorageEntry :=
  (sweepOrder (live disk)).filter (isCandidate pins)

theorem satAdd_eq {a b : Nat} (h : a + b ≤ u64Max) : satAdd a b = a + b := Nat.min_eq_left h

theorem foldl_satAdd {acc : Nat} {es : List StorageEntry} (h : acc + bytes es ≤ u64Max) :
    es.foldl (fun total e => satAdd total e.sizeBytes) acc = acc + bytes es := by
  induction es generalizing acc with
  | nil => rfl
  | cons e es ih =>
    rw [bytes_cons] at h
    rw [foldl_cons, satAdd_eq (by omega), ih (by omega), bytes_cons]
    omega

theorem usedBytes_eq (h : bytes disk ≤ u64Max) : (new disk).usedBytes = bytes disk := by
  have hperm : bytes (sweepOrder disk) = bytes disk := bytes_perm (perm_insertionSort _ disk)
  have hfold := @foldl_satAdd 0 (sweepOrder disk) (by omega)
  exact hfold.trans (by omega)

theorem planLoop_garbage {gs : List StorageEntry} (ls : List StorageEntry)
    (hg : ∀ e ∈ gs, e.isGarbage) (hfit : freed + bytes gs ≤ u64Max) :
    (planLoop used quota pins freed (gs ++ ls)).1 = gs ++ (planLoop used quota pins (freed + bytes gs) ls).1 := by
  induction gs generalizing freed with
  | nil => rfl
  | cons g gs ih =>
    rw [bytes_cons] at hfit
    have hgarbage : g.kind.isGarbage := hg g mem_cons_self
    have hcand : isCandidate pins g := by cases hk : g.kind <;> simp_all [isCandidate, isGarbage]
    have hadd : satAdd freed g.sizeBytes = freed + g.sizeBytes := satAdd_eq (by omega)
    have hrest := @ih (freed + g.sizeBytes) (fun e he => hg e (mem_cons_of_mem _ he)) (by omega)
    simp only [cons_append, planLoop, hgarbage, hcand, hadd, Bool.true_eq_false, and_false, if_false, hrest, bytes_cons,
      Nat.add_assoc]

/-- Past the garbage a plan takes candidates until what is left fits. -/
theorem planLoop_live {ls : List StorageEntry}
    (hl : ∀ e ∈ ls, e.isGarbage = false) (hfit : freed + bytes ls ≤ u64Max) :
    (planLoop used quota pins freed ls).1 = planned (·.sizeBytes) quota (used - freed) (ls.filter (isCandidate pins)) := by
  induction ls generalizing freed with
  | nil => rfl
  | cons e ls ih =>
    rw [bytes_cons] at hfit
    have hlive : e.kind.isGarbage = false := hl e mem_cons_self
    have htail : ∀ x ∈ ls, x.isGarbage = false := fun x hx => hl x (mem_cons_of_mem _ hx)
    by_cases hover : quota < used - freed
    · have hnot : ¬used - freed ≤ quota := by omega
      cases hcand : isCandidate pins e with
      | false => simp [planLoop, hover, hcand, @ih freed htail (by omega)]
      | true =>
        have hadd : satAdd freed e.sizeBytes = freed + e.sizeBytes := satAdd_eq (by omega)
        simp [planLoop, hover, hcand, hadd, planned, hnot, Nat.sub_add_eq, @ih (freed + e.sizeBytes) htail (by omega)]
    · have hstop : planned (·.sizeBytes) quota (used - freed) ((e :: ls).filter (isCandidate pins)) = [] := by
        cases (e :: ls).filter (isCandidate pins) with
        | nil => rfl
        | cons c cs => simp [planned, show used - freed ≤ quota by omega]
      simp only [planLoop, hover, hlive, not_false_eq_true, and_self, if_true, hstop]

/-- A plan evicts all garbage, and live candidates in sweep order until the live entries fit. -/
theorem plan_evictions (quota : Nat) (pins : SweepPins) (hfit : bytes disk ≤ u64Max) :
    (plan (.new disk) quota pins).evictions = (sweepOrder disk).filter (·.isGarbage) ++
        planned (·.sizeBytes) quota (bytes (live disk)) (candidates pins disk) := by
  have hlive : (sweepOrder disk).filter (fun e => !e.isGarbage) = sweepOrder (live disk) := filter_insertionSort _ disk
  have hsplit := sweepOrder_split disk
  rw [hlive] at hsplit
  have hsum : bytes ((sweepOrder disk).filter (·.isGarbage)) + bytes (sweepOrder (live disk)) = bytes disk := by
    rw [← bytes_append, hsplit]
    exact bytes_perm (perm_insertionSort _ disk)
  have hperm : bytes (sweepOrder (live disk)) = bytes (live disk) := bytes_perm (perm_insertionSort _ (live disk))
  have hall : ∀ e ∈ sweepOrder (live disk), e.isGarbage = false := by
    intro e he
    exact (mem_live.1 (mem_sweepOrder.1 he)).2
  have hgarbage : ∀ e ∈ (sweepOrder disk).filter (·.isGarbage), e.isGarbage := fun e he => (mem_filter.1 he).2
  have hused : (new disk).usedBytes = bytes disk := usedBytes_eq hfit
  have hentries : (new disk).entries = (sweepOrder disk).filter (·.isGarbage) ++ sweepOrder (live disk) :=
    hsplit.symm
  change (planLoop (new disk).usedBytes quota pins 0 (new disk).entries).1 = _
  rw [hused, hentries, planLoop_garbage _ hgarbage (by omega), planLoop_live hall (by omega)]
  congr 2
  omega

/-- What a plan counts as freed is what it evicts. -/
theorem planLoop_freed {es : List StorageEntry} (hfit : freed + bytes es ≤ u64Max) :
    (planLoop used quota pins freed es).2 = freed + bytes (planLoop used quota pins freed es).1 := by
  induction es generalizing freed with
  | nil => rfl
  | cons e es ih =>
    rw [bytes_cons] at hfit
    unfold planLoop
    split_ifs
    · rfl
    · exact ih (by omega)
    · have hadd : satAdd freed e.sizeBytes = freed + e.sizeBytes := satAdd_eq (by omega)
      simp [hadd, @ih (freed + e.sizeBytes) (by omega), Nat.add_assoc]

/-! ## What a removal leaves -/

/-- A child and the place it is moved to share a name, and so do a staged directory and its lock. -/
def Place.owner : Place → Bool × StoreKind × Text
  | .child store name | .doomed store name => (false, store, name)
  | .staging store name | .stagingLock store name => (true, store, name)

/-- What the next survey finds of an entry once its removal was tried. -/
def leaves (os : Removals) (e : StorageEntry) : List StorageEntry := (removeEntry os e).2

/-- Whether a live entry is still there once its removal was tried. -/
def stays (os : Removals) (e : StorageEntry) : Bool := (os.moveOut e.path).isSome

variable {os : Removals}

theorem removeEntry_of_staged (hs : e.path.isStaged) : removeEntry os e = removeStaged os e := by
  cases hp : e.path <;> simp_all [removeEntry, isStaged]

/-- A removal: the entry stays, a part of it stays, an orphan stays under its name, or nothing does. -/
theorem removeEntry_cases (os : Removals) (e : StorageEntry) : (∃ err, removeEntry os e = (some err, [e])) ∨
      (∃ left, e.path.isStaged ∧ os.delete e.path = some left ∧
        removeEntry os e = (some .io, [{ e with sizeBytes := left }])) ∨
      (∃ err path left reason, path.isStaged ∧ os.delete path = some left ∧ path.owner = e.path.owner ∧ path ≠ e.path ∧
        removeEntry os e = (err, [orphan path left reason])) ∨
      removeEntry os e = (none, []) := by
  by_cases hs : e.path.isStaged
  · rw [removeEntry_of_staged hs]
    cases hl : os.stagingLock e.path with
    | some err => exact .inl ⟨err, by simp [removeStaged, hl]⟩
    | none =>
      cases hd : os.delete e.path with
      | some left => exact .inr (.inl ⟨left, hs, rfl, by simp [removeStaged, hl, hd]⟩)
      | none =>
        right; right
        cases hp : e.path with
        | child store name => simp [hp, isStaged] at hs
        | stagingLock store name | doomed store name =>
          right
          simp_all [removeStaged, stagingLockOf]
        | staging store name =>
          cases hk : os.delete (.stagingLock store name) with
          | some left =>
            refine .inl ⟨none, .stagingLock store name, left, "orphaned staging lock", rfl, hk, rfl, by simp, ?_⟩
            simp_all [removeStaged, stagingLockOf]
          | none =>
            right
            simp_all [removeStaged, stagingLockOf]
  · cases hp : e.path with
    | child store name =>
      cases hm : os.moveOut (.child store name) with
      | some err => exact .inl ⟨err, by simp [removeEntry, moveOutAndRemove, hp, hm]⟩
      | none =>
        cases hd : os.delete (.doomed store name) with
        | some left =>
          refine .inr (.inr (.inl ⟨some .io, .doomed store name, left, "orphaned staging dir", rfl, hd, rfl, by simp, ?_⟩))
          simp [removeEntry, moveOutAndRemove, hp, hm, hd]
        | none =>
          right; right; right
          simp [removeEntry, moveOutAndRemove, hp, hm, hd]
    | staging | stagingLock | doomed => simp [hp, isStaged] at hs

/-- A staging child whose delete breaks off without freeing anything stays. -/
theorem removeEntry_stuck (hs : e.path.isStaged)
    (hd : os.delete e.path = some e.sizeBytes) : ∃ err, removeEntry os e = (some err, [e]) := by
  rw [removeEntry_of_staged hs]
  cases hl : os.stagingLock e.path with
  | some err => exact ⟨err, by simp [removeStaged, hl]⟩
  | none => exact ⟨.io, by simp [removeStaged, hl, hd]⟩

variable {e x : StorageEntry}

/-- What a removal leaves stands under the same name, at another place if the removal succeeded, and is garbage if the entry
was. It cannot be removed: trying it again fails and changes nothing. -/
theorem leaves_spec (h : x ∈ leaves os e) : x.path.owner = e.path.owner ∧ ((removeEntry os e).1 = none → x.path ≠ e.path) ∧
    (e.isGarbage → x.isGarbage) ∧ ∃ err, removeEntry os x = (some err, [x]) := by
  unfold leaves at h
  rcases removeEntry_cases os e with ⟨err, hr⟩ | ⟨left, hs, hd, hr⟩ | ⟨err, path, left, reason, hs, hd, howner, hne, hr⟩ | hr <;>
    rw [hr] at h ⊢ <;> simp only [mem_singleton, not_mem_nil] at h <;> subst h
  · exact ⟨rfl, by rintro ⟨⟩, id, err, hr⟩
  · exact ⟨rfl, by rintro ⟨⟩, id, removeEntry_stuck hs hd⟩
  · exact ⟨howner, fun _ => hne, fun _ => rfl, removeEntry_stuck hs hd⟩

theorem leaves_left (h : x ∈ leaves os e) : leaves os x = [x] := by
  obtain ⟨-, -, -, err, hr⟩ := leaves_spec h
  simp [leaves, hr]

theorem leaves_length (os : Removals) (e : StorageEntry) : (leaves os e).length ≤ 1 := by
  unfold leaves
  rcases removeEntry_cases os e with ⟨err, hr⟩ | ⟨left, _, _, hr⟩ | ⟨err, path, left, reason, _, _, _, _, hr⟩ | hr <;>
    rw [hr] <;> simp

/-- A live entry, one of the children of a store root, stays as it is, its removal failing, or only garbage is left of it. -/
theorem leaves_live (hst : e.path.isStaged → e.isGarbage) (hl : e.isGarbage = false) :
    (stays os e ∧ leaves os e = [e] ∧ ∃ err, (removeEntry os e).1 = some err) ∨
      (stays os e = false ∧ ∀ x ∈ leaves os e, x.isGarbage) := by
  obtain ⟨path, size, kind⟩ := e
  cases path with
  | child store name =>
    cases hm : os.moveOut (.child store name) with
    | some err => simp [stays, leaves, removeEntry, moveOutAndRemove, hm]
    | none =>
      cases hd : os.delete (.doomed store name) <;>
        simp [stays, leaves, removeEntry, moveOutAndRemove, hm, hd, orphan, StorageEntry.isGarbage, isGarbage]
  | staging | stagingLock | doomed => simp [hst rfl] at hl

end Pipette
