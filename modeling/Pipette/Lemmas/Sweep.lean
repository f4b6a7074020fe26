import Pipette.Lemmas.Quota

/-!
# The rounds of a sweep

`applySweep_spec` says what a round leaves; `round_candidates` and `round_bytes` what the next starts from. `sweepLoop_spec`
puts them together: the garbage and the live entries `Evict.tried` names have been removed as far as they could be, and
nothing else has moved.
-/

namespace Pipette

open Evict List EntryKind List.Sublist

/-! ## The disk after a round -/

/-- The store and the key of a live entry. -/
def EntryKind.storeKey : EntryKind → Option (StoreKind × Text)
  | .garbage _ => none
  | .model key _ _ => some (.models, key)
  | .runtime key _ _ _ => some (.runtimes, key)

theorem storeKey_isSome {e : StorageEntry} : e.kind.storeKey.isSome ↔ e.isGarbage = false := by
  cases hk : e.kind <;> simp [storeKey, StorageEntry.isGarbage, isGarbage, hk]

/-- One entry per name, live entries only among the children of a store root, and one live entry for a storage key. -/
structure Surveyed (disk : List StorageEntry) : Prop where
  owners : (disk.map (·.path.owner)).Nodup
  staged : ∀ e ∈ disk, e.path.isStaged → e.isGarbage
  keys : ∀ a ∈ disk, ∀ b ∈ disk, a.kind.storeKey.isSome → a.kind.storeKey = b.kind.storeKey → a = b

/-- All sizes together, before and after a removal, fit in 64 bits. -/
def Fits (os : Removals) (disk : List StorageEntry) : Prop :=
  (disk.map fun e => max e.sizeBytes (bytes (leaves os e))).sum ≤ u64Max

instance (os : Removals) (disk : List StorageEntry) : Decidable (Fits os disk) := inferInstanceAs (Decidable (_ ≤ _))

/-- What is left of an entry once the removal of all garbage and of `tries` was tried. -/
@[simp] abbrev settled (os : Removals) (tries : List StorageEntry) (e : StorageEntry) : List StorageEntry :=
  if e.isGarbage ∨ e ∈ tries then leaves os e else [e]

/-- The disk once the removal of all garbage and of the entries `tries` was tried. -/
def settle (os : Removals) (tries disk : List StorageEntry) : List StorageEntry :=
  disk.flatMap fun e => if e.isGarbage ∨ e ∈ tries then leaves os e else [e]

/-- Taking the first part off a list without repetitions leaves the rest. -/
theorem filter_notMem_append {a b l : List StorageEntry} (happ : a ++ b = l) (hn : l.Nodup) :
    (l.filter fun e => !decide (e ∈ a)) = b := by
  subst happ
  obtain ⟨_, _, hdis⟩ := nodup_append.1 hn
  have ha : (a.filter fun e => !decide (e ∈ a)) = [] := by
    rw [filter_eq_nil_iff]
    intro e he
    simp [he]
  have hb : (b.filter fun e => !decide (e ∈ a)) = b := by
    rw [filter_eq_self]
    intro e he
    simpa using fun hea => hdis e hea e he rfl
  rw [filter_append, ha, hb, nil_append]

section Settle

variable {os : Removals} {disk tries : List StorageEntry}

theorem Surveyed.nodup (h : Surveyed disk) : disk.Nodup := h.owners.of_map _

theorem Surveyed.eq_of_owner (h : Surveyed disk) {a b : StorageEntry} (ha : a ∈ disk) (hb : b ∈ disk)
    (hab : a.path.owner = b.path.owner) : a = b :=
  inj_on_of_nodup_map h.owners ha hb hab

section Tried

variable {p q : StorageEntry → Prop} [DecidablePred p] [DecidablePred q]

/-- Trying to remove some entries leaves at most one under each name. -/
theorem owners_tried (disk : List StorageEntry) :
    ((disk.flatMap fun e => if p e then leaves os e else [e]).map (·.path.owner)).Sublist (disk.map (·.path.owner)) := by
  induction disk with
  | nil => exact slnil
  | cons e disk ih =>
    rw [flatMap_cons, map_append, map_cons]
    split
    · have hl := leaves_length os e
      match hf : leaves os e with
      | [] => exact ih.cons _
      | [x] =>
        have hx : x.path.owner = e.path.owner := (leaves_spec (hf ▸ mem_singleton_self x)).1
        simpa [hx] using ih.cons_cons e.path.owner
      | _ :: _ :: _ => simp [hf] at hl
    · exact ih.cons_cons _

/-- What is left stays however often it is tried. -/
theorem tried_tried (disk : List StorageEntry) :
    (disk.flatMap fun e => if p e then leaves os e else [e]).flatMap (fun x => if q x then leaves os x else [x]) =
      disk.flatMap fun e => if p e ∨ q e then leaves os e else [e] := by
  rw [flatMap_assoc]
  refine flatMap_congr fun e _ => ?_
  by_cases hp : p e
  · have hstuck : ∀ x ∈ leaves os e, (if q x then leaves os x else [x]) = [x] := by
      intro x hx
      rw [leaves_left hx, ite_self]
    rw [if_pos hp, if_pos (.inl hp), flatMap_congr hstuck, flatMap_singleton']
  · simp [hp]

end Tried

theorem settle_cons (e : StorageEntry) : settle os tries (e :: disk) = settled os tries e ++ settle os tries disk :=
  flatMap_cons

theorem settled_owner {e x : StorageEntry} (hx : x ∈ settled os tries e) : x.path.owner = e.path.owner := by
  unfold settled at hx
  split at hx
  · exact (leaves_spec hx).1
  · rw [mem_singleton.1 hx]

variable {x : StorageEntry}

theorem mem_settle : x ∈ settle os tries disk ↔ ∃ e ∈ disk, x ∈ settled os tries e := mem_flatMap

/-- Garbage of a settled disk is left of something that was tried. -/
theorem garbage_of_settle (hx : x ∈ settle os tries disk) (hg : x.isGarbage) :
    ∃ e ∈ disk, (e.isGarbage ∨ e ∈ tries) ∧ e.path.owner = x.path.owner := by
  obtain ⟨e, he, hin⟩ := mem_settle.1 hx
  unfold settled at hin
  split at hin
  · next htry => exact ⟨e, he, htry, (leaves_spec hin).1.symm⟩
  · next htry =>
    rw [mem_singleton.1 hin] at hg
    exact absurd (.inl hg) htry

/-- Trying more after a settled disk is trying both from the start. -/
theorem settle_settle (more : List StorageEntry) :
    settle os more (settle os tries disk) = settle os (tries ++ more) disk := by
  have hboth : ∀ e : StorageEntry, (e.isGarbage ∨ e ∈ tries) ∨ (e.isGarbage ∨ e ∈ more) ↔
      e.isGarbage ∨ e ∈ tries ++ more := by
    intro e
    rw [mem_append]
    tauto
  rw [settle, settle, settle, tried_tried]
  simp only [hboth]

end Settle

/-! ## One round -/

/-- The planned entries whose removal fails, with the reason. -/
def failures (os : Removals) (evictions : List StorageEntry) : List (StorageEntry × RemoveError) :=
  evictions.filterMap fun e => (removeEntry os e).1.map fun err => (e, err)

/-- The planned entries whose removal succeeds. -/
def removals (os : Removals) (evictions : List StorageEntry) : List StorageEntry :=
  evictions.filter fun e => (removeEntry os e).1.isNone

variable {f : StorageEntry × RemoveError} {evictions : List StorageEntry}

theorem mem_failures {os : Removals} :
    f ∈ failures os evictions ↔ f.1 ∈ evictions ∧ (removeEntry os f.1).1 = some f.2 := by
  obtain ⟨e, err⟩ := f
  simp [failures, mem_filterMap, Option.map_eq_some_iff]

section Apply

variable {os : Removals}

/-- Replacing an entry of the disk is trying it alone. -/
theorem replaceAt_eq {disk : List StorageEntry} {e : StorageEntry} (hs : (disk.map (·.path.owner)).Nodup) (he : e ∈ disk) :
    replaceAt e.path (leaves os e) disk = disk.flatMap fun x => if x = e then leaves os x else [x] := by
  refine flatMap_congr fun y hy => ?_
  by_cases hye : y = e
  · simp [hye]
  · have hpath : y.path ≠ e.path := fun hp => hye (inj_on_of_nodup_map hs hy he (by rw [hp]))
    simp [hye, hpath]

/-- What a round leaves and reports: the planned entries are replaced by what is left of them. -/
theorem applySweep_spec {evictions disk : List StorageEntry} (report : SweepReport)
    (hs : (disk.map (·.path.owner)).Nodup) (hsub : ∀ e ∈ evictions, e ∈ disk) (hn : evictions.Nodup) :
    (applySweep os evictions report disk).2 = (disk.flatMap fun e => if e ∈ evictions then leaves os e else [e]) ∧
      (applySweep os evictions report disk).1.failed = report.failed ++ failures os evictions ∧
      (applySweep os evictions report disk).1.removed = report.removed ++ removals os evictions := by
  induction evictions generalizing disk report with
  | nil => simp [applySweep, failures, removals]
  | cons e es ih =>
    obtain ⟨hne, hnes⟩ := nodup_cons.1 hn
    have he : e ∈ disk := hsub e mem_cons_self
    have hes : ∀ x ∈ es, x ∈ disk := fun x hx => hsub x (mem_cons_of_mem _ hx)
    have hreplaced : replaceAt e.path (leaves os e) disk = _ := replaceAt_eq hs he
    have hs' : ((replaceAt e.path (leaves os e) disk).map (·.path.owner)).Nodup := by
      rw [hreplaced]
      exact (owners_tried disk).nodup hs
    have hes' : ∀ x ∈ es, x ∈ replaceAt e.path (leaves os e) disk := by
      intro x hx
      have hxe : x ≠ e := fun h => hne (h ▸ hx)
      rw [hreplaced]
      exact mem_flatMap.2 ⟨x, hes x hx, by simp [hxe]⟩
    have hdisk : (replaceAt e.path (leaves os e) disk).flatMap (fun x => if x ∈ es then leaves os x else [x]) =
        disk.flatMap fun x => if x ∈ e :: es then leaves os x else [x] := by
      simp only [hreplaced, tried_tried, mem_cons]
    cases hr : removeEntry os e with
    | mk err left =>
      have hleft : left = leaves os e := by simp [leaves, hr]
      subst hleft
      cases err
      all_goals
        simp only [applySweep, hr]
        refine ⟨?_, ?_, ?_⟩
        · rw [(ih _ hs' hes' hnes).1, hdisk]
        · rw [(ih _ hs' hes' hnes).2.1]
          simp [failures, hr]
        · rw [(ih _ hs' hes' hnes).2.2]
          simp [removals, hr]

end Apply

/-! ## What the next round starts from -/

section Next

variable {os : Removals} {disk tries : List StorageEntry}

/-- The live entries of a settled disk are those that were not tried, or stayed. -/
theorem live_settle (hst : ∀ e ∈ disk, e.path.isStaged → e.isGarbage) :
    live (settle os tries disk) = (live disk).filter fun e => !(decide (e ∈ tries) && !stays os e) := by
  induction disk with
  | nil => rfl
  | cons e disk ih =>
    have hrest := ih fun x hx => hst x (mem_cons_of_mem _ hx)
    have hcons : live (settle os tries (e :: disk)) = live (settled os tries e) ++ live (settle os tries disk) := by
      simp [live, settle_cons]
    rw [hcons, hrest]
    cases hg : e.isGarbage with
    | true =>
      have hnone : ∀ x ∈ leaves os e, x.isGarbage := fun x hx => (leaves_spec hx).2.2.1 hg
      simpa [live, hg] using hnone
    | false =>
      by_cases htry : e ∈ tries
      · rcases @leaves_live os e (hst e mem_cons_self) hg with ⟨hstay, hleft, _⟩ | ⟨hgo, hleft⟩
        · simp [htry, hleft, live, hg, hstay]
        · simpa [htry, live, hg, hgo] using hleft
      · simp [htry, live, hg]

theorem mem_of_mem_settle (h : Surveyed disk) (hx : x ∈ settle os tries disk) (hl : x.isGarbage = false) : x ∈ disk := by
  have hlive : x ∈ live (settle os tries disk) := mem_live.2 ⟨hx, hl⟩
  rw [live_settle h.staged] at hlive
  exact (mem_live.1 (mem_of_mem_filter hlive)).1

theorem Surveyed.settle (h : Surveyed disk) : Surveyed (settle os tries disk) := by
  refine ⟨(owners_tried disk).nodup h.owners, ?_, ?_⟩
  · intro x hx hs
    by_contra hg
    have hg' : x.isGarbage = false := by simpa using hg
    exact hg (h.staged x (mem_of_mem_settle h hx hg') hs)
  · intro a ha b hb hkey hab
    have hb' : b.kind.storeKey.isSome := hab ▸ hkey
    have ha' : a ∈ disk := mem_of_mem_settle h ha (storeKey_isSome.1 hkey)
    exact h.keys a ha' b (mem_of_mem_settle h hb (storeKey_isSome.1 hb')) hkey hab

theorem Fits.settle (h : Fits os disk) : Fits os (settle os tries disk) := by
  refine Nat.le_trans ?_ h
  rw [Pipette.settle, map_flatMap, flatMap_def, sum_flatten, map_map]
  refine sum_le_sum fun e _ => ?_
  rw [Function.comp_apply]
  split
  · have hself : ∀ x ∈ leaves os e, max x.sizeBytes (bytes (leaves os x)) = x.sizeBytes := by
      intro x hx
      simp [leaves_left hx]
    rw [map_congr_left hself]
    exact Nat.le_max_right _ _
  · simp

theorem Fits.bytes_le (h : Fits os disk) : bytes disk ≤ u64Max := by
  refine Nat.le_trans (sum_le_sum ?_) h
  intro e _
  exact Nat.le_max_left _ _

theorem bytes_filter_add (q : StorageEntry → Bool) (es : List StorageEntry) :
    bytes (es.filter q) + bytes (es.filter fun e => !q e) = bytes es := by
  rw [← bytes_append]
  exact bytes_perm (filter_append_perm q es)

/-- Trying entries takes what they really freed off the live bytes. -/
theorem bytes_live_settle (h : Surveyed disk) (hn : tries.Nodup) (hsub : ∀ e ∈ tries, e ∈ live disk) :
    bytes (live (settle os tries disk)) = bytes (live disk) - freed (·.sizeBytes) (stays os) tries := by
  have hgone : ((live disk).filter fun e => decide (e ∈ tries) && !stays os e).Perm (tries.filter fun e => !stays os e) := by
    refine (perm_ext_iff_of_nodup ((h.nodup.filter _).filter _) (hn.filter _)).2 ?_
    intro x
    constructor
    · intro hx
      simpa using (mem_filter.1 hx).2
    · intro hx
      obtain ⟨htry, hgo⟩ := mem_filter.1 hx
      exact mem_filter.2 ⟨hsub x htry, by simpa [htry] using hgo⟩
  have hsplit := bytes_filter_add (fun e => decide (e ∈ tries) && !stays os e) (live disk)
  have hfreed : bytes (tries.filter fun e => !stays os e) = freed (·.sizeBytes) (stays os) tries := rfl
  rw [bytes_perm hgone, hfreed] at hsplit
  rw [live_settle h.staged]
  omega

end Next

/-! ## Pinning what stayed -/

section Pins

attribute [local simp] SweepPins.pinFailed isCandidate storeKey StorageEntry.isGarbage isGarbage

/-- Pinning failures takes the failed keys off the candidates. -/
theorem isCandidate_pinFailed (hl : x.isGarbage = false) (failed : List (StorageEntry × RemoveError)) (pins : SweepPins) :
    isCandidate (pins.pinFailed failed).2 x ↔
      isCandidate pins x ∧ ∀ f ∈ failed, f.1.kind.storeKey ≠ x.kind.storeKey := by
  induction failed generalizing pins with
  | nil => simp [-isCandidate]
  | cons f failed ih =>
    obtain ⟨e, err⟩ := f
    simp only [SweepPins.pinFailed, forall_mem_cons, ih]
    cases he : e.kind <;> cases hx : x.kind <;> simp_all <;> grind

theorem pinFailed_cons (f : StorageEntry × RemoveError) (failed : List (StorageEntry × RemoveError)) (pins : SweepPins) :
    (pins.pinFailed (f :: failed)).1 = ((pins.pinFailed [f]).1 || ((pins.pinFailed [f]).2.pinFailed failed).1) := by
  simp

variable {pins : SweepPins}

theorem pinFailed_new {e x : StorageEntry} (err : RemoveError) (hkey : e.kind.storeKey = x.kind.storeKey)
    (hl : x.isGarbage = false) (hc : isCandidate pins x) : (pins.pinFailed [(e, err)]).1 := by
  cases he : e.kind <;> cases hx : x.kind <;> simp_all

variable {failed : List (StorageEntry × RemoveError)}

/-- A failed live entry that was not pinned asks for another round. -/
theorem pinFailed_again
    (hf : f ∈ failed) (hl : f.1.isGarbage = false) (hc : isCandidate pins f.1) : (pins.pinFailed failed).1 := by
  induction failed generalizing pins with
  | nil => simp at hf
  | cons g failed ih =>
    obtain ⟨e, err⟩ := g
    rw [pinFailed_cons, Bool.or_eq_true]
    by_cases hkey : e.kind.storeKey = f.1.kind.storeKey
    · exact .inl (pinFailed_new err hkey hl hc)
    have hf' : f ∈ failed := mem_of_ne_of_mem (fun heq => hkey (heq ▸ rfl)) hf
    have hc' : isCandidate (pins.pinFailed [(e, err)]).2 f.1 :=
      (isCandidate_pinFailed hl _ pins).2 ⟨hc, by simpa using hkey⟩
    exact .inr (ih hf' hc')

/-- Another round is asked for by a failed live entry. -/
theorem exists_of_pinFailed (h : (pins.pinFailed failed).1) : ∃ f ∈ failed, f.1.isGarbage = false := by
  induction failed generalizing pins with
  | nil => simp at h
  | cons g failed ih =>
    obtain ⟨e, err⟩ := g
    cases hg : e.isGarbage with
    | false => exact ⟨(e, err), mem_cons_self, hg⟩
    | true =>
      have hrest : (pins.pinFailed failed).1 := by
        cases he : e.kind <;> simp_all
      obtain ⟨f, hf, hl⟩ := ih hrest
      exact ⟨f, mem_cons_of_mem _ hf, hl⟩

end Pins

/-! ## The rounds together -/

section Round

variable {os : Removals} {quota : Nat} {pins : SweepPins} {disk : List StorageEntry}

theorem mem_candidates {e : StorageEntry} :
    e ∈ candidates pins disk ↔ e ∈ disk ∧ e.isGarbage = false ∧ isCandidate pins e := by
  simp [candidates, and_assoc]

theorem candidates_nodup (h : Surveyed disk) : (candidates pins disk).Nodup :=
  (((perm_insertionSort _ _).nodup_iff).2 (h.nodup.filter _)).filter _

/-- The live entries of a plan. -/
def livePlan (quota : Nat) (pins : SweepPins) (disk : List StorageEntry) : List StorageEntry :=
  planned (·.sizeBytes) quota (bytes (live disk)) (candidates pins disk)

/-- The live entries a sweep tries. -/
def triedLive (os : Removals) (quota : Nat) (pins : SweepPins) (disk : List StorageEntry) : List StorageEntry :=
  tried (·.sizeBytes) quota (stays os) (bytes (live disk)) (candidates pins disk)

theorem livePlan_append : livePlan quota pins disk ++ (candidates pins disk).drop (livePlan quota pins disk).length =
    candidates pins disk :=
  planned_append_drop _ _

theorem livePlan_le : livePlan quota pins disk <+: candidates pins disk := ⟨_, livePlan_append⟩

variable {e : StorageEntry}

theorem of_livePlan (h : e ∈ livePlan quota pins disk) : e ∈ disk ∧ e.isGarbage = false ∧ isCandidate pins e :=
  mem_candidates.1 (livePlan_le.subset h)

theorem livePlan_nodup (h : Surveyed disk) : (livePlan quota pins disk).Nodup :=
  livePlan_le.sublist.nodup (candidates_nodup h)

/-- The entries a round tries. -/
abbrev evicted (quota : Nat) (pins : SweepPins) (disk : List StorageEntry) : List StorageEntry :=
  (plan (.new disk) quota pins).evictions

/-- The pins after a round, and whether there is another. -/
abbrev repinned (os : Removals) (quota : Nat) (pins : SweepPins) (disk : List StorageEntry) : Bool × SweepPins :=
  pins.pinFailed (failures os (evicted quota pins disk))

section Planned

variable (hfit : bytes disk ≤ u64Max)

include hfit

theorem mem_evictions : e ∈ evicted quota pins disk ↔ (e ∈ disk ∧ e.isGarbage) ∨ e ∈ livePlan quota pins disk := by
  rw [evicted, plan_evictions quota pins hfit, mem_append, mem_filter, mem_sweepOrder]
  exact Iff.rfl

theorem mem_disk_of_evictions (h : e ∈ evicted quota pins disk) : e ∈ disk := by
  rcases (mem_evictions hfit).1 h with hg | hl
  · exact hg.1
  · exact (of_livePlan hl).1

variable (h : Surveyed disk)

include h

theorem evictions_nodup : (evicted quota pins disk).Nodup := by
  rw [evicted, plan_evictions quota pins hfit]
  refine ((((perm_insertionSort _ _).nodup_iff).2 h.nodup).filter _).append (livePlan_nodup h) ?_
  intro e hg hl
  have hlive := (of_livePlan hl).2.1
  simp [(mem_filter.1 hg).2] at hlive

/-- One round: all garbage and the planned live entries are tried. -/
theorem round_spec : let evictions := evicted quota pins disk
    (applySweep os evictions .empty disk).2 = settle os (livePlan quota pins disk) disk ∧
      (applySweep os evictions .empty disk).1.failed = failures os evictions ∧
      (applySweep os evictions .empty disk).1.removed = removals os evictions := by
  intro evictions
  obtain ⟨hdisk, hfailed, hremoved⟩ :=
    @applySweep_spec os _ _ .empty h.owners (fun e => mem_disk_of_evictions hfit) (evictions_nodup hfit h)
  refine ⟨?_, hfailed, hremoved⟩
  rw [hdisk, settle]
  refine flatMap_congr ?_
  intro e he
  have hmem : e ∈ evicted quota pins disk ↔ (e.isGarbage ∨ e ∈ livePlan quota pins disk) := by
    rw [mem_evictions hfit]
    simp [he]
  simp only [hmem]

/-- A planned live entry is pinned or gone after the round; no other entry is pinned by it. -/
theorem candidate_after_round (he : e ∈ live disk) :
    (isCandidate (repinned os quota pins disk).2 e ∧ (e ∈ livePlan quota pins disk → stays os e)) ↔
      isCandidate pins e ∧ e ∉ livePlan quota pins disk := by
  obtain ⟨hdisk, hl⟩ := mem_live.1 he
  rw [isCandidate_pinFailed hl]
  by_cases hplan : e ∈ livePlan quota pins disk
  · refine iff_of_false ?_ fun hc => hc.2 hplan
    rintro ⟨⟨_, hkeys⟩, hstay⟩
    rcases @leaves_live os e (h.staged e hdisk) hl with ⟨_, _, err, herr⟩ | ⟨hgo, _⟩
    · exact hkeys (e, err) (mem_failures.2 ⟨(mem_evictions hfit).2 (.inr hplan), herr⟩) rfl
    · simp [hstay hplan] at hgo
  have hother : ∀ f ∈ failures os (evicted quota pins disk), f.1.kind.storeKey ≠ e.kind.storeKey := by
    intro f hf hkey
    have hsome : f.1.kind.storeKey.isSome := hkey ▸ storeKey_isSome.2 hl
    rcases (mem_evictions hfit).1 (mem_failures.1 hf).1 with hg | hlive
    · simp [storeKey_isSome.1 hsome] at hg
    · have hfe := h.keys f.1 (of_livePlan hlive).1 e hdisk hsome hkey
      exact hplan (hfe ▸ hlive)
  exact ⟨fun hc => ⟨hc.1.1, hplan⟩, fun hc => ⟨⟨hc.1, hother⟩, fun hin => absurd hin hplan⟩⟩

/-- The next round's candidates are those the plan did not reach. -/
theorem round_candidates : candidates (repinned os quota pins disk).2 (settle os (livePlan quota pins disk) disk) =
      (candidates pins disk).drop (livePlan quota pins disk).length := by
  have hrest : ((candidates pins disk).filter fun e => !decide (e ∈ livePlan quota pins disk)) =
      (candidates pins disk).drop (livePlan quota pins disk).length :=
    filter_notMem_append livePlan_append (candidates_nodup h)
  rw [← hrest, candidates, candidates, live_settle h.staged, sweepOrder, sweepOrder,
    ← filter_insertionSort, filter_filter, filter_filter]
  refine filter_congr ?_
  intro e he
  have hiff := @candidate_after_round os quota pins disk e hfit h (mem_sweepOrder.1 he)
  rw [Bool.eq_iff_iff]
  simpa [or_iff_not_imp_left, and_comm] using hiff

end Planned

/-- The paths a report gives as failed. -/
def SweepReport.failedPaths (report : SweepReport) : List Place := report.failed.map fun f => f.1.path

/-- What the rounds from here on add to a report: the failures among the garbage and the live entries tried, each path once,
and removals of candidates only. -/
structure Reported (os : Removals) (pins : SweepPins) (disk tries : List StorageEntry) (done final : SweepReport) : Prop where
  kept : ∀ p ∈ done.failedPaths, p ∈ final.failedPaths
  failed : ∀ e, (e ∈ disk ∧ e.isGarbage ∨ e ∈ tries) → (removeEntry os e).1.isSome → e.path ∈ final.failedPaths
  only : ∀ p ∈ final.failedPaths, p ∈ done.failedPaths ∨
    ∃ e, (e ∈ disk ∧ e.isGarbage ∨ e ∈ tries) ∧ e.path.owner = p.owner
  once : done.failedPaths.Nodup → final.failedPaths.Nodup
  removed : ∀ e ∈ final.removed, e ∈ done.removed ∨ isCandidate pins e

variable {done report : SweepReport}

/-- A path is failed after a round when it was before or failed in it. -/
theorem mem_failedPaths_extend {p : Place} :
    p ∈ (done.extend report).failedPaths ↔ p ∈ done.failedPaths ∨ p ∈ report.failedPaths := by
  simp only [SweepReport.failedPaths, SweepReport.extend, map_append, mem_append, mem_map, mem_filter]
  constructor
  · rintro (h | ⟨f, ⟨hf, _⟩, rfl⟩)
    · exact .inl h
    · exact .inr ⟨f, hf, rfl⟩
  · rintro (h | ⟨f, hf, rfl⟩)
    · exact .inl h
    · by_cases hdone : ∃ kept ∈ done.failed, kept.1.path = f.1.path
      · exact .inl hdone
      · exact .inr ⟨f, ⟨hf, by simpa using hdone⟩, rfl⟩

/-- A path failed before is not reported again. -/
theorem failedPaths_extend_nodup (hd : done.failedPaths.Nodup) (hr : report.failedPaths.Nodup) :
    (done.extend report).failedPaths.Nodup := by
  simp only [SweepReport.failedPaths, SweepReport.extend, map_append]
  refine hd.append ((filter_sublist.map _).nodup hr) ?_
  intro p hp hrep
  obtain ⟨f, hf, rfl⟩ := mem_map.1 hrep
  obtain ⟨kept, hkept, hpath⟩ := mem_map.1 hp
  have hnew := (mem_filter.1 hf).2
  simp only [Bool.not_eq_true', any_eq_false, decide_eq_true_eq] at hnew
  exact hnew kept hkept hpath

theorem failures_nodup (h : Surveyed disk) (hsub : ∀ e ∈ evictions, e ∈ disk)
    (hn : evictions.Nodup) : ((failures os evictions).map fun f => f.1.path).Nodup := by
  have hpaths : (evictions.map (·.path)).Nodup := by
    refine List.Nodup.map_on ?_ hn
    intro a ha b hb hab
    exact h.eq_of_owner (hsub a ha) (hsub b hb) (by rw [hab])
  refine nodup ?_ hpaths
  clear hsub hn hpaths
  induction evictions with
  | nil => exact slnil
  | cons e es ih =>
    cases hr : (removeEntry os e).1 with
    | none => simpa [failures, hr] using ih.cons e.path
    | some err => simpa [failures, hr] using ih.cons_cons e.path

theorem round_reported (hfit : bytes disk ≤ u64Max) (h : Surveyed disk) (done : SweepReport) :
    Reported os pins disk (livePlan quota pins disk) done
      (done.extend (applySweep os (evicted quota pins disk) .empty disk).1) := by
  obtain ⟨_, hfailed, hremoved⟩ := @round_spec os quota pins disk hfit h
  refine ⟨?_, ?_, ?_, ?_, ?_⟩
  · intro p hp
    exact mem_failedPaths_extend.2 (.inl hp)
  · intro e he hfail
    obtain ⟨err, herr⟩ := Option.isSome_iff_exists.1 hfail
    refine mem_failedPaths_extend.2 (.inr (mem_map.2 ⟨(e, err), ?_, rfl⟩))
    rw [hfailed]
    exact mem_failures.2 ⟨(mem_evictions hfit).2 he, herr⟩
  · intro p hp
    refine (mem_failedPaths_extend.1 hp).imp_right ?_
    intro hrep
    rw [SweepReport.failedPaths, hfailed] at hrep
    obtain ⟨f, hf, rfl⟩ := mem_map.1 hrep
    exact ⟨f.1, (mem_evictions hfit).1 (mem_failures.1 hf).1, rfl⟩
  · intro hn
    refine failedPaths_extend_nodup hn ?_
    rw [SweepReport.failedPaths, hfailed]
    exact failures_nodup h (fun e => mem_disk_of_evictions hfit) (evictions_nodup hfit h)
  · intro e he
    rcases mem_append.1 he with hdone | hrem
    · exact .inl hdone
    rw [hremoved] at hrem
    rcases (mem_evictions hfit).1 (mem_of_mem_filter hrem) with ⟨_, hg⟩ | hl
    · right
      cases hk : e.kind <;> simp_all [isCandidate, StorageEntry.isGarbage, isGarbage]
    · exact .inr (of_livePlan hl).2.2

theorem isCandidate_of_pinFailed (h : isCandidate (pins.pinFailed failed).2 e) : isCandidate pins e := by
  cases hg : e.isGarbage with
  | false => exact ((isCandidate_pinFailed hg failed pins).1 h).1
  | true => cases hk : e.kind <;> simp_all [isCandidate, StorageEntry.isGarbage, isGarbage]

theorem Reported.append {pins' : SweepPins} {tries more : List StorageEntry} {done mid final : SweepReport}
    (hpins : ∀ e, isCandidate pins' e → isCandidate pins e) (hfirst : Reported os pins disk tries done mid)
    (hrest : Reported os pins' (settle os tries disk) more mid final) :
    Reported os pins disk (tries ++ more) done final := by
  refine ⟨fun p hp => hrest.kept p (hfirst.kept p hp), ?_, ?_, fun hn => hrest.once (hfirst.once hn), ?_⟩
  · intro e he hfail
    have hcases : (e ∈ disk ∧ e.isGarbage ∨ e ∈ tries) ∨ e ∈ more := by
      rw [mem_append] at he
      tauto
    rcases hcases with h | h
    · exact hrest.kept _ (hfirst.failed e h hfail)
    · exact hrest.failed e (.inr h) hfail
  · intro p hp
    rcases hrest.only p hp with hmid | ⟨x, ⟨hx, hg⟩ | hx, howner⟩
    · refine (hfirst.only p hmid).imp_right ?_
      rintro ⟨e, he, howner⟩
      exact ⟨e, he.imp_right (mem_append_left _), howner⟩
    · obtain ⟨e, he, htry, hown⟩ := garbage_of_settle hx hg
      exact .inr ⟨e, (htry.imp (And.intro he) (mem_append_left _)), hown.trans howner⟩
    · exact .inr ⟨x, .inr (mem_append_right _ hx), howner⟩
  · intro e he
    rcases hrest.removed e he with h | h
    · exact hfirst.removed e h
    · exact .inr (hpins e h)

/-- Without another round asked for, the plan was all there was to try. -/
theorem triedLive_of_done (hfit : bytes disk ≤ u64Max) (h : Surveyed disk) (hdone : (repinned os quota pins disk).1 = false) :
    triedLive os quota pins disk = livePlan quota pins disk := by
  have hgo : ∀ e ∈ livePlan quota pins disk, stays os e = false := by
    intro e he
    obtain ⟨hdisk, hl, hc⟩ := of_livePlan he
    rcases @leaves_live os e (h.staged e hdisk) hl with ⟨_, _, err, herr⟩ | ⟨hgo, _⟩
    · have hf : (e, err) ∈ failures os (evicted quota pins disk) := mem_failures.2 ⟨(mem_evictions hfit).2 (.inr he), herr⟩
      have hagain : (repinned os quota pins disk).1 := pinFailed_again hf hl hc
      simp [hagain] at hdone
    · exact hgo
  unfold triedLive
  rw [tried_eq_planned_append (stays os) (Nat.le_refl _), tried_after_planned hgo, append_nil]
  rfl

/-- With one unit of fuel more than candidates a sweep ends, having tried all garbage and the live entries that deciding one
at a time would try. -/
theorem sweepLoop_spec {fuel : Nat} (h : Surveyed disk) (hfits : Fits os disk) (hfuel : (candidates pins disk).length < fuel)
    (done : SweepReport) :
    ∃ last final, sweepLoop os quota fuel pins done disk = some (last, final, settle os (triedLive os quota pins disk) disk) ∧
      Reported os pins disk (triedLive os quota pins disk) done final := by
  induction fuel generalizing pins disk done with
  | zero => omega
  | succ fuel ih =>
    have hfit : bytes disk ≤ u64Max := hfits.bytes_le
    obtain ⟨hdisk, hfailed, _⟩ := @round_spec os quota pins disk hfit h
    have hround := @round_reported os quota pins disk hfit h done
    cases hagain : (repinned os quota pins disk).1 with
    | false =>
      rw [triedLive_of_done hfit h hagain]
      refine ⟨plan (.new disk) quota pins, _, ?_, hround⟩
      simp [sweepLoop, hdisk, hfailed, hagain]
    | true =>
      -- the failed live entry was planned, so the plan reached at least one candidate
      have hcand := @round_candidates os quota pins disk hfit h
      have hbytes : bytes (live (settle os (livePlan quota pins disk) disk)) = _ :=
        bytes_live_settle h (livePlan_nodup h) fun e he => mem_live.2 ((of_livePlan he).imp_right And.left)
      have hshorter : ((candidates pins disk).drop (livePlan quota pins disk).length).length < fuel := by
        obtain ⟨f, hf, hl⟩ := exists_of_pinFailed hagain
        have hplanned : f.1 ∈ livePlan quota pins disk := by
          rcases (mem_evictions hfit).1 (mem_failures.1 hf).1 with hg | hp
          · simp [hg.2] at hl
          · exact hp
        have hpos : 0 < (livePlan quota pins disk).length := length_pos_of_mem hplanned
        have hle := (@livePlan_le quota pins disk).length_le
        rw [length_drop]
        omega
      have htried : triedLive os quota pins disk = livePlan quota pins disk ++
          triedLive os quota (repinned os quota pins disk).2 (settle os (livePlan quota pins disk) disk) := by
        unfold triedLive
        rw [hcand, hbytes]
        exact tried_eq_planned_append (stays os) (Nat.le_refl _) _
      obtain ⟨last, final, hrun, hrest⟩ :=
        ih h.settle hfits.settle (by rwa [hcand]) (done.extend (applySweep os (evicted quota pins disk) .empty disk).1)
      rw [settle_settle, ← htried] at hrun
      refine ⟨last, final, ?_, ?_⟩
      · simpa [sweepLoop, hdisk, hfailed, hagain] using hrun
      · rw [htried]
        exact hround.append (fun e => isCandidate_of_pinFailed) hrest

end Round

end Pipette
