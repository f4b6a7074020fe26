import Pipette.Lemmas.Sweep

/-!
# What a quota sweep leaves

A plan counts the garbage it lists as freed whether or not it can be removed, and only a live entry that stayed makes the
sweep plan again. So a sweep brings the stores under the quota, or runs out of entries it may evict, exactly when what
undeletable garbage and half-removed entries keep still fits beside the live entries left.
-/

namespace Pipette

open Evict List

/-- Pinned and unevictable live entries stay, garbage that could be removed is gone, no path is reported failed twice, and
either a fresh survey fits the quota or every live entry left that was up for eviction failed. -/
structure SweepKeeps (quota : Nat) (pins : SweepPins) (disk : List StorageEntry)
    (out : SweepPlan × SweepReport × List StorageEntry) : Prop where
  pinned : ∀ e ∈ disk, e.isGarbage = false → isCandidate pins e = false → e ∈ out.2.2 ∧ e ∉ out.2.1.removed
  garbage : ∀ g ∈ disk, g.isGarbage → g.path ∉ out.2.1.failedPaths → ∀ x ∈ out.2.2, x.path ≠ g.path
  once : out.2.1.failedPaths.Nodup
  quota : (StorageSurvey.new out.2.2).usedBytes ≤ quota ∨
    ∀ e ∈ out.2.2, e.isGarbage = false → isCandidate pins e → e.path ∈ out.2.1.failedPaths

/-- The bytes that removing the garbage and the entries `tries` leaves behind as garbage. -/
def stuckBytes (os : Removals) (tries disk : List StorageEntry) : Nat :=
  bytes ((disk.filter (·.isGarbage) ++ tries).flatMap fun e => (leaves os e).filter (·.isGarbage))

/-- Every live entry up for eviction is needed, or what stays of the live entries fits beside what removals leave. -/
def SweepReaches (os : Removals) (quota : Nat) (pins : SweepPins) (disk : List StorageEntry) : Prop :=
  let tries := triedLive os quota pins disk
  tries = candidates pins disk ∨ bytes (live disk) - freed (·.sizeBytes) (stays os) tries + stuckBytes os tries disk ≤ quota

instance (os : Removals) (quota : Nat) (pins : SweepPins) (disk : List StorageEntry) :
    Decidable (SweepReaches os quota pins disk) :=
  inferInstanceAs (Decidable (_ ∨ _))

section Tries

variable {os : Removals} {quota : Nat} {pins : SweepPins} {disk : List StorageEntry}

theorem triedLive_append : triedLive os quota pins disk ++ (candidates pins disk).drop (triedLive os quota pins disk).length =
    candidates pins disk :=
  tried_append_drop _ _ _

variable {e : StorageEntry} {tries : List StorageEntry} {final : SweepReport}

theorem triedLive_le : triedLive os quota pins disk <+: candidates pins disk := ⟨_, triedLive_append⟩

theorem of_triedLive (h : e ∈ triedLive os quota pins disk) : e ∈ disk ∧ e.isGarbage = false ∧ isCandidate pins e :=
  mem_candidates.1 (triedLive_le.subset h)

/-- The garbage of a settled disk is what the removals left. -/
theorem bytes_garbage_settle (h : Surveyed disk) (hn : tries.Nodup) (hsub : ∀ e ∈ tries, e ∈ live disk) :
    bytes ((settle os tries disk).filter (·.isGarbage)) = stuckBytes os tries disk := by
  have hperm : (disk.filter fun e => decide (e.isGarbage ∨ e ∈ tries)).Perm (disk.filter (·.isGarbage) ++ tries) := by
    have hdis : (disk.filter (·.isGarbage) ++ tries).Nodup := by
      refine (h.nodup.filter _).append hn ?_
      intro e hg ht
      have hl := (mem_live.1 (hsub e ht)).2
      simp [(mem_filter.1 hg).2] at hl
    refine (perm_ext_iff_of_nodup (h.nodup.filter _) hdis).2 ?_
    intro e
    have hdisk : e ∈ tries → e ∈ disk := fun ht => (mem_live.1 (hsub e ht)).1
    simp only [mem_filter, mem_append, decide_eq_true_eq]
    tauto
  have hfilter : (settle os tries disk).filter (·.isGarbage) =
      (disk.filter fun e => decide (e.isGarbage ∨ e ∈ tries)).flatMap fun e => (leaves os e).filter (·.isGarbage) := by
    clear h hn hsub hperm
    induction disk with
    | nil => rfl
    | cons e disk ih =>
      rw [settle_cons, filter_append, ih]
      by_cases htry : e.isGarbage ∨ e ∈ tries
      · simp [htry]
      · have hl : e.isGarbage = false := by simpa using fun hg => htry (.inl hg)
        have hnot : e ∉ tries := fun ht => htry (.inr ht)
        simp [hnot, hl]
  rw [hfilter, stuckBytes]
  exact bytes_perm (hperm.flatMap_right _)

/-- A fresh survey counts the live bytes not freed and what the removals left behind. -/
theorem bytes_settle_tried (h : Surveyed disk) : bytes (settle os (triedLive os quota pins disk) disk) =
      bytes (live disk) - freed (·.sizeBytes) (stays os) (triedLive os quota pins disk) +
        stuckBytes os (triedLive os quota pins disk) disk := by
  have hn := (@triedLive_le os quota pins disk).sublist.nodup (candidates_nodup h)
  have hsub : ∀ e ∈ triedLive os quota pins disk, e ∈ live disk := by
    intro e he
    exact mem_live.2 ((of_triedLive he).imp_right And.left)
  have hsplit := bytes_filter_add (·.isGarbage) (settle os (triedLive os quota pins disk) disk)
  have hlive := @bytes_live_settle os disk _ h hn hsub
  rw [bytes_garbage_settle h hn hsub] at hsplit
  rw [live] at hlive
  omega

theorem mem_settle_of_not_tried (he : e ∈ disk) (hl : e.isGarbage = false) (hnot : e ∉ tries) : e ∈ settle os tries disk :=
  mem_settle.2 ⟨e, he, by simp [hl, hnot]⟩

theorem garbage_gone (h : Surveyed disk) {done : SweepReport}
    (hrep : Reported os pins disk tries done final) {g x : StorageEntry} (hg : g ∈ disk) (hgarbage : g.isGarbage)
    (hok : g.path ∉ final.failedPaths) (hx : x ∈ settle os tries disk) : x.path ≠ g.path := by
  have hremoved : (removeEntry os g).1 = none := by
    by_contra hfail
    exact hok (hrep.failed g (.inl ⟨hg, hgarbage⟩) (Option.isSome_iff_ne_none.2 hfail))
  obtain ⟨e, he, hin⟩ := mem_settle.1 hx
  intro hpath
  have heg : e = g := h.eq_of_owner he hg (by rw [← settled_owner hin, hpath])
  subst heg
  rw [settled, if_pos (.inl hgarbage)] at hin
  exact (leaves_spec hin).2.1 hremoved hpath

/-- Every candidate left failed exactly when every candidate was tried. -/
theorem all_failed_iff (h : Surveyed disk) (hrep : Reported os pins disk (triedLive os quota pins disk) .empty final) :
    (∀ e ∈ settle os (triedLive os quota pins disk) disk, e.isGarbage = false → isCandidate pins e →
      e.path ∈ final.failedPaths) ↔ triedLive os quota pins disk = candidates pins disk := by
  constructor
  · intro hall
    -- an untried candidate would stay, and no failure can be under its name
    have hrest : (candidates pins disk).drop (triedLive os quota pins disk).length = [] := by
      refine eq_nil_iff_forall_not_mem.2 ?_
      intro e he
      have hc : e ∈ candidates pins disk := mem_of_mem_drop he
      obtain ⟨hdisk, hl, hcand⟩ := mem_candidates.1 hc
      have hnot : e ∉ triedLive os quota pins disk := by
        intro ht
        have hnd := @candidates_nodup pins disk h
        rw [← @triedLive_append os quota pins disk] at hnd
        exact (nodup_append.1 hnd).2.2 e ht e he rfl
      have hfailed := hall e (mem_settle_of_not_tried hdisk hl hnot) hl hcand
      rcases hrep.only _ hfailed with hnone | ⟨x, hx, howner⟩
      · simp [SweepReport.failedPaths, SweepReport.empty] at hnone
      rcases hx with ⟨hxd, hg⟩ | ht
      · rw [h.eq_of_owner hxd hdisk howner, hl] at hg
        exact Bool.false_ne_true hg
      · have hxd := (of_triedLive ht).1
        exact hnot (h.eq_of_owner hxd hdisk howner ▸ ht)
    have happ := @triedLive_append os quota pins disk
    rwa [hrest, append_nil] at happ
  · intro hall e he hl hcand
    have hdisk : e ∈ disk := mem_of_mem_settle h he hl
    have htried : e ∈ triedLive os quota pins disk := by
      rw [hall]
      exact mem_candidates.2 ⟨hdisk, hl, hcand⟩
    have hlive : e ∈ live (settle os (triedLive os quota pins disk) disk) := mem_live.2 ⟨he, hl⟩
    rw [live_settle h.staged] at hlive
    have hstay : stays os e := by simpa [htried] using (mem_filter.1 hlive).2
    rcases @leaves_live os e (h.staged e hdisk) hl with ⟨_, _, err, herr⟩ | ⟨hgo, _⟩
    · exact hrep.failed e (.inr htried) (by rw [herr]; rfl)
    · simp [hstay] at hgo

end Tries

/-- A sweep returns, and keeps what it should, exactly when it can reach the quota past the garbage that will not go. -/
theorem sweep_keeps_iff {os : Removals} {quota : Nat} {pins : SweepPins} {disk : List StorageEntry} {fuel : Nat}
    (h : Surveyed disk) (hfits : Fits os disk) (hfuel : disk.length < fuel) :
    (∃ out, sweep os quota pins fuel disk = some out ∧ SweepKeeps quota pins disk out) ↔ SweepReaches os quota pins disk := by
  have hcands : (candidates pins disk).length < fuel := by
    refine Nat.lt_of_le_of_lt ?_ hfuel
    calc (candidates pins disk).length ≤ (sweepOrder (live disk)).length := length_filter_le _ _
      _ = (live disk).length := (perm_insertionSort _ _).length_eq
      _ ≤ disk.length := length_filter_le _ _
  obtain ⟨last, final, hrun, hrep⟩ := @sweepLoop_spec os quota pins disk fuel h hfits hcands .empty
  have hused : (StorageSurvey.new (settle os (triedLive os quota pins disk) disk)).usedBytes =
      bytes (settle os (triedLive os quota pins disk) disk) := usedBytes_eq hfits.settle.bytes_le
  rw [bytes_settle_tried h] at hused
  constructor
  · rintro ⟨out, hout, hkeeps⟩
    cases hrun.symm.trans hout
    rcases hkeeps.quota with hle | hall
    · exact .inr (hused ▸ hle)
    · exact .inl ((all_failed_iff h hrep).1 hall)
  · intro hreach
    refine ⟨_, hrun, ?_, ?_, ?_, ?_⟩
    · intro e he hl hpin
      constructor
      · refine mem_settle_of_not_tried he hl fun ht => ?_
        simp [(of_triedLive ht).2.2] at hpin
      · intro hrem
        rcases hrep.removed e hrem with hnone | hcand
        · simp [SweepReport.empty] at hnone
        · simp [hcand] at hpin
    · intro g hg hgarbage hok x hx
      exact garbage_gone h hrep hg hgarbage hok hx
    · exact hrep.once nodup_nil
    · rcases hreach with hall | hle
      · exact .inr ((all_failed_iff h hrep).2 hall)
      · exact .inl (hused ▸ hle)

/-- Two entries: garbage of 100 bytes and a model of 40. -/
def partialAndModel : List StorageEntry :=
  [{ path := .child .models "partial", sizeBytes := 100, kind := .garbage "unreadable manifest" },
    { path := .child .models "m", sizeBytes := 40, kind := .model "m" 7 7 }]

/-- The garbage cannot be moved out; everything else can. -/
def partialStuck : Removals where
  stagingLock _ := none
  moveOut path := if path = .child .models "partial" then some .io else none
  delete _ := none

theorem partialAndModel_surveyed : Surveyed partialAndModel where
  owners := by decide
  staged := by decide
  keys := by decide

/-- The sweep counts the stuck garbage as freed, leaves the model it could have evicted, and ends at 140 bytes of 50. -/
theorem stuck_garbage_leaves_model : Surveyed partialAndModel ∧ Fits partialStuck partialAndModel ∧
    ∃ out, sweep partialStuck 50 ⟨[], []⟩ 3 partialAndModel = some out ∧ out.2.2 = partialAndModel ∧
      ¬SweepKeeps 50 ⟨[], []⟩ partialAndModel out := by
  refine ⟨partialAndModel_surveyed, by decide, _, rfl, by decide, ?_⟩
  intro hkeeps
  have hquota := hkeeps.quota
  revert hquota
  decide

/-- Under a quota the model alone is over, the same sweep evicts it and keeps all it should. -/
theorem sweep_keeps_thirty :
    ∃ out, sweep partialStuck 30 ⟨[], []⟩ 3 partialAndModel = some out ∧ SweepKeeps 30 ⟨[], []⟩ partialAndModel out :=
  (sweep_keeps_iff partialAndModel_surveyed (by decide) (by decide)).2 (by decide)

/-! ## The plan of a survey -/

/-- A plan is all garbage and then the fewest live candidates, in sweep order, that bring the store within its quota, or all of
them. It counts their bytes as freed, and reports what even all of them leave over. -/
theorem plan_least (disk : List StorageEntry) (quota : Nat) (pins : SweepPins) (hfit : bytes disk ≤ u64Max) :
    ∃ (garbage order : List StorageEntry) (n : Nat), garbage.Perm (disk.filter (·.isGarbage)) ∧
      order.Perm ((live disk).filter (isCandidate pins)) ∧
      order.Pairwise (sweepKey · ≤ sweepKey ·) ∧ n ≤ order.length ∧
      let left k := bytes disk - bytes (garbage ++ order.take k)
      let p := plan (.new disk) quota pins
      p.evictions = garbage ++ order.take n ∧ (∀ k < n, quota < left k) ∧ (n < order.length → left n ≤ quota) ∧
      p.freedBytes = bytes p.evictions ∧
      p.stillOverByBytes = if quota < left order.length then some (left order.length - quota) else none := by
  have hsort := perm_insertionSort (fun a b => sweepLe a b)
  have hgarbage : ((sweepOrder disk).filter (·.isGarbage)).Perm (disk.filter (·.isGarbage)) := (hsort disk).filter _
  have hsum : bytes ((sweepOrder disk).filter (·.isGarbage)) + bytes (live disk) = bytes disk := by
    rw [bytes_perm hgarbage]
    exact bytes_filter_add _ disk
  have htake : (candidates pins disk).take (livePlan quota pins disk).length = livePlan quota pins disk :=
    (prefix_iff_eq_take.1 livePlan_le).symm
  have hleft : ∀ es, bytes disk - bytes ((sweepOrder disk).filter (·.isGarbage) ++ es) = bytes (live disk) - bytes es := by
    intro es
    rw [bytes_append]
    omega
  have hevictions : (plan (.new disk) quota pins).evictions = _ := plan_evictions quota pins hfit
  have hfreed : (plan (.new disk) quota pins).freedBytes = bytes (plan (.new disk) quota pins).evictions := by
    have hentries : bytes (StorageSurvey.new disk).entries = bytes disk := bytes_perm (hsort disk)
    exact (planLoop_freed (by omega)).trans (Nat.zero_add _)
  refine ⟨_, candidates pins disk, (livePlan quota pins disk).length, hgarbage, (hsort _).filter _, ?_, livePlan_le.length_le, ?_⟩
  · exact ((pairwise_insertionSort _ _).filter _).imp fun h => (sweepLe_iff _ _).1 h
  simp only [htake, take_length, hleft]
  have hdone : bytes (live disk) - bytes (livePlan quota pins disk) ≤ quota ∨
      (candidates pins disk).drop (livePlan quota pins disk).length = [] := planned_done _ _
  have hover : (plan (.new disk) quota pins).stillOverByBytes =
      if quota < bytes (live disk) - bytes (livePlan quota pins disk) then
        some (bytes (live disk) - bytes (livePlan quota pins disk) - quota) else none := by
    rw [← hleft, livePlan, ← hevictions, ← hfreed, ← usedBytes_eq hfit]
    rfl
  refine ⟨hevictions, fun k hk => planned_least hk, fun hlt => hdone.resolve_right ?_, hfreed, ?_⟩
  · exact fun hnil => absurd (drop_eq_nil_iff.1 hnil) (by omega)
  rw [hover]
  rcases hdone with hle | hnil
  · have hmore : bytes (livePlan quota pins disk) ≤ bytes (candidates pins disk) := by
      rw [← @livePlan_append quota pins disk, bytes_append]
      omega
    rw [if_neg (by omega), if_neg (by omega)]
  · have hall : livePlan quota pins disk = candidates pins disk := by simpa [hnil] using @livePlan_append quota pins disk
    rw [hall]

/-- The garbage and then the model go. -/
theorem plan_least_thirty : bytes partialAndModel ≤ u64Max ∧ (plan (.new partialAndModel) 30 ⟨[], []⟩).freedBytes = 140 := by
  obtain ⟨_, _, _, _, _, _, _, _, _, _, hfreed, _⟩ := plan_least partialAndModel 30 ⟨[], []⟩ (by decide)
  exact ⟨by decide, hfreed.trans (by decide)⟩

end Pipette
