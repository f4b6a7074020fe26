import Pipette.Lemmas.SharedRuns
import Pipette.Lemmas.SharedSweep
import Pipette.Store.Storable
import Pipette.Theorems.Live
import Pipette.Theorems.Publish

/-!
# What processes that share the stores leave each other

For any number of processes that resolve, ensure and sweep, in any interleaving and killed anywhere: the staged directory of a
fetch and its lock file stay while it is alive (`staged_stays`), an entry in use stays readable and whole (`in_use_stays`),
and an absent model is fetched and published once (`fetched_once`). All three need that no artifact is keyed to a name the
store resolves or uses itself: a publish removes what its key leads to first, so under such a key it takes the locks of others
away.
-/

namespace Pipette.Shared

open Files Threads List

variable {α μ : Type} {A : Artifacts α μ} {mode : Mode α}

/-! ## Runs -/

/-- No lock is held, nothing is noted, and the staged names that are there count as used. -/
structure AtRest (d : Disk μ) : Prop where
  excl : ∀ h, d.excl h = none
  shared : ∀ h u, d.shared h u = false
  seen : ∀ k child, IsStagedName (stagedBase child) → (d.tree (staging k ++ [child])).isSome → d.seen k (stagedBase child)
  given : ∀ t, d.given t = none
  fetching : ∀ t, d.fetching t = none
  inUse : ∀ t, d.inUse t = none
  published : d.published = []
  ended : ∀ t, d.ended t = none

/-- The key of no artifact that is fetched is a name that the store resolves or uses itself. -/
def ProperKeys (A : Artifacts α μ) (jobs : Tid → Job α) : Prop := ∀ t a, (jobs t).artifact = some a → (entryOf A a).Proper

theorem AtRest.inv {d : Disk μ} (h : AtRest d) (hwhole : mode = .tidy → ∀ e : Entry, e.Proper → Absent d.tree e ∨ Readable A d.tree e)
    (hproper : ∀ a, mode = .calm a → (entryOf A a).Proper) (honce : ∀ a, mode = .calm a → d.tree (entryOf A a).manifest = none) :
    Inv A mode d where
  apart _ _ _ hu := nomatch (h.excl _).symm.trans hu
  seen := h.seen
  given t _ hst := nomatch (h.given t).symm.trans hst
  fetching t _ he := nomatch (h.fetching t).symm.trans he
  inUse _ t _ _ hlock := nomatch (h.inUse t).symm.trans hlock
  whole := hwhole
  proper := hproper
  once a ha := .inl ⟨h.published, honce a ha⟩
  ended _ _ t _ hm := nomatch (h.ended t).symm.trans hm

section Runs

variable {fuel : Nat} {d : Disk μ} {jobs : Tid → Job α} {p p' : Pool (Op μ) Ans (Disk μ)} (hrest : AtRest d) (hinv : Inv A mode d)
  (hjobs : ∀ t, Allowed A mode (jobs t)) (hp : Reaches (machine μ true) (start A fuel d jobs) p)

include hrest hinv hjobs

omit hrest hinv hjobs in
theorem exit_keeps (t : Tid) (s : Disk μ) (h : (protocol A mode).inv s) :
    (protocol A mode).inv ((machine μ true).exit t s) ∧ (protocol A mode).guar t s ((machine μ true).exit t s) := ok_exit h

theorem start_holds : (start A fuel d jobs).Holds (protocol A mode) (machine μ true) :=
  ⟨hinv, fun t => spec_program (hjobs t) fuel d hinv ⟨hrest.given t, hrest.fetching t, hrest.inUse t⟩⟩

include hp

theorem Reaches.sharedInv : Inv A mode p.state := (Reaches.holds exit_keeps hp (start_holds hrest hinv hjobs)).1

theorem Reaches.sharedGuar {u : Tid} (hstep : Step (machine μ true) u p p') : Guar A mode u p.state p'.state :=
  Reaches.guar exit_keeps hp (start_holds hrest hinv hjobs) hstep

end Runs

/-! ## Stores to play on -/

variable (nodes : List (StorePath × Node (Data ModelManifest)))

/-- A disk at rest with these nodes. -/
def diskOf : Disk ModelManifest where
  tree := ofNodes nodes
  gen _ := 0
  excl _ := none
  shared _ _ := false
  seen _ _ := false
  given _ := none
  fetching _ := none
  inUse _ := none
  published := []
  ended _ := none

theorem diskOf_atRest {nodes : List (StorePath × Node (Data ModelManifest))}
    (h : ∀ x ∈ nodes, ∀ k ∈ [StoreKind.models, .runtimes], ¬staging k <+: x.1) : AtRest (diskOf nodes) := by
  refine ⟨fun _ => rfl, fun _ _ => rfl, fun k child _ hsome => ?_, fun _ => rfl, fun _ => rfl, fun _ => rfl, rfl, fun _ => rfl⟩
  obtain ⟨x, hx, hpath⟩ := mem_of_ofNodes hsome
  exact absurd (hpath ▸ prefix_append _ _) (h x hx k (by cases k <;> simp))

theorem diskOf_few (n : Nat) : Few n (diskOf nodes) := fun _ _ _ => rfl

/-- The jobs of three processes. -/
def threeJobs (a b c : Job StorableModel) : Tid → Job StorableModel
  | 0 => a
  | 1 => b
  | 2 => c
  | _ => .idle

theorem properKeys_threeJobs {a b c : Job StorableModel} (ha : ∀ x, a.artifact = some x → (entryOf modelArtifacts x).Proper)
    (hb : ∀ x, b.artifact = some x → (entryOf modelArtifacts x).Proper) (hc : ∀ x, c.artifact = some x → (entryOf modelArtifacts x).Proper) :
    ProperKeys modelArtifacts (threeJobs a b c) := by
  intro t x hx
  rcases t with _ | _ | _ | t
  · exact ha x hx
  · exact hb x hx
  · exact hc x hx
  · exact nomatch hx

/-- A weights file on the local disk. -/
def plainWeights : StorableModel where
  declared := shownWeights
  key := shownKey
  keyed := by decide

theorem plainWeights_proper (x : StorableModel) (h : some plainWeights = some x) : (entryOf modelArtifacts x).Proper := by
  cases h
  decide

/-- Files whose names the store uses itself, or of which no character is left. -/
def stagingWeights : StorableModel where
  declared := .ggufText (.absoluteFile ⟨"/.staging", by decide⟩)
  key := ⟨stagingName, all_eq_true.1 rfl⟩
  keyed := by decide

def locksWeights : StorableModel where
  declared := .ggufText (.absoluteFile ⟨"/.locks", by decide⟩)
  key := ⟨locksName, all_eq_true.1 rfl⟩
  keyed := by decide

def namelessWeights : StorableModel where
  declared := localWeights
  key := ⟨[], all_eq_true.1 rfl⟩
  keyed := by decide

def emptyNodes : List (StorePath × Node (Data ModelManifest)) := [([], .dir)]

/-- A store with the plain weights in it. -/
def plainNodes : List (StorePath × Node (Data ModelManifest)) := [
  ([], .dir), (modelsDir, .dir), (modelsDir ++ ["w.gguf".toList], .dir),
  (modelsDir ++ ["w.gguf".toList, manifestName], .file (.manifest (plainWeights.manifest 1 0)))]

/-- The turns of a fetch up to the file in `.staging` that it locks and sees there. -/
def untilLocked (t : Tid) (unique : Text) : List (Tid × Choice) := turns t 8 ++ (t, .unique unique) :: turns t 2

/-- The turns of a fetch up to the removal of what is at its target. -/
def untilRemoved (t : Tid) (unique : Text) : List (Tid × Choice) := untilLocked t unique ++ turns t 10

/-! ## Staged directories -/

/-- A fetch that has been given a staged directory holds the lock file beside it, and no step of another process changes
anything in the directory or the lock file. -/
theorem staged_stays {fuel : Nat} {d : Disk μ} {jobs : Tid → Job α} (hrest : AtRest d) (hkeys : ProperKeys A jobs)
    {p : Pool (Op μ) Ans (Disk μ)} (hp : Reaches (machine μ true) (start A fuel d jobs) p) {t : Tid} {st : Staged}
    (hst : p.state.given t = some st) :
    (fileAt p.state.tree st.lockPath ∧ p.state.gen st.lockPath = st.gen ∧ p.state.excl st.lock = some t) ∧
      ∀ u p', u ≠ t → Step (machine μ true) u p p' →
        ∀ q, st.dir <+: q ∨ st.lockPath <+: q → p'.state.tree q = p.state.tree q := by
  have hinv : Inv A .base d := hrest.inv nofun (fun a h => nomatch h) fun a h => nomatch h
  have hjobs : ∀ t, Allowed A .base (jobs t) := fun t => ⟨hkeys t, fun b h => nomatch h⟩
  obtain ⟨hname, hgen, hheld⟩ := (Reaches.sharedInv hrest hinv hjobs hp).given t st hst
  refine ⟨⟨hheld.1, hgen, ?_⟩, fun u p' hu hstep q hq => ?_⟩
  · have hexcl := hheld.2
    rwa [hgen] at hexcl
  · exact (Reaches.sharedGuar hrest hinv hjobs hp hstep).staged t hu.symm st.store st.name hname hheld q hq

/-- The staged directory that the plain weights are given. -/
def plainStaged : Staged := ⟨.models, "w.gguf.staged-00000001", 1⟩

/-- A fetch of the plain weights beside a sweep is given a staged directory whose lock file it holds. -/
theorem plain_weights_staged : ∃ p, Reaches (machine ModelManifest true)
      (start modelArtifacts 5 (diskOf emptyNodes) (threeJobs (.ensure plainWeights) .idle (.sweep 1))) p ∧
    p.state.given 0 = some plainStaged ∧ fileAt p.state.tree plainStaged.lockPath ∧
      p.state.gen plainStaged.lockPath = 1 ∧ p.state.excl plainStaged.lock = some 0 := by
  have hplay : ∃ p, Reaches (machine ModelManifest true)
      (start modelArtifacts 5 (diskOf emptyNodes) (threeJobs (.ensure plainWeights) .idle (.sweep 1))) p ∧
      p.state.given 0 = some plainStaged :=
    exists_of_play (untilLocked 0 "00000001" ++ turns 0 2) (diskOf_few _ 3) (by decide)
  obtain ⟨p, hp, hst⟩ := hplay
  have hkeys : ProperKeys modelArtifacts (threeJobs (.ensure plainWeights) .idle (.sweep 1)) :=
    properKeys_threeJobs plainWeights_proper (fun _ h => nomatch h) fun _ h => nomatch h
  have hstays := staged_stays (diskOf_atRest (by decide)) hkeys hp hst
  exact ⟨p, hp, hst, hstays.1⟩

/-- A fetch keyed to `.staging` removes the lock files in it before it renames. The plain weights, just locked, are given a
staged directory without a lock file, and a sweep removes it under them. -/
theorem staging_weights_free_the_staged : AtRest (diskOf emptyNodes) ∧ ∃ p p', Reaches (machine ModelManifest true)
      (start modelArtifacts 5 (diskOf emptyNodes) (threeJobs (.ensure plainWeights) (.ensure stagingWeights) (.sweep 1))) p ∧
    Step (machine ModelManifest true) 2 p p' ∧ p.state.given 0 = some plainStaged ∧ p.state.tree plainStaged.lockPath = none ∧
      (p.state.tree plainStaged.dir).isSome ∧ p'.state.given 0 = some plainStaged ∧ p'.state.tree plainStaged.dir = none := by
  refine ⟨diskOf_atRest (by decide), exists_step_of_play (untilLocked 0 "00000001" ++ untilRemoved 1 "00000002" ++
    turns 0 2 ++ [(2, .names [stagingName]), (2, .names [plainStaged.name]), (2, .plain), (2, .plain),
      (2, .targets [.staged .models plainStaged.name]), (2, .plain)]) (2, .plain) (diskOf_few _ 3) ?_⟩
  decide

/-! ## Entries in use -/

/-- An entry that a process was resolved to with a lock is there with a manifest that is read, and no step of another process
changes anything in it but the time of last use. -/
theorem in_use_stays {fuel : Nat} {d : Disk μ} {jobs : Tid → Job α} (hrest : AtRest d)
    (hwhole : ∀ e : Entry, e.Proper → Absent d.tree e ∨ Readable A d.tree e) (hkeys : ProperKeys A jobs)
    {p : Pool (Op μ) Ans (Disk μ)} (hp : Reaches (machine μ true) (start A fuel d jobs) p) {t : Tid} {e : Entry} {lock : Handle}
    (huse : p.state.inUse t = some (e, lock)) :
    Readable A p.state.tree e ∧ ∀ u p', u ≠ t → Step (machine μ true) u p p' →
      Readable A p'.state.tree e ∧ ∀ q, e.dir <+: q → q ≠ e.manifest → p'.state.tree q = p.state.tree q := by
  have hinv : Inv A .tidy d := hrest.inv (fun _ => hwhole) (fun a h => nomatch h) fun a h => nomatch h
  have hjobs : ∀ t, Allowed A .tidy (jobs t) := fun t => ⟨hkeys t, fun b h => nomatch h⟩
  have hpinv := Reaches.sharedInv hrest hinv hjobs hp
  obtain ⟨hproper, -, hshares, hreadable⟩ := hpinv.inUse rfl t e lock huse
  refine ⟨hreadable, fun u p' hu hstep => ?_⟩
  refine (Reaches.sharedGuar hrest hinv hjobs hp hstep).readable rfl e hproper hreadable fun hholds => ?_
  -- a process that holds the in-use lock alone shares it with nobody
  have hfree := hpinv.apart _ _ t hholds.2
  rw [hshares.2] at hfree
  cases hfree

/-- The entry of the plain weights, and its in-use lock. -/
def plainEntry : Entry := ⟨.models, "w.gguf"⟩

def plainUse : Handle := ⟨plainEntry.usePath, 1⟩

/-- The store with the plain weights holds them, and no other entry. -/
theorem plainNodes_whole (e : Entry) (he : e.Proper) :
    Absent (diskOf plainNodes).tree e ∨ Readable modelArtifacts (diskOf plainNodes).tree e := by
  by_cases heq : e = plainEntry
  · subst heq
    exact .inr ⟨rfl, plainWeights.manifest 1 0, rfl, by decide, by decide⟩
  refine .inl fun p hp => ofNodes_eq_none fun x hx hpath => heq ?_
  subst hpath
  have hdir : storeRoot e.store ++ [e.key] <+: x.1 := he.dir_eq ▸ hp
  have hnodes : ∀ x ∈ plainNodes, x.1.length < 2 ∨ storeRoot .models ++ ["w.gguf".toList] <+: x.1 := by decide
  rcases hnodes x hx with hlen | hplain
  · have hle := hdir.length_le
    simp only [length_append, storeRoot_length, length_singleton] at hle
    omega
  · obtain ⟨hk, hkey⟩ := child_inj hdir hplain
    cases e
    simp_all [plainEntry]

/-- The plain weights are resolved to beside a sweep. -/
def resolveAndSweep : Tid → Job StorableModel := threeJobs (.resolve plainWeights) .idle (.sweep 1)

theorem properKeys_resolveAndSweep : ProperKeys modelArtifacts resolveAndSweep :=
  properKeys_threeJobs plainWeights_proper (fun _ h => nomatch h) fun _ h => nomatch h

theorem plain_weights_resolved : ∃ p, Reaches (machine ModelManifest true)
      (start modelArtifacts 5 (diskOf plainNodes) resolveAndSweep) p ∧ p.state.inUse 0 = some (plainEntry, plainUse) :=
  exists_of_play (turns 0 11) (diskOf_few _ 3) (by decide)

/-- Once resolved to, the plain weights are there and read. -/
theorem plain_weights_in_use : ∃ p, Reaches (machine ModelManifest true)
      (start modelArtifacts 5 (diskOf plainNodes) resolveAndSweep) p ∧
    p.state.inUse 0 = some (plainEntry, plainUse) ∧ Readable modelArtifacts p.state.tree plainEntry := by
  obtain ⟨p, hp, hu⟩ := plain_weights_resolved
  have hstays := in_use_stays (diskOf_atRest (by decide)) plainNodes_whole properKeys_resolveAndSweep hp hu
  exact ⟨p, hp, hu, hstays.1⟩

/-- Whatever is interleaved or killed, at every moment an entry is absent or has a manifest that is read, and one process at
most fetches it. -/
theorem published_whole {fuel : Nat} {d : Disk μ} {jobs : Tid → Job α} (hrest : AtRest d)
    (hwhole : ∀ e : Entry, e.Proper → Absent d.tree e ∨ Readable A d.tree e) (hkeys : ProperKeys A jobs)
    {p : Pool (Op μ) Ans (Disk μ)} (hp : Reaches (machine μ true) (start A fuel d jobs) p) (e : Entry) :
    (e.Proper → Absent p.state.tree e ∨ Readable A p.state.tree e) ∧
      ∀ t u, p.state.fetching t = some e → p.state.fetching u = some e → t = u := by
  have hinv : Inv A .tidy d := hrest.inv (fun _ => hwhole) (by rintro a ⟨⟩) (by rintro a ⟨⟩)
  have hjobs : ∀ t, Allowed A .tidy (jobs t) := fun t => ⟨hkeys t, by rintro b ⟨⟩⟩
  have hpinv := Reaches.sharedInv hrest hinv hjobs hp
  exact ⟨hpinv.whole rfl e, fun t u ht hu => (hpinv.fetching t e ht).unique (hpinv.fetching u e hu)⟩

/-- So it is with the plain weights once they are in use, and with every other entry. -/
theorem plain_weights_whole : ∃ p, Reaches (machine ModelManifest true)
      (start modelArtifacts 5 (diskOf plainNodes) resolveAndSweep) p ∧ p.state.inUse 0 = some (plainEntry, plainUse) ∧
    ∀ e : Entry, e.Proper → Absent p.state.tree e ∨ Readable modelArtifacts p.state.tree e := by
  obtain ⟨p, hp, hu⟩ := plain_weights_resolved
  exact ⟨p, hp, hu, fun e => (published_whole (diskOf_atRest (by decide)) plainNodes_whole properKeys_resolveAndSweep hp e).1⟩

/-- A fetch keyed to `.locks` removes the lock files in it before it renames. A sweep then locks a new in-use file for the
plain weights, and moves them away while they are in use. -/
theorem locks_weights_free_the_entry : AtRest (diskOf plainNodes) ∧
    (∀ e : Entry, e.Proper → Absent (diskOf plainNodes).tree e ∨ Readable modelArtifacts (diskOf plainNodes).tree e) ∧
    ∃ p p', Reaches (machine ModelManifest true)
      (start modelArtifacts 5 (diskOf plainNodes) (threeJobs (.resolve plainWeights) (.ensure locksWeights) (.sweep 1))) p ∧
    Step (machine ModelManifest true) 2 p p' ∧ p.state.inUse 0 = some (plainEntry, plainUse) ∧
      p'.state.inUse 0 = some (plainEntry, plainUse) ∧ p'.state.tree plainEntry.dir = none := by
  refine ⟨diskOf_atRest (by decide), plainNodes_whole, exists_step_of_play (turns 0 11 ++ untilRemoved 1 "00000001".toList ++
    [(2, .names ["w.gguf".toList]), (2, .plain), (2, .targets [.child .models "w.gguf".toList])] ++ turns 2 4)
    (2, .unique "00000002".toList) (diskOf_few _ 3) ?_⟩
  decide

/-! ## One fetch -/

/-- Stamping changes the time of last use only. -/
theorem Stamped.same {m m' : ModelManifest} (h : Stamped modelArtifacts m m') :
    m'.declared = m.declared ∧ m'.stored = m.stored ∧ m'.fetchedAt = m.fetchedAt := by
  induction h with
  | refl => exact ⟨rfl, rfl, rfl⟩
  | tail _ hstep ih =>
    obtain ⟨now, rfl⟩ := hstep
    exact ih

/-- For processes that ensure or resolve one model that is absent, at most one fetch is published, every success returns the
manifest of that publish but for the time of last use, and one process fetches at a time. -/
theorem fetched_once {fuel : Nat} {d : Disk ModelManifest} {a : StorableModel} {jobs : Tid → Job StorableModel} (hrest : AtRest d)
    (hkey : (entryOf modelArtifacts a).Proper) (habsent : d.tree (entryOf modelArtifacts a).manifest = none)
    (hjobs : ∀ t, (∀ b, (jobs t).artifact = some b → a = b) ∧ ∀ rounds, jobs t ≠ .sweep rounds) {p : Pool (Op ModelManifest) Ans (Disk ModelManifest)}
    (hp : Reaches (machine ModelManifest true) (start modelArtifacts fuel d jobs) p) :
    p.state.published.length ≤ 1 ∧ (∀ t u m m', p.state.ended t = some m → p.state.ended u = some m' →
        m.declared = m'.declared ∧ m.stored = m'.stored ∧ m.fetchedAt = m'.fetchedAt) ∧
      ∀ t u, p.state.fetching t = some (entryOf modelArtifacts a) → p.state.fetching u = some (entryOf modelArtifacts a) → t = u := by
  have hproper : ∀ b, Mode.calm a = .calm b → (entryOf modelArtifacts b).Proper := by
    rintro b ⟨⟩
    exact hkey
  have hinv : Inv modelArtifacts (.calm a) d := by
    refine hrest.inv nofun hproper ?_
    rintro b ⟨⟩
    exact habsent
  have hallowed : ∀ t, Allowed modelArtifacts (.calm a) (jobs t) := by
    intro t
    refine ⟨fun b hb => (hjobs t).1 b hb ▸ hkey, ?_⟩
    rintro b ⟨⟩
    exact hjobs t
  have hpinv := Reaches.sharedInv hrest hinv hallowed hp
  refine ⟨?_, fun t u m m' hm hm' => ?_, fun t u ht hu => ?_⟩
  · rcases hpinv.once a rfl with ⟨hpub, -⟩ | ⟨m₀, m, hpub, -⟩
    · simp [hpub]
    · simp [hpub]
  · obtain ⟨m₀, hpub, hstamped⟩ := hpinv.ended a rfl t m hm
    obtain ⟨m₁, hpub', hstamped'⟩ := hpinv.ended a rfl u m' hm'
    cases hpub.symm.trans hpub'
    obtain ⟨hd, hs, hf⟩ := hstamped.same
    obtain ⟨hd', hs', hf'⟩ := hstamped'.same
    exact ⟨hd.trans hd'.symm, hs.trans hs'.symm, hf.trans hf'.symm⟩
  · exact (hpinv.fetching t _ ht).unique (hpinv.fetching u _ hu)

/-- While one process fetches the plain weights, a second ensures and a third resolves them, no other does. -/
theorem plain_weights_fetched_once : ∃ p, Reaches (machine ModelManifest true) (start modelArtifacts 5 (diskOf emptyNodes)
      (threeJobs (.ensure plainWeights) (.ensure plainWeights) (.resolve plainWeights))) p ∧
    p.state.fetching 0 = some plainEntry ∧ ∀ u, p.state.fetching u = some plainEntry → 0 = u := by
  have hplay : ∃ p, Reaches (machine ModelManifest true) (start modelArtifacts 5 (diskOf emptyNodes)
        (threeJobs (.ensure plainWeights) (.ensure plainWeights) (.resolve plainWeights))) p ∧
      p.state.fetching 0 = some plainEntry := exists_of_play (turns 0 6) (diskOf_few _ 3) (by decide)
  obtain ⟨p, hp, hf⟩ := hplay
  have honce := fetched_once (a := plainWeights) (diskOf_atRest (by decide)) (by decide) rfl (fun t => ?_) hp
  · exact ⟨p, hp, hf, fun u hu => honce.2.2 0 u hf hu⟩
  · match t with
    | 0 | 1 | 2 | _ + 3 => exact ⟨by rintro _ ⟨⟩ <;> rfl, by rintro _ ⟨⟩⟩

/-- The entry that a key without a character leads to. -/
def namelessEntry : Entry := ⟨.models, []⟩

/-- A fetch whose key is empty removes the store root with the lock file that it holds. Another process makes a new one and
fetches at the same time. -/
theorem nameless_weights_fetched_twice : AtRest (diskOf emptyNodes) ∧ (diskOf emptyNodes).tree namelessEntry.manifest = none ∧
    ∃ p, Reaches (machine ModelManifest true)
      (start modelArtifacts 5 (diskOf emptyNodes) (threeJobs (.ensure namelessWeights) (.ensure namelessWeights) .idle)) p ∧
    p.state.fetching 0 = some namelessEntry ∧ p.state.fetching 1 = some namelessEntry := by
  refine ⟨diskOf_atRest (by decide), rfl, exists_of_play (untilRemoved 0 "00000001" ++ turns 1 6) (diskOf_few _ 3) ?_⟩
  decide

end Pipette.Shared
