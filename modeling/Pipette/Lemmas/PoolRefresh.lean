import Pipette.Lemmas.PoolLocks

/-!
# The main thread of a process in pool mode

With its phones locked, the main thread reads the pool on the first of them under `builds.lock`. When it starts the threads of
the phones, the index is complete for the directory and the process remembers of each phone what its record says.
-/

namespace Pipette.Proxy.Bundles

open Threads List BuildIndex State PoolDir
open Function (update_of_ne update_self)

variable {F : Formats} {ps : Processes F} {t : Tid} {p : Nat} {phones : List Phone} {dir : PoolDir} {index : BuildIndex F}

/-! ## Under `builds.lock` -/

/-- The process holds `builds.lock`. -/
structure Locked (p : Nat) (dir : PoolDir) (s : State F) : Prop where
  forked : s.forked p = none
  running : p ∈ s.running
  dir : s.dir = dir
  pool : s.locks .pool = some p

/-- Reading the pool on the first phone: the index is the one in memory, and the records of the other phones are still known. -/
structure Reading (p : Nat) (phones : List Phone) (first : Phone) (dir : PoolDir) (index : BuildIndex F) (s : State F) : Prop where
  mine : Mine p phones dir s
  pool : s.locks .pool = some p
  index : s.index = index
  tracked : ∀ q ∈ phones, q.dir ≠ first.dir → (s.world p q.dir).memory = (s.installed q.dir).path

variable {first : Phone}

variable {s s' : State F} {C : State F → Prop} {o : Proxy.Op F} {r : Proxy.Ans o} {build : Text} {b : Bundle}
  {gone : List Text}

theorem Reading.locked (h : Reading p phones first dir index s) : Locked p dir s :=
  ⟨h.mine.forked, h.mine.running, h.mine.dir, h.pool⟩

theorem Passed.reading (h : Passed p s s') (hs : Reading p phones first dir index s) :
    Reading p phones first dir index s' := by
  refine ⟨h.mine hs.mine, h.locks _ hs.pool, (h.index (.inl hs.pool)).trans hs.index, fun q hq hne => ?_⟩
  rw [h.worlds, (h.phones q.dir (hs.mine.held q hq)).1]
  exact hs.tracked q hq hne

/-- What depends on the first phone and on what was read. -/
def Kept (p : Nat) (first : Phone) (C : State F → Prop) : Prop :=
  ∀ s s', s'.installed first.dir = s.installed first.dir → s'.contents first.dir = s.contents first.dir →
    (s'.world p first.dir).memory = (s.world p first.dir).memory → s.readings ⊆ s'.readings → C s → C s'

theorem kept_true : Kept p first fun _ : State F => True := fun _ _ _ _ _ _ _ => trivial

/-- The invariant after an operation on the first phone, by the record and the contents it leaves. -/
theorem Reading.inv (hfirst : first ∈ phones) (hs : Inv ps s) (h : Reading p phones first dir index s)
    {w : World F} {c : Option Bundle} (hnamed : Named s.index (w.record o r).installed c)
    (ho : o.stage ≠ .launches) : Inv ps (s.afterPhone p first.dir o r w c) := by
  refine inv_afterPhone hs (h.mine.held first hfirst) hnamed (fun hforked => absurd h.mine.forked hforked) ?_
  rw [launched_quiet ho]
  nofun

/-! ## Reading one build -/

/-- The record of the first phone names no build, and the phone has this one. -/
def PlacedAs (first : Phone) (b : Bundle) (s : State F) : Prop := Cleared first s ∧ s.contents first.dir = some b

theorem kept_cleared : Kept (F := F) p first (Cleared first) := by
  intro s s' hinstalled _ _ _ h
  rwa [Cleared, hinstalled]

theorem kept_placedAs (b : Bundle) : Kept (F := F) p first (PlacedAs first b) := by
  intro s s' hinstalled hcontents _ _ h
  rwa [PlacedAs, Cleared, hinstalled, hcontents]

/-- A build that was read: the phone has it, and its runtimes were read of it. -/
def WasRead (first : Phone) (b : Bundle) (runtimes : List F.Runtime) (s : State F) : Prop :=
  PlacedAs first b s ∧ (b, runtimes) ∈ s.readings

theorem kept_wasRead (b : Bundle) (runtimes : List F.Runtime) : Kept p first (WasRead first b runtimes) :=
  fun s s' hinstalled hcontents hmemory hread h => ⟨kept_placedAs b s s' hinstalled hcontents hmemory hread h.1, hread h.2⟩

/-- What the last build read left: nothing was read and the record is remembered, or the build is on the phone and the record
names none. -/
def Last (p : Nat) (first : Phone) (dir : PoolDir) : Option Text → State F → Prop
  | none, s => (s.world p first.dir).memory = (s.installed first.dir).path
  | some build, s => ∃ b, dir.bundleAt build = some b ∧ PlacedAs first b s

theorem kept_last (last : Option Text) : Kept (F := F) p first (Last p first dir last) := by
  intro s s' hinstalled hcontents hmemory hread h
  cases last with
  | none =>
    rw [Last, hmemory, hinstalled]
    exact h
  | some build =>
    obtain ⟨b, hb, hplaced⟩ := h
    exact ⟨b, hb, kept_placedAs b s s' hinstalled hcontents hmemory hread hplaced⟩

/-- The index when some builds have been gone through: its entries are builds of the directory, and those gone through are
current and have theirs. -/
structure UpTo (dir : PoolDir) (gone : List Text) (index : BuildIndex F) : Prop where
  known : ∀ known ∈ index.entries, known.path ∈ dir.discover
  current : ∀ known ∈ index.entries, known.path ∈ gone → known.bundle ∈ dir.bundles
  covered : ∀ build ∈ gone, ∃ known ∈ index.entries, known.path = build

theorem UpTo.complete (h : UpTo dir gone index) (hall : dir.discover = gone) : index.Complete dir := by
  subst hall
  refine ⟨fun known hknown => h.current known hknown (h.known known hknown), fun b hb => ?_⟩
  obtain ⟨known, hknown, hpath⟩ := h.covered b.path (mem_discover.2 ⟨b, hb, rfl⟩)
  exact ⟨known, hknown, dir.unique _ (h.current known hknown (h.known known hknown)) _ hb hpath⟩

theorem UpTo.skip (h : UpTo dir gone index) (hb : dir.bundleAt build = some b)
    {entry : KnownBuild F} (hentry : entry ∈ index.entries) (hbundle : entry.bundle = b) : UpTo dir (gone ++ [build]) index := by
  obtain ⟨hmem, hpath⟩ := bundleAt_some hb
  have hentryPath : entry.path = build := by rw [← hpath, ← hbundle]; rfl
  refine ⟨h.known, fun known hknown hgone => ?_, fun build' hbuild' => ?_⟩
  · rcases mem_append.1 hgone with hgone | hgone
    · exact h.current known hknown hgone
    · have hsame : known = entry := index.unique _ hknown _ hentry (by rw [mem_singleton.1 hgone, hentryPath])
      rw [hsame, hbundle]
      exact hmem
  · rcases mem_append.1 hbuild' with hbuild' | hbuild'
    · exact h.covered build' hbuild'
    · exact ⟨entry, hentry, hentryPath.trans (mem_singleton.1 hbuild').symm⟩

theorem UpTo.record (h : UpTo dir gone index) {stamp : BuildStamp}
    (hb : dir.bundleAt build = some ⟨build, stamp⟩) (runtimes : List F.Runtime) :
    UpTo dir (gone ++ [build]) (index.record build stamp runtimes) := by
  obtain ⟨hmem, -⟩ := bundleAt_some hb
  refine ⟨fun known hknown => ?_, fun known hknown hgone => ?_, fun build' hbuild' => ?_⟩
  · rcases mem_record.1 hknown with rfl | ⟨hknown, -⟩
    · exact mem_discover.2 ⟨_, hmem, rfl⟩
    · exact h.known known hknown
  · rcases mem_record.1 hknown with rfl | ⟨hknown, hne⟩
    · exact hmem
    · rcases mem_append.1 hgone with hgone | hgone
      · exact h.current known hknown hgone
      · exact absurd (mem_singleton.1 hgone) hne
  · by_cases hne : build' = build
    · exact ⟨⟨build, stamp, runtimes⟩, mem_record.2 (.inl rfl), hne.symm⟩
    · obtain ⟨known, hknown, hpath⟩ := h.covered build' ((mem_append.1 hbuild').resolve_right fun h => hne (mem_singleton.1 h))
      exact ⟨known, mem_record.2 (.inr ⟨hknown, by rwa [hpath]⟩), hpath⟩

/-- What the refresh of the pool hands on. -/
def Refreshed (p : Nat) (phones : List Phone) (first : Phone) (dir : PoolDir) (r : Except AnyError (BuildIndex F × Option Text))
    (s : State F) : Prop :=
  Locked p dir s ∧ ∀ index last, r = .ok (index, last) →
    index.Complete dir ∧ Reading p phones first dir index s ∧ Last p first dir last s

/-- The index without the builds that are gone, before any is read. -/
theorem upTo_retainPresent (dir : PoolDir) (index : BuildIndex F) : UpTo dir [] (index.retainPresent dir.discover) :=
  ⟨fun _ hknown => (mem_retainPresent.1 hknown).2, nofun, nofun⟩

/-- The index is complete, and the process remembers what the records say. -/
structure Known (p : Nat) (phones : List Phone) (dir : PoolDir) (index : BuildIndex F) (s : State F) : Prop where
  mine : Mine p phones dir s
  tracked : Tracked p phones s
  loaded : s.index = index
  complete : index.Complete dir

/-- With what the last read left of the first phone. -/
theorem Reading.known (h : Reading p phones first dir index s) (hlast : Last p first dir none s) (hcomplete : index.Complete dir) :
    Known p phones dir index s := by
  refine ⟨h.mine, fun q hq => ?_, h.index, hcomplete⟩
  by_cases hne : q.dir = first.dir
  · rw [hne]
    exact hlast
  · exact h.tracked q hq hne

/-- The main thread reads the pool on one of the phones of its process. -/
structure Reads (ps : Processes F) (t : Tid) (p : Nat) (phones : List Phone) (first : Phone) : Prop where
  role : ps.role t = .main p
  fleet : phones ⊆ ps.fleet
  first : first ∈ phones

/-- The pool is read, and `C` holds. -/
abbrev ReadingAnd (p : Nat) (phones : List Phone) (first : Phone) (dir : PoolDir) (index : BuildIndex F) (C : State F → Prop)
    (s : State F) : Prop :=
  Reading p phones first dir index s ∧ C s

section Reads

variable (hr : Reads ps t p phones first)

include hr

theorem stable_reading (hC : Kept p first C) : (protocol ps).Stable t (ReadingAnd p phones first dir index C) := by
  refine stable_passed hr.role (fun _ h => ⟨h.1.mine.forked, h.1.mine.running⟩) fun s s' h hs => ⟨h.reading hs.1, ?_⟩
  obtain ⟨hinstalled, hcontents⟩ := h.phones first.dir (hs.1.mine.held first hr.first)
  exact hC s s' hinstalled hcontents (by rw [h.worlds]) h.readings hs.2

theorem Reading.step (h : Reading p phones first dir index s) (hstep : (undisturbed ps).step t (.onPhone first.dir o) s r s') :
    ∃ w c, w.installed = s.installed first.dir ∧ w.memory = (s.world p first.dir).memory ∧ s.Lands first.dir o r c ∧
      s' = s.afterPhone p first.dir o r w c ∧ Guar ps t s s' ∧ Reading p phones first dir index s' := by
  have hprocess : (ps.role t).process = p := by rw [hr.role]; rfl
  obtain ⟨-, w, c, hinstalled, hmemory, -, hlands, rfl⟩ := onPhone_cases hprocess hstep
  have hguar := guar_afterPhone (.inl ⟨p, hr.role, h.mine.forked⟩) (by rw [h.mine.held first hr.first, hprocess]) o r w c
  rw [hprocess] at hguar
  refine ⟨w, c, hinstalled, hmemory, hlands, rfl, hguar, { h with mine := { h.mine with }, tracked := fun q hq hne => ?_ }⟩
  simpa [afterPhone, setWorld, update_of_ne hne] using h.tracked q hq hne

theorem Reading.ask (hC : Kept p first C) (hs : Inv ps s) (h : ReadingAnd p phones first dir index C s)
    (ho : o.stage = .asks) (hstep : (undisturbed ps).step t (.onPhone first.dir o) s r s') :
    Inv ps s' ∧ Guar ps t s s' ∧ ReadingAnd p phones first dir index C s' ∧ s'.readings = s.readOff first.dir o r ++ s.readings := by
  obtain ⟨w, c, hinstalled, hmemory, hlands, rfl, hguar, hreading⟩ := h.1.step hr hstep
  have hinstalls : o.stage ≠ .installs := by rw [ho]; nofun
  obtain ⟨hrecord, hrecord'⟩ := record_quiet hinstalls w r
  obtain rfl := lands_quiet hinstalls hlands
  refine ⟨h.1.inv hr.first hs ?_ (by rw [ho]; nofun), hguar, ⟨hreading, ?_⟩, rfl⟩
  · rw [hrecord, hinstalled]
    exact hs.recorded first (hr.fleet hr.first)
  · refine hC s _ ?_ ?_ ?_ (subset_append_right _ _) h.2
    · simp [afterPhone, hrecord, hinstalled]
    · simp [afterPhone]
    · simp [afterPhone, setWorld, hrecord', hmemory]

theorem triple_reading_asks (hC : Kept p first C) {α : Type} {prog : Proxy.Act F α} (hprog : Proxy.Does [.asks] prog) :
    Steady ps t (ReadingAnd p phones first dir index C) (on first.dir prog) fun _ => ReadingAnd p phones first dir index C := by
  have honly : (on first.dir prog).Only fun o' => ∃ o, o' = .onPhone first.dir o ∧ o.stage = .asks :=
    hprog.embed fun o ho => ⟨o, rfl, by simpa using ho⟩
  refine .only honly (stable_reading hr hC) ?_
  rintro _ s r s' ⟨o, rfl, ho⟩ hs hreading hstep
  obtain ⟨hinv, hguar, hreading', -⟩ := Reading.ask hr hC hs hreading ho hstep
  exact ⟨hinv, hguar, hreading'⟩

theorem triple_forget : Steady ps t (ReadingAnd p phones first dir index fun _ => True) (call (.forget first.dir))
      fun r => ReadingAnd p phones first dir index fun s => r = .ok () → Cleared first s := by
  refine .call (stable_reading hr kept_true) ?_
  rintro s r s' hs ⟨hreading, -⟩ ⟨hdo, -⟩
  have hheld := hreading.mine.held first hr.first
  cases hdo with
  | forgetFailed => exact ⟨hs, .refl, hreading, nofun⟩
  | forget =>
    refine ⟨{ hs with recorded := fun q hq => ?_, driving := fun p' index' hforked hrunning => ?_ }, ?_,
      { hreading with mine := { hreading.mine with }, tracked := fun q hq hne => ?_ }, fun _ => ?_⟩
    · by_cases hq' : q.dir = first.dir
      · simp only [hq', update_self]
        nofun
      · simpa [update_of_ne hq'] using hs.recorded q hq
    · have hdriving := hs.driving p' index' hforked hrunning
      refine { hdriving with remembered := fun q hq => ?_ }
      have hne : q.dir ≠ first.dir := by
        intro hdir
        have hlock := hdriving.held q hq
        rw [hdir, hheld] at hlock
        cases hlock
        have hnone := hreading.mine.forked
        rw [show s.forked p = some index' from hforked] at hnone
        cases hnone
      simpa [update_of_ne hne] using hdriving.remembered q hq
    · exact { Guar.refl with
        phones := by
          intro phone hnot
          have hne : phone ≠ first.dir := by
            rintro rfl
            exact hnot ⟨by rw [hheld, hr.role]; rfl, .inl ⟨p, hr.role, hreading.mine.forked⟩⟩
          exact ⟨update_of_ne hne .., rfl⟩ }
    · simpa [update_of_ne hne] using hreading.tracked q hq hne
    · simp [Cleared, InstalledBuild.unknown]

theorem triple_reading_place (hbundle : dir.bundleAt build = some b) :
    Steady ps t (ReadingAnd p phones first dir index (Cleared first)) (call (.onPhone first.dir (.installApp build)))
      fun r => ReadingAnd p phones first dir index fun s => r = .ok () → PlacedAs first b s := by
  refine .call (stable_reading hr kept_cleared) ?_
  rintro s r s' hs ⟨hreading, hcleared⟩ hstep
  obtain ⟨w, c, hinstalled, -, hlands, rfl, hguar, hreading'⟩ := hreading.step hr hstep
  have hnone : w.installed.path = none := by rw [hinstalled]; exact hcleared
  refine ⟨hreading.inv hr.first hs (named_of_none hnone) nofun, hguar, hreading', ?_⟩
  rintro rfl
  obtain ⟨b', hb', rfl⟩ := hlands
  rw [hreading.mine.dir, hbundle] at hb'
  constructor
  · simpa [Cleared, afterPhone, World.record, World.effect] using hnone
  · simp [afterPhone, hb']

/-- What the build on the phone lists was read of it. -/
theorem triple_reading_list (b : Bundle) :
    Steady ps t (ReadingAnd p phones first dir index (PlacedAs first b)) (call (.onPhone first.dir .listRuntimes))
      fun r => ReadingAnd p phones first dir index fun s => PlacedAs first b s ∧
        ∀ listing, r = .ok listing → (b, listing.runtimes) ∈ s.readings := by
  refine .call (stable_reading hr (kept_placedAs b)) ?_
  rintro s r s' hs hreading hstep
  obtain ⟨hinv, hguar, hreading', hread⟩ := Reading.ask hr (kept_placedAs b) hs hreading rfl hstep
  refine ⟨hinv, hguar, hreading'.1, hreading'.2, ?_⟩
  rintro listing rfl
  rw [hread]
  simp [readOff, hreading.2.2]

theorem triple_readBuild (hbundle : dir.bundleAt build = some b) :
    Steady ps t (ReadingAnd p phones first dir index fun _ => True) (readBuild first build)
      fun r => ReadingAnd p phones first dir index fun s => ∀ runtimes, r = .ok runtimes → WasRead first b runtimes s := by
  have hverify : Proxy.Does [.asks] (Proxy.call (F := F) (.verifyInstallable build)) := .call rfl
  refine .attempt (triple_reading_asks hr kept_true hverify) (fun _ _ h => ⟨h.1, nofun⟩) fun _ => ?_
  refine .attempt (triple_forget hr) (fun _ _ h => ⟨h.1, nofun⟩) fun _ => ?_
  refine .attempt ((triple_reading_place hr hbundle).pre fun _ h => ⟨h.1, h.2 rfl⟩) (fun _ _ h => ⟨h.1, nofun⟩) fun _ => ?_
  refine .attempt ((triple_reading_list hr b).pre fun _ h => ⟨h.1, h.2 rfl⟩) (fun _ _ h => ⟨h.1, nofun⟩) fun listing => ?_
  have hchecked : Steady ps t (ReadingAnd p phones first dir index (WasRead first b listing.runtimes))
      (on first.dir (checkAfter first.cfg ("after installing " ++ build)))
      fun _ => ReadingAnd p phones first dir index (WasRead first b listing.runtimes) :=
    triple_reading_asks hr (kept_wasRead b _) (does_checkAfter _ _)
  refine .attempt (hchecked.pre fun _ h => ⟨h.1, h.2.1, h.2.2 listing rfl⟩) (fun _ _ h => ⟨h.1, nofun⟩) fun _ => ?_
  refine .pure fun s h => ⟨h.1, ?_⟩
  rintro _ ⟨⟩
  exact h.2

/-! ## The index -/

omit hr in
/-- An index that is not complete is replaced; nothing was displaced by it. -/
theorem storeIndex_keeps (hrole : ps.role t = .main p) (hs : Inv ps s) (hpool : s.locks .pool = some p)
    (hincomplete : ¬s.index.Complete s.dir) {index' : BuildIndex F}
    (hsound : ∀ known ∈ index'.entries, (known.bundle, known.runtimes) ∈ s.readings) (hkept : s.displaces ps.fleet index' = false)
    (displaced : Bool) :
    Inv ps { s with index := index', displaced := displaced } ∧ Guar ps t s { s with index := index', displaced := displaced } := by
  constructor
  · refine ⟨hsound, fun phone hphone path hpath => ?_, fun p' index'' hforked hrunning => ?_, hs.launched⟩
    · obtain ⟨stamp, hcontents, -⟩ := hs.recorded phone hphone path hpath
      refine ⟨stamp, hcontents, fun known hknown hknownPath => ?_⟩
      by_contra hne
      have hdisplaces : s.displaces ps.fleet index' := by
        refine any_eq_true.2 ⟨phone, hphone, any_eq_true.2 ⟨known, hknown, ?_⟩⟩
        have hother : s.contents phone.dir ≠ some known.bundle := by
          rw [hcontents, KnownBuild.bundle]
          intro h
          exact hne (Bundle.mk.inj (Option.some.inj h)).2.symm
        have hpath' : (s.installed phone.dir).path = some known.path := by rw [hknownPath]; exact hpath
        simp [hpath', hother]
      rw [hkept] at hdisplaces
      cases hdisplaces
    · exact absurd (hs.driving p' index'' hforked hrunning).complete hincomplete
  · exact { Guar.refl with
      index := fun hnot => absurd ⟨by rw [hrole]; rfl, by rw [hpool, hrole]; rfl, hincomplete⟩ hnot }

theorem triple_storeIndex (hC : Kept p first C) (hincomplete : ¬index.Complete dir) (index' : BuildIndex F)
    (hsound : ∀ s, Inv ps s → s.index = index → C s → ∀ known ∈ index'.entries, (known.bundle, known.runtimes) ∈ s.readings) :
    Steady ps t (ReadingAnd p phones first dir index C) (call (.storeIndex index'))
      fun r s => Locked p dir s ∧ (r = .ok () → ReadingAnd p phones first dir index' C s) := by
  refine .call (stable_reading hr hC) ?_
  rintro s r s' hs ⟨hreading, hc⟩ ⟨hdo, hundisturbed⟩
  cases hdo with
  | storeFailed => exact ⟨hs, .refl, hreading.locked, nofun⟩
  | storeIndex =>
    obtain ⟨hinv, hguar⟩ := storeIndex_keeps hr.role hs hreading.pool (by rwa [hreading.index, hreading.mine.dir])
      (hsound s hs hreading.index hc) (Bool.or_eq_false_iff.1 hundisturbed.1).2 (s.displaced || s.displaces ps.fleet index')
    refine ⟨hinv, hguar, { hreading.locked with }, fun _ => ⟨?_, ?_⟩⟩
    · exact { hreading with mine := { hreading.mine with }, index := rfl }
    · exact hC s _ rfl rfl rfl (List.Subset.refl _) hc

/-- An operation that only reads, and is answered with `P`. -/
theorem triple_reading_call {o : Op F} {P : Ans o → Prop} (hC : Kept p first C)
    (hdo : ∀ s r s', s.dir = dir → s.index = index → Does ps t o s r s' → s' = s ∧ P r) :
    Steady ps t (ReadingAnd p phones first dir index C) (call o) fun r s => P r ∧ ReadingAnd p phones first dir index C s := by
  refine .call (stable_reading hr hC) ?_
  rintro s r s' hs hreading ⟨hstep, -⟩
  obtain ⟨rfl, hp⟩ := hdo s r s' hreading.1.mine.dir hreading.1.index hstep
  exact ⟨hs, .refl, hp, hreading⟩

theorem triple_readStamp (hC : Kept p first C) (build : Text) :
    Steady ps t (ReadingAnd p phones first dir index C) (call (.readStamp build))
      fun r s => (∀ stamp, r = .ok stamp → dir.bundleAt build = some ⟨build, stamp⟩) ∧ ReadingAnd p phones first dir index C s := by
  refine triple_reading_call hr hC ?_
  rintro s r _ rfl - hdo
  cases hdo with
  | readStamp hstamp => exact ⟨rfl, hstamp⟩

theorem triple_readBuilds (gone rest : List Text) (hparts : dir.discover = gone ++ rest) (last : Option Text)
    (hindex : UpTo dir gone index) :
    Steady ps t (ReadingAnd p phones first dir index (Last p first dir last)) (readBuilds first rest index last)
      (Refreshed p phones first dir) := by
  induction rest generalizing gone index last with
  | nil =>
    refine .pure fun s h => ⟨h.1.locked, ?_⟩
    rintro _ _ ⟨⟩
    exact ⟨hindex.complete (by rw [hparts, append_nil]), h⟩
  | cons build rest ih =>
    have hparts' : dir.discover = (gone ++ [build]) ++ rest := by rw [hparts, append_assoc]; rfl
    refine .attempt (triple_readStamp hr (kept_last last) build) (fun _ _ h => ⟨h.2.1.locked, nofun⟩) fun stamp => ?_
    refine .of_imp fun hstamp => ?_
    have hb := hstamp stamp rfl
    dsimp only
    split
    · next hcurrent =>
      obtain ⟨entry, hentry, hbundle⟩ := current_some hcurrent
      exact ih (gone ++ [build]) hparts' last (hindex.skip hb hentry hbundle)
    next hcurrent =>
    refine .attempt ((triple_readBuild hr hb).pre fun _ h => ⟨h.1, trivial⟩) (fun _ _ h => ⟨h.1.locked, nofun⟩) fun runtimes => ?_
    have hincomplete : ¬index.Complete dir := by
      intro hcomplete
      obtain ⟨known, hknown, hbundle⟩ := hcomplete.all _ (bundleAt_some hb).1
      exact current_none hcurrent hknown hbundle
    have hstore := triple_storeIndex hr (kept_wasRead ⟨build, stamp⟩ runtimes) hincomplete
      (index.record build stamp runtimes) fun s hs hsame hwas known hknown => by
        rcases mem_record.1 hknown with rfl | ⟨hknown, -⟩
        · exact hwas.2
        · exact hs.sound known (hsame ▸ hknown)
    refine .attempt (hstore.pre fun _ h => ⟨h.1, h.2 runtimes rfl⟩) (fun _ _ h => ⟨h.1, nofun⟩) fun _ => ?_
    refine (ih (gone ++ [build]) hparts' (some build) (hindex.record hb runtimes)).pre fun s h => ?_
    obtain ⟨hreading, hwas⟩ := h.2 rfl
    exact ⟨hreading, _, hb, hwas.1⟩

theorem triple_refresh (poolDir : Text) :
    Steady ps t (ReadingAnd p phones first dir index (Last p first dir none)) (refresh poolDir first index)
      (Refreshed p phones first dir) := by
  have hdiscover : Steady ps t (ReadingAnd p phones first dir index (Last p first dir none)) (call .discover)
      fun r s => (∀ present, r = .ok present → present = dir.discover) ∧
        ReadingAnd p phones first dir index (Last p first dir none) s := by
    refine triple_reading_call hr (kept_last none) ?_
    rintro s r _ rfl - hdo
    cases hdo with
    | discover hpresent => exact ⟨rfl, hpresent⟩
  refine .attempt hdiscover (fun _ _ h => ⟨h.2.1.locked, nofun⟩) fun present => .of_imp fun hpresent => ?_
  obtain rfl := hpresent present rfl
  have hbuilds := triple_readBuilds hr [] dir.discover rfl none (upTo_retainPresent dir index)
  dsimp only
  split
  · exact .pure fun s h => ⟨h.1.locked, nofun⟩
  split
  · next hdropped =>
    have hincomplete : ¬index.Complete dir := by
      intro hcomplete
      refine hdropped (congrArg length (filter_eq_self.2 fun known hknown => decide_eq_true ?_))
      exact mem_discover.2 ⟨_, hcomplete.present known hknown, rfl⟩
    have hlast : Kept (F := F) p first (Last p first dir none) := kept_last none
    have hstore := triple_storeIndex hr hlast hincomplete (index.retainPresent dir.discover) fun s hs hsame _ known hknown =>
        hs.sound known (hsame ▸ (mem_retainPresent.1 hknown).1)
    exact .attempt hstore (fun _ _ h => ⟨h.1, nofun⟩) fun _ => hbuilds.pre fun _ h => h.2 rfl
  · next hkept =>
    have hsame : index.retainPresent dir.discover = index := by
      have hentries : (index.retainPresent dir.discover).entries = index.entries :=
        filter_sublist.eq_of_length (not_not.1 hkept)
      cases index
      simpa [retainPresent] using hentries
    rw [hsame] at hbuilds ⊢
    exact hbuilds

theorem triple_recordLast (hcomplete : index.Complete dir) (build : Text) :
    Steady ps t (ReadingAnd p phones first dir index (Last p first dir (some build)))
      (call (.onPhone first.dir (.storeInstalled ⟨some build, none⟩)))
      fun r s => Locked p dir s ∧ (r = .ok () → Known p phones dir index s) := by
  refine .call (stable_reading hr (kept_last _)) ?_
  rintro s r s' hs ⟨hreading, b, hb, hcleared, hcontents⟩ hstep
  obtain ⟨w, c, hinstalled, -, hlands, rfl, hguar, hreading'⟩ := hreading.step hr hstep
  obtain rfl : c = s.contents first.dir := hlands
  obtain ⟨hmem, hpath⟩ := bundleAt_some hb
  cases r with
  | error e =>
    have hnone : w.installed.path = none := by rw [hinstalled]; exact hcleared
    exact ⟨hreading.inv hr.first hs (named_of_none hnone) nofun, hguar, hreading'.locked, nofun⟩
  | ok _ =>
    refine ⟨hreading.inv hr.first hs ?_ nofun, hguar, hreading'.locked, fun _ => hreading'.known ?_ hcomplete⟩
    · rintro path ⟨⟩
      refine ⟨b.stamp, by rw [hcontents, ← hpath], fun known hknown hknownPath => ?_⟩
      rw [hreading.index] at hknown
      rw [← hcomplete.stamp hmem hknown (by rw [hknownPath, hpath])]
      rfl
    · simp [Last, afterPhone, setWorld, World.record, World.effect]

theorem triple_refreshLocked (poolDir : Text) :
    Steady ps t (fun s => (Mine p phones dir s ∧ Tracked p phones s) ∧ s.locks .pool = some p) (refreshLocked poolDir first)
      fun r s => Locked p dir s ∧ ∀ index, r = .ok index → Known p phones dir index s := by
  -- the index that is loaded stays the one in the file while the lock is held
  intro s hs h
  have hreading : ReadingAnd p phones first dir s.index (Last p first dir none) s :=
    ⟨⟨h.1.1, h.2, rfl, fun q hq _ => h.1.2 q hq⟩, h.1.2 first hr.first⟩
  have hload : Steady ps t (ReadingAnd p phones first dir s.index (Last p first dir none)) (call .loadIndex)
      fun r s' => (∀ index, r = .ok index → index = s.index) ∧
        ReadingAnd p phones first dir s.index (Last p first dir none) s' := by
    refine triple_reading_call hr (kept_last none) ?_
    rintro s₁ r _ - hindex hdo
    cases hdo with
    | loadIndex hloaded => exact ⟨rfl, hindex ▸ hloaded⟩
  refine (Protocol.Triple.attempt hload (fun _ _ h => ⟨h.2.1.locked, nofun⟩) fun index => .of_imp fun hindex => ?_ :
    Steady ps t _ (refreshLocked poolDir first) _) s hs hreading
  obtain rfl := hindex index rfl
  refine .bind (triple_refresh hr poolDir) fun refreshed => ?_
  rcases refreshed with e | ⟨index, _ | build⟩
  · exact .pure fun s h => ⟨h.1, nofun⟩
  · refine .pure fun s' h => ⟨h.1, ?_⟩
    rintro _ ⟨⟩
    obtain ⟨hcomplete, hread, hlast⟩ := h.2 index none rfl
    exact hread.known hlast hcomplete
  refine .pre (.of_imp fun hcomplete => ?_) fun s h => h.2 index (some build) rfl
  refine .attempt (triple_recordLast hr hcomplete build) (fun _ _ h => ⟨h.1, nofun⟩) fun _ => .pure fun s' h => ⟨h.1, ?_⟩
  rintro _ ⟨⟩
  exact h.2 rfl

end Reads

section Main

variable (hrole : ps.role t = .main p)

include hrole

theorem stable_locked : (protocol ps).Stable t (Locked (F := F) p dir) :=
  stable_passed hrole (fun _ h => ⟨h.forked, h.running⟩)
    fun _ _ h hs => ⟨h.forked, h.running, h.dir.trans hs.dir, h.locks _ hs.pool⟩

theorem stable_known : (protocol ps).Stable t (Known p phones dir index) := by
  refine stable_passed hrole (fun _ h => ⟨h.mine.forked, h.mine.running⟩) fun s s' h hs => ?_
  refine ⟨h.mine hs.mine, h.tracked hs.mine (List.Subset.refl _) hs.tracked, (h.index (.inr ?_)).trans hs.loaded, hs.complete⟩
  rw [hs.loaded, hs.mine.dir]
  exact hs.complete

theorem triple_unlockPool (r : Except AnyError (BuildIndex F)) :
    Steady ps t (fun s => Locked p dir s ∧ ∀ index, r = .ok index → Known p phones dir index s) (call .unlockPool)
      fun _ s => ∀ index, r = .ok index → Known p phones dir index s := by
  have hknown : (protocol ps).Stable t fun s => ∀ index, r = .ok index → Known p phones dir index s := by
    intro u s s' hu hs hs' hguar h index hr
    exact stable_known hrole u s s' hu hs hs' hguar (h index hr)
  refine .call ((stable_locked hrole).and hknown) ?_
  rintro s _ s' hs ⟨hlocked, hready⟩ ⟨hdo, -⟩
  cases hdo
  have hphone : ∀ phone, s.locks.drop .pool (.phone phone) = s.locks (.phone phone) :=
    fun phone => update_of_ne (by nofun) ..
  refine ⟨{ hs with driving := fun p' index hforked hrunning => ?_ }, ?_, fun index hr => ?_⟩
  · have hdriving := hs.driving p' index hforked hrunning
    exact { hdriving with held := fun q hq => (hphone q.dir).trans (hdriving.held q hq) }
  · exact { Guar.refl with
      locks := fun k p' hp' hk => Locks.drop_held hlocked.pool (fun h => hp' (h ▸ hrole)) hk }
  · have h := hready index hr
    exact { h with mine := { h.mine with held := fun q hq => (hphone q.dir).trans (h.mine.held q hq) } }

theorem triple_refreshPool (hphones : phones ⊆ ps.fleet) (hfirst : first ∈ phones) (poolDir : Text) :
    Steady ps t (fun s => Mine p phones dir s ∧ Tracked p phones s) (refreshPool poolDir first)
      fun r s => ∀ index, r = .ok index → Known p phones dir index s := by
  have hlock : Steady ps t (fun s => Mine p phones dir s ∧ Tracked p phones s) (call .lockPool)
      fun r s => r → (Mine p phones dir s ∧ Tracked p phones s) ∧ s.locks .pool = some p := by
    refine .call (stable_mine_tracked hrole) ?_
    rintro s r s' hs ⟨hmine, htracked⟩ ⟨hdo, -⟩
    cases hdo with
    | stopped => exact ⟨hs, .refl, nofun⟩
    | lockPool hfree =>
      rw [show (ps.role t).process = p by rw [hrole]; rfl]
      obtain ⟨hinv, hguar⟩ := takeLock_keeps hs hfree p s.outdated
      refine ⟨hinv, hguar, fun _ => ⟨⟨{ hmine with held := fun q hq => ?_ }, htracked⟩, ?_⟩⟩
      · change s.locks.take p .pool (.phone q.dir) = some p
        exact Locks.take_held hfree (hmine.held q hq)
      · change s.locks.take p .pool .pool = some p
        exact Locks.take_self
  refine .bind hlock fun locked => ?_
  split
  · next hlocked =>
    refine .bind ((triple_refreshLocked ⟨hrole, hphones, hfirst⟩ poolDir).pre fun _ h => h hlocked) fun refreshed => ?_
    exact .bind (triple_unlockPool hrole refreshed) fun _ => .pure fun _ h => h
  · exact .pure fun _ _ => nofun

/-! ## The main thread -/

theorem triple_leaves {A : State F → Prop} (hA : (protocol ps).Stable t A) :
    Steady ps t A (call .leaves) fun _ _ => True := by
  refine .call hA ?_
  rintro s r s' hs - ⟨hdo, -⟩
  cases hdo
  rw [hrole]
  exact ⟨(leave_keeps hrole hs).1, (leave_keeps hrole hs).2, trivial⟩

/-- The threads of the phones are started: from here on the process drives its phones. -/
theorem triple_fork (hdistinct : ((ps.phones p).map (·.dir)).Nodup) :
    Steady ps t (Known p (ps.phones p) dir index) (call (.fork index)) fun _ _ => True := by
  refine .call (stable_known hrole) ?_
  rintro s r s' hs hknown ⟨hdo, -⟩
  cases hdo
  rw [hrole]
  refine ⟨{ hs with driving := fun p' index' hforked hrunning => ?_ }, ?_, trivial⟩
  · by_cases hp : p' = p
    · subst hp
      obtain rfl : index = index' := by simpa [Role.process] using hforked
      refine ⟨hknown.loaded, ?_, hdistinct, hknown.mine.held, hknown.tracked⟩
      simpa [hknown.loaded, hknown.mine.dir] using hknown.complete
    · have hforked' : s.forked p' = some index' := by simpa [Role.process, update_of_ne hp] using hforked
      exact { hs.driving p' index' hforked' hrunning with }
  · exact { Guar.refl with
      unforked := by
        intro p' hp'
        have hne : p' ≠ p := by
          rintro rfl
          exact hp' hrole
        exact update_of_ne hne ..
      forked := by
        intro p' index' h
        have hne : p' ≠ p := by
          rintro rfl
          rw [hknown.mine.forked] at h
          cases h
        simpa [Role.process, update_of_ne hne] using h }

theorem triple_runLocked (hdistinct : ((ps.phones p).map (·.dir)).Nodup) :
    Steady ps t (fun s => Mine p (ps.phones p) dir s ∧ Tracked p (ps.phones p) s) (runLocked ps p) fun _ _ => True := by
  unfold runLocked
  split
  · exact triple_leaves hrole (stable_mine_tracked hrole)
  · next first _ hphones =>
    have hfirst : first ∈ ps.phones p := by
      rw [hphones]
      exact mem_cons_self
    refine .bind (triple_refreshPool hrole (ps.selected p) hfirst ps.poolDir) fun refreshed => ?_
    cases refreshed with
    | error e => exact (triple_leaves hrole (.const True)).pre fun _ _ => trivial
    | ok index =>
      dsimp only
      split
      · refine .bind ((triple_fork hrole hdistinct).pre fun s h => h index rfl) fun _ => ?_
        exact triple_leaves hrole (.const _)
      · exact (triple_leaves hrole (.const True)).pre fun _ _ => trivial

theorem triple_runProcess : Steady ps t (fun s => s.forked p = none) (runProcess ps p) fun _ _ => True := by
  refine .bind (triple_starts hrole) fun _ => ?_
  -- the directory stays what it is now, as long as the process runs
  intro s hs h
  have hmine : Mine p [] s.dir s := ⟨h.1, h.2, rfl, nofun⟩
  refine Protocol.Triple.bind (triple_prepare hrole (ps.phones p)) (fun prepared => ?_) s hs hmine
  split
  · have hnil : (([] : List Phone).map (·.dir)).Nodup := nodup_nil
    refine .bind ((triple_takeLocks hrole [] (ps.phones p) hnil).pre fun _ h => ⟨h, nofun⟩) fun locked => ?_
    split
    · next hlocked =>
      intro s₁ hs₁ h₁
      exact triple_runLocked hrole (h₁.2.1 hlocked) s₁ hs₁ (h₁.2.2 hlocked)
    · exact (triple_leaves hrole (.const True)).pre fun _ _ => trivial
  · exact triple_leaves hrole (stable_mine hrole)

end Main

/-- The operator changes the directory while no process runs. -/
theorem triple_alterations (changes : Nat) : Steady ps t (fun _ => True) (alterations changes) fun _ _ => True := by
  induction changes with
  | zero => exact .pure fun _ _ => trivial
  | succ changes ih =>
    refine .bind ?_ fun _ => ih
    refine .call (.const _) ?_
    rintro s r s' hs - ⟨hdo, -⟩
    cases hdo with
    | alter hnone =>
      refine ⟨{ hs with driving := fun p index _ hrunning => ?_ }, ?_, trivial⟩
      · rw [show s.running = [] from hnone] at hrunning
        cases hrunning
      · exact { Guar.refl with dir := fun h => absurd hnone h }

end Pipette.Proxy.Bundles
