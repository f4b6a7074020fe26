import Pipette.Lemmas.Bundles

/-!
# The thread of a phone in pool mode

While its process runs, only the thread of a phone changes what belongs to the phone. So what it finds in the record and puts
on the phone stays, and a job is launched on contents that were read as providing its runtime.
-/

namespace Pipette.Proxy.Bundles

open Threads List State World Option

variable {F : Formats} {ps : Processes F} {t : Tid} {p i : Nat} {q : Phone} {index : BuildIndex F}

/-- The thread is the one of this phone. -/
structure Drives (ps : Processes F) (t : Tid) (p i : Nat) (q : Phone) : Prop where
  role : ps.role t = .device p i
  phone : (ps.phones p)[i]? = some q

namespace Drives

theorem process (hd : Drives ps t p i q) : (ps.role t).process = p := by rw [hd.role]; rfl

theorem mem (hd : Drives ps t p i q) : q ∈ ps.phones p := mem_of_getElem? hd.phone

variable {s s' : State F} {C : State F → Prop} {o : Proxy.Op F} {r : Proxy.Ans o} {known : KnownBuild F} {runtime : F.Runtime}

theorem touches (hd : Drives ps t p i q) (hforked : s.forked p = some index) : Touches ps t s q.dir :=
  .inr ⟨p, i, q, hd.role, by rw [hforked]; nofun, hd.phone, rfl⟩

/-- No other thread changes what belongs to the phone while the process runs. -/
theorem kept (hd : Drives ps t p i q) {u : Tid} (hu : u ≠ t) (hs : Inv ps s) (hguar : Guar ps u s s')
    (hforked : s.forked p = some index) (hrunning : p ∈ s'.running) :
    p ∈ s.running ∧ s'.installed q.dir = s.installed q.dir ∧ s'.contents q.dir = s.contents q.dir ∧ s'.dir = s.dir := by
  have hbefore : p ∈ s.running := by
    rcases hguar.started p hrunning with h | h
    · exact h
    · rw [hforked] at h
      cases h
  have hdriving := hs.driving p index hforked hbefore
  have hother : ¬(s.locks (.phone q.dir) = some (ps.role u).process ∧ Touches ps u s q.dir) := by
    rintro ⟨hlock, htouches⟩
    rw [hdriving.held q hd.mem] at hlock
    have hprocess : p = (ps.role u).process := some.inj hlock
    rcases htouches with ⟨p', hrole, hnone⟩ | ⟨p', j, q', hrole, -, hphone, hdir⟩
    · rw [hrole] at hprocess
      obtain rfl : p = p' := hprocess
      rw [hforked] at hnone
      cases hnone
    rw [hrole] at hprocess
    obtain rfl : p = p' := hprocess
    have hj : j = i := by
      obtain ⟨hlt, -⟩ := List.getElem?_eq_some_iff.1 hphone
      refine (List.getElem?_inj (by simpa using hlt) hdriving.distinct).1 ?_
      rw [getElem?_map, getElem?_map, hphone, hd.phone, map_some, map_some, hdir]
    subst hj
    exact hu (ps.once u t (by rw [hrole, hd.role]) (by rw [hrole]; nofun))
  obtain ⟨hinstalled, hcontents⟩ := hguar.phones q.dir hother
  exact ⟨hbefore, hinstalled, hcontents, hguar.dir (ne_nil_of_mem hbefore)⟩

end Drives

/-- What depends on the phone, on the directory, and on what was read. -/
def Local (q : Phone) (C : State F → Prop) : Prop :=
  ∀ s s', s'.installed q.dir = s.installed q.dir → s'.contents q.dir = s.contents q.dir → s'.dir = s.dir →
    s.readings ⊆ s'.readings → C s → C s'

/-- The thread has begun with this index, and `C` holds while the process runs. -/
def Own (p : Nat) (index : BuildIndex F) (C : State F → Prop) (s : State F) : Prop :=
  s.forked p = some index ∧ (p ∈ s.running → C s)

theorem local_true : Local q fun _ : State F => True := fun _ _ _ _ _ _ _ => trivial

theorem Own.weaken (h : Own p index C s) : Own p index (fun _ => True) s := ⟨h.1, fun _ => trivial⟩

/-- An operation of the thread on its phone, with what holds before it. -/
structure Acted (ps : Processes F) (t : Tid) (p : Nat) (q : Phone) (index : BuildIndex F) (s s' : State F) (o : Proxy.Op F)
    (r : Proxy.Ans o) (w : World F) (c : Option Bundle) : Prop where
  running : p ∈ s.running
  held : s.locks (.phone q.dir) = some p
  installed : w.installed = s.installed q.dir
  memory : w.memory = w.installed.path
  named : Named s.index w.installed (s.contents q.dir)
  allows : w.Allows (fun _ => True) o r
  lands : s.Lands q.dir o r c
  after : s' = s.afterPhone p q.dir o r w c
  guar : Guar ps t s s'

/-! ## What is on the phone -/

/-- The record names no build. -/
def Cleared (q : Phone) (s : State F) : Prop := (s.installed q.dir).path = none

/-- The build was just put on the phone, and the record names none. -/
def Placed (q : Phone) (build : Text) (s : State F) : Prop :=
  Cleared q s ∧ ∃ b ∈ s.dir.bundles, b.path = build ∧ s.contents q.dir = some b

/-- The contents of the phone provide the runtime. -/
def Ready (q : Phone) (runtime : F.Runtime) (s : State F) : Prop := Provided s.readings (s.contents q.dir) runtime

/-- The record names the build. -/
def Recorded (q : Phone) (build : Text) (s : State F) : Prop := (s.installed q.dir).path = some build

theorem local_cleared : Local (F := F) q (Cleared q) := by
  intro s s' hinstalled _ _ _ h
  rwa [Cleared, hinstalled]

theorem local_recorded (build : Text) : Local (F := F) q (Recorded q build) := by
  intro s s' hinstalled _ _ _ h
  rwa [Recorded, hinstalled]

theorem local_placed (build : Text) : Local (F := F) q (Placed q build) := by
  intro s s' hinstalled hcontents hdir hread h
  refine ⟨local_cleared s s' hinstalled hcontents hdir hread h.1, ?_⟩
  rw [hdir, hcontents]
  exact h.2

theorem local_ready (runtime : F.Runtime) : Local q (Ready q runtime) := by
  intro s s' _ hcontents _ hread h
  rw [Ready, hcontents]
  exact h.mono hread

/-- Contents with the entry's path are the entry's, and were read. -/
theorem provided_of_entry (hs : Inv ps s) (hknown : known ∈ s.index.entries)
    (hruntime : runtime ∈ known.runtimes) {c : Option Bundle} (hc : c = some known.bundle) :
    Provided s.readings c runtime :=
  ⟨known.bundle, known.runtimes, hc, hs.sound known hknown, hruntime⟩

theorem ready_of_placed (hs : Inv ps s) (hforked : s.forked p = some index) (hrunning : p ∈ s.running)
    (hknown : known ∈ index.entries) (hruntime : runtime ∈ known.runtimes)
    (hplaced : Placed q known.path s) : Ready q runtime s := by
  have hdriving := hs.driving p index hforked hrunning
  obtain ⟨-, b, hb, hpath, hcontents⟩ := hplaced
  rw [← hdriving.same] at hknown
  refine provided_of_entry hs hknown hruntime ?_
  rw [hcontents, hdriving.complete.stamp hb hknown hpath.symm]

section Thread

variable (hd : Drives ps t p i q)

include hd

theorem stable_own (hC : Local q C) : (protocol ps).Stable t (Own p index C) := by
  rintro u s s' hu hs - hguar ⟨hforked, hown⟩
  refine ⟨hguar.forked p index hforked, fun hrunning => ?_⟩
  obtain ⟨hbefore, hinstalled, hcontents, hdir⟩ := hd.kept hu hs hguar hforked hrunning
  exact hC s s' hinstalled hcontents hdir hguar.readings (hown hbefore)

theorem Drives.step (hs : Inv ps s) (hforked : s.forked p = some index)
    (hstep : (undisturbed ps).step t (.onPhone q.dir o) s r s') :
    ∃ w c, Acted ps t p q index s s' o r w c := by
  obtain ⟨hrunning, w, c, hinstalled, hmemory, hallows, hlands, rfl⟩ := onPhone_cases hd.process hstep
  have hdriving := hs.driving p index hforked hrunning
  have hheld := hdriving.held q hd.mem
  have hguar := guar_afterPhone (hd.touches hforked) (by rw [hheld, hd.process]) o r w c
  rw [hd.process] at hguar
  refine ⟨w, c, hrunning, hheld, hinstalled, ?_, ?_, hallows, hlands, rfl, hguar⟩
  · rw [hmemory, hinstalled]
    exact hdriving.remembered q hd.mem
  · rw [hinstalled]
    exact hs.recorded q (ps.selected p q hd.mem)

/-! ## Operations that install nothing -/

/-- An operation that installs nothing, and launches only what the phone's contents provide. -/
theorem quiet_step (hC : Local q C)
    (hs : Inv ps s) (hA : Own p index C s) (hstep : (undisturbed ps).step t (.onPhone q.dir o) s r s')
    (ho : o.stage ≠ .installs) (hlaunch : C s → ∀ l ∈ s.launched q.dir o, Provided s.readings l.contents l.runtime) :
    Inv ps s' ∧ Guar ps t s s' ∧ Own p index C s' := by
  obtain ⟨hforked, hown⟩ := hA
  obtain ⟨w, c, h⟩ := hd.step hs hforked hstep
  obtain ⟨hrecord, hrecord'⟩ := record_quiet ho w r
  obtain rfl := lands_quiet ho h.lands
  obtain rfl := h.after
  refine ⟨inv_afterPhone hs h.held ?_ ?_ (hlaunch (hown h.running)), h.guar, hforked, fun _ => ?_⟩
  · rw [hrecord]
    exact h.named
  · intro _
    rw [hrecord, hrecord', h.memory]
  · refine hC s _ ?_ ?_ rfl (subset_append_right _ _) (hown h.running)
    · simp [afterPhone, hrecord, h.installed]
    · simp [afterPhone]

theorem triple_quiet (hC : Local q C) {α : Type} {stages : List Stage} {prog : Proxy.Act F α} (hprog : Proxy.Does stages prog)
    (hstages : stages.all fun stage => stage ≠ .installs && stage ≠ .launches) :
    Steady ps t (Own p index C) (on q.dir prog) fun _ => Own p index C := by
  have honly : (on q.dir prog).Only fun o' => ∃ o, o' = .onPhone q.dir o ∧ o.stage ≠ .installs ∧ o.stage ≠ .launches := by
    refine hprog.embed fun o ho => ⟨o, rfl, ?_⟩
    simpa using all_eq_true.1 hstages _ (contains_iff_mem.1 ho)
  refine .only honly (stable_own hd hC) ?_
  rintro _ s r s' ⟨o, rfl, hinstalls, hlaunches⟩ hs hA hstep
  refine quiet_step hd hC hs hA hstep hinstalls fun _ l hl => ?_
  rw [launched_quiet hlaunches] at hl
  cases hl

theorem triple_ask (hC : Local q C) (ho : o.stage = .asks) :
    Steady ps t (Own p index C) (on q.dir (Proxy.call o)) fun _ => Own p index C := by
  have hdoes : Proxy.Does [.asks] (Proxy.call o) := .call (by rw [ho]; rfl)
  exact triple_quiet hd hC hdoes rfl

/-! ## Installing -/

/-- A record that names the build of an entry: the phone has it. -/
theorem ready_of_recorded (hs : Inv ps s) (hforked : s.forked p = some index)
    (hrunning : p ∈ s.running) (hknown : known ∈ index.entries)
    (hruntime : runtime ∈ known.runtimes) (hrecorded : Recorded q known.path s) : Ready q runtime s := by
  have hdriving := hs.driving p index hforked hrunning
  obtain ⟨stamp, hcontents, hstamp⟩ := hs.recorded q (ps.selected p q hd.mem) known.path hrecorded
  rw [← hdriving.same] at hknown
  refine provided_of_entry hs hknown hruntime ?_
  rw [hcontents, KnownBuild.bundle, hstamp known hknown rfl]

theorem triple_store {D : State F → Prop} (hC : Local q C) (record : InstalledBuild)
    (hnamed : ∀ s, Inv ps s → s.forked p = some index → p ∈ s.running → C s → Named s.index record (s.contents q.dir))
    (hpost : ∀ s s', Inv ps s → s.forked p = some index → p ∈ s.running → C s → s'.installed q.dir = record →
      s'.contents q.dir = s.contents q.dir → s.readings ⊆ s'.readings → D s') :
    Steady ps t (Own p index C) (call (.onPhone q.dir (.storeInstalled record)))
      fun r => Own p index fun s => r = .ok () → D s := by
  refine .call (stable_own hd hC) ?_
  rintro s r s' hs ⟨hforked, hown⟩ hstep
  obtain ⟨w, c, h⟩ := hd.step hs hforked hstep
  obtain rfl : c = s.contents q.dir := h.lands
  obtain rfl := h.after
  cases r with
  | ok _ =>
    refine ⟨inv_afterPhone hs h.held (hnamed s hs hforked h.running (hown h.running)) (fun _ => rfl) nofun, h.guar, hforked,
      fun _ _ => ?_⟩
    refine hpost s _ hs hforked h.running (hown h.running) ?_ ?_ (subset_append_right _ _)
    · simp [afterPhone, World.record, World.effect]
    · simp [afterPhone]
  | error e => exact ⟨inv_afterPhone hs h.held h.named (fun _ => h.memory) nofun, h.guar, hforked, fun _ h => by cases h⟩

theorem triple_clear : Steady ps t (Own p index fun _ => True) (call (.onPhone q.dir (.storeInstalled ⟨none, none⟩)))
      fun r => Own p index fun s => r = .ok () → Cleared q s :=
  triple_store hd local_true _ (fun _ _ _ _ _ => nofun) fun _ _ _ _ _ _ hrecord _ _ => congrArg InstalledBuild.path hrecord

omit hd in
theorem named_of_none {record : InstalledBuild} {c : Option Bundle} (h : record.path = none) : Named index record c := by
  intro path hpath
  rw [h] at hpath
  cases hpath

theorem triple_place (build : Text) : Steady ps t (Own p index (Cleared q)) (call (.onPhone q.dir (.installApp build)))
      fun r => Own p index fun s => r = .ok () → Placed q build s := by
  refine .call (stable_own hd local_cleared) ?_
  rintro s r s' hs ⟨hforked, hcleared⟩ hstep
  obtain ⟨w, c, h⟩ := hd.step hs hforked hstep
  obtain rfl := h.after
  have hnone : w.installed.path = none := by
    rw [h.installed]
    exact hcleared h.running
  refine ⟨inv_afterPhone hs h.held (named_of_none hnone) (fun _ => h.memory) nofun, h.guar, hforked, ?_⟩
  rintro - rfl
  obtain ⟨b, hb, rfl⟩ := h.lands
  obtain ⟨hmem, hpath⟩ := PoolDir.bundleAt_some hb
  refine ⟨?_, b, hmem, hpath, ?_⟩
  · simpa [Cleared, afterPhone, record, effect] using hnone
  · simp [afterPhone]

theorem triple_remember (hknown : known ∈ index.entries) (hruntime : runtime ∈ known.runtimes) :
    Steady ps t (Own p index (Placed q known.path)) (call (.onPhone q.dir (.storeInstalled ⟨some known.path, none⟩)))
      fun r => Own p index fun s => r = .ok () → Ready q runtime s := by
  refine triple_store hd (local_placed _) _ ?_ ?_
  · rintro s hs hforked hrunning ⟨-, b, hb, hpath, hcontents⟩ path ⟨⟩
    refine ⟨b.stamp, by rw [hcontents, ← hpath], fun known' hknown' hpath' => ?_⟩
    rw [← (hs.driving p index hforked hrunning).complete.stamp hb hknown' (by rw [hpath', hpath])]
    rfl
  · intro s s' hs hforked hrunning hplaced _ hcontents hread
    rw [Ready, hcontents]
    exact (ready_of_placed hs hforked hrunning hknown hruntime hplaced).mono hread

theorem triple_installBuild (cfg : Config) (hknown : known ∈ index.entries) (hruntime : runtime ∈ known.runtimes) :
    Steady ps t (Own p index fun _ => True)
      (on q.dir (installBuild (installCalls cfg) known.path)) fun r => Own p index fun s => r = .ok () → Ready q runtime s := by
  have hfail : ∀ {C : State F → Prop} (e : AnyError), Steady ps t (Own p index C)
      (pure (Except.error e : Except AnyError Unit)) fun r => Own p index fun s => r = .ok () → Ready q runtime s :=
    fun _ => .pure fun s h => ⟨h.1, fun _ => nofun⟩
  have hok : ∀ {C : State F → Prop} {s : State F}, Own p index (fun s => (Except.ok () : Except AnyError Unit) = .ok () → C s) s →
      Own p index C s := fun h => ⟨h.1, fun hrunning => h.2 hrunning rfl⟩
  refine triple_on_bind (triple_clear hd) fun forgot => ?_
  cases forgot with
  | error e => exact hfail e
  | ok _ =>
    refine triple_on_bind ((triple_ask hd local_cleared rfl).pre fun _ => hok) fun verified => ?_
    cases verified with
    | error e => exact hfail e
    | ok _ =>
      refine triple_on_bind (triple_place hd known.path) fun installed => ?_
      cases installed with
      | error e => exact hfail e
      | ok _ =>
        refine triple_on_bind ((triple_quiet hd (local_placed _) (does_checkAfter cfg _) rfl).pre fun _ => hok) fun checked => ?_
        cases checked with
        | error e => exact hfail e
        | ok _ => exact triple_remember hd hknown hruntime

/-- `ensure_installed` for a build of the index: if it succeeds, the phone has contents that provide the runtime. -/
theorem triple_ensureInstalled (cfg : Config) (hknown : known ∈ index.entries)
    (hruntime : runtime ∈ known.runtimes) (noBuild : AnyError) :
    Steady ps t (Own p index fun _ => True) (on q.dir (ensureInstalled (installCalls cfg) (some known.path) noBuild))
      fun r => Own p index fun s => r = .ok () → Ready q runtime s := by
  have hremembered : Steady ps t (Own p index fun _ => True) (call (.onPhone q.dir .remembered))
      fun r => Own p index fun s => r = some known.path → Recorded q known.path s := by
    refine .call (stable_own hd local_true) ?_
    rintro s r s' hs hA hstep
    obtain ⟨hinv, hguar, hforked, -⟩ := quiet_step hd local_true hs hA hstep nofun nofun
    obtain ⟨w, c, h⟩ := hd.step hs hA.1 hstep
    refine ⟨hinv, hguar, hforked, fun _ hr => ?_⟩
    obtain rfl := h.after
    have hmemory : r = w.memory := h.allows
    have hpath : w.installed.path = some known.path := by rw [← h.memory, ← hmemory, hr]
    simpa [Recorded, afterPhone, record, effect] using hpath
  refine triple_on_bind hremembered fun remembered => ?_
  split
  · next hsome =>
    have hpresent : Steady ps t
        (Own p index fun s => remembered = some known.path → Recorded q known.path s) (on q.dir (Proxy.call .bundlePresent))
        fun _ => Own p index (Recorded q known.path) :=
      (triple_ask hd (local_recorded _) rfl).pre fun _ h => ⟨h.1, fun hr => h.2 hr hsome⟩
    refine triple_on_bind hpresent fun present => ?_
    split
    · exact .pure fun s h => ⟨h.1, fun _ h => by cases h⟩
    · exact fun s hs h => ⟨h.1, fun hrunning _ => ready_of_recorded hd hs h.1 hrunning hknown hruntime (h.2 hrunning)⟩
    · exact (triple_installBuild hd cfg hknown hruntime).pre fun _ h => h.weaken
  · exact (triple_installBuild hd cfg hknown hruntime).pre fun _ h => h.weaken

/-! ## Jobs -/

/-- From the launch on, on a phone whose contents provide the plan's runtime. -/
theorem triple_runAndSubmit (cfg : Config) (job : ClaimedJob F) (plan : LaunchPlan F)
    (before : List ResultRef) (build : Option (Build F)) :
    Steady ps t (Own p index (Ready q plan.runtime))
      (on q.dir (runAndSubmit cfg job plan before build)) fun _ => Own p index (Ready q plan.runtime) := by
  have honly : (runAndSubmit cfg job plan before build).Only fun o =>
      o.stage ≠ .installs ∧ (o.stage ≠ .launches ∨ o = .launch job plan build) := by
    refine runAndSubmit_only cfg job plan before build (fun o ho => ?_) ⟨nofun, .inr rfl⟩
    have hstage : o.stage ≠ .installs ∧ o.stage ≠ .launches := by
      revert ho
      cases o.stage <;> decide
    exact ⟨hstage.1, .inl hstage.2⟩
  have honly' : (on q.dir (runAndSubmit cfg job plan before build)).Only fun o' => ∃ o, o' = .onPhone q.dir o ∧
      o.stage ≠ .installs ∧ (o.stage ≠ .launches ∨ o = .launch job plan build) :=
    honly.embed fun o ho => ⟨o, rfl, ho⟩
  refine .only honly' (stable_own hd (local_ready _)) ?_
  rintro _ s r s' ⟨o, rfl, hinstalls, hlaunches⟩ hs hA hstep
  refine quiet_step hd (local_ready _) hs hA hstep hinstalls fun hready l hl => ?_
  rcases hlaunches with hquiet | rfl
  · rw [launched_quiet hquiet] at hl
    cases hl
  · rw [launched, mem_singleton] at hl
    subst hl
    exact hready

variable [DecidableEq F.Runtime]

theorem triple_executePoolJob (cfg : Config) (flagsFor : F.Runtime → Option (List Text)) (dir : Text) (job : ClaimedJob F) :
    Steady ps t (Own p index fun _ => True)
      (on q.dir (executePoolJob cfg (index.view flagsFor dir) job)) fun _ => Own p index fun _ => True := by
  have hdone : ∀ {C : State F → Prop} (r : Except JobEnd Outcome), Steady ps t (Own p index C)
      (pure r) fun _ => Own p index fun _ => True :=
    fun r => .pure fun _ h => h.weaken
  unfold executePoolJob
  split
  · exact hdone _
  · next plan _ =>
    refine triple_on_bind (triple_quiet hd local_true (does_knownBenchmark job) rfl) fun known => ?_
    split
    · exact hdone _
    have hensured : Steady ps t (Own p index fun _ => True)
        (on q.dir (ensureInstalled (installCalls cfg) ((index.view flagsFor dir).buildFor plan.runtime)
          ((index.view flagsFor dir).noBuild plan.runtime)))
        fun r => Own p index fun s => r = .ok () → Ready q plan.runtime s := by
      cases hbuild : index.buildFor plan.runtime with
      | none =>
        simp only [BuildIndex.view, hbuild, map_none]
        exact .pure fun s h => ⟨h.1, fun _ => nofun⟩
      | some found =>
        simp only [BuildIndex.view, hbuild, map_some]
        obtain ⟨hfound, hruntime⟩ := BuildIndex.buildFor_some hbuild
        exact triple_ensureInstalled hd cfg hfound hruntime _
    refine triple_on_bind hensured fun installed => ?_
    split
    · exact hdone _
    have hbefore : Steady ps t (Own p index fun s => (Except.ok () : Except AnyError Unit) = .ok () → Ready q plan.runtime s)
        (on q.dir (resultsBefore)) fun _ => Own p index (Ready q plan.runtime) :=
      (triple_quiet hd (local_ready _) does_resultsBefore rfl).pre fun _ h => ⟨h.1, fun hr => h.2 hr rfl⟩
    refine triple_on_bind hbefore fun before => ?_
    split
    · exact hdone _
    · have hbeat : Proxy.Does [.lease] (Proxy.call (F := F) .startHeartbeat) := .call rfl
      refine triple_on_bind (triple_quiet hd (local_ready _) hbeat rfl) fun _ => ?_
      exact (triple_runAndSubmit hd cfg job plan _ none).post fun _ _ h => h.weaken

/-! ## The thread -/

variable [DecidableEq F.RuntimeType]

/-- What the thread keeps through its rounds: the pool it was started with. -/
def Keeping (ps : Processes F) (p : Nat) (index : BuildIndex F) (builds : Builds F) (s : State F) : Prop :=
  builds = .pool (index.view ps.flagsFor ps.poolDir) ∧ Own p index (fun _ => True) s

theorem circuit_pool (cfg : Config) : Circuit cfg
      (fun _ builds prog f => Steady ps t (Keeping ps p index builds) (on q.dir prog) fun a => Keeping ps p index (f a))
      fun _ builds prog => Steady ps t (Keeping ps p index builds) (on q.dir prog) fun _ _ => True where
  pure := by
    rintro α builds a f rfl
    exact .pure fun _ h => h
  bind hp hq := triple_on_bind hp hq
  ended := .pure fun _ _ => trivial
  ends hp hq := triple_on_bind hp hq
  asked := by
    intro α builds prog hprog
    refine .of_imp fun hbuilds => ?_
    exact (triple_quiet hd local_true hprog rfl).post fun _ _ h => ⟨hbuilds, h⟩
  starts := by
    refine fun probes builds => .of_imp ?_
    rintro rfl
    exact .pure fun _ h => ⟨rfl, h⟩
  refreshes := by
    refine fun builds => .of_imp ?_
    rintro rfl
    exact .pure fun _ h => ⟨rfl, h⟩
  runs := by
    refine fun builds job => .of_imp ?_
    rintro rfl
    have hdone : ∀ r : Except AnyError Unit, Steady ps t (Own p index fun _ => True)
        (pure (r, Builds.pool (index.view ps.flagsFor ps.poolDir))) fun a => Keeping ps p index a.2 :=
      fun r => .pure fun _ h => ⟨rfl, h⟩
    have hstarts : Proxy.Does [.begins] (Proxy.call (.jobStarts job)) := .call rfl
    have hends : ∀ halts, Proxy.Does [.ends] (Proxy.call (F := F) (.jobEnds halts)) := fun _ => .call rfl
    refine triple_on_bind (triple_quiet hd local_true hstarts rfl) fun _ => ?_
    have hexecuted : Steady ps t (Own p index fun _ => True)
        (on q.dir (executeJob cfg job (.pool (index.view ps.flagsFor ps.poolDir))))
        fun r s => r.2 = .pool (index.view ps.flagsFor ps.poolDir) ∧ Own p index (fun _ => True) s :=
      triple_on_bind (triple_executePoolJob hd cfg _ _ job) fun ended => .pure fun _ h => ⟨rfl, h⟩
    refine triple_on_bind hexecuted fun r => ?_
    obtain ⟨ended, builds⟩ := r
    refine .of_imp ?_
    rintro rfl
    dsimp only
    split
    · exact triple_on_bind (triple_quiet hd local_true (hends _) rfl) fun _ => hdone _
    · refine triple_on_bind (triple_quiet hd local_true (hends _) rfl) fun _ => ?_
      exact triple_on_bind (triple_quiet hd local_true (does_conclude job _) rfl) fun _ => hdone _

end Thread

variable [DecidableEq F.Runtime] [DecidableEq F.RuntimeType]

theorem triple_runPhone (ps : Processes F) (t : Tid) {p i : Nat} (hrole : ps.role t = .device p i) :
    Steady ps t (fun _ => True) (runPhone ps p i) fun _ _ => True := by
  unfold runPhone
  split
  · exact .pure fun _ _ => trivial
  · next q hphone =>
    have hd : Drives ps t p i q := ⟨hrole, hphone⟩
    have henter : Steady ps t (fun _ => True) (call .enter) fun index => Own p index fun _ => True := by
      refine .call (.const _) ?_
      rintro s index s' hs - ⟨hdo, -⟩
      cases hdo with
      | enter hrunning hforked =>
        rw [hd.process] at hforked
        exact ⟨hs, .refl, hforked, fun _ => trivial⟩
    refine .bind henter fun index => .bind (Q := fun _ _ => True) ?_ fun _ => .pure fun _ _ => trivial
    exact ((circuit_pool hd q.cfg).runDevice ps.rounds ps.restarts (startDevice ps q index)).pre fun _ h => ⟨rfl, h⟩

end Pipette.Proxy.Bundles
