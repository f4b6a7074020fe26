import Pipette.Lemmas.DeviceRule
import Pipette.Proxy.Bundles

/-!
# What the processes on one pool keep to

`Inv` ties the index, the records and the phones to each other, and `Guar` says what a step of one thread leaves to the
others: only the thread that drives a phone changes what belongs to it, and a complete index is not written again. Both are
for runs in which no reading displaced a build and no record was outdated.
-/

namespace Pipette.Proxy

open Threads List
open Function (update update_of_ne)

variable {F : Formats} {dir : PoolDir}

/-! ## The directory and the index -/

theorem PoolDir.mem_discover {path : Text} : path ∈ dir.discover ↔ ∃ b ∈ dir.bundles, b.path = path := by
  rw [PoolDir.discover, (perm_insertionSort _ _).mem_iff, mem_map]

namespace BuildIndex

variable {index : BuildIndex F} {build : Text}

theorem current_some {stamp : BuildStamp} (h : (index.current build stamp).isSome) :
    ∃ known ∈ index.entries, known.bundle = ⟨build, stamp⟩ := by
  obtain ⟨known, hknown⟩ := Option.isSome_iff_exists.1 h
  obtain ⟨hfind, hstamp⟩ := Option.filter_eq_some_iff.1 hknown
  refine ⟨known, mem_of_find?_eq_some hfind, ?_⟩
  have hpath : known.path = build := by simpa using find?_some hfind
  rw [KnownBuild.bundle, hpath, of_decide_eq_true hstamp]

variable {known : KnownBuild F} {runtime : F.Runtime}

theorem current_none {stamp : BuildStamp} (h : ¬(index.current build stamp).isSome)
    (hknown : known ∈ index.entries) : known.bundle ≠ ⟨build, stamp⟩ := by
  intro hbundle
  obtain ⟨hpath, hstamp⟩ := Bundle.mk.inj hbundle
  refine h ?_
  cases hfind : index.entries.find? (·.path = build) with
  | none => exact absurd hpath (by simpa using find?_eq_none.1 hfind known hknown)
  | some found =>
    have hsame : found = known := by
      refine index.unique _ (mem_of_find?_eq_some hfind) _ hknown ?_
      rw [hpath]
      simpa using find?_some hfind
    simp [current, hfind, hsame, hstamp]

theorem mem_record {stamp : BuildStamp} {runtimes : List F.Runtime} :
    known ∈ (index.record build stamp runtimes).entries ↔
      known = ⟨build, stamp, runtimes⟩ ∨ known ∈ index.entries ∧ known.path ≠ build := by
  rw [record, mem_orderedInsert, mem_filter, decide_eq_true_eq]

theorem mem_retainPresent {present : List Text} :
    known ∈ (index.retainPresent present).entries ↔ known ∈ index.entries ∧ known.path ∈ present := by
  rw [retainPresent, mem_filter, decide_eq_true_eq]

theorem buildFor_some [DecidableEq F.Runtime]
    (h : index.buildFor runtime = some known) : known ∈ index.entries ∧ runtime ∈ known.runtimes :=
  ⟨mem_of_find?_eq_some h, by simpa using find?_some h⟩

/-- Every entry is a bundle of the directory, and every bundle has its entry. -/
structure Complete (index : BuildIndex F) (dir : PoolDir) : Prop where
  present : ∀ known ∈ index.entries, known.bundle ∈ dir.bundles
  all : ∀ b ∈ dir.bundles, ∃ known ∈ index.entries, known.bundle = b

/-- The entry of a bundle of the directory is current. -/
theorem Complete.stamp (h : index.Complete dir) {b : Bundle} (hb : b ∈ dir.bundles)
    (hknown : known ∈ index.entries) (hpath : known.path = b.path) : known.bundle = b :=
  dir.unique _ (h.present known hknown) _ hb hpath

end BuildIndex

namespace Bundles

/-! ## The protocol -/

/-- Who may change what belongs to a phone: the main thread before it starts the others, or the phone's. -/
def Touches (ps : Processes F) (t : Tid) (s : State F) (phone : Text) : Prop :=
  (∃ p, ps.role t = .main p ∧ s.forked p = none) ∨
    ∃ p i q, ps.role t = .device p i ∧ s.forked p ≠ none ∧ (ps.phones p)[i]? = some q ∧ q.dir = phone

/-- What holds while the threads of a process run. -/
structure Driving (ps : Processes F) (s : State F) (p : Nat) (index : BuildIndex F) : Prop where
  same : s.index = index
  complete : s.index.Complete s.dir
  distinct : ((ps.phones p).map (·.dir)).Nodup
  held : ∀ phone ∈ ps.phones p, s.locks (.phone phone.dir) = some p
  remembered : ∀ phone ∈ ps.phones p, (s.world p phone.dir).memory = (s.installed phone.dir).path

theorem Provided.mono {readings readings' : List (Bundle × List F.Runtime)} {contents : Option Bundle}
    (h : Provided readings contents runtime) (hsub : readings ⊆ readings') : Provided readings' contents runtime := by
  obtain ⟨b, runtimes, hcontents, hread, hmem⟩ := h
  exact ⟨b, runtimes, hcontents, hsub hread, hmem⟩

/-- A record that names a path goes with these contents, as far as the index knows. -/
def Named (index : BuildIndex F) (record : InstalledBuild) (contents : Option Bundle) : Prop :=
  ∀ path, record.path = some path →
    ∃ stamp, contents = some ⟨path, stamp⟩ ∧ ∀ known ∈ index.entries, known.path = path → known.stamp = stamp

structure Inv (ps : Processes F) (s : State F) : Prop where
  sound : ∀ known ∈ s.index.entries, (known.bundle, known.runtimes) ∈ s.readings
  recorded : ∀ phone ∈ ps.fleet, Named s.index (s.installed phone.dir) (s.contents phone.dir)
  driving : ∀ p index, s.forked p = some index → p ∈ s.running → Driving ps s p index
  launched : ∀ l ∈ s.launches, Provided s.readings l.contents l.runtime

/-- What a step of thread `t` leaves to the others. -/
structure Guar (ps : Processes F) (t : Tid) (s s' : State F) : Prop where
  phones : ∀ phone, ¬(s.locks (.phone phone) = some (ps.role t).process ∧ Touches ps t s phone) →
    s'.installed phone = s.installed phone ∧ s'.contents phone = s.contents phone
  worlds : ∀ p phone, ¬(p = (ps.role t).process ∧ Touches ps t s phone) → s'.world p phone = s.world p phone
  index : ¬(ps.role t = .main (ps.role t).process ∧ s.locks .pool = some (ps.role t).process ∧ ¬s.index.Complete s.dir) →
    s'.index = s.index
  dir : s.running ≠ [] → s'.dir = s.dir
  started : ∀ p ∈ s'.running, p ∈ s.running ∨ s.forked p = none
  running : ∀ p ∈ s.running, ps.role t ≠ .main p → p ∈ s'.running
  unforked : ∀ p, ps.role t ≠ .main p → s'.forked p = s.forked p
  forked : ∀ p index, s.forked p = some index → s'.forked p = some index
  locks : ∀ k p, ps.role t ≠ .main p → s.locks k = some p → s'.locks k = some p
  readings : s.readings ⊆ s'.readings

def protocol (ps : Processes F) : Protocol (State F) := ⟨Inv ps, Guar ps⟩

def undisturbed (ps : Processes F) : Machine (Op F) Ans (State F) := (machine ps).within Undisturbed

/-- The program of the thread keeps to the protocol in every undisturbed run. -/
abbrev Steady (ps : Processes F) (t : Tid) {α : Type} (A : State F → Prop) (p : Act F α) (Q : α → State F → Prop) : Prop :=
  (protocol ps).Triple (undisturbed ps) t A p Q

section Steps

variable {ps : Processes F} {t u : Tid} {s s' : State F} {p : Nat}

/-- What was displaced or outdated stays so. -/
theorem Does.disturbed {o : Op F} {r : Ans o} (h : Does ps t o s r s') (hs' : Undisturbed s') : Undisturbed s := by
  cases h with
  | taken hfree =>
    obtain ⟨hd, ho⟩ := hs'
    exact ⟨hd, (Bool.or_eq_false_iff.1 ho).1⟩
  | storeIndex =>
    obtain ⟨hd, ho⟩ := hs'
    exact ⟨(Bool.or_eq_false_iff.1 hd).1, ho⟩
  | _ => exact hs'

theorem Guar.refl : Guar ps t s s where
  phones _ _ := ⟨rfl, rfl⟩
  worlds _ _ _ := rfl
  index _ := rfl
  dir _ := rfl
  started _ h := .inl h
  running _ h _ := h
  unforked _ _ := rfl
  forked _ _ h := h
  locks _ _ _ h := h
  readings := List.Subset.refl _

theorem inv_initial (dir : PoolDir) (contents : Text → Option Bundle) : Inv ps (.initial dir contents) :=
  ⟨nofun, fun _ _ => nofun, nofun, nofun⟩

theorem leave_keeps (hrole : ps.role t = .main p) (hs : Inv ps s) :
    Inv ps (s.leave p) ∧ Guar ps t s (s.leave p) := by
  have hne : ∀ {q}, ps.role t ≠ .main q → q ≠ p := fun h hq => h (hq ▸ hrole)
  constructor
  · refine ⟨hs.sound, hs.recorded, fun q index hforked hq => ?_, hs.launched⟩
    obtain ⟨hrunning, hqp⟩ := mem_filter.1 hq
    obtain ⟨hsame, hcomplete, hdistinct, hheld, hremembered⟩ := hs.driving q index hforked hrunning
    exact ⟨hsame, hcomplete, hdistinct, fun phone hphone => Locks.release_held (of_decide_eq_true hqp) (hheld phone hphone),
      hremembered⟩
  · exact { Guar.refl with
      started := fun q hq => .inl (mem_filter.1 hq).1
      running := fun q hq hqt => mem_filter.2 ⟨hq, decide_eq_true (hne hqt)⟩
      locks := fun k q hqt hk => Locks.release_held (hne hqt) hk }

open State

theorem exit_keeps (t : Tid) (s : State F) (hs : Inv ps s) : Inv ps (s.exit ps t) ∧ Guar ps t s (s.exit ps t) := by
  unfold exit
  split
  · next p hrole => exact leave_keeps hrole hs
  · exact ⟨hs, .refl⟩

/-! ## Operations on a phone -/

variable {o : Proxy.Op F}

theorem record_quiet (h : o.stage ≠ .installs) (w : World F) (r : Proxy.Ans o) :
    (w.record o r).installed = w.installed ∧ (w.record o r).memory = w.memory := by
  cases o with
  | storeInstalled record => exact absurd rfl h
  | _ => exact ⟨rfl, rfl⟩

variable {phone : Text} {r : Proxy.Ans o} {c : Option Bundle} {α β : Type}

theorem lands_quiet (h : o.stage ≠ .installs)
    (hlands : s.Lands phone o r c) : c = s.contents phone := by
  cases o with
  | installApp path => exact absurd rfl h
  | _ => exact hlands

theorem launched_quiet (h : o.stage ≠ .launches) (phone : Text) : s.launched phone o = [] := by
  cases o with
  | launch job plan build => exact absurd rfl h
  | _ => rfl

/-- A thread that holds the lock of a phone and may change what belongs to it. -/
theorem guar_afterPhone (htouches : Touches ps t s phone)
    (hlock : s.locks (.phone phone) = some (ps.role t).process) (o : Proxy.Op F) (r : Proxy.Ans o) (w : World F)
    (c : Option Bundle) : Guar ps t s (s.afterPhone (ps.role t).process phone o r w c) :=
  { Guar.refl (s := s) with
    phones := by
      intro phone' hnot
      have hne : phone' ≠ phone := by
        rintro rfl
        exact hnot ⟨hlock, htouches⟩
      exact ⟨update_of_ne hne .., update_of_ne hne ..⟩
    worlds := by
      intro p phone' hnot
      by_cases hp : p = (ps.role t).process
      · subst hp
        have hne : phone' ≠ phone := by
          rintro rfl
          exact hnot ⟨rfl, htouches⟩
        simp [afterPhone, setWorld, update_of_ne hne]
      · simp [afterPhone, setWorld, update_of_ne hp]
    readings := subset_append_right _ _ }

/-- The invariant after an operation on a phone, by the record, the memory and the phone it leaves. -/
theorem inv_afterPhone (hs : Inv ps s) (hlock : s.locks (.phone phone) = some p)
    {w : World F} (hnamed : Named s.index (w.record o r).installed c)
    (hmemory : s.forked p ≠ none → (w.record o r).memory = (w.record o r).installed.path)
    (hlaunch : ∀ l ∈ s.launched phone o, Provided s.readings l.contents l.runtime) :
    Inv ps (s.afterPhone p phone o r w c) := by
  have hsub : s.readings ⊆ s.readOff phone o r ++ s.readings := subset_append_right _ _
  refine ⟨fun known hknown => hsub (hs.sound known hknown), fun q hq => ?_, fun p' index hforked hrunning => ?_, fun l hl => ?_⟩
  · by_cases hphone : q.dir = phone
    · simpa [afterPhone, setWorld, hphone] using hnamed
    · simpa [afterPhone, setWorld, update_of_ne hphone] using hs.recorded q hq
  · obtain ⟨hsame, hcomplete, hdistinct, hheld, hremembered⟩ := hs.driving p' index hforked hrunning
    refine ⟨hsame, hcomplete, hdistinct, hheld, fun q hq => ?_⟩
    by_cases hphone : q.dir = phone
    · have hp' : p' = p := by
        have := hheld q hq
        rw [hphone, hlock] at this
        exact (Option.some.inj this).symm
      subst hp'
      have hforked' : s.forked p' = some index := hforked
      simpa [afterPhone, setWorld, hphone] using hmemory (by rw [hforked']; nofun)
    have hworld : (s.afterPhone p phone o r w c).world p' q.dir = s.world p' q.dir := by
      by_cases hp : p' = p
      · subst hp
        simp [afterPhone, setWorld, update_of_ne hphone]
      · simp [afterPhone, setWorld, update_of_ne hp]
    rw [hworld]
    simpa [afterPhone, setWorld, update_of_ne hphone] using hremembered q hq
  · exact (forall_mem_append.2 ⟨hlaunch, hs.launched⟩ l hl).mono hsub

/-- An operation on a phone, as the process does it. -/
theorem onPhone_cases (hrole : (ps.role t).process = p)
    (h : (undisturbed ps).step t (.onPhone phone o) s r s') :
    p ∈ s.running ∧ ∃ (w : World F) (c : Option Bundle), w.installed = s.installed phone ∧
      w.memory = (s.world p phone).memory ∧ w.Allows (fun _ => True) o r ∧ s.Lands phone o r c ∧
      s' = s.afterPhone p phone o r w c := by
  subst hrole
  obtain ⟨hdo, -⟩ := h
  cases hdo with
  | @onPhone s phone o r beats signalled c hrunning hallows hlands =>
    exact ⟨hrunning, (s.view (ps.role t).process phone).advance beats signalled, c, rfl, rfl, hallows, hlands, rfl⟩

/-! ## Programs on a phone -/

theorem on_bind (phone : Text) (p : Proxy.Act F α) (f : α → Proxy.Act F β) :
    on phone (p >>= f) = on phone p >>= fun a => on phone (f a) :=
  Prog.embed_bind p f

theorem triple_on_bind {A : State F → Prop} {p : Proxy.Act F α} {f : α → Proxy.Act F β}
    {Q : α → State F → Prop} {R : β → State F → Prop} (hp : Steady ps t A (on phone p) Q)
    (hf : ∀ a, Steady ps t (Q a) (on phone (f a)) R) :
    Steady ps t A (on phone (p >>= f)) R := by
  rw [on_bind]
  exact .bind hp hf

end Steps

end Bundles

end Pipette.Proxy
