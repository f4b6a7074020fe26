import Pipette.Subprocess.Cleanup

/-!
# No started child outlives an interrupted process

The log tells of every start how far it is, and a way out that has taken the list of teardowns runs it to its end. While only
one way takes a list, and the list of a closed output is not taken between a spawn and its registration, every child that was
not reaped is torn down once. Both exceptions happen: `output_closed` does not wait for `STARTS`, and a second way out finds
an empty registry and exits while the first still tears down.
-/

namespace Pipette.Subprocess

open List Function Event Phase Process

variable {s s' : Process} {c : Nat} {w : Way}

/-! ## What a step leaves -/

theorem StartStep.ways (h : StartStep s c s') : s'.ways = s.ways := by cases h <;> rfl

theorem StartStep.exited (h : StartStep s c s') : s'.exited = s.exited := by cases h <;> rfl

theorem StartStep.others (h : StartStep s c s') {d : Nat} (hd : d ≠ c) : s'.starts d = s.starts d := by
  cases h <;> exact update_of_ne hd _ _

theorem WayStep.starts (h : WayStep s w s') : s'.starts = s.starts := by cases h <;> rfl

variable {q : Way} {e : Event}

theorem WayStep.others (h : WayStep s w s') (hq : q ≠ w) : s'.ways q = s.ways q := by
  cases h <;> first | rfl | exact update_of_ne hq _ _

/-- The start an event is about. -/
def Event.about : Event → Option Nat
  | .spawned c | .registered c | .reaped c | .dropped c => some c
  | .took _ | .ran _ _ => none

/-- The way out an event is about. -/
def Event.leads : Event → Option Way
  | .spawned _ | .registered _ | .reaped _ | .dropped _ => none
  | .took w | .ran w _ => some w

theorem StartStep.log (h : StartStep s c s') : ∃ new, s'.log = new ++ s.log ∧ ∀ e ∈ new, e.about = some c ∧ e.leads = none := by
  cases h
  case spawn => exact ⟨[.spawned c], rfl, by simp [about, leads]⟩
  case register => exact ⟨[.registered c], rfl, by simp [about, leads]⟩
  case reap => exact ⟨[.reaped c], rfl, by simp [about, leads]⟩
  case drop => exact ⟨[.dropped c], rfl, by simp [about, leads]⟩
  all_goals exact ⟨[], rfl, nofun⟩

theorem WayStep.log (h : WayStep s w s') : ∃ new, s'.log = new ++ s.log ∧ ∀ e ∈ new, e.about = none ∧ e.leads = some w := by
  cases h
  case take => exact ⟨[.took w], rfl, by simp [about, leads]⟩
  case run => exact ⟨[.ran w _], rfl, by simp [about, leads]⟩
  all_goals exact ⟨[], rfl, nofun⟩

/-! ## The registry -/

/-- What a step does to the registry and to the tokens of the starts. -/
inductive Moves (s s' : Process) : Prop where
  | same (hreg : s'.registry = s.registry) (hnext : s'.nextToken = s.nextToken)
    (htoken : ∀ d, (s'.starts d).token = (s.starts d).token)
  | added (c : Nat) (bounded : Bool) (hreg : s'.registry = s.registry ++ [⟨s.nextToken, c, bounded⟩])
    (hnext : s'.nextToken = s.nextToken + 1) (hbefore : (s.starts c).token = none) (hafter : (s'.starts c).token = some s.nextToken)
    (hothers : ∀ d, d ≠ c → s'.starts d = s.starts d)
  | removed (c t : Nat) (hreg : s'.registry = s.registry.filter fun e => e.token != t) (hnext : s'.nextToken = s.nextToken)
    (hbefore : (s.starts c).token = some t) (hafter : (s'.starts c).token = none) (hothers : ∀ d, d ≠ c → s'.starts d = s.starts d)
  | taken (w : Way) (hreg : s'.registry = []) (hnext : s'.nextToken = s.nextToken) (htoken : s'.starts = s.starts)
    (htook : .took w ∈ s'.log)

theorem token_update {f : Nat → Start} {start : Start} (h : start.token = (f c).token) (d : Nat) :
    (update f c start d).token = (f d).token := by
  by_cases hd : d = c
  · subst hd
    rw [update_self, h]
  · rw [update_of_ne hd]

theorem StartStep.moves (h : StartStep s c s') : Moves s s' := by
  have hothers := fun d hd => h.others (d := d) hd
  cases h with
  | holdOff h | spawnFails h | spawn h | dropStarting h | reap h =>
    exact .same rfl rfl (token_update (f := s.starts) (by rw [h]; rfl))
  | register h bounded | registerOther h bounded => exact .added c bounded rfl rfl (by rw [h]; rfl) (by simp [Start.token]) hothers
  | @drop t h | @dropOther t h => exact .removed c t rfl rfl (by rw [h]; rfl) (by simp [Start.token]) hothers

theorem WayStep.moves (h : WayStep s w s') : Moves s s' := by
  cases h
  case take => exact .taken w rfl rfl rfl (mem_cons_self ..)
  all_goals exact .same rfl rfl fun _ => rfl

theorem Step.moves (h : Step s s') : Moves s s' := by
  cases h with
  | start c h | way w h => exact h.moves
  | _ => exact .same rfl rfl fun _ => rfl

theorem Step.log_subset (h : Step s s') (he : e ∈ s.log) : e ∈ s'.log := by
  cases h with
  | start c h | way w h =>
    obtain ⟨new, hlog, -⟩ := h.log
    rw [hlog]
    exact mem_append_right _ he
  | _ => exact he

/-- The entries are those of the starts that have a token, as long as no list was taken. -/
structure Owned (s : Process) : Prop where
  entry : ∀ e ∈ s.registry, (s.starts e.owner).token = some e.token
  fresh : ∀ c t, (s.starts c).token = some t → t < s.nextToken
  apart : ∀ c d t, (s.starts c).token = some t → (s.starts d).token = some t → c = d
  nodup : (s.registry.map Entry.owner).Nodup
  kept : (∀ w, .took w ∉ s.log) → ∀ c t, (s.starts c).token = some t → c ∈ s.registry.map Entry.owner

theorem owned_fresh : Owned .fresh where
  entry e he := by cases he
  fresh c t h := by cases h
  apart c d t h := by cases h
  nodup := nodup_nil
  kept _ c t h := by cases h

theorem Owned.step (hinv : Owned s) (h : Step s s') : Owned s' := by
  have htook : (∀ w, .took w ∉ s'.log) → ∀ w, .took w ∉ s.log := fun hno w hw => hno w (h.log_subset hw)
  cases h.moves with
  | same hreg hnext htoken =>
    exact ⟨by simpa [hreg, htoken] using hinv.entry, by simpa [hnext, htoken] using hinv.fresh,
      by simpa [htoken] using hinv.apart, by simpa [hreg] using hinv.nodup,
      fun hno => by simpa [hreg, htoken] using hinv.kept (htook hno)⟩
  | added c bounded hreg hnext hbefore hafter hothers =>
    have hother : ∀ e ∈ s.registry, e.owner ≠ c := by
      intro e he heq
      have htoken := hinv.entry e he
      rw [heq, hbefore] at htoken
      cases htoken
    have hback : ∀ d t, (s'.starts d).token = some t → d = c ∧ t = s.nextToken ∨ (s.starts d).token = some t ∧ t < s.nextToken := by
      intro d t ht
      by_cases hd : d = c
      · rw [hd, hafter] at ht
        exact .inl ⟨hd, (Option.some.inj ht).symm⟩
      · rw [hothers d hd] at ht
        exact .inr ⟨ht, hinv.fresh d t ht⟩
    refine ⟨?_, ?_, ?_, ?_, ?_⟩
    · intro e he
      rw [hreg, mem_append, mem_singleton] at he
      rcases he with he | rfl
      · rw [hothers _ (hother e he)]
        exact hinv.entry e he
      · exact hafter
    · intro d t ht
      rcases hback d t ht with ⟨-, ht⟩ | ⟨-, ht⟩ <;> omega
    · intro d d' t ht ht'
      rcases hback d t ht with ⟨hd, hnew⟩ | ⟨ht, hlt⟩ <;> rcases hback d' t ht' with ⟨hd', hnew'⟩ | ⟨ht', hlt'⟩
      · rw [hd, hd']
      · omega
      · omega
      · exact hinv.apart d d' t ht ht'
    · rw [hreg, map_append]
      refine hinv.nodup.append (nodup_singleton c) fun d hd hdc => ?_
      obtain ⟨e, he, rfl⟩ := mem_map.1 hd
      exact hother e he (mem_singleton.1 hdc)
    · intro hno d t ht
      rw [hreg, map_append, mem_append]
      rcases hback d t ht with ⟨hd, -⟩ | ⟨ht, -⟩
      · exact .inr (mem_singleton.2 hd)
      · exact .inl (hinv.kept (htook hno) d t ht)
  | removed c t hreg hnext hbefore hafter hothers =>
    have hentry : ∀ e ∈ s'.registry, e ∈ s.registry ∧ e.token ≠ t := fun e he => by simpa [hreg] using he
    have hback : ∀ d u, (s'.starts d).token = some u → d ≠ c ∧ (s.starts d).token = some u := by
      intro d u hu
      have hd : d ≠ c := by
        rintro rfl
        rw [hafter] at hu
        cases hu
      exact ⟨hd, hothers d hd ▸ hu⟩
    refine ⟨?_, ?_, ?_, ?_, ?_⟩
    · intro e he
      obtain ⟨hmem, hne⟩ := hentry e he
      have htoken := hinv.entry e hmem
      have howner : e.owner ≠ c := by
        intro heq
        rw [heq, hbefore] at htoken
        exact hne (Option.some.inj htoken).symm
      rwa [hothers _ howner]
    · intro d u hu
      rw [hnext]
      exact hinv.fresh d u (hback d u hu).2
    · intro d d' u hu hu'
      exact hinv.apart d d' u (hback d u hu).2 (hback d' u hu').2
    · rw [hreg]
      exact hinv.nodup.sublist (filter_sublist.map _)
    · intro hno d u hu
      obtain ⟨hd, hu⟩ := hback d u hu
      obtain ⟨e, he, rfl⟩ := mem_map.1 (hinv.kept (htook hno) d u hu)
      refine mem_map.2 ⟨e, ?_, rfl⟩
      have htoken : e.token ≠ t := by
        intro heq
        have hfound := hinv.entry e he
        rw [heq] at hfound
        exact hd (hinv.apart _ c t hfound hbefore)
      simpa [hreg] using ⟨he, htoken⟩
  | taken w hreg hnext htoken hw =>
    refine ⟨?_, by simpa [hnext, htoken] using hinv.fresh, by simpa [htoken] using hinv.apart, by simp [hreg], ?_⟩
    · intro e he
      rw [hreg] at he
      cases he
    · intro hno
      exact absurd hw (hno w)

/-! ## What the log tells of a start -/

/-- The events of a start that is so far. -/
def Start.Told (c : Nat) (story : List Event) : Start → Prop
  | .notBegun | .starting | .other _ => story = []
  | .spawned => story = [.spawned c]
  | .registered _ | .running _ => story = [.registered c, .spawned c]
  | .reaped _ => story = [.reaped c, .registered c, .spawned c]
  | .done => story = [] ∨ story = [.dropped c, .reaped c, .registered c, .spawned c]

/-- The events of one start. -/
def story (s : Process) (c : Nat) : List Event := s.log.filter fun e => e.about == some c

/-- The log tells of every start how far it is. -/
def Recorded (s : Process) : Prop := ∀ c, (s.starts c).Told c (story s c)

theorem mem_story (he : e.about = some c) : e ∈ story s c ↔ e ∈ s.log := by simp [story, he]

theorem story_eq {new : List Event} (hlog : s'.log = new ++ s.log) (hnew : ∀ e ∈ new, e.about ≠ some c) : story s' c = story s c := by
  simpa [story, hlog] using hnew

theorem StartStep.recorded (h : StartStep s c s') (hinv : Recorded s) : Recorded s' := by
  intro d
  by_cases hd : d = c
  · have hbefore := hinv d
    cases h <;> simp_all [Start.Told, story, about]
  obtain ⟨new, hlog, hnew⟩ := h.log
  rw [h.others hd, story_eq hlog fun e he heq => hd (Option.some.inj (heq.symm.trans (hnew e he).1))]
  exact hinv d

theorem WayStep.recorded (h : WayStep s w s') (hinv : Recorded s) : Recorded s' := by
  intro d
  obtain ⟨new, hlog, hnew⟩ := h.log
  rw [h.starts, story_eq hlog fun e he => by simp [(hnew e he).1]]
  exact hinv d

theorem Step.recorded (h : Step s s') (hinv : Recorded s) : Recorded s' := by
  cases h with
  | start c h | way w h => exact h.recorded hinv
  | _ => exact hinv

/-- A child that runs is not registered yet, or has its token. -/
theorem Recorded.unreaped (hinv : Recorded s) (hspawned : .spawned c ∈ s.log) (hreaped : .reaped c ∉ s.log) :
    (s.starts c).holdsOff ∧ .registered c ∉ s.log ∨ ∃ t, (s.starts c).token = some t := by
  have htold := hinv c
  rw [← mem_story rfl] at hspawned hreaped ⊢
  cases hstart : s.starts c <;> rw [hstart] at htold <;> simp_all [Start.Told, Start.holdsOff, Start.token]
  rcases htold with htold | htold <;> simp [htold] at hspawned hreaped

/-- What has dropped its registration has no token. -/
theorem Recorded.dropped (hinv : Recorded s) (hdropped : .dropped c ∈ s.log) : (s.starts c).token = none := by
  have htold := hinv c
  rw [← mem_story rfl] at hdropped
  cases hstart : s.starts c <;> rw [hstart] at htold <;> simp_all [Start.Told, Start.token]

/-! ## The lock -/

/-- While the handler selects teardowns, no start is between its spawn and its registration. -/
def HeldOff (s : Process) : Prop := (s.ways .signal).selects → ∀ c, (s.starts c).holdsOff = false

theorem StartStep.heldOff (h : StartStep s c s') (hinv : HeldOff s) : HeldOff s' := by
  intro hselects d
  rw [h.ways] at hselects
  have hbefore := hinv hselects
  by_cases hd : d = c
  · have hheld := hbefore d
    cases h <;> simp_all [Start.holdsOff]
  · rw [h.others hd]
    exact hbefore d

theorem WayStep.heldOff (h : WayStep s w s') (hinv : HeldOff s) : HeldOff s' := by
  intro hselects d
  rw [h.starts]
  by_cases hbefore : (s.ways .signal).selects
  · exact hinv hbefore d
  · cases w with
    | closed => exact absurd (h.others (q := .signal) (by decide) ▸ hselects) hbefore
    | signal => cases h <;> simp_all [selects]

theorem Step.heldOff (h : Step s s') (hinv : HeldOff s) : HeldOff s' := by
  cases h with
  | start c h | way w h => exact h.heldOff hinv
  | _ => exact hinv

/-! ## The list a way out has taken -/

/-- A way out took its list between `before` and `after`, has torn down `gone` since, and has `rest` to go. -/
structure Listed (s : Process) (w : Way) (after before : List Event) (gone rest : List Nat) : Prop where
  log : s.log = after ++ .took w :: before
  once : .took w ∉ after ∧ .took w ∉ before
  ran : ∀ c, s.log.count (.ran w c) = gone.count c
  nodup : (gone ++ rest).Nodup
  undropped : ∀ c ∈ gone ++ rest, .dropped c ∉ before
  whole : (∀ q, .took q ∉ before) → ∀ c, .spawned c ∈ before → .reaped c ∉ before →
    (w = .closed → .registered c ∈ before) → c ∈ gone ++ rest

/-- The list of a way out, from the moment it is taken. -/
def Phase.list : Phase → Option (List Entry)
  | .took entries | .tearing entries => some entries
  | _ => none

/-- What a way out has done so far. -/
def Ordered (s : Process) (w : Way) : Prop :=
  match (s.ways w).list with
  | some entries => ∃ after before gone, Listed s w after before gone (entries.map Entry.owner)
  | none => ∀ e ∈ s.log, e.leads ≠ some w

/-- What is not of this way out leaves its list as it is. -/
theorem Ordered.frame (hinv : Ordered s w) (hways : s'.ways w = s.ways w)
    (h : ∃ new, s'.log = new ++ s.log ∧ ∀ e ∈ new, e.leads ≠ some w) : Ordered s' w := by
  obtain ⟨new, hlog, hleads⟩ := h
  rw [Ordered, hways]
  rw [Ordered] at hinv
  cases hlist : (s.ways w).list with
  | none =>
    simp only [hlist] at hinv ⊢
    rw [hlog]
    exact forall_mem_append.2 ⟨hleads, hinv⟩
  | some entries =>
    simp only [hlist] at hinv ⊢
    obtain ⟨after, before, gone, hlisted⟩ := hinv
    refine ⟨new ++ after, before, gone, { hlisted with log := ?_, once := ⟨fun hmem => ?_, hlisted.once.2⟩, ran := fun c => ?_ }⟩
    · rw [hlog, hlisted.log, append_assoc]
    · rcases mem_append.1 hmem with hmem | hmem
      · exact hleads _ hmem rfl
      · exact hlisted.once.1 hmem
    · have hnone : .ran w c ∉ new := fun hmem => hleads _ hmem rfl
      rw [hlog, count_append, count_eq_zero_of_not_mem hnone, Nat.zero_add, hlisted.ran]

/-- A step between two phases of a way out that has taken no list. -/
theorem Ordered.before (hinv : Ordered s w) (hlist : (s.ways w).list = none) (hlist' : (s'.ways w).list = none)
    (hlog : s'.log = s.log) : Ordered s' w := by
  simp only [Ordered, hlist] at hinv
  simp only [Ordered, hlist', hlog]
  exact hinv

/-- The list that is taken has every child that is registered and not reaped, and no dropped one. -/
theorem listed_take (howned : Owned s) (hrecorded : Recorded s) (hheld : HeldOff s) (hinv : Ordered s w) (h : s.ways w = .taking) :
    Listed ((s.takeTeardowns.note (.took w)).setWay w (.took s.registry)) w [] s.log [] (s.registry.map Entry.owner) := by
  simp only [Ordered, h, Phase.list] at hinv
  have hfirst : took w ∉ s.log := fun hmem => hinv _ hmem rfl
  refine ⟨rfl, ⟨by simp, hfirst⟩, ?_, howned.nodup, ?_, ?_⟩
  · intro c
    have hnever : ran w c ∉ s.log := fun hmem => hinv _ hmem rfl
    simpa [count_cons] using count_eq_zero_of_not_mem hnever
  · intro c hc hdropped
    obtain ⟨e, he, rfl⟩ := mem_map.1 hc
    have htoken := howned.entry e he
    rw [hrecorded.dropped hdropped] at htoken
    cases htoken
  · intro hnone c hspawned hreaped hregistered
    rcases hrecorded.unreaped hspawned hreaped with ⟨hholds, hnot⟩ | ⟨t, ht⟩
    · cases w with
      | closed => exact absurd (hregistered rfl) hnot
      | signal =>
        have hfree := hheld (by rw [h]; rfl) c
        rw [hholds] at hfree
        cases hfree
    · exact howned.kept hnone c t ht

theorem Listed.run {after before : List Event} {gone rest : List Nat} (h : Listed s w after before gone (c :: rest))
    (hlog : s'.log = .ran w c :: s.log) : Listed s' w (.ran w c :: after) before (gone ++ [c]) rest := by
  have happend : gone ++ [c] ++ rest = gone ++ c :: rest := by simp
  refine ⟨by rw [hlog, h.log, cons_append], ⟨by simpa using h.once.1, h.once.2⟩, ?_, happend ▸ h.nodup, happend ▸ h.undropped,
    happend ▸ h.whole⟩
  intro d
  rw [hlog, count_cons, count_append, h.ran d, count_singleton]
  simp

theorem WayStep.ordered (h : WayStep s w s') (howned : Owned s) (hrecorded : Recorded s) (hheld : HeldOff s) (hinv : Ordered s w) :
    Ordered s' w := by
  cases h with
  | interrupt h | lock h | idle h | busy h | absorbed h | notAbsorbed h | notice h | mark h =>
    exact hinv.before (by rw [h]; rfl) (by simp [Phase.list]) rfl
  | take h =>
    have hlisted := listed_take howned hrecorded hheld hinv h
    simp only [Ordered, setWay, update_self, Phase.list]
    exact ⟨_, _, _, hlisted⟩
  | leave h | exit h =>
    simp only [Ordered, h, Phase.list] at hinv
    simp only [Ordered, setWay, update_self, h, Phase.list]
    obtain ⟨after, before, gone, hlisted⟩ := hinv
    exact ⟨after, before, gone, { hlisted with }⟩
  | run h =>
    simp only [Ordered, h, Phase.list] at hinv
    simp only [Ordered, setWay, update_self, Phase.list]
    obtain ⟨after, before, gone, hlisted⟩ := hinv
    exact ⟨_, before, _, hlisted.run rfl⟩

theorem Step.ordered (h : Step s s') (howned : Owned s) (hrecorded : Recorded s) (hheld : HeldOff s) (hinv : ∀ w, Ordered s w) (w : Way) :
    Ordered s' w := by
  cases h with
  | start c h =>
    obtain ⟨new, hlog, hnew⟩ := h.log
    exact (hinv w).frame (by rw [h.ways]) ⟨new, hlog, fun e he => by simp [(hnew e he).2]⟩
  | way q h =>
    by_cases hq : w = q
    · subst hq
      exact h.ordered howned hrecorded hheld (hinv w)
    · obtain ⟨new, hlog, hnew⟩ := h.log
      exact (hinv w).frame (h.others hq) ⟨new, hlog, fun e he => by simpa [(hnew e he).2] using Ne.symm hq⟩
  | _ => exact (hinv w).frame rfl ⟨[], rfl, nofun⟩

/-! ## Every process -/

/-- What holds of the process at every step. -/
structure ProcessInv (s : Process) : Prop where
  owned : Owned s
  recorded : Recorded s
  heldOff : HeldOff s
  ordered : ∀ w, Ordered s w
  exited : ∀ w, s.exited = some w → s.ways w = .tearing []

theorem WayStep.exited (h : WayStep s w s') (hrunning : s.exited = none) (hq : s'.exited = some q) : s'.ways q = .tearing [] := by
  cases h
  case exit h =>
    cases hq
    exact h
  all_goals
    replace hq : s.exited = some q := hq
    rw [hrunning] at hq
    cases hq

theorem Step.exited (h : Step s s') (hrunning : s.exited = none) (hq : s'.exited = some q) : s'.ways q = .tearing [] := by
  cases h with
  | start c h =>
    rw [h.exited, hrunning] at hq
    cases hq
  | way w h => exact h.exited hrunning hq
  | _ => simp [hrunning] at hq

theorem Reachable.inv (h : Reachable s) : ProcessInv s := by
  induction h with
  | refl =>
    have hordered : ∀ w, Ordered .fresh w := fun w => by simp [Ordered, fresh, Phase.list]
    exact ⟨owned_fresh, fun c => rfl, fun hselects => by simp [fresh, selects] at hselects, hordered, fun w h => by cases h⟩
  | tail _ hnext ih =>
    obtain ⟨hrunning, hstep⟩ := hnext
    exact ⟨ih.owned.step hstep, hstep.recorded ih.recorded, hstep.heldOff ih.heldOff,
      hstep.ordered ih.owned ih.recorded ih.heldOff ih.ordered, fun w => hstep.exited hrunning⟩

/-! ## No child is left -/

/-- How often the teardown of a start has run. -/
def teardowns (s : Process) (c : Nat) : Nat := s.log.count (.ran .signal c) + s.log.count (.ran .closed c)

/-- When the process has exited, every child spawned and not reaped when the list was taken was torn down once, and none was
whose registration was dropped before. -/
def NoneOutlives (s : Process) : Prop :=
  ∀ w, s.exited = some w → ∀ after before, s.log = after ++ .took w :: before →
    (∀ c, .spawned c ∈ before → .reaped c ∉ before → teardowns s c = 1) ∧ (∀ c, .dropped c ∈ before → teardowns s c = 0)

/-- Only one way out takes a list. -/
def Alone (s : Process) : Prop := ¬ (.took .signal ∈ s.log ∧ .took .closed ∈ s.log)

/-- The list of a closed output is not taken between a spawn and its registration. -/
def Settled (s : Process) : Prop :=
  ∀ after before, s.log = after ++ .took .closed :: before → ∀ c, .spawned c ∈ before → .registered c ∈ before

/-- A way out that takes no list tears nothing down. -/
theorem ran_eq_zero (hinv : Ordered s w) (hnone : .took w ∉ s.log) (c : Nat) : s.log.count (.ran w c) = 0 := by
  rw [Ordered] at hinv
  cases hlist : (s.ways w).list with
  | none =>
    simp only [hlist] at hinv
    exact count_eq_zero_of_not_mem fun hmem => hinv _ hmem rfl
  | some entries =>
    simp only [hlist] at hinv
    obtain ⟨after, before, gone, hlisted⟩ := hinv
    exact absurd (hlisted.log ▸ by simp) hnone

/-- With one way out, only its own teardowns count. -/
theorem teardowns_eq (hinv : ∀ q, Ordered s q) (halone : Alone s) (htook : .took w ∈ s.log) (c : Nat) :
    teardowns s c = s.log.count (.ran w c) := by
  cases w with
  | signal => rw [teardowns, ran_eq_zero (hinv .closed) (fun h => halone ⟨htook, h⟩), Nat.add_zero]
  | closed => rw [teardowns, ran_eq_zero (hinv .signal) (fun h => halone ⟨h, htook⟩), Nat.zero_add]

/-- While only one way out takes a list, and none is taken for a closed output between a spawn and its registration, no child
outlives the process. -/
theorem noneOutlives (s : Process) (h : Reachable s) (halone : Alone s) (hsettled : Settled s) : NoneOutlives s := by
  intro w hexited after before hlog
  have hinv := h.inv
  have hordered := hinv.ordered w
  simp only [Ordered, hinv.exited w hexited, Phase.list, map_nil] at hordered
  obtain ⟨after', before', gone, hlisted⟩ := hordered
  obtain ⟨rfl, rfl⟩ : after' = after ∧ before' = before := by
    have heq := hlisted.log.symm.trans hlog
    simpa using (append_cons_inj_of_notMem hlisted.once.1 hlisted.once.2).1 heq
  have htook : .took w ∈ s.log := by simp [hlog]
  have hcount := fun c => (teardowns_eq hinv.ordered halone htook c).trans (hlisted.ran c)
  have hnodup : gone.Nodup := by simpa using hlisted.nodup
  constructor
  · intro c hspawned hreaped
    have hnone : ∀ q, .took q ∉ before' := by
      intro q hq
      have hqlog : .took q ∈ s.log := by simp [hlog, hq]
      cases w <;> cases q
      · exact hlisted.once.2 hq
      · exact halone ⟨htook, hqlog⟩
      · exact halone ⟨hqlog, htook⟩
      · exact hlisted.once.2 hq
    have hmem : c ∈ gone := by
      simpa using hlisted.whole hnone c hspawned hreaped fun hw => hsettled _ _ (hw ▸ hlog) c hspawned
    rw [hcount, count_eq_one_of_mem hnodup hmem]
  · intro c hdropped
    have hnot : c ∉ gone := fun hmem => hlisted.undropped c (by simpa using hmem) hdropped
    rw [hcount, count_eq_zero_of_not_mem hnot]

/-! ## Three runs -/

theorem Reachable.start (h : Reachable s) (hrunning : s.exited = none) (hstep : StartStep s c s') : Reachable s' :=
  h.tail ⟨hrunning, .start c hstep⟩

theorem Reachable.way (h : Reachable s) (hrunning : s.exited = none) (hstep : WayStep s w s') : Reachable s' :=
  h.tail ⟨hrunning, .way w hstep⟩

/-- One child, spawned and not registered yet. -/
def spawnedChild : Process := ((fresh.setStart 0 .starting).note (.spawned 0)).setStart 0 .spawned

theorem reachable_spawnedChild : Reachable spawnedChild := by
  have hholds := Reachable.start (c := 0) .refl rfl (.holdOff rfl rfl)
  exact hholds.start rfl (.spawn rfl)

/-- One child that runs, with its teardown. -/
def runningChild : Process :=
  (((spawnedChild.register 0 false).note (.registered 0)).setStart 0 (.registered 1)).setStart 0 (.running 1)

theorem reachable_runningChild : Reachable runningChild := by
  have hregistered := reachable_spawnedChild.start (c := 0) rfl (.register rfl false)
  exact hregistered.start rfl (.dropStarting rfl)

/-- A signal reaches a process with one child. -/
theorem noneOutlives_runningChild : ∃ s, Reachable s ∧ s.exited = some .signal ∧ .spawned 0 ∈ s.log ∧ Alone s ∧ Settled s ∧
    NoneOutlives s := by
  have hwaits := reachable_runningChild.way rfl (.interrupt rfl)
  have hlocks := hwaits.way rfl (.lock rfl fun c => by cases c <;> rfl)
  have htakes := ((hlocks.way rfl (.busy rfl rfl)).way (w := .signal) rfl (.mark rfl)).way (w := .signal) rfl (.take rfl)
  have hexits := ((htakes.way (w := .signal) rfl (.leave rfl)).way (w := .signal) rfl (.run rfl)).way (w := .signal) rfl (.exit rfl)
  obtain ⟨s, hreach, hexited, hlog⟩ : ∃ s, Reachable s ∧ s.exited = some .signal ∧
      s.log = [.ran .signal 0, .took .signal, .registered 0, .spawned 0] := ⟨_, hexits, rfl, rfl⟩
  have halone : Alone s := by simp [Alone, hlog]
  have hsettled : Settled s := by
    intro after before hsplit
    have hmem : .took .closed ∈ s.log := by simp [hsplit]
    simp [hlog] at hmem
  exact ⟨s, hreach, hexited, by simp [hlog], halone, hsettled, noneOutlives s hreach halone hsettled⟩

/-- A child of which the one list of teardowns knows nothing. -/
theorem not_noneOutlives_of_log {rest : List Event} (hexited : s.exited = some w) (hlog : s.log = .took w :: rest)
    (hspawned : .spawned c ∈ rest) (hreaped : .reaped c ∉ rest) (hran : teardowns s c = 0) : ¬ NoneOutlives s := by
  intro h
  have hone := (h w hexited [] rest hlog).1 c hspawned hreaped
  omega

/-- A closed output between a spawn and its registration leaves the child running. So does a signal while a closed output
tears down: the handler finds an empty registry, and exits. -/
theorem child_outlives :
    (∃ s, Reachable s ∧ Alone s ∧ s.exited = some .closed ∧ s.log = [.took .closed, .spawned 0] ∧ ¬ NoneOutlives s) ∧
    (∃ s, Reachable s ∧ Settled s ∧ s.exited = some .signal ∧
      s.log = [.took .signal, .took .closed, .registered 0, .spawned 0] ∧ ¬ NoneOutlives s) := by
  constructor
  · have hlost : Reachable _ := reachable_spawnedChild.tail ⟨rfl, .loseReader⟩
    have htakes := ((hlost.way rfl (.notice rfl rfl rfl)).way (w := .closed) rfl (.mark rfl)).way (w := .closed) rfl (.take rfl)
    have hexits := (htakes.way (w := .closed) rfl (.leave rfl)).way (w := .closed) rfl (.exit rfl)
    refine ⟨_, hexits, ?_, rfl, rfl, not_noneOutlives_of_log rfl rfl (mem_singleton_self _) ?_ rfl⟩
    · rintro ⟨h, -⟩
      revert h
      decide
    · decide
  · have hlost : Reachable _ := reachable_runningChild.tail ⟨rfl, .loseReader⟩
    have htakes := ((hlost.way rfl (.notice rfl rfl rfl)).way (w := .closed) rfl (.mark rfl)).way (w := .closed) rfl (.take rfl)
    have hsignal := (htakes.way rfl (.interrupt rfl)).way rfl (.lock rfl fun c => by cases c <;> rfl)
    have hidle := (hsignal.way rfl (.idle rfl rfl)).way rfl (.notAbsorbed rfl rfl)
    have hagain := ((hidle.way (w := .signal) rfl (.mark rfl)).way (w := .signal) rfl (.take rfl)).way (w := .signal) rfl (.leave rfl)
    have hexits := hagain.way (w := .signal) rfl (.exit rfl)
    obtain ⟨s, hreach, hexited, hlog⟩ : ∃ s, Reachable s ∧ s.exited = some .signal ∧
        s.log = [.took .signal, .took .closed, .registered 0, .spawned 0] := ⟨_, hexits, rfl, rfl⟩
    refine ⟨s, hreach, ?_, hexited, hlog, not_noneOutlives_of_log (c := 0) hexited hlog (by simp) (by simp)
      (by simp [teardowns, hlog])⟩
    intro after before hsplit c hspawned
    have heq : [.took .signal] ++ .took .closed :: [.registered 0, .spawned 0] = after ++ .took .closed :: before := hlog.symm.trans hsplit
    have hafter : took .closed ∉ [took .signal] := by simp
    have hbefore : took .closed ∉ [registered 0, spawned 0] := by simp
    obtain ⟨-, -, rfl⟩ := (append_cons_inj_of_notMem hafter hbefore).1 heq
    simpa using hspawned

end Pipette.Subprocess
