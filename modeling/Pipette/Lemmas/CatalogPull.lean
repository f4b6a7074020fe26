import Pipette.Benchmarks.Pull

/-!
# What a pull leaves of the list and its sync state

A pull writes the list before the sync state that names its server and tag, so one cut short in between leaves a list that the
sync state says nothing about. What every pull keeps is that the tag in the sync state came with the list `full`; whether the
list on disk is that one is `Settled`.
-/

namespace Pipette.Benchmarks

open Threads Option

variable {ρ δ ν : Type} {F : Format ρ δ} {s s' s₀ : Disk ρ δ ν}

/-! ## The details leave the bookkeeping alone -/

/-- An operation that does not touch the sync state, ask for a list or note that one was taken. -/
def Unlisted : Op ρ δ ν → Bool
  | .writeSync _ | .listBenchmarks _ _ | .took _ => false
  | _ => true

/-- The sync state, and what is on record of the lists, are the same. -/
structure SameBooks (s s' : Disk ρ δ ν) : Prop where
  sync : s'.sync = s.sync
  served : s'.served = s.served
  taken : s'.taken = s.taken
  answered : s'.answered = s.answered
  full : s'.full = s.full

variable {o : Op ρ δ ν} {c : Choice ρ ν} {server : ServerUrl} {etag : Option EntityTag} {tag : EntityTag}

theorem Unlisted.sameBooks (ho : Unlisted o) {r : Ans o} (hdo : act c o s = (r, s')) : SameBooks s s' := by
  cases o with
  | writeSync state | listBenchmarks server ifNoneMatch | took list => cases ho
  | writeIndex rows | createDetailDir | writeDetail id body | removeDetail id | writeEtag id record | removeEtag id =>
    simp only [act] at hdo
    split at hdo <;> cases hdo <;> exact ⟨rfl, rfl, rfl, rfl, rfl⟩
  | getBenchmark server id ifNoneMatch =>
    simp only [act] at hdo
    repeat' split at hdo
    all_goals
      cases hdo
      exact ⟨rfl, rfl, rfl, rfl, rfl⟩
  | _ =>
    cases hdo
    exact ⟨rfl, rfl, rfl, rfl, rfl⟩

theorem unlisted_putRemote (remote : ConvertedRemote F) (etag : Option EntityTag) :
    (putRemote F remote etag : Act ρ δ ν Bool).Only fun o => Unlisted o := by
  refine .bind (.call rfl) fun etagGone => ?_
  split
  · refine .bind (.call rfl) fun dirMade => ?_
    split
    · refine .bind (.call rfl) fun written => ?_
      split
      · cases etag with
        | none => exact .pure _
        | some etag => exact .call rfl
      · exact .pure _
    · exact .pure _
  · exact .pure _

theorem unlisted_cachedBenchmarkEtag (id : Text) :
    (cachedBenchmarkEtag F id : Act ρ δ ν (Option EntityTag)).Only fun o => Unlisted o := by
  have hget : (getRemote F id : Act ρ δ ν _).Only fun o => Unlisted o := by
    refine .bind (.call rfl) fun present => ?_
    split
    · refine .bind (.call rfl) fun body => ?_
      split
      · exact .pure _
      · split
        · exact .pure _
        · exact .bind (.call rfl) fun record => .bind (.call rfl) fun _ => .pure _
    · exact .pure _
  unfold cachedBenchmarkEtag
  split
  · refine .bind hget fun cached => ?_
    split <;> exact .pure _
  · exact .pure _

theorem unlisted_detailRequests (revalidate : Bool) (rows : List (BenchmarkSummary ν)) :
    (detailRequests F revalidate rows : Act ρ δ ν _).Only fun o => Unlisted o := by
  induction rows with
  | nil => exact .pure _
  | cons row rows ih =>
    cases revalidate with
    | true => exact .bind (unlisted_cachedBenchmarkEtag _) fun _ => .bind ih fun _ => .pure _
    | false => exact .bind (.pure _) fun _ => .bind ih fun _ => .pure _

theorem unlisted_fetchEach (server : ServerUrl) (requests : List BenchmarkDetailRequest) :
    (fetchEach server requests : Act ρ δ ν _).Only fun o => Unlisted o := by
  induction requests with
  | nil => exact .pure _
  | cons request requests ih => exact .bind (.call rfl) fun _ => .bind ih fun _ => .pure _

theorem unlisted_cacheEach (responses : List (BenchmarkDetailResponse ρ)) :
    (cacheEach F responses : Act ρ δ ν Bool).Only fun o => Unlisted o := by
  induction responses with
  | nil => exact .pure _
  | cons response responses ih =>
    obtain ⟨id, _ | ⟨value, etag⟩ | _⟩ := response
    · exact ih
    · simp only [cacheEach]
      split
      · refine .bind (unlisted_putRemote _ etag) fun cached => ?_
        split
        · exact ih
        · exact .pure _
      · exact ih
    · exact ih

theorem unlisted_pullRemoteBenchmarkDetails (server : ServerUrl) (rows : List (BenchmarkSummary ν)) (revalidate : Bool) :
    (pullRemoteBenchmarkDetails F server rows revalidate : Act ρ δ ν Bool).Only fun o => Unlisted o := by
  refine .bind (unlisted_detailRequests revalidate rows) fun requests => .bind ?_ fun responses => ?_
  · refine .bind (unlisted_fetchEach server requests) fun responses => ?_
    split <;> exact .pure _
  · split
    · exact .pure _
    · exact unlisted_cacheEach _

/-! ## What every pull keeps -/

/-- The sync state names this server and this tag. -/
def Names (s : Disk ρ δ ν) (server : ServerUrl) (tag : EntityTag) : Prop :=
  ∃ state, s.sync = some state ∧ state.serverUrl = some server ∧ state.benchmarksEtag = some tag

/-- The list `full` came from the server that the sync state names, with the tag it names. -/
def Paired (s : Disk ρ δ ν) : Prop := ∀ server tag, Names s server tag → ⟨server, s.full, some tag⟩ ∈ s.served

/-- If the sync state names a tag, the list on disk is the one that came with it. -/
def Settled (s : Disk ρ δ ν) : Prop := ∀ server tag, Names s server tag → s.index.getD [] = s.full

/-- The list was served, with the tag it is taken for. -/
def Validated (s : Disk ρ δ ν) (list : Served ν) : Prop := list.etag ≠ none ∧ list ∈ s.served

/-- What a pull from `s₀` keeps throughout: what it took it took rightly, if it began with a settled store. -/
structure Kept (s₀ s : Disk ρ δ ν) : Prop where
  paired : Paired s
  taken : ∃ new, s.taken = s₀.taken ++ new ∧ (Settled s₀ → ∀ list ∈ new, Validated s list)

/-- Where the sync state is written next, the tag in it came with the list that is then `full`. -/
def Due (server : ServerUrl) (etag : Option EntityTag) (s : Disk ρ δ ν) : Prop :=
  ∀ tag, etag = some tag → ⟨server, s.answered.getD s.full, some tag⟩ ∈ s.served

theorem SameBooks.kept (h : SameBooks s s') (hs : Kept s₀ s) : Kept s₀ s' := by
  obtain ⟨hpaired, new, htaken, hvalid⟩ := hs
  refine ⟨?_, new, h.taken.trans htaken, ?_⟩
  · intro server tag hnames
    rw [h.full, h.served]
    refine hpaired server tag ?_
    rwa [Names, h.sync] at hnames
  · intro hsettled list hlist
    rw [Validated, h.served]
    exact hvalid hsettled list hlist

theorem SameBooks.due (h : SameBooks s s') (hs : Due server etag s) : Due server etag s' := by
  rw [Due, h.answered, h.full, h.served]
  exact hs

theorem kept_writeSync {pulledAt : Text} {count : Nat} {r : Bool}
    (hs : Kept s₀ s) (hdue : Due server etag s) (hdo : act c (.writeSync ⟨pulledAt, count, some server, etag⟩) s = (r, s')) :
    Kept s₀ s' := by
  simp only [act] at hdo
  split at hdo <;> cases hdo
  · exact hs
  refine ⟨?_, hs.taken⟩
  rintro server' tag ⟨state, hstate, hserver, htag⟩
  cases hstate
  cases hserver
  exact hdue tag htag

theorem keeps_unlisted {α : Type} {p : Act ρ δ ν α} (hp : p.Only fun o => Unlisted o) (server : ServerUrl)
    (etag : Option EntityTag) : SafeTriple (machine ρ δ ν) 0 (Kept s₀) (Due server etag) p fun _ => Due server etag := by
  refine .only hp ?_
  rintro o s r s' ho hkept hdue ⟨c, hdo⟩
  have hsame := Unlisted.sameBooks ho hdo
  exact ⟨hsame.kept hkept, hsame.due hdue⟩

theorem keeps_pullRows (server : ServerUrl) (revalidate : Bool) (rows : List (BenchmarkSummary ν)) (etag : Option EntityTag) :
    SafeTriple (machine ρ δ ν) 0 (Kept s₀) (Due server etag) (pullRows F server revalidate rows etag) fun _ _ => True := by
  refine .bind (keeps_unlisted (unlisted_pullRemoteBenchmarkDetails server _ revalidate) server etag) fun pulled => ?_
  split
  · refine .bind (keeps_unlisted (only_pruneRemoteDetails (by rfl) (by rfl) (by intro; rfl) (by intro; rfl) _) server etag)
      fun pruned => ?_
    split
    · refine .bind (keeps_unlisted (only_putRemoteIndex (by rfl) (by rfl)) server etag) fun listed => ?_
      split
      · refine .bind (keeps_unlisted (.call (by rfl)) server etag) fun clock => ?_
        split
        · exact .pure fun _ _ => trivial
        refine .bind (Q := fun _ _ => True) ?_ fun synced => ?_
        · refine .bind (keeps_unlisted (.call (by rfl)) server etag) fun made => ?_
          split
          · refine .call ?_
            rintro s r s' hkept hdue ⟨c, hdo⟩
            exact ⟨kept_writeSync hkept hdue hdo, trivial⟩
          · exact .pure fun _ _ => trivial
        · split <;> exact .pure fun _ _ => trivial
      · exact .pure fun _ _ => trivial
    · exact .pure fun _ _ => trivial
  · exact .pure fun _ _ => trivial

/-! ## The start of a pull -/

theorem kept_self (hs : Paired s) : Kept s s := ⟨hs, [], by simp, nofun⟩

/-- An operation that is only answered. -/
theorem reads_call {Q : Ans o → Prop} (hread : ∀ c r s', act c o s₀ = (r, s') → s' = s₀ ∧ Q r) {A : Disk ρ δ ν → Prop}
    (hA : ∀ s, A s → s = s₀) :
    SafeTriple (machine ρ δ ν) 0 (Kept s₀) A (call o) fun r s => s = s₀ ∧ Q r := by
  refine .call ?_
  rintro s r s' hkept ha ⟨c, hdo⟩
  obtain rfl := hA s ha
  obtain ⟨rfl, hq⟩ := hread c r s' hdo
  exact ⟨hkept, rfl, hq⟩

theorem keeps_getSyncState (s₀ : Disk ρ δ ν) : SafeTriple (machine ρ δ ν) 0 (Kept s₀) (fun s => s = s₀) getSyncState
      fun r s => s = s₀ ∧ ∀ stored, r = some stored → stored = s₀.sync := by
  refine .bind (reads_call (Q := fun r => r = s₀.sync.isSome) ?_ fun _ h => h) fun present => ?_
  · rintro c r s' ⟨⟩
    exact ⟨rfl, rfl⟩
  · split
    · refine .bind (reads_call (Q := fun r => ∀ state, r = some state → s₀.sync = some state) ?_ fun _ h => h.1) fun read => ?_
      · rintro c r s' ⟨⟩
        refine ⟨rfl, fun state hread => ?_⟩
        split at hread
        · cases hread
        · exact hread
      · refine .pure fun s ⟨hs, hread⟩ => ⟨hs, fun stored hstored => ?_⟩
        obtain ⟨state, rfl, rfl⟩ := map_eq_some_iff.1 hstored
        exact (hread state rfl).symm
    · next habsent =>
      refine .pure fun s ⟨hs, hpresent⟩ => ⟨hs, fun stored hstored => ?_⟩
      subst hpresent
      cases hstored
      exact (not_isSome_iff_eq_none.1 habsent).symm

theorem keeps_listRemoteIndex (s₀ : Disk ρ δ ν) : SafeTriple (machine ρ δ ν) 0 (Kept s₀) (fun s => s = s₀) listRemoteIndex
      fun r s => s = s₀ ∧ ∀ rows, r = some rows → rows = s₀.index.getD [] := by
  refine .bind (reads_call (Q := fun r => r = s₀.index.isSome) ?_ fun _ h => h) fun present => ?_
  · rintro c r s' ⟨⟩
    exact ⟨rfl, rfl⟩
  · split
    · refine reads_call ?_ fun _ h => h.1
      rintro c r s' ⟨⟩
      refine ⟨rfl, fun rows hread => ?_⟩
      split at hread
      · cases hread
      · simp [hread]
    · next habsent =>
      refine .pure fun s ⟨hs, hpresent⟩ => ⟨hs, fun rows hrows => ?_⟩
      subst hpresent
      cases hrows
      simp [not_isSome_iff_eq_none.1 habsent]

/-- A server that sends a list has served it; with a `304` it says that the tag sent is that of its list. -/
theorem act_listBenchmarks {sent : Option EntityTag}
    {r : Except ApiError (Conditional (List (BenchmarkSummary ν)))} (hdo : act c (.listBenchmarks server sent) s = (r, s')) :
    (∃ e, r = .error e ∧ s' = s) ∨
    (∃ rows etag, r = .ok (.modified rows etag) ∧
      s' = { s with served := s.served ++ [⟨server, rows, etag⟩], answered := some rows }) ∨
    ∃ tag etag, r = .ok (.notModified etag) ∧ sent = some tag ∧ (etag = none ∨ etag = some tag) ∧
      s' = { s with answered := none } := by
  simp only [act] at hdo
  split at hdo
  · cases hdo
    exact .inl ⟨_, rfl, rfl⟩
  split at hdo
  · next h304 =>
    cases hdo
    obtain ⟨-, hsome, htag⟩ := h304
    obtain ⟨tag, rfl⟩ := ne_none_iff_exists'.1 hsome
    refine .inr (.inr ⟨tag, _, rfl, rfl, ?_, rfl⟩)
    rw [← htag]
    split
    · exact .inr rfl
    · exact .inl rfl
  · cases hdo
    exact .inr (.inl ⟨_, _, rfl, rfl⟩)

/-- A tag that a pull sends is the one the sync state names, for the server it is sent to. -/
theorem names_of_previous {cached : Bool}
    (h : previousBenchmarksEtag cached (s.sync.filter fun state => state.serverUrl = some server) = some tag) :
    cached ∧ Names s server tag := by
  unfold previousBenchmarksEtag at h
  split at h
  · next hcached =>
    obtain ⟨state, hstate, htag⟩ := bind_eq_some_iff.1 h
    obtain ⟨hsync, hserver⟩ := filter_eq_some_iff.1 hstate
    exact ⟨hcached, state, hsync, of_decide_eq_true hserver, htag⟩
  · cases h

theorem kept_served {rows : List (BenchmarkSummary ν)} (hs : Paired s) :
    Kept s { s with served := s.served ++ [⟨server, rows, etag⟩], answered := some rows } :=
  ⟨fun server' tag hnames => List.mem_append_left _ (hs server' tag hnames), [], by simp, nofun⟩

theorem kept_took (hs : Paired s) (hnames : Names s server tag) :
    Kept s { s with answered := none, taken := s.taken ++ [⟨server, s.index.getD [], some tag⟩] } := by
  refine ⟨hs, _, rfl, ?_⟩
  intro hsettled list hlist
  obtain rfl := List.mem_singleton.1 hlist
  refine ⟨nofun, ?_⟩
  rw [hsettled server tag hnames]
  exact hs server tag hnames

/-- What the answer to the list request leaves. -/
def Asked (server : ServerUrl) (sent : Option EntityTag) (s₀ : Disk ρ δ ν) :
    Except ApiError (Conditional (List (BenchmarkSummary ν))) → Disk ρ δ ν → Prop
  | .error _, _ => True
  | .ok (.modified _ etag), s => Due server etag s
  | .ok (.notModified etag), s => s = { s₀ with answered := none } ∧ ∃ tag, sent = some tag ∧ (etag = none ∨ etag = some tag)

theorem keeps_listBenchmarks (hs : Paired s₀) (server : ServerUrl) (sent : Option EntityTag) :
    SafeTriple (machine ρ δ ν) 0 (Kept s₀) (fun s => s = s₀) (call (.listBenchmarks server sent)) (Asked server sent s₀) := by
  refine .call ?_
  rintro s r s' hkept rfl ⟨c, hdo⟩
  rcases act_listBenchmarks hdo with ⟨e, rfl, rfl⟩ | ⟨rows, etag, rfl, rfl⟩ | ⟨tag, etag, rfl, hsent, hetag, rfl⟩
  · exact ⟨hkept, trivial⟩
  · refine ⟨kept_served hs, ?_⟩
    rintro tag rfl
    exact List.mem_append_right _ (List.mem_singleton_self _)
  · exact ⟨⟨hs, hkept.taken⟩, rfl, tag, hsent, hetag⟩

theorem keeps_pullFrom (s₀ : Disk ρ δ ν) (hs : Paired s₀) (server : ServerUrl) :
    SafeTriple (machine ρ δ ν) 0 (Kept s₀) (fun s => s = s₀) (pullFrom F server s₀.sync (s₀.index.getD [])) fun _ _ => True := by
  refine .bind (keeps_listBenchmarks hs server _) fun answer => ?_
  obtain e | ⟨rows, etag⟩ | etag := answer
  · exact .pure fun _ _ => trivial
  · exact keeps_pullRows server _ rows etag
  dsimp only
  split
  · -- The tag that was sent, and so the one that goes into the sync state, is the one the sync state names.
    refine .bind (.call ?_) fun _ => keeps_pullRows server _ _ _
    rintro s r s' - ⟨rfl, tag, hsent, hetag⟩ ⟨c, hdo⟩
    cases hdo
    have hnames : Names s₀ server tag := (names_of_previous hsent).2
    rw [hsent]
    refine ⟨kept_took hs hnames, ?_⟩
    intro tag' htag'
    obtain rfl : tag = tag' := by rcases hetag with rfl | rfl <;> simpa using htag'
    exact hs server tag hnames
  · exact .pure fun _ _ => trivial

/-- Wherever a pull ends, the tag in the sync state came with `full`; and what it took it took rightly, if the list on disk
was `full` when it began. -/
theorem keeps_pullRemoteBenchmarks (s₀ : Disk ρ δ ν) (hs : Paired s₀) (server : ServerUrl) :
    SafeTriple (machine ρ δ ν) 0 (Kept s₀) (fun s => s = s₀) (pullRemoteBenchmarks F server) fun _ _ => True := by
  refine .bind (keeps_getSyncState s₀) fun stored => ?_
  cases stored with
  | none => exact .pure fun _ _ => trivial
  | some stored =>
    refine .of_imp fun hstored => ?_
    obtain rfl := hstored stored rfl
    refine .bind (keeps_listRemoteIndex s₀) fun cachedRows => ?_
    cases cachedRows with
    | none => exact .pure fun _ _ => trivial
    | some rows =>
      refine .of_imp fun hrows => ?_
      obtain rfl := hrows rows rfl
      exact keeps_pullFrom s₀ hs server

end Pipette.Benchmarks
