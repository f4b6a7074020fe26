import Pipette.Benchmarks.Pull

/-!
# What the detail files hold

No file is locked; what lasts is that every body on disk is one a server sent, and that every record beside it was made from
an answer. The answers only grow in number, so what a process has read or been sent stays true whatever the others do.
-/

namespace Pipette.Benchmarks

open Threads List List.Subset Option Function Benchmarks

variable {ρ δ ν : Type} {F : Format ρ δ} {s s' : Disk ρ δ ν} {t : Tid}

/-! ## Records -/

theorem splitOnce_append {sep : Char} {a b : Text} (h : sep ∉ a) : splitOnce sep (a ++ sep :: b) = some (a, b) := by
  have hall : ∀ c ∈ a, decide (c ≠ sep) := by
    intro c hc
    exact decide_eq_true fun heq => h (heq ▸ hc)
  simp only [splitOnce, dropWhile_append_of_pos hall, takeWhile_append_of_pos hall]
  simp

theorem newline_notMem_textSha256 (text : Text) : '\n' ∉ textSha256 text := by
  intro h
  exact absurd (Sha256.hex_chars h) (by decide)

theorem tryNew_value (etag : EntityTag) : EntityTag.tryNew etag.value = some etag := by simp [EntityTag.tryNew, etag.valid]

/-- A record is honored only for a body with the digest of its own, and for its own tag. -/
theorem honored_recorded {body body' : Text} {tag tag' : EntityTag} (h : honored body (recorded body' tag) = some tag') :
    textSha256 body' = textSha256 body ∧ tag' = tag := by
  simp only [honored, recorded, splitOnce_append (newline_notMem_textSha256 body'), bind_some, tryNew_value] at h
  split at h
  · next heq => exact ⟨heq, (some.inj h).symm⟩
  · cases h

theorem sent_of_tryFrom {sent : ρ} {converted : ConvertedRemote F} (h : ConvertedRemote.tryFrom F sent = some converted) :
    converted.sent = sent := by
  unfold ConvertedRemote.tryFrom at h
  split at h
  · exact (some.inj h) ▸ rfl
  · cases h

/-! ## The protocol -/

/-- A server answered with this body and this tag. -/
def SentWith (F : Format ρ δ) (answers : List (ρ × Option EntityTag)) (body : Text) (etag : Option EntityTag) : Prop :=
  ∃ sent, (sent, etag) ∈ answers ∧ F.pretty sent = body

/-- The record was made of an answer. -/
def Recorded (F : Format ρ δ) (answers : List (ρ × Option EntityTag)) (record : Text) : Prop :=
  ∃ body tag, record = recorded body tag ∧ SentWith F answers body (some tag)

/-- What was read is of a body a server sent, and its tag came with a body of the same digest. -/
structure Genuine (F : Format ρ δ) (answers : List (ρ × Option EntityTag)) (read : Returned δ) : Prop where
  parsed : F.parse read.body = some read.definition
  sent : ∃ etag, SentWith F answers read.body etag
  tagged : ∀ tag, read.etag = some tag → ∃ body, textSha256 body = textSha256 read.body ∧ SentWith F answers body (some tag)

/-- What holds in every state. -/
structure Sound (F : Format ρ δ) (s : Disk ρ δ ν) : Prop where
  detail : ∀ id body, s.detail id = some body → ∃ etag, SentWith F s.answers body etag
  etag : ∀ id record, s.etag id = some record → Recorded F s.answers record
  returned : ∀ read ∈ s.returned, Genuine F s.answers read

/-- Every step keeps the answers there were. -/
def protocol (F : Format ρ δ) : Protocol (Disk ρ δ ν) where
  inv := Sound F
  guar _ s s' := s.answers ⊆ s'.answers

/-- What stays true as more answers come. -/
def Lasting (A : Disk ρ δ ν → Prop) : Prop := ∀ s s', s.answers ⊆ s'.answers → A s → A s'

theorem Lasting.stable {A : Disk ρ δ ν → Prop} (hA : Lasting A) : (protocol F).Stable t A :=
  fun _ s s' _ _ _ hguar => hA s s' hguar

theorem lasting_true : Lasting fun _ : Disk ρ δ ν => True := fun _ _ _ _ => trivial

theorem Lasting.and {A B : Disk ρ δ ν → Prop} (hA : Lasting A) (hB : Lasting B) : Lasting fun s => A s ∧ B s :=
  fun s s' h hs => ⟨hA s s' h hs.1, hB s s' h hs.2⟩

section Mono

variable {answers answers' : List (ρ × Option EntityTag)} (hsub : answers ⊆ answers')

include hsub

theorem SentWith.mono {body : Text} {etag : Option EntityTag} (h : SentWith F answers body etag) :
    SentWith F answers' body etag := by
  obtain ⟨sent, hmem, hbody⟩ := h
  exact ⟨sent, hsub hmem, hbody⟩

theorem Recorded.mono {record : Text} (h : Recorded F answers record) : Recorded F answers' record := by
  obtain ⟨body, tag, hrecord, hsent⟩ := h
  exact ⟨body, tag, hrecord, hsent.mono hsub⟩

theorem Genuine.mono {read : Returned δ} (h : Genuine F answers read) : Genuine F answers' read where
  parsed := h.parsed
  sent := h.sent.imp fun _ hsent => hsent.mono hsub
  tagged tag htag := (h.tagged tag htag).imp fun _ hbody => ⟨hbody.1, hbody.2.mono hsub⟩

end Mono

/-- More answers, and files that are the same or are removed, keep the store sound. -/
theorem Sound.mono (h : Sound F s) (hsub : s.answers ⊆ s'.answers) (hdetail : ∀ id body, s'.detail id = some body → s.detail id = some body)
    (hetag : ∀ id record, s'.etag id = some record → s.etag id = some record) (hreturned : s'.returned = s.returned) :
    Sound F s' where
  detail id body hbody := (h.detail id body (hdetail id body hbody)).imp fun _ hsent => hsent.mono hsub
  etag id record hrecord := (h.etag id record (hetag id record hrecord)).mono hsub
  returned read hread := (h.returned read (hreturned ▸ hread)).mono hsub

/-- What a process must know for an operation. -/
def Allowed (F : Format ρ δ) : Op ρ δ ν → Disk ρ δ ν → Prop
  | .writeDetail _ body, s => ∃ etag, SentWith F s.answers body etag
  | .writeEtag _ record, s => Recorded F s.answers record
  | .returned read, s => Genuine F s.answers read
  | _, _ => True

/-- What a process knows of the answer to an operation. -/
def Learned (F : Format ρ δ) : (o : Op ρ δ ν) → Ans o → Disk ρ δ ν → Prop
  | .readDetail _, r, s => ∀ body, r = some body → ∃ etag, SentWith F s.answers body etag
  | .readEtag _, r, s => ∀ record, r = some record → Recorded F s.answers record
  | .getBenchmark _ _ _, r, s => ∀ value etag, r = .ok (.modified value etag) → (value, etag) ∈ s.answers
  | _, _, _ => True

theorem lasting_learned (o : Op ρ δ ν) (r : Ans o) : Lasting (Learned F o r) := by
  intro s s' hsub h
  cases o with
  | readDetail id => exact fun body hr => (h body hr).imp fun _ hsent => hsent.mono hsub
  | readEtag id => exact fun record hr => (h record hr).mono hsub
  | getBenchmark server id ifNoneMatch => exact fun value etag hr => hsub (h value etag hr)
  | _ => trivial

variable {o : Op ρ δ ν}

/-- One operation keeps the store sound and the answers that were there. -/
theorem Sound.act (h : Sound F s) (ha : Allowed F o s) {c : Choice ρ ν} {r : Ans o}
    (hdo : act c o s = (r, s')) : Sound F s' ∧ s.answers ⊆ s'.answers ∧ Learned F o r s' := by
  cases o with
  | readDetail id =>
    cases hdo
    refine ⟨h, refl _, fun body hr => ?_⟩
    split at hr
    · cases hr
    · exact h.detail id body hr
  | readEtag id =>
    cases hdo
    refine ⟨h, refl _, fun record hr => ?_⟩
    split at hr
    · cases hr
    · exact h.etag id record hr
  | writeDetail id body =>
    simp only [act] at hdo
    split at hdo <;> cases hdo
    · exact ⟨h, refl _, trivial⟩
    refine ⟨⟨?_, h.etag, h.returned⟩, refl _, trivial⟩
    refine (forall_update_iff _ fun _ v => ∀ body, v = some body → ∃ etag, SentWith F s.answers body etag).2 ?_
    exact ⟨fun _ hbody => some.inj hbody ▸ ha, fun id' _ => h.detail id'⟩
  | writeEtag id record =>
    simp only [act] at hdo
    split at hdo <;> cases hdo
    · exact ⟨h, refl _, trivial⟩
    refine ⟨⟨h.detail, ?_, h.returned⟩, refl _, trivial⟩
    refine (forall_update_iff _ fun _ v => ∀ record, v = some record → Recorded F s.answers record).2 ?_
    exact ⟨fun _ hrecord => some.inj hrecord ▸ ha, fun id' _ => h.etag id'⟩
  | removeDetail id =>
    simp only [act] at hdo
    split at hdo <;> cases hdo
    · exact ⟨h, refl _, trivial⟩
    · refine ⟨h.mono (refl _) (fun id' body hbody => ?_) (fun _ _ h => h) rfl, refl _, trivial⟩
      by_cases hid : id' = id <;> simp_all [update]
  | removeEtag id =>
    simp only [act] at hdo
    split at hdo <;> cases hdo
    · exact ⟨h, refl _, trivial⟩
    · refine ⟨h.mono (refl _) (fun _ _ h => h) (fun id' record hrecord => ?_) rfl, refl _, trivial⟩
      by_cases hid : id' = id <;> simp_all [update]
  | getBenchmark server id ifNoneMatch =>
    simp only [act] at hdo
    split at hdo
    · cases hdo
      exact ⟨h, refl _, nofun⟩
    split at hdo <;> cases hdo
    · refine ⟨h.mono (subset_append_left _ _) (fun _ _ h => h) (fun _ _ h => h) rfl, subset_append_left _ _, ?_⟩
      rintro value etag ⟨⟩
      simp
    · exact ⟨h, refl _, nofun⟩
  | returned read =>
    cases hdo
    exact ⟨⟨h.detail, h.etag, forall_mem_append.2 ⟨h.returned, forall_mem_singleton.2 ha⟩⟩, refl _, trivial⟩
  | listBenchmarks server ifNoneMatch =>
    simp only [act] at hdo
    repeat' split at hdo
    all_goals
      cases hdo
      exact ⟨h.mono (refl _) (fun _ _ h => h) (fun _ _ h => h) rfl, refl _, trivial⟩
  | writeSync state | writeIndex rows | createDetailDir =>
    simp only [act] at hdo
    split at hdo <;> cases hdo <;>
      exact ⟨h.mono (refl _) (fun _ _ h => h) (fun _ _ h => h) rfl, refl _, trivial⟩
  | _ =>
    cases hdo
    exact ⟨h.mono (refl _) (fun _ _ h => h) (fun _ _ h => h) rfl, refl _, trivial⟩

/-! ## The programs keep to the protocol -/

variable {α β : Type} {A : Disk ρ δ ν → Prop} {p : Act ρ δ ν α}

theorem spec_call (hA : Lasting A) (o : Op ρ δ ν) (ha : ∀ s, A s → Allowed F o s) :
    (protocol F).Triple (machine ρ δ ν) t A (call o) fun r s => A s ∧ Learned F o r s := by
  refine .call hA.stable ?_
  rintro s r s' hs has ⟨c, hdo⟩
  obtain ⟨hsound, hsub, hlearned⟩ := Sound.act hs (ha s has) hdo
  exact ⟨hsound, hsub, hA s s' hsub has, hlearned⟩

/-- An operation that asks nothing of the process. -/
def Free : Op ρ δ ν → Bool
  | .writeDetail _ _ | .writeEtag _ _ | .returned _ => false
  | _ => true

theorem Free.allowed (h : Free o) (s : Disk ρ δ ν) : Allowed F o s := by cases o <;> trivial

/-- A program that any process can run at any time. -/
def Safe (F : Format ρ δ) (p : Act ρ δ ν α) : Prop :=
  ∀ t, (protocol F).Triple (machine ρ δ ν) t (fun _ => True) p fun _ _ => True

theorem Safe.bind {f : α → Act ρ δ ν β} (hp : Safe F p) (hf : ∀ a, Safe F (f a)) : Safe F (p >>= f) :=
  fun t => (hp t).bind fun a => hf a t

theorem safe_pure (a : α) : Safe F (pure a : Act ρ δ ν α) := fun _ => .pure fun _ _ => trivial

theorem safe_only (h : p.Only fun o => Free o) : Safe F p := by
  refine fun t => .only h lasting_true.stable ?_
  rintro o s r s' hfree hs - ⟨c, hdo⟩
  obtain ⟨hsound, hsub, -⟩ := Sound.act hs (Free.allowed hfree s) hdo
  exact ⟨hsound, hsub, trivial⟩

theorem safe_call (h : Free o) : Safe F (call o) := safe_only (.call h)

theorem safe_pruneRemoteDetails (keeping : List Text) : Safe F (pruneRemoteDetails keeping : Act ρ δ ν Bool) := by
  refine safe_only (only_pruneRemoteDetails ?_ ?_ ?_ ?_ keeping)
  all_goals intros; rfl

/-- A process caches only what a server sent it, each body with its own tag. -/
theorem spec_putRemote (remote : ConvertedRemote F) (etag : Option EntityTag) (hA : Lasting A)
    (hsent : ∀ s, A s → (remote.sent, etag) ∈ s.answers) :
    (protocol F).Triple (machine ρ δ ν) t A (putRemote F remote etag) fun _ => A := by
  have hfree : ∀ {o : Op ρ δ ν}, Free o → (protocol F).Triple (machine ρ δ ν) t A (call o) fun _ => A := fun ho =>
    (spec_call hA _ fun s _ => Free.allowed ho s).post fun _ _ h => h.1
  have hdone : ∀ b : Bool, (protocol F).Triple (machine ρ δ ν) t A (pure b) fun _ => A := fun _ => .pure fun _ h => h
  refine .bind (hfree rfl) fun etagGone => ?_
  split
  · refine .bind (hfree rfl) fun dirMade => ?_
    split
    · refine .bind ((spec_call hA _ ?_).post fun _ _ h => h.1) fun written => ?_
      · exact fun s hs => ⟨etag, remote.sent, hsent s hs, rfl⟩
      split
      · cases etag with
        | none => exact hdone _
        | some tag =>
          refine (spec_call hA _ ?_).post fun _ _ h => h.1
          exact fun s hs => ⟨F.pretty remote.sent, tag, rfl, remote.sent, hsent s hs, rfl⟩
      · exact hdone _
    · exact hdone _
  · exact hdone _

variable (server : ServerUrl) (id : Text)

/-- What a read of the cache returns is of a body a server sent, and its tag came with a body of the same digest. -/
theorem safe_getRemote : Safe F (getRemote F id : Act ρ δ ν _) := by
  refine (safe_call rfl).bind fun present => ?_
  split
  · intro t
    refine .bind (spec_call lasting_true (.readDetail id) fun _ _ => trivial) fun body => ?_
    split
    · exact .pure fun _ _ => trivial
    · next body =>
      split
      · exact .pure fun _ _ => trivial
      · next definition hparse =>
        have hlast := Lasting.and lasting_true (lasting_learned (F := F) (.readDetail id : Op ρ δ ν) (some body))
        refine .bind (spec_call hlast (.readEtag id) fun _ _ => trivial) fun record => ?_
        have hlast' := hlast.and (lasting_learned (F := F) (.readEtag id : Op ρ δ ν) record)
        refine .bind (spec_call hlast' (.returned ⟨id, body, definition, record.bind (honored body)⟩) ?_) fun _ => ?_
        · rintro s ⟨⟨-, hbody⟩, hrecord⟩
          refine ⟨hparse, hbody body rfl, ?_⟩
          intro tag htag
          obtain ⟨text, rfl, hhonored⟩ := bind_eq_some_iff.1 htag
          obtain ⟨body', tag', rfl, hsent⟩ := hrecord text rfl
          obtain ⟨hdigest, rfl⟩ := honored_recorded hhonored
          exact ⟨body', hdigest, hsent⟩
        · exact .pure fun _ _ => trivial
  · exact safe_pure _

theorem safe_cachedBenchmarkEtag : Safe F (cachedBenchmarkEtag F id : Act ρ δ ν _) := by
  unfold cachedBenchmarkEtag
  split
  · refine (safe_getRemote id).bind fun cached => ?_
    split <;> exact safe_pure _
  · exact safe_pure _

/-! ### Pulls -/

theorem safe_detailRequests (revalidate : Bool) (rows : List (BenchmarkSummary ν)) :
    Safe F (detailRequests F revalidate rows : Act ρ δ ν _) := by
  induction rows with
  | nil => exact safe_pure _
  | cons row rows ih =>
    cases revalidate with
    | true => exact (safe_cachedBenchmarkEtag _).bind fun _ => ih.bind fun _ => safe_pure _
    | false => exact (safe_pure _).bind fun _ => ih.bind fun _ => safe_pure _

variable (responses : List (BenchmarkDetailResponse ρ))

/-- What a process knows of the answers it fetched. -/
def Fetched (s : Disk ρ δ ν) : Prop :=
  ∀ r ∈ responses, ∀ value etag, r.response = some (.modified value etag) → (value, etag) ∈ s.answers

theorem lasting_fetched :
    Lasting (Fetched responses : Disk ρ δ ν → Prop) := fun _ _ hsub h r hr value etag heq => hsub (h r hr value etag heq)

theorem spec_fetchEach (requests : List BenchmarkDetailRequest) :
    (protocol F).Triple (machine ρ δ ν) t (fun _ => True) (fetchEach server requests) Fetched := by
  induction requests with
  | nil => exact .pure fun _ _ => nofun
  | cons request requests ih =>
    refine .bind (spec_call lasting_true (.getBenchmark server request.benchmarkId request.previousEtag) fun _ _ => trivial)
      fun response => ?_
    have hlast := lasting_learned (F := F) (.getBenchmark server request.benchmarkId request.previousEtag : Op ρ δ ν) response
    refine .bind (Q := fun responses s => Fetched responses s ∧ Learned F _ response s) ?_ fun responses => ?_
    · exact (ih.frame fun _ s s' => hlast s s').pre fun _ h => ⟨trivial, h.2⟩
    · refine .pure ?_
      rintro s ⟨hrest, hfirst⟩
      refine forall_mem_cons.2 ⟨fun value etag heq => ?_, hrest⟩
      cases response with
      | error e => cases heq
      | ok answer =>
        cases heq
        exact hfirst value etag rfl

theorem spec_cacheEach :
    (protocol F).Triple (machine ρ δ ν) t (Fetched responses) (cacheEach F responses) fun _ _ => True := by
  induction responses with
  | nil => exact .pure fun _ _ => trivial
  | cons response responses ih =>
    have hrest : ∀ s : Disk ρ δ ν, Fetched (response :: responses) s → Fetched responses s :=
      fun s h r hr => h r (mem_cons_of_mem _ hr)
    have hnext := ih.pre fun s => hrest s
    obtain ⟨id, _ | ⟨value, etag⟩ | _⟩ := response
    · exact hnext
    · simp only [cacheEach]
      split
      · next converted hconv =>
        have hsent : converted.sent = value := sent_of_tryFrom hconv
        have hput := spec_putRemote (t := t) converted etag (lasting_fetched (⟨id, some (.modified value etag)⟩ :: responses))
          fun (s : Disk ρ δ ν) h => hsent ▸ h _ mem_cons_self value etag rfl
        refine hput.bind fun cached => ?_
        split
        · exact hnext
        · exact .pure fun _ _ => trivial
      · exact hnext
    · exact hnext

theorem safe_pullRemoteBenchmarkDetails (rows : List (BenchmarkSummary ν)) (revalidate : Bool) :
    Safe F (pullRemoteBenchmarkDetails F server rows revalidate : Act ρ δ ν _) := by
  refine (safe_detailRequests revalidate rows).bind fun requests t => ?_
  refine .bind (Q := fun responses s => ∀ xs, responses = some xs → Fetched xs s) ?_ fun responses => ?_
  · refine (spec_fetchEach server requests).bind fun responses => ?_
    split
    · exact .pure fun _ _ => nofun
    · exact .pure fun s h xs heq => some.inj heq ▸ h
  · cases responses with
    | none => exact .pure fun _ _ => trivial
    | some xs => exact (spec_cacheEach xs).pre fun _ h => h xs rfl

theorem safe_pullRows (revalidate : Bool) (rows : List (BenchmarkSummary ν)) (etag : Option EntityTag) :
    Safe F (pullRows F server revalidate rows etag : Act ρ δ ν _) := by
  refine (safe_pullRemoteBenchmarkDetails server _ revalidate).bind fun pulled => ?_
  split
  · refine (safe_pruneRemoteDetails _).bind fun pruned => ?_
    split
    · refine (safe_only (only_putRemoteIndex (by rfl) (by rfl))).bind fun listed => ?_
      split
      · refine (safe_call rfl).bind fun clock => ?_
        split
        · exact safe_pure _
        · refine (safe_only (only_putSyncState (by rfl) (by rfl))).bind fun synced => ?_
          split <;> exact safe_pure _
      · exact safe_pure _
    · exact safe_pure _
  · exact safe_pure _

theorem safe_pullFrom (stored : Option RemoteSyncState) (cachedRows : List (BenchmarkSummary ν)) :
    Safe F (pullFrom F server stored cachedRows : Act ρ δ ν _) := by
  refine (safe_call rfl).bind fun answer => ?_
  split
  · exact safe_pure _
  · exact safe_pullRows server _ _ _
  · split
    · exact (safe_call rfl).bind fun _ => safe_pullRows server _ _ _
    · exact safe_pure _

theorem safe_pullRemoteBenchmarks : Safe F (pullRemoteBenchmarks F server : Act ρ δ ν _) := by
  refine (safe_only (only_getSyncState (by rfl) (by rfl))).bind fun stored => ?_
  split
  · exact safe_pure _
  refine (safe_only (only_listRemoteIndex (by rfl) (by rfl))).bind fun cachedRows => ?_
  split
  · exact safe_pure _
  · exact safe_pullFrom server _ _

/-! ### Claims and whole processes -/

theorem spec_cacheClaimed (remote : ρ) (etag : Option EntityTag) :
    (protocol F).Triple (machine ρ δ ν) t (fun s => (remote, etag) ∈ s.answers) (cacheClaimed F remote etag) fun _ _ => True := by
  unfold cacheClaimed
  split
  · exact .pure fun _ _ => trivial
  · next converted hconv =>
    obtain rfl := sent_of_tryFrom hconv
    exact (spec_putRemote converted etag (fun _ _ h hx => h hx) fun _ h => h).bind fun _ =>
      .pure fun _ _ => trivial

theorem safe_ensureClaimBenchmarkCached : Safe F (ensureClaimBenchmarkCached F server id : Act ρ δ ν _) := by
  unfold ensureClaimBenchmarkCached
  split
  · refine (safe_getRemote id).bind fun cached t => ?_
    refine .bind (spec_call lasting_true (.getBenchmark server id _) fun _ _ => trivial) fun fetched => ?_
    split
    · exact (spec_cacheClaimed _ _).pre fun _ h => h.2 _ _ rfl
    all_goals try split
    all_goals exact .pure fun _ _ => trivial
  · exact safe_pure _

theorem safe_task (task : Task) : Safe F (task.run F : Act ρ δ ν _) := by
  cases task with
  | pull server => exact (safe_pullRemoteBenchmarks server).bind fun _ => safe_pure _
  | claim server id => exact (safe_ensureClaimBenchmarkCached server id).bind fun _ => safe_pure _
  | prune keeping => exact (safe_pruneRemoteDetails keeping).bind fun _ => safe_pure _
  | lookup id => exact (safe_getRemote id).bind fun _ => safe_pure _

theorem safe_work (tasks : List Task) : Safe F (work F tasks : Act ρ δ ν _) := by
  induction tasks with
  | nil => exact safe_pure _
  | cons task tasks ih => exact (safe_task task).bind fun _ => ih

end Pipette.Benchmarks
