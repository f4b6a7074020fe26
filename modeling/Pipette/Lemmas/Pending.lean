import Pipette.Results.Pending

/-!
# The protocol of the submits

A lock file is removed only once the result has moved, and a result that has moved never comes back; so while it is pending,
the holder of the one lock file there is the only process that posts, marks or moves (`Guar`). A process that finds the result
moved does nothing more to it.
-/

namespace Pipette.Results

open Threads Worker Function

variable {π : Type} {S : Text → Option (ResultDir π)} {payload : π} {t u : Tid} {s s' : Disk π}

/-- The result directory with its payload is under `pending/`, with the synced results as they were, or under one new name of
`synced/`. -/
def Stored (S : Text → Option (ResultDir π)) (payload : π) (s : Disk π) : Prop :=
  (∃ dir, s.pending = some dir ∧ dir.payload = payload ∧ s.synced = S) ∨ (s.pending = none ∧
      ∃ name dir, S name = none ∧ dir.payload = payload ∧ s.synced = update S name (some dir))

/-- The POSTs of the result that were accepted. -/
def Disk.accepted (s : Disk π) : Nat := s.posts.countP fun x => x.2.isAccepted

/-- The result is stored, a process whose accepted POST is not marked yet holds the lock of the lock file, and an accepted
POST leaves nothing for another to post. -/
structure Inv (S : Text → Option (ResultDir π)) (payload : π) (s : Disk π) : Prop where
  stored : Stored S payload s
  unmarked : ∀ t, s.unmarked t →
    ∃ lock dir, s.lockFile = some lock ∧ s.holder lock = some t ∧ s.pending = some dir ∧ dir.marker = none
  once : s.accepted = 0 ∨ s.accepted = 1 ∧
    (s.pending = none ∨ (∃ dir, s.pending = some dir ∧ dir.marker.isSome) ∨ ∃ t, s.unmarked t)

/-- What a step of process `t` leaves to the others. -/
structure Guar (t : Tid) (s s' : Disk π) : Prop where
  /-- It takes no lock from another. -/
  locks : ∀ lock u, u ≠ t → s.holder lock = some u → s'.holder lock = some u
  /-- While the result is pending the lock file stays. -/
  file : s.pending.isSome → ∀ lock, s.lockFile = some lock → s'.lockFile = some lock
  /-- A result that has moved stays, and is not posted again. -/
  gone : s.pending = none → s'.pending = none ∧ s'.synced = s.synced ∧ s'.posts = s.posts
  /-- While another holds the lock of the lock file the result directory stays as it is. -/
  quiet : ∀ lock u, u ≠ t → s.lockFile = some lock → s.holder lock = some u → s'.pending = s.pending
  unmarked : ∀ u, u ≠ t → s'.unmarked u = s.unmarked u

def protocol (S : Text → Option (ResultDir π)) (payload : π) : Protocol (Disk π) := ⟨Inv S payload, Guar⟩

theorem Guar.refl (t : Tid) (s : Disk π) : Guar t s s :=
  ⟨fun _ _ _ h => h, fun _ _ h => h, fun h => ⟨h, rfl, rfl⟩, fun _ _ _ _ _ => rfl, fun _ _ => rfl⟩

/-! ## What a process knows -/

/-- Every POST of this process that was accepted is marked. -/
def Settled (t : Tid) (s : Disk π) : Prop := s.unmarked t = false

/-- While the result is pending, this inode is that of the lock file. -/
def Opened (lock : Inode) (s : Disk π) : Prop := s.pending.isSome → s.lockFile = some lock

/-- The process has locked the inode it opened. -/
def Locked (t : Tid) (lock : Inode) (s : Disk π) : Prop := Opened lock s ∧ s.holder lock = some t

/-- The process holds the lock of the lock file, with the result pending as `dir`. -/
structure Works (t : Tid) (lock : Inode) (dir : ResultDir π) (s : Disk π) : Prop where
  file : s.lockFile = some lock
  holds : s.holder lock = some t
  pending : s.pending = some dir

def Moved (s : Disk π) : Prop := s.pending = none

theorem stable_unmarked {b : Bool} : (protocol S payload).Stable t fun s => s.unmarked t = b := by
  intro u s s' hu _ _ hguar h
  exact (hguar.unmarked t fun h => hu h.symm).trans h

theorem stable_settled : (protocol S payload).Stable t (Settled t) := stable_unmarked

theorem stable_opened (lock : Inode) : (protocol S payload).Stable t (Opened lock) := by
  intro u s s' _ _ _ hguar h hpending
  have hbefore : s.pending.isSome := by
    by_contra hnone
    rw [(hguar.gone (by simpa using hnone)).1] at hpending
    cases hpending
  exact hguar.file hbefore lock (h hbefore)

theorem stable_locked (lock : Inode) : (protocol S payload).Stable t (Locked t lock) := by
  intro u s s' hu hs hs' hguar h
  exact ⟨stable_opened lock u s s' hu hs hs' hguar h.1, hguar.locks lock t (fun h => hu h.symm) h.2⟩

theorem stable_works (lock : Inode) (dir : ResultDir π) : (protocol S payload).Stable t (Works t lock dir) := by
  intro u s s' hu _ _ hguar h
  have hpending : s'.pending = some dir := (hguar.quiet lock t (fun h => hu h.symm) h.file h.holds).trans h.pending
  exact ⟨hguar.file (by simp [h.pending]) lock h.file, hguar.locks lock t (fun h => hu h.symm) h.holds, hpending⟩

theorem stable_moved : (protocol S payload).Stable t (Moved (π := π)) := fun _ _ _ _ _ _ hguar h => (hguar.gone h).1

variable {lock : Inode} {dir : ResultDir π} {o : Op π}

/-- No other process holds the lock of the lock file. -/
theorem Works.alone {lock' : Inode} (h : Works t lock dir s) (hfile : s.lockFile = some lock')
    (hholder : s.holder lock' = some u) : u = t := by
  cases hfile.symm.trans h.file
  exact Option.some.inj (hholder.symm.trans h.holds)

/-- The holder of the lock is the only process whose accepted POST can be unmarked. -/
theorem Works.unmarked_eq (h : Works t lock dir s) (hinv : Inv S payload s) (hu : s.unmarked u) : u = t := by
  obtain ⟨_, _, hfile, hholder, -⟩ := hinv.unmarked u hu
  exact h.alone hfile hholder

/-! ## Steps -/

/-- A step keeps to the protocol. -/
def Ok (S : Text → Option (ResultDir π)) (payload : π) (t : Tid) (s s' : Disk π) : Prop := Inv S payload s' ∧ Guar t s s'

variable (hinv : Inv S payload s)
include hinv

/-- A step that changes no lock of another and no file but the lock file, once the result has moved. -/
theorem ok_locks {lockFile : Option Inode} {inodes : Nat} {holder : Inode → Option Tid}
    (hfile : s.pending.isSome → ∀ lock, s.lockFile = some lock → lockFile = some lock)
    (hholder : ∀ lock u, s.holder lock = some u → holder lock = some u ∨ u = t ∧ s.unmarked t = false) :
    Ok S payload t s { s with lockFile, inodes, holder } := by
  refine ⟨⟨hinv.stored, ?_, hinv.once⟩, ⟨?_, hfile, fun h => ⟨h, rfl, rfl⟩, fun _ _ _ _ _ => rfl, fun _ _ => rfl⟩⟩
  · intro u hu
    obtain ⟨lock, dir, hlock, hholds, hpending, hmarker⟩ := hinv.unmarked u hu
    refine ⟨lock, dir, hfile (by simp [hpending]) lock hlock, ?_, hpending, hmarker⟩
    refine (hholder lock u hholds).resolve_right ?_
    rintro ⟨rfl, hfalse⟩
    exact nomatch hfalse.symm.trans hu
  · intro lock u hne hholds
    exact (hholder lock u hholds).resolve_right fun h => hne h.1

theorem ok_exit : Ok S payload t s (exit t s) := by
  unfold exit
  split
  · exact ⟨hinv, Guar.refl t s⟩
  · next hsettled =>
    refine ok_locks hinv (fun _ _ h => h) ?_
    intro lock u hu
    by_cases hut : u = t
    · exact .inr ⟨hut, by simpa using hsettled⟩
    · left
      simp [hu, hut]

theorem ok_post (hworks : Works t lock dir s)
    (hmarker : dir.marker = none) (hsettled : Settled t s) (answer : Answer) :
    Ok S payload t s { s with
      posts := s.posts ++ [(t, answer)]
      unmarked := update s.unmarked t (s.unmarked t || answer.isAccepted) } := by
  have hnone : ∀ u, s.unmarked u = false := by
    intro u
    by_contra hu
    obtain rfl := hworks.unmarked_eq hinv (eq_true_of_ne_false hu)
    exact hu hsettled
  have hzero : s.accepted = 0 := by
    rcases hinv.once with h | ⟨-, h | ⟨dir', hdir', hsome⟩ | ⟨u, hu⟩⟩
    · exact h
    · simp [hworks.pending] at h
    · cases hworks.pending.symm.trans hdir'
      simp [hmarker] at hsome
    · simp [hnone u] at hu
  refine ⟨⟨hinv.stored, ?_, ?_⟩, ⟨fun _ _ _ h => h, fun _ _ h => h, ?_, fun _ _ _ _ _ => rfl, ?_⟩⟩
  · intro u hu
    by_cases hut : u = t
    · subst hut
      exact ⟨lock, dir, hworks.file, hworks.holds, hworks.pending, hmarker⟩
    · simp [update_of_ne hut, hnone u] at hu
  · unfold Disk.accepted at hzero ⊢
    rw [List.countP_append, hzero]
    cases hacc : answer.isAccepted with
    | false => left; simp [hacc]
    | true => right; exact ⟨by simp [hacc], .inr (.inr ⟨t, by simp⟩)⟩
  · intro h
    simp [hworks.pending] at h
  · intro u hut
    simp [update_of_ne hut]

/-- The holder of the lock changes the files of the result directory beside its payload. -/
theorem ok_write {dir' : ResultDir π} {unmarked : Tid → Bool}
    (hworks : Works t lock dir s) (hpayload : dir'.payload = dir.payload) (hothers : ∀ u, u ≠ t → unmarked u = s.unmarked u)
    (hmarker : unmarked t → dir'.marker = none) (hkept : dir.marker.isSome → dir'.marker.isSome)
    (hgained : s.unmarked t → unmarked t ∨ dir'.marker.isSome) :
    Ok S payload t s { s with pending := some dir', unmarked := unmarked } := by
  have hpending : s.pending ≠ none := by simp [hworks.pending]
  refine ⟨⟨?_, ?_, ?_⟩, ⟨fun _ _ _ h => h, fun _ _ h => h, fun h => absurd h hpending, ?_, hothers⟩⟩
  · rcases hinv.stored with ⟨d, hd, hpay, hsynced⟩ | ⟨hnone, -⟩
    · cases hworks.pending.symm.trans hd
      exact .inl ⟨dir', rfl, hpayload.trans hpay, hsynced⟩
    · exact absurd hnone hpending
  · intro u hu
    have hut : u = t := by
      by_contra hne
      exact hne (hworks.unmarked_eq hinv ((hothers u hne).symm.trans hu))
    subst hut
    exact ⟨lock, dir', hworks.file, hworks.holds, rfl, hmarker hu⟩
  · rcases hinv.once with h | ⟨hone, h⟩
    · exact .inl h
    refine .inr ⟨hone, .inr ?_⟩
    rcases h with h | ⟨d, hd, hsome⟩ | ⟨u, hu⟩
    · exact absurd h hpending
    · cases hworks.pending.symm.trans hd
      exact .inl ⟨dir', rfl, hkept hsome⟩
    obtain rfl := hworks.unmarked_eq hinv hu
    rcases hgained hu with h | h
    · exact .inr ⟨u, h⟩
    · exact .inl ⟨dir', rfl, h⟩
  · intro lock' u hu hfile hholder
    exact absurd (hworks.alone hfile hholder) hu

theorem ok_move (hworks : Works t lock dir s)
    (hmarked : dir.marker.isSome) {name : Text} (hname : s.synced name = none) :
    Ok S payload t s { s with pending := none, synced := update s.synced name (some dir) } := by
  have hpending : s.pending ≠ none := by simp [hworks.pending]
  refine ⟨⟨?_, ?_, ?_⟩, ⟨fun _ _ _ h => h, fun _ _ h => h, fun h => absurd h hpending, ?_, fun _ _ => rfl⟩⟩
  · rcases hinv.stored with ⟨d, hd, hpay, hsynced⟩ | ⟨hnone, -⟩
    · cases hworks.pending.symm.trans hd
      exact .inr ⟨rfl, name, dir, hsynced ▸ hname, hpay, by rw [hsynced]⟩
    · exact absurd hnone hpending
  · intro u hu
    obtain ⟨-, d, -, -, hd, hmarker⟩ := hinv.unmarked u hu
    cases hworks.pending.symm.trans hd
    simp [hmarker] at hmarked
  · rcases hinv.once with h | ⟨hone, -⟩
    · exact .inl h
    · exact .inr ⟨hone, .inl rfl⟩
  · intro lock' u hu hfile hholder
    exact absurd (hworks.alone hfile hholder) hu

omit hinv

/-! ## What a submit keeps to -/

section Specs

variable {answers : Answer → Bool}

/-- Where `A` holds, a program keeps to the protocol and returns with `Q`. -/
abbrev Spec (S : Text → Option (ResultDir π)) (payload : π) (answers : Answer → Bool) (t : Tid) {α : Type}
    (A : Disk π → Prop) (p : Act π α) (Q : α → Disk π → Prop) : Prop :=
  (protocol S payload).Triple (machine π true answers) t A p Q

/-- A step of the machine, where the server answers as `answers` says. -/
theorem spec_call {A : Disk π → Prop} {Q : Ans o → Disk π → Prop} (hA : (protocol S payload).Stable t A)
    (h : ∀ s answer, Inv S payload s → A s → (o.isPost → answers answer) →
      Ok S payload t s (act true t answer o s).2 ∧ Q (act true t answer o s).1 (act true t answer o s).2) :
    Spec S payload answers t A (call o) Q := by
  refine .call hA ?_
  rintro s r s' hinv ha ⟨answer, hanswer, hact⟩
  have hstep := h s answer hinv ha hanswer
  rw [hact] at hstep
  exact ⟨hstep.1.1, hstep.1.2, hstep.2⟩

theorem spec_createLock :
    Spec S payload answers t (Settled t) (call .createLock) fun lock s => Settled t s ∧ Opened lock s := by
  refine spec_call stable_settled ?_
  intro s answer hinv hsettled _
  simp only [act]
  cases hfile : s.lockFile with
  | some lock => exact ⟨⟨hinv, Guar.refl t s⟩, hsettled, fun _ => hfile⟩
  | none =>
    refine ⟨ok_locks hinv (fun _ lock h => ?_) fun _ _ h => .inl h, hsettled, fun _ => rfl⟩
    simp [hfile] at h

theorem spec_tryLock (lock : Inode) :
    Spec S payload answers t (fun s => Settled t s ∧ Opened lock s) (call (.tryLock lock)) fun r s =>
      r = .wouldBlock ∨ r = .taken ∧ Settled t s ∧ Locked t lock s := by
  refine spec_call (stable_settled.and (stable_opened lock)) ?_
  intro s answer hinv ⟨hsettled, hopened⟩ _
  simp only [act, Bool.not_true, Bool.false_eq_true, if_false]
  by_cases hfree : s.holder lock = none
  · simp only [hfree, if_true]
    refine ⟨ok_locks hinv (fun _ _ h => h) fun lock' u hu => .inl ?_, .inr ⟨trivial, hsettled, hopened, by simp⟩⟩
    have hne : lock' ≠ lock := by
      rintro rfl
      simp [hfree] at hu
    simp [update_of_ne hne, hu]
  · simp only [hfree, if_false]
    exact ⟨⟨hinv, Guar.refl t s⟩, .inl trivial⟩

/-- The process works on the result, and every POST it had accepted is marked. -/
def Working (t : Tid) (lock : Inode) (dir : ResultDir π) (s : Disk π) : Prop := Settled t s ∧ Works t lock dir s

theorem stable_working (lock : Inode) (dir : ResultDir π) : (protocol S payload).Stable t (Working t lock dir) :=
  stable_settled.and (stable_works lock dir)

theorem spec_removeLock :
    Spec S payload answers t (fun s => Settled t s ∧ Moved s) (call .removeLock) fun _ => Settled t := by
  refine spec_call (stable_settled.and stable_moved) ?_
  intro s answer hinv ⟨hsettled, hmoved⟩ _
  refine ⟨ok_locks hinv (fun hpending => ?_) fun _ _ h => .inl h, hsettled⟩
  rw [hmoved] at hpending
  cases hpending

theorem spec_close (lock : Inode) : Spec S payload answers t (Settled t) (call (.close lock)) fun _ => Settled t := by
  refine spec_call stable_settled ?_
  intro s answer hinv hsettled _
  refine ⟨ok_locks hinv (fun _ _ h => h) fun lock' u hu => ?_, hsettled⟩
  by_cases hut : u = t
  · exact .inr ⟨hut, hsettled⟩
  · left
    simp [hu, hut]

/-- The recheck under the lock: the result is there to work on, or has moved. -/
theorem spec_recheck (lock : Inode) :
    Spec S payload answers t (fun s => Settled t s ∧ Locked t lock s) (call .srcExists) fun r s =>
      match r with
      | true => ∃ dir, Working t lock dir s
      | false => Settled t s ∧ Moved s := by
  refine spec_call (stable_settled.and (stable_locked lock)) ?_
  intro s answer hinv ⟨hsettled, hlocked⟩ _
  refine ⟨⟨hinv, Guar.refl t s⟩, ?_⟩
  simp only [act]
  cases hpending : s.pending with
  | none => exact ⟨hsettled, hpending⟩
  | some dir => exact ⟨dir, hsettled, hlocked.1 (by simp [hpending]), hlocked.2, hpending⟩

/-- Reading a result directory that only this process writes. -/
theorem spec_read (r : Ans o) (h : ∀ s answer, s.pending = some dir → act true t answer o s = (r, s)) :
    Spec S payload answers t (Working t lock dir) (call o) fun r' s => r' = r ∧ Working t lock dir s := by
  refine spec_call (stable_working lock dir) ?_
  intro s answer hinv hworking _
  rw [h s answer hworking.2.pending]
  exact ⟨⟨hinv, Guar.refl t s⟩, rfl, hworking⟩

/-- A POST of a result without a marker: refused, or accepted and not marked yet. -/
theorem spec_post (hmarker : dir.marker = none) (body : π) :
    Spec S payload answers t (Working t lock dir) (call (.post body)) fun r s =>
      answers r ∧ s.unmarked t = r.isAccepted ∧ Works t lock dir s := by
  refine spec_call (stable_working lock dir) ?_
  intro s answer hinv ⟨hsettled, hworks⟩ hanswer
  refine ⟨ok_post hinv hworks hmarker hsettled answer, hanswer rfl, ?_, ⟨hworks.file, hworks.holds, hworks.pending⟩⟩
  have hfalse : s.unmarked t = false := hsettled
  simp [act, hfalse]

/-- The marker is written beside its place, and then put there. -/
theorem spec_writeTmp (hmarker : dir.marker = none) (jobId : Text) :
    Spec S payload answers t (fun s => s.unmarked t ∧ Works t lock dir s) (call (.writeTmp jobId)) fun r s =>
      r ∧ s.unmarked t ∧ Works t lock { dir with tmp := some jobId } s := by
  refine spec_call (stable_unmarked.and (stable_works lock dir)) ?_
  intro s answer hinv ⟨hunmarked, hworks⟩ _
  simp only [act, hworks.pending]
  refine ⟨?_, trivial, hunmarked, ⟨hworks.file, hworks.holds, rfl⟩⟩
  have hok : Ok S payload t s { s with pending := some { dir with tmp := some jobId }, unmarked := s.unmarked } :=
    ok_write hinv hworks rfl (fun _ _ => rfl) (fun _ => hmarker) (fun h => h) fun h => .inl h
  exact hok

theorem spec_renameTmp (jobId : Text) :
    Spec S payload answers t (fun s => s.unmarked t ∧ Works t lock { dir with tmp := some jobId } s) (call .renameTmp)
      fun r s => r ∧ Working t lock ⟨dir.payload, some jobId, none⟩ s := by
  refine spec_call (stable_unmarked.and (stable_works lock _)) ?_
  intro s answer hinv ⟨hunmarked, hworks⟩ _
  simp only [act, hworks.pending]
  refine ⟨?_, trivial, by simp [Settled], ⟨hworks.file, hworks.holds, rfl⟩⟩
  refine ok_write hinv hworks rfl (fun u hu => update_of_ne hu _ _) ?_ (fun _ => rfl) fun _ => .inr rfl
  intro h
  simp at h

/-- The holder of the lock moves a marked result, unless something stands at its new place. -/
theorem spec_rename (hmarked : dir.marker.isSome) (name : Text) :
    Spec S payload answers t (Working t lock dir) (call (.rename name)) fun r s => Settled t s ∧ (r → Moved s) := by
  refine spec_call (stable_working lock dir) ?_
  intro s answer hinv ⟨hsettled, hworks⟩ _
  simp only [act, hworks.pending]
  cases hname : s.synced name with
  | none => exact ⟨ok_move hinv hworks hmarked hname, hsettled, fun _ => rfl⟩
  | some _ => exact ⟨⟨hinv, Guar.refl t s⟩, hsettled, nofun⟩

variable (husable : ∀ answer, answers answer → answer.isAccepted →
  ∃ jobId, answer = .accepted (some jobId) ∧ (checkJobId jobId).isSome)

include husable

variable (preflight : π → Option π)

/-- Posting ends with the job id on record, or with nothing accepted. -/
theorem spec_postPending (hmarker : dir.marker = none) :
    Spec S payload answers t (Working t lock dir) (postPending preflight) fun r s =>
      Settled t s ∧ (r.isSome → ∃ dir, dir.marker.isSome ∧ Works t lock dir s) := by
  have hfail : ∀ {A : Disk π → Prop}, (∀ s, A s → Settled t s) → Spec S payload answers t A (pure none) fun r s =>
      Settled t s ∧ ((r : Option (Text × Text)).isSome → ∃ dir, dir.marker.isSome ∧ Works t lock dir s) :=
    fun hA => .pure fun s ha => ⟨hA s ha, nofun⟩
  refine .bind_eq (spec_read (some dir.payload) fun s answer h => by simp [act, h]) ?_
  simp only
  cases preflight dir.payload with
  | none => exact hfail fun s h => h.1
  | some body =>
    refine .bind (spec_post hmarker body) fun answer => .of_imp fun hanswer => ?_
    rcases answer with _ | jobId
    · exact hfail fun s h => h.1
    obtain ⟨jobId, hid, hchecked⟩ := husable _ hanswer rfl
    cases hid
    obtain ⟨name, hname⟩ := Option.isSome_iff_exists.1 hchecked
    simp only [checkedJobId, hname, Option.map_some]
    refine .bind_eq (spec_writeTmp hmarker jobId) ?_
    refine .bind_eq (spec_renameTmp jobId) ?_
    exact .pure fun s h => ⟨h.1, fun _ => ⟨_, rfl, h.2⟩⟩

theorem spec_recordedJobId (lock : Inode) (dir : ResultDir π) :
    Spec S payload answers t (Working t lock dir) (recordedJobId preflight) fun r s =>
      Settled t s ∧ (r.isSome → ∃ dir, dir.marker.isSome ∧ Works t lock dir s) := by
  refine .bind_eq (spec_read dir.marker.isSome fun s answer h => by simp [act, h]) ?_
  cases hmarker : dir.marker with
  | none => exact spec_postPending husable preflight hmarker
  | some text =>
    refine .bind_eq (spec_read (some text) fun s answer h => by simp [act, h, hmarker]) ?_
    exact .pure fun s h => ⟨h.1, fun _ => ⟨dir, by simp [hmarker], h.2⟩⟩

omit husable in
theorem spec_moveResultDir (lock : Inode) (dir : ResultDir π) (hmarked : dir.marker.isSome) (name : Text) :
    Spec S payload answers t (Working t lock dir) (moveResultDir name) fun r s => Settled t s ∧ (r → Moved s) := by
  refine .bind_eq (spec_read true fun s answer h => by simp [act, h]) ?_
  exact spec_rename hmarked name

/-- Under its lock a process leaves nothing it had accepted unmarked. -/
theorem spec_submitLocked (lock : Inode) :
    Spec S payload answers t (fun s => Settled t s ∧ Locked t lock s) (submitLocked preflight) fun _ => Settled t := by
  refine .bind (spec_recheck lock) fun found => ?_
  cases found with
  | false =>
    refine .bind spec_removeLock fun _ => ?_
    exact .pure fun _ h => h
  | true =>
    intro s hinv ⟨dir, hworking⟩
    refine (Protocol.Triple.bind (spec_recordedJobId husable preflight lock dir) fun recorded => ?_) s hinv hworking
    cases recorded with
    | none => exact .pure fun _ h => h.1
    | some checked =>
      rintro s hinv ⟨hsettled, hworks⟩
      obtain ⟨dir, hmarked, hworks⟩ := hworks rfl
      refine (Protocol.Triple.bind (spec_moveResultDir lock dir hmarked checked.2) fun moved => ?_) s hinv ⟨hsettled, hworks⟩
      cases moved with
      | false => exact .pure fun _ h => h.1
      | true =>
        refine .bind (spec_removeLock.pre fun _ h => ⟨h.1, h.2 rfl⟩) fun _ => ?_
        exact .pure fun _ h => h

theorem spec_submitPendingResult :
    Spec S payload answers t (Settled t) (submitPendingResult preflight) fun _ _ => True := by
  have hend : ∀ {A : Disk π → Prop} (outcome : Outcome), Spec S payload answers t A (pure outcome) fun _ _ => True :=
    fun _ => .pure fun _ _ => trivial
  refine .bind spec_createLock fun lock => .bind (spec_tryLock lock) fun answer => ?_
  cases answer with
  | wouldBlock => exact hend _
  | taken =>
    refine .bind ((spec_submitLocked husable preflight lock).pre fun s h => ?_) fun _ => ?_
    · exact (h.resolve_left nofun).2
    · exact .bind (spec_close lock) fun _ => hend _
  | unsupported => rintro s - (h | ⟨h, -⟩) <;> cases h

end Specs

end Pipette.Results
