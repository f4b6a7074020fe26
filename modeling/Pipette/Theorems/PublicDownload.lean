import Pipette.Lemmas.Resume
import Pipette.Download.Public

/-!
# Public downloads are whole

An unpinned public file has nothing but its length to be checked by, and a joined file only where its size is known. `Origin`
is an object as a server serves it: its versions, and the version each strong `ETag` stands for. A fetch that succeeds leaves
one whole version as long as no answer stops short without saying so (`EndsWithObject`). Without that the file is accepted
short (`short_file_accepted`).
-/

namespace Pipette.Download

open Retry List

/-- An object: its versions over time, and the version a strong `ETag` stands for. -/
structure Origin where
  IsVersion : Bytes → Prop
  tagged : Text → Bytes

/-- The body yields exactly these bytes, or a first part of them and then a read error. -/
structure Body.Yields (body : Body) (bytes : Bytes) : Prop where
  first : readsData body.reads <+: bytes
  whole : readsBreak body.reads = false → readsData body.reads = bytes

/-- The bytes of `v` that a range names. -/
def namedBytes (range : ContentRange) (v : Bytes) : Bytes := (v.drop range.first).take (range.last + 1 - range.first)

/-- A `206` of version `v` yields the bytes its range names, and the size in the range is true or unknown. -/
structure Body.IsPartOf (body : Body) (v : Bytes) (range : ContentRange) : Prop where
  status : body.status = 206
  named : body.contentRange = some range
  inside : range.last < v.length
  total : ∀ n, range.total = some n → n = v.length
  yields : body.Yields (namedBytes range v)
  length : ∀ n, body.contentLength = some n → n = range.last + 1 - range.first

/-- A `200` of version `v`: it yields the whole version. -/
structure Body.IsWhole (body : Body) (v : Bytes) : Prop where
  status : body.status = 200
  yields : body.Yields v
  length : ∀ n, body.contentLength = some n → n = v.length

/-- A `200` with all of version `v` or a `206` with the part it names, under a tag that stands for `v` if it carries a strong
one. -/
structure Origin.Serves (o : Origin) (v : Bytes) (body : Body) : Prop where
  version : o.IsVersion v
  tag : ∀ t, body.strongEtag = some t → v = o.tagged t
  answer : body.IsWhole v ∨ ∃ range, body.IsPartOf v range

/-- A request for the whole object is answered with all of `v`; a range that continues a file of unknown size and names no
size ends where `v` ends. -/
def EndsWithObject (point : Option ResumePoint) (v : Bytes) (body : Body) : Prop :=
  match point with
  | none => ∀ range, body.IsPartOf v range → range.first = 0 ∧ range.last + 1 = v.length
  | some p =>
    p.continuedBy body → p.total = none → ∀ range, body.IsPartOf v range → range.total = none → range.last + 1 = v.length

/-! ## The files of an attempt -/

/-- A kept file is the beginning of the version its tag stands for, and its expected size, if known, is that version's. -/
def BeginsVersion (o : Origin) (file : Part) : Prop :=
  ∀ t, file.expect.etag = some t →
    o.IsVersion (o.tagged t) ∧ file.writer.hashed <+: o.tagged t ∧ ∀ n, file.expect.total = some n → n = (o.tagged t).length

/-- A file whose last body ended: a whole version if from one response, else whole as far as its size is unknown. -/
structure EndsVersion (o : Origin) (file : Part) : Prop where
  begins : BeginsVersion o file
  single : file.resumedAt = none → o.IsVersion file.writer.hashed
  joined : ∀ offset, file.resumedAt = some offset →
    ∃ t, file.expect.etag = some t ∧ (file.expect.total = none → file.writer.hashed = o.tagged t)

variable {o : Origin} {v : Bytes} {point : Option ResumePoint} {body : Body} {range : ContentRange} {hw : HashingWriter}
  {file : Part}

/-- A body that starts the file yields a beginning of the version it is of, and announces no other size. -/
theorem fresh_begins (hserves : o.Serves v body)
    (hends : EndsWithObject point v body) (hpoint : point = none ∨ body.status = 200) :
    body.Yields v ∧ ∀ n, body.contentLength = some n → n = v.length := by
  rcases hserves.answer with hwhole | ⟨range, hpart⟩
  · exact ⟨hwhole.yields, hwhole.length⟩
  obtain rfl | h200 := hpoint
  · obtain ⟨hfirst, hlast⟩ := hends range hpart
    have hslice : namedBytes range v = v := by simp [namedBytes, hfirst, hlast]
    refine ⟨hslice ▸ hpart.yields, fun n hn => ?_⟩
    have := hpart.length n hn
    omega
  · have := hpart.status
    omega

/-- A range that continues a beginning of `v` at its end names bytes of `v` that follow it. -/
theorem append_namedBytes {begun : Bytes} (got : Bytes) (hpre : begun <+: v)
    (hfirst : range.first = begun.length) (hle : range.first ≤ range.last) :
    (got <+: namedBytes range v → begun ++ got <+: v) ∧ (begun ++ namedBytes range v = v.take (range.last + 1)) := by
  have htake : begun = v.take range.first := by
    rw [hfirst]
    exact prefix_iff_eq_take.1 hpre
  constructor
  · intro hgot
    obtain ⟨rest, hrest⟩ := hgot.trans (List.take_prefix _ _)
    refine ⟨rest, ?_⟩
    rw [append_assoc, hrest, htake]
    exact take_append_drop _ _
  · rw [htake, namedBytes, ← take_add]
    congr 1
    omega

/-- Each answer is one of the object, and does not stop short unsaid. -/
def Origin.Answers (o : Origin) (point : Option ResumePoint) (body : Body) : Prop :=
  ∃ v, o.Serves v body ∧ EndsWithObject point v body

/-- A file begun by an answer is the beginning of the version of that answer. -/
theorem Origin.Answers.beginsVersion
    (hA : o.Answers point body) (hpoint : point = none ∨ body.status = 200) (hpre : hw.hashed <+: readsData body.reads) :
    BeginsVersion o { writer := hw, expect := publicFile.expect body, resumedAt := none } := by
  obtain ⟨v, hserves, hends⟩ := hA
  intro t ht
  obtain ⟨hyields, hlength⟩ := fresh_begins hserves hends hpoint
  obtain ⟨etag, hetag, rfl⟩ := Option.map_eq_some_iff.1 ht
  obtain ⟨t', htag, htt⟩ := Option.bind_eq_some_iff.1 hetag
  obtain rfl := EntityTag.value_of_tryNew htt
  obtain rfl := hserves.tag _ htag
  exact ⟨hserves.version, hpre.trans hyields.first, hlength⟩

/-- A continuation is a part, starting where the file ends, of the version the file's tag stands for. -/
structure Continues (o : Origin) (file : Part) (point : ResumePoint) (body : Body) (range : ContentRange) : Prop where
  part : body.IsPartOf (o.tagged point.etag) range
  etag : file.expect.etag = some point.etag
  first : range.first = file.writer.hashed.length
  version : o.IsVersion (o.tagged point.etag)
  begins : file.writer.hashed <+: o.tagged point.etag
  total : ∀ n, (file.resume point.offset body).expect.total = some n → n = (o.tagged point.etag).length
  ends : (file.resume point.offset body).expect.total = none → range.last + 1 = (o.tagged point.etag).length

theorem Origin.Answers.continues {point : ResumePoint} (hI : BeginsVersion o file)
    (hin : file.writer.InStep file.writer.hashed) (hpoint : file.resumePoint = some point)
    (hA : o.Answers (some point) body) (hcont : point.continuedBy body) :
    ∃ range, Continues o file point body range := by
  obtain ⟨v, hserves, hends⟩ := hA
  obtain ⟨hetag, hoffset, hptotal⟩ := resumePoint_eq hpoint
  obtain ⟨hversion, hpre, htotal⟩ := hI _ hetag
  have hcont' := hcont
  simp only [ResumePoint.continuedBy, Bool.and_eq_true, decide_eq_true_eq] at hcont'
  obtain ⟨⟨h206, htag⟩, hrange⟩ := hcont'
  obtain rfl := hserves.tag _ htag
  rcases hserves.answer with hwhole | ⟨range, hpart⟩
  · have := hwhole.status
    omega
  rw [hpart.named] at hrange
  simp only [Bool.and_eq_true, decide_eq_true_eq] at hrange
  refine ⟨range, hpart, hetag, ?_, hversion, hpre, ?_, ?_⟩
  · rw [hrange.1, hoffset, hin.written]
  · intro n hn
    cases htot : file.expect.total with
    | some m =>
      obtain rfl : m = n := by simpa [Part.resume, htot] using hn
      exact htotal m htot
    | none => exact hpart.total n (by simpa [Part.resume, htot, hpart.named] using hn)
  · intro hnone
    obtain ⟨hfile, hunnamed⟩ : file.expect.total = none ∧ range.total = none := by
      simpa [Part.resume, hpart.named, Option.or_eq_none_iff] using hnone
    exact hends hcont (hptotal.trans hfile) range hpart hunnamed

/-- The pieces of a continued file are consecutive pieces of one version. -/
theorem Continues.append {point : ResumePoint}
    (h : Continues o file point body range) {got : Bytes} (hhashed : hw.hashed = file.writer.hashed ++ got)
    (hgot : got <+: readsData body.reads) : BeginsVersion o { file.resume point.offset body with writer := hw } := by
  intro t ht
  obtain rfl : point.etag = t := by simpa [Part.resume, h.etag] using ht
  refine ⟨h.version, ?_, h.total⟩
  rw [hhashed]
  exact (append_namedBytes got h.begins h.first (ContentRange.fromHeader_le h.part.named).1).1 (hgot.trans h.part.yields.first)

theorem publicRule (o : Origin) : AttemptRule publicFile o.Answers (BeginsVersion o) (EndsVersion o) where
  fresh := fun _ _ _ hA hpoint _ hpre => hA.beginsVersion hpoint hpre
  freshDone := by
    intro point body hw hA hpoint _ hall hbreak
    refine ⟨hA.beginsVersion hpoint (hall ▸ prefix_rfl), fun _ => ?_, by simp⟩
    obtain ⟨v, hserves, hends⟩ := hA
    rw [hall, (fresh_begins hserves hends hpoint).1.whole hbreak]
    exact hserves.version
  resumed := by
    intro file point body hw got hI hin hpoint hA hcont _ hhashed hgot
    obtain ⟨range, hc⟩ := hA.continues hI hin hpoint hcont
    exact hc.append hhashed hgot
  resumedDone := by
    intro file point body hw hI hin hpoint hA hcont _ hhashed hbreak
    obtain ⟨range, hc⟩ := hA.continues hI hin hpoint hcont
    refine ⟨hc.append hhashed prefix_rfl, ?_, fun _ _ => ⟨point.etag, hc.etag, fun hnone => ?_⟩⟩
    · intro h
      cases hr : file.resumedAt <;> simp [Part.resume, hr] at h
    · have happend := (append_namedBytes [] hc.begins hc.first (ContentRange.fromHeader_le hc.part.named).1).2
      simp only
      rw [hhashed, hc.part.yields.whole hbreak, happend, hc.ends hnone, take_length]
  again := fun _ h => h.begins

/-! ## The whole fetch -/

/-- A file that passes the length check of an unpinned download is a whole version. -/
theorem EndsVersion.isVersion {sha : Bytes → Text} (h : EndsVersion o file)
    (hin : file.writer.InStep file.writer.hashed) (hcheck : checkFile sha none file = .ok ()) :
    o.IsVersion file.writer.hashed := by
  cases hr : file.resumedAt with
  | none => exact h.single hr
  | some offset =>
    obtain ⟨t, ht, hunknown⟩ := h.joined offset hr
    obtain ⟨hversion, hpre, htotal⟩ := h.begins t ht
    cases htot : file.expect.total with
    | none => exact hunknown htot ▸ hversion
    | some n =>
      have hlength : file.writer.written = n := by
        by_contra hne
        simp [checkFile, hr, htot, hne] at hcheck
      have hsame : file.writer.hashed = o.tagged t := by
        refine hpre.eq_of_length ?_
        rw [← hin.written, hlength, htotal n htot]
      exact hsame ▸ hversion

/-- What holds of a public fetch between two attempts. -/
def PublicState.Ok (o : Origin) (s : PublicState) : Prop := KeptOk o.Answers (BeginsVersion o) s.part s.world

/-- One attempt of a public fetch keeps its state, and leaves a whole version when it succeeds. -/
theorem fetchPublicFile_spec (o : Origin) (sha : Bytes → Text) (start : Nat) (s : PublicState) (h : s.Ok o) :
    (fetchPublicFile sha none start s).2.Ok o ∧
      (∀ a, (fetchPublicFile sha none start s).1 = .ok a → AllMeet o.Answers (fetchPublicFile sha none start s).2.world.log →
        ∃ v, o.IsVersion v ∧ (fetchPublicFile sha none start s).2.world.dest = some v) := by
  have hattempt := attempt_rule (publicRule o) start s.part s.world h
  unfold fetchPublicFile
  rcases hout : attempt publicFile start s.part s.world with ⟨_ | file, part, w⟩
  · rw [hout] at hattempt
    exact ⟨hattempt.kept, by simp⟩
  · rw [hout] at hattempt
    obtain ⟨rfl, hheld, hends⟩ := hattempt.returned file rfl
    exact ⟨hattempt.kept, fun _ hcheck hA => ⟨_, (hends hA).isVersion hheld.inStep hcheck, hheld.dest⟩⟩

/-- An unpinned public fetch that succeeds leaves one whole version of the object, if every answer it got is one of the object
and does not stop short unsaid. -/
theorem fetchFile_whole (o : Origin) (sha : Bytes → Text) (policy : Policy) (dest : Option Bytes)
    (replies : List (Except HttpError Body)) (chunks : List (List WriteStep)) (creates : List CreateStep) (reporter : Reporter)
    (hserver : ∀ point body,
      .requested point (.ok body) ∈
        (fetchFile sha none policy (World.start dest replies chunks creates reporter)).2.world.log →
      ∃ v, o.Serves v body ∧ EndsWithObject point v body)
    (hok : (fetchFile sha none policy (World.start dest replies chunks creates reporter)).1 = .ok ()) :
    ∃ v, o.IsVersion v ∧
      (fetchFile sha none policy (World.start dest replies chunks creates reporter)).2.world.dest = some v := by
  have hstart : PublicState.Ok o { part := none, world := World.start dest replies chunks creates reporter } := by
    simp [PublicState.Ok, KeptOk]
  exact (retrying_spec (Q := fun _ (s : PublicState) => AllMeet o.Answers s.world.log → ∃ v, o.IsVersion v ∧ s.world.dest = some v)
    (fetchPublicFile_spec o sha _) (policy.attempts - 1) hstart).2 () hok hserver

/-! ## A file accepted short -/

/-- An object of six bytes that never changes. -/
def sixBytes : Origin where
  IsVersion v := v = [1, 2, 3, 4, 5, 6]
  tagged _ := [1, 2, 3, 4, 5, 6]

/-- The whole object under a strong tag and without its length, broken after two bytes. -/
def brokenWhole : Body where
  status := 200
  etagHeader := some "\"v1\""
  rangeHeader := none
  contentLength := none
  reads := [.data [1, 2], .failed .other]

/-- The next two bytes, under the same tag, in a range that names `total`. -/
def nextTwo (total : String) : Body where
  status := 206
  etagHeader := some "\"v1\""
  rangeHeader := some ("bytes 2-3/" ++ total.toList)
  contentLength := some 2
  reads := [.data [3, 4]]

/-- The last two bytes, in a range that names the size. -/
def lastTwo : Body where
  status := 206
  etagHeader := some "\"v1\""
  rangeHeader := some "bytes 4-5/6"
  contentLength := some 2
  reads := [.data [5, 6]]

/-- A fetch with two attempts on a machine whose disk takes every write. -/
def fetchTwice (replies : List (Except HttpError Body)) : Except ModelFetchError Unit × PublicState :=
  fetchFile (fun _ => []) none ⟨2, 120⟩ (World.start none replies [] [] ⟨none, 0⟩)

theorem sixBytes_serves_brokenWhole : sixBytes.Serves [1, 2, 3, 4, 5, 6] brokenWhole where
  version := rfl
  tag := fun _ _ => rfl
  answer := .inl
    { status := rfl
      yields := ⟨⟨[3, 4, 5, 6], rfl⟩, by simp [brokenWhole, readsBreak]⟩
      length := by simp [brokenWhole] }

/-- A `206` of bytes 2 to 3 is an honest answer of the object, whether it names the size or not. -/
theorem sixBytes_serves_nextTwo {total : String} {n : Option Nat} (hn : ∀ m, n = some m → m = 6)
    (hnamed : (nextTwo total).contentRange = some ⟨2, 3, n⟩) : sixBytes.Serves [1, 2, 3, 4, 5, 6] (nextTwo total) where
  version := rfl
  tag := fun _ _ => rfl
  answer := .inr ⟨⟨2, 3, n⟩,
    { status := rfl
      named := hnamed
      inside := by simp
      total := hn
      yields := ⟨prefix_rfl, fun _ => rfl⟩
      length := by simp [nextTwo] }⟩

theorem sixBytes_serves_lastTwo : sixBytes.Serves [1, 2, 3, 4, 5, 6] lastTwo where
  version := rfl
  tag := fun _ _ => rfl
  answer := .inr ⟨⟨4, 5, some 6⟩,
    { status := rfl
      named := by decide
      inside := by decide
      total := by simp
      yields := ⟨prefix_rfl, fun _ => rfl⟩
      length := by simp [lastTwo] }⟩

/-- The whole object breaks after two bytes and two ranges that name the size finish it. -/
theorem fetchFile_whole_sixBytes :
    ∃ v, sixBytes.IsVersion v ∧
      (fetchTwice [.ok brokenWhole, .ok (nextTwo "6"), .ok lastTwo]).2.world.dest = some v := by
  refine fetchFile_whole sixBytes (fun _ => []) ⟨2, 120⟩ none [.ok brokenWhole, .ok (nextTwo "6"), .ok lastTwo] [] []
    ⟨none, 0⟩ ?_ rfl
  have hlog : (fetchTwice [.ok brokenWhole, .ok (nextTwo "6"), .ok lastTwo]).2.world.log =
      [.requested none (.ok brokenWhole), .created, .requested (some ⟨2, "\"v1\"", none⟩) (.ok (nextTwo "6")),
        .resumed 2, .requested (some ⟨4, "\"v1\"", some 6⟩) (.ok lastTwo), .resumed 4] := rfl
  intro point body hmem
  change _ ∈ (fetchTwice [.ok brokenWhole, .ok (nextTwo "6"), .ok lastTwo]).2.world.log at hmem
  rw [hlog] at hmem
  obtain ⟨rfl, rfl⟩ | ⟨rfl, rfl⟩ | ⟨rfl, rfl⟩ : (point = none ∧ body = brokenWhole) ∨
      (point = some ⟨2, "\"v1\"", none⟩ ∧ body = nextTwo "6") ∨
      (point = some ⟨4, "\"v1\"", some 6⟩ ∧ body = lastTwo) := by simpa using hmem
  · refine ⟨_, sixBytes_serves_brokenWhole, fun range hpart => ?_⟩
    have := hpart.status
    simp [brokenWhole] at this
  · have hnamed : (nextTwo "6").contentRange = some ⟨2, 3, some 6⟩ := by decide
    refine ⟨_, sixBytes_serves_nextTwo (by simp) hnamed, fun _ _ range hpart hnone => ?_⟩
    obtain rfl : (⟨2, 3, some 6⟩ : ContentRange) = range := by simpa [hnamed] using hpart.named
    simp at hnone
  · exact ⟨_, sixBytes_serves_lastTwo, fun _ hnone => by simp at hnone⟩

/-- The whole object breaks after two bytes and the range after it stops two bytes short, naming no size. Every answer is an
honest one, and the destination holds four of the six bytes. -/
theorem short_file_accepted :
    (∀ point body, .requested point (.ok body) ∈ (fetchTwice [.ok brokenWhole, .ok (nextTwo "*")]).2.world.log →
      ∃ v, sixBytes.Serves v body) ∧
      (fetchTwice [.ok brokenWhole, .ok (nextTwo "*")]).1 = .ok () ∧
      ¬∃ v, sixBytes.IsVersion v ∧ (fetchTwice [.ok brokenWhole, .ok (nextTwo "*")]).2.world.dest = some v := by
  have hlog : (fetchTwice [.ok brokenWhole, .ok (nextTwo "*")]).2.world.log =
      [.requested none (.ok brokenWhole), .created, .requested (some ⟨2, "\"v1\"", none⟩) (.ok (nextTwo "*")),
        .resumed 2] := rfl
  refine ⟨?_, rfl, ?_⟩
  · intro point body hmem
    rw [hlog] at hmem
    obtain ⟨-, rfl⟩ | ⟨-, rfl⟩ : (point = none ∧ body = brokenWhole) ∨
        (point = some ⟨2, "\"v1\"", none⟩ ∧ body = nextTwo "*") := by simpa using hmem
    · exact ⟨_, sixBytes_serves_brokenWhole⟩
    · exact ⟨_, sixBytes_serves_nextTwo (n := none) (by simp) (by decide)⟩
  · rintro ⟨v, rfl, hdest⟩
    have hshort : (fetchTwice [.ok brokenWhole, .ok (nextTwo "*")]).2.world.dest = some [1, 2, 3, 4] := rfl
    rw [hshort] at hdest
    simp at hdest

end Pipette.Download
