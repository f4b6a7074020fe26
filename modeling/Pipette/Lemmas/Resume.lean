import Pipette.Download.Resume

/-!
# What an attempt keeps

The file is exactly what was hashed, and the writer stands at its end (`HashingWriter.InStep`). A file kept for a later
attempt is in step with the disk, and was created after the last failed pin (`Held`). `attempt_rule` carries this over all the
rounds of an attempt.
-/

namespace Pipette.Download

open List HashingWriter Event

/-! ## The bytes of a body -/

/-- The bytes a body yields before it ends or breaks. -/
def readsData : List Read → Bytes
  | [] => []
  | .data [] :: _ => []
  | .failed .interrupted :: reads => readsData reads
  | .failed _ :: _ => []
  | .data (b :: bytes) :: reads => b :: bytes ++ readsData reads

/-- Whether reading a body meets an error before its end. -/
def readsBreak : List Read → Bool
  | [] => false
  | .data [] :: _ => false
  | .failed .interrupted :: reads => readsBreak reads
  | .failed _ :: _ => true
  | .data (_ :: _) :: reads => readsBreak reads

/-! ## The writer and the file -/

/-- The file is what was hashed, and the writer stands at its end and has counted it. -/
structure HashingWriter.InStep (hw : HashingWriter) (file : Bytes) : Prop where
  file : file = hw.hashed
  pos : hw.pos = hw.hashed.length
  written : hw.written = hw.hashed.length

theorem HashingWriter.inStep_new : new.InStep [] := ⟨rfl, rfl, rfl⟩

variable {hw : HashingWriter} {file : Bytes}

/-- A write puts the accepted bytes at the end of both the file and the hash. -/
theorem HashingWriter.InStep.write (h : hw.InStep file) (n : Nat) (buf : Bytes) :
    (hw.write n buf file).1.InStep (hw.write n buf file).2 ∧ (hw.write n buf file).1.hashed = hw.hashed ++ buf.take n := by
  obtain ⟨rfl, hpos, hwritten⟩ := h
  refine ⟨⟨?_, ?_, ?_⟩, rfl⟩
  · simp [HashingWriter.write, hpos]
  · simp [HashingWriter.write, hpos]
  · simp [HashingWriter.write, hwritten]

/-- `write_all` appends a first part of the buffer to file and hash, and all of it when it succeeds. -/
theorem writeAll_spec (steps : List WriteStep) (buf : Bytes) (h : hw.InStep file) :
    ∃ got, got <+: buf ∧ (writeAll steps buf hw file).2.1.hashed = hw.hashed ++ got ∧
      (writeAll steps buf hw file).2.1.InStep (writeAll steps buf hw file).2.2 ∧
      ((writeAll steps buf hw file).1 = none → got = buf) := by
  fun_induction writeAll steps buf hw file with
  | case1 => exact ⟨[], prefix_rfl, by simp, h, fun _ => rfl⟩
  | case2 buf hw file hne =>
    obtain ⟨hstep, hhash⟩ := h.write buf.length buf
    exact ⟨buf, prefix_rfl, by simpa using hhash, hstep, fun _ => rfl⟩
  | case3 steps buf hw file hne ih => exact ih h
  | case4 | case5 => exact ⟨[], nil_prefix, by simp, h, by simp⟩
  | case6 n steps buf hw file hne hw' file' heq ih =>
    obtain ⟨hstep, hhash⟩ := h.write (n + 1) buf
    rw [heq] at hstep hhash
    obtain ⟨got, hgot, hhashed, hin, hall⟩ := ih hstep
    refine ⟨buf.take (n + 1) ++ got, ?_, ?_, hin, ?_⟩
    · conv_rhs => rw [← take_append_drop (n + 1) buf]
      exact (prefix_append_right_inj _).2 hgot
    · rw [hhashed, hhash, append_assoc]
    · intro hnone
      rw [hall hnone, take_append_drop]

variable {ρ ε : Type}

/-- Copying a body appends a first part of its bytes to file and hash, and all of them when it succeeds. -/
theorem copyReporting_spec (reads : List Read) {w : World ρ} (hdest : w.dest = some file)
    (h : hw.InStep file) :
    ∃ got file', got <+: readsData reads ∧ (copyReporting reads hw w).2.1.hashed = hw.hashed ++ got ∧
      (copyReporting reads hw w).2.2.dest = some file' ∧ (copyReporting reads hw w).2.1.InStep file' ∧
      (copyReporting reads hw w).2.2.log = w.log ∧
      ((copyReporting reads hw w).1 = none → got = readsData reads ∧ readsBreak reads = false) := by
  fun_induction copyReporting reads hw w generalizing file with
  | case1 hw w | case2 hw w => exact ⟨[], file, prefix_rfl, by simp, hdest, h, rfl, fun _ => ⟨rfl, rfl⟩⟩
  | case3 reads hw w ih => exact ih hdest h
  | case4 | case5 => exact ⟨[], file, nil_prefix, by simp, hdest, h, rfl, by simp⟩
  | case6 b bytes reads hw w hlen kind hw' file' heq =>
    obtain ⟨got, hgot, hhashed, hin, -⟩ := writeAll_spec (w.chunks.headD []) (b :: bytes) h
    rw [hdest, Option.getD_some] at heq
    rw [heq] at hhashed hin
    exact ⟨got, file', hgot.trans (prefix_append _ _), hhashed, rfl, hin, rfl, by simp⟩
  | case7 b bytes reads hw w hlen hw' file' heq ih =>
    obtain ⟨got, hgot, hhashed, hin, hall⟩ := writeAll_spec (w.chunks.headD []) (b :: bytes) h
    rw [hdest, Option.getD_some] at heq
    rw [heq] at hhashed hin hall
    obtain rfl := hall rfl
    obtain ⟨more, file₂, hmore, hhashed₂, hdest₂, hin₂, hlog, hend⟩ := ih rfl hin
    refine ⟨b :: bytes ++ more, file₂, ?_, ?_, hdest₂, hin₂, hlog, ?_⟩
    · exact (prefix_append_right_inj _).2 hmore
    · rw [hhashed₂, hhashed, append_assoc]
    · intro hnone
      obtain ⟨rfl, hbreak⟩ := hend hnone
      exact ⟨rfl, hbreak⟩

theorem copyReporting_replies (reads : List Read) (hw : HashingWriter) (w : World ρ) :
    (copyReporting reads hw w).2.2.replies = w.replies := by
  fun_induction copyReporting reads hw w <;> simp_all

/-! ## The log -/

/-- Whether the file on disk was created since the last failed pin, after one more event. -/
def Event.clean (c : Bool) : Event ρ → Bool
  | .created => true
  | .pinFailed => false
  | .requested .. | .resumed _ | .verified _ => c

/-- The file on disk was created since the last failed pin. -/
def cleanLog (log : List (Event ρ)) : Bool := log.foldl clean true

/-- Every continuation in the log is of a file created since the last failed pin; `c`: the log starts with one. -/
def neverContinued : Bool → List (Event ρ) → Bool
  | _, [] => true
  | c, .resumed _ :: log => c && neverContinued c log
  | c, ev :: log => neverContinued (ev.clean c) log

theorem neverContinued_append (c : Bool) (a b : List (Event ρ)) :
    neverContinued c (a ++ b) = (neverContinued c a && neverContinued (a.foldl clean c) b) := by
  induction a generalizing c with
  | nil => simp [neverContinued]
  | cons ev a ih => cases ev <;> simp [neverContinued, ih, clean, Bool.and_assoc]

/-- A log of requests only. -/
def RequestsOnly (log : List (Event ρ)) : Prop := ∀ ev ∈ log, ∃ point reply, ev = .requested point reply

variable {log : List (Event ρ)}

theorem RequestsOnly.keeps (h : RequestsOnly log) (c : Bool) : log.foldl clean c = c ∧ neverContinued c log := by
  induction log generalizing c with
  | nil => exact ⟨rfl, rfl⟩
  | cons ev log ih =>
    obtain ⟨point, reply, rfl⟩ := h ev (by simp)
    exact ih (fun e he => h e (by simp [he])) c

/-- The log of a world in which no file was continued after its pin failed. -/
def World.Sound (w : World ρ) : Prop := neverContinued true w.log

/-- A file kept for a later attempt is what is on disk, and was created since the last failed pin. -/
structure Held (file : Part) (w : World ρ) : Prop where
  dest : w.dest = some file.writer.hashed
  inStep : file.writer.InStep file.writer.hashed
  clean : cleanLog w.log

/-! ## Opening a body -/

theorem resumePoint_eq {file : Part} {point : ResumePoint} (h : file.resumePoint = some point) :
    file.expect.etag = some point.etag ∧ point.offset = file.writer.written ∧ point.total = file.expect.total := by
  unfold Part.resumePoint at h
  split_ifs at h
  obtain ⟨etag, hetag, rfl⟩ := Option.map_eq_some_iff.1 h
  exact ⟨hetag, rfl, rfl⟩

variable (src : Source ρ ε)

/-- A request adds itself to the log, and a body it gets is a reply it takes. -/
theorem get_spec (point : Option ResumePoint) (w : World ρ) :
    ∃ reply, (src.get point w).2.log = w.log ++ [.requested point reply] ∧ (src.get point w).2.dest = w.dest ∧
      ∀ body, (src.get point w).1 = .ok body →
        reply = .ok body ∧ (src.get point w).2.replies.length < w.replies.length := by
  unfold Source.get
  cases hr : w.replies with
  | nil => exact ⟨.error src.noAnswer, rfl, rfl, by simp⟩
  | cons reply replies =>
    refine ⟨reply, rfl, rfl, ?_⟩
    intro body h
    cases reply <;> simp_all

/-- A body is opened: not at all, the kept file dropped or still kept; from zero, by a request for the whole object or by a
`200`; or as the continuation of the kept file. -/
inductive Opened (part : Option Part) (w : World ρ) : Except ε (Body × Option Part) × Option Part × World ρ → Prop
  | failed {err : ε} {part' : Option Part} {w' : World ρ} {log : List (Event ρ)} (hpart : part' = none ∨ part' = part)
      (hlog : w'.log = w.log ++ log) (hreq : RequestsOnly log) (hdest : w'.dest = w.dest) :
      Opened part w (.error err, part', w')
  | whole {body : Body} (point : Option ResumePoint) {w' : World ρ} {log : List (Event ρ)}
      (hpoint : point = none ∨ body.status = 200) (hlog : w'.log = w.log ++ log) (hreq : RequestsOnly log)
      (hmem : .requested point (.ok body) ∈ log) : Opened part w (.ok (body, none), none, w')
  | continued {file : Part} {point : ResumePoint} {body : Body} {w' : World ρ} (hpart : part = some file)
      (hpoint : file.resumePoint = some point) (hcont : point.continuedBy body)
      (hlog : w'.log = w.log ++ [.requested (some point) (.ok body), .resumed point.offset]) (hdest : w'.dest = w.dest)
      (hreplies : w'.replies.length < w.replies.length) :
      Opened part w (.ok (body, some (file.resume point.offset body)), none, w')

theorem openBody_opened (part : Option Part) (w : World ρ) : Opened part w (openBody src part w) := by
  -- a request for the whole object after `before` requests that left no file
  have hwhole : ∀ {w₁ : World ρ} {before : List (Event ρ)}, w₁.log = w.log ++ before → RequestsOnly before →
      w₁.dest = w.dest → Opened part w (openWhole src w₁) := by
    intro w₁ before hbefore hreq hdest₁
    obtain ⟨reply, hlog, hdest, hbody⟩ := get_spec src none w₁
    have hreq' : RequestsOnly (before ++ [.requested none reply]) := forall_mem_append.2 ⟨hreq, by simp⟩
    rw [hbefore, append_assoc] at hlog
    unfold openWhole
    rcases hget : src.get none w₁ with ⟨_ | body, w'⟩ <;> rw [hget] at hlog hdest hbody
    · exact .failed (.inl rfl) hlog hreq' (hdest.trans hdest₁)
    · obtain ⟨rfl, -⟩ := hbody body rfl
      exact .whole none (.inl rfl) hlog hreq' (by simp)
  unfold openBody
  cases hp : part.bind Part.resumePoint with
  | none => exact hwhole (append_nil _).symm nofun rfl
  | some point =>
    obtain ⟨file, rfl, hpoint⟩ := Option.bind_eq_some_iff.1 hp
    obtain ⟨reply, hlog, hdest, hbody⟩ := get_spec src (some point) w
    have hreq : RequestsOnly [requested (some point) reply] := by simp [RequestsOnly]
    simp only
    rcases hget : src.get (some point) w with ⟨err | body, w'⟩
    · rw [hget] at hlog hdest
      simp only
      split
      · exact hwhole hlog hreq hdest
      · exact .failed (.inr rfl) hlog hreq hdest
    rw [hget] at hlog hdest hbody
    obtain ⟨rfl, hreplies⟩ := hbody body rfl
    simp only
    split
    · refine .continued rfl hpoint ‹_› ?_ hdest hreplies
      have hlog' : w'.log = w.log ++ [.requested (some point) (.ok body)] := hlog
      simp [hlog']
    · split
      · exact .whole (some point) (.inr ‹_›) hlog hreq (by simp)
      · exact hwhole hlog hreq hdest

/-! ## The rounds of an attempt -/

/-- What a caller knows of the files of an attempt. `A` is assumed of each answer, `I` then holds of a kept file, and `J` of a
file whose last body was copied to its end. -/
structure AttemptRule (A : Option ResumePoint → Body → Prop) (I J : Part → Prop) : Prop where
  fresh : ∀ point body hw, A point body → (point = none ∨ body.status = 200) → hw.InStep hw.hashed →
    hw.hashed <+: readsData body.reads → I { writer := hw, expect := src.expect body, resumedAt := none }
  freshDone : ∀ point body hw, A point body → (point = none ∨ body.status = 200) → hw.InStep hw.hashed →
    hw.hashed = readsData body.reads → readsBreak body.reads = false →
    J { writer := hw, expect := src.expect body, resumedAt := none }
  resumed : ∀ file point body hw got, I file → file.writer.InStep file.writer.hashed → file.resumePoint = some point →
    A (some point) body → point.continuedBy body → hw.InStep hw.hashed → hw.hashed = file.writer.hashed ++ got →
    got <+: readsData body.reads → I { file.resume point.offset body with writer := hw }
  resumedDone : ∀ file point body hw, I file → file.writer.InStep file.writer.hashed → file.resumePoint = some point →
    A (some point) body → point.continuedBy body → hw.InStep hw.hashed →
    hw.hashed = file.writer.hashed ++ readsData body.reads → readsBreak body.reads = false →
    J { file.resume point.offset body with writer := hw }
  again : ∀ file, J file → I file

/-- Every answer in the log meets the assumption. -/
def AllMeet (A : Option ResumePoint → Body → Prop) (log : List (Event ρ)) : Prop :=
  ∀ point body, .requested point (.ok body) ∈ log → A point body

variable {A : Option ResumePoint → Body → Prop}

theorem AllMeet.of_append {log more : List (Event ρ)} (h : AllMeet A (log ++ more)) : AllMeet A log :=
  fun point body hmem => h point body (mem_append_left _ hmem)

/-- A kept file is held and, as far as the answers met the assumption, is as the caller knows it. -/
def KeptOk (A : Option ResumePoint → Body → Prop) (I : Part → Prop) (part : Option Part) (w : World ρ) : Prop :=
  ∀ file, part = some file → Held file w ∧ (AllMeet A w.log → I file)

/-- A log that is still sound, a kept file still held, and a returned file held too, with no other file kept. -/
structure Attempted (A : Option ResumePoint → Body → Prop) (I J : Part → Prop) (w : World ρ)
    (out : Except ε Part × Option Part × World ρ) : Prop where
  log : w.log <+: out.2.2.log
  sound : w.Sound → out.2.2.Sound
  kept : KeptOk A I out.2.1 out.2.2
  returned : ∀ file, out.1 = .ok file → out.2.1 = none ∧ Held file out.2.2 ∧ (AllMeet A out.2.2.log → J file)

variable {src} {I J : Part → Prop} {w w' : World ρ}

theorem World.Sound.requests (h : w.Sound) (hlog : w'.log = w.log ++ log)
    (hreq : RequestsOnly log) : w'.Sound := by
  unfold World.Sound at h ⊢
  rw [hlog, neverContinued_append, h, (hreq.keeps _).2, Bool.and_self]

theorem World.Sound.event {ev : Event ρ} (h : w.Sound) (hlog : w'.log = w.log ++ [ev])
    (hev : ∀ offset, ev ≠ .resumed offset) : w'.Sound := by
  unfold World.Sound at h ⊢
  rw [hlog, neverContinued_append, h]
  cases ev <;> simp_all [neverContinued]

/-- What a round leaves: the outcome of the attempt, or a held file the next round goes on with. -/
def Rounded (A : Option ResumePoint → Body → Prop) (I J : Part → Prop) (w : World ρ) : Round ρ ε → Prop
  | .returned out => Attempted A I J w out
  | .again file w' => w.log <+: w'.log ∧ (w.Sound → w'.Sound) ∧ KeptOk A I (some file) w'

/-- A round that leaves a held file: the copy breaks, and the file is kept; or it ends, and the file is returned or the loop
goes on. -/
theorem rounded_copy {pieceEnd : Option Nat} {body : Body} {w w₁ : World ρ} (file : Part) {more : List (Event ρ)}
    (hagain : ∀ file, J file → I file) (hlog : w₁.log = w.log ++ more) (hsound : w.Sound → w₁.Sound) (hfile : Held file w₁)
    (hkept : ∀ hw got, AllMeet A w₁.log → hw.InStep hw.hashed → hw.hashed = file.writer.hashed ++ got →
      got <+: readsData body.reads → I { file with writer := hw })
    (hdone : ∀ hw, AllMeet A w₁.log → hw.InStep hw.hashed → hw.hashed = file.writer.hashed ++ readsData body.reads →
      readsBreak body.reads = false → J { file with writer := hw }) :
    Rounded A I J w
      (match copyReporting body.reads file.writer w₁ with
        | (some kind, writer, w) => .returned (.error (src.ioError kind), some { file with writer }, w)
        | (none, writer, w) =>
          let file := { file with writer }
          if stoppedShort pieceEnd file then .again file w else .returned (.ok file, none, w)) := by
  obtain ⟨got, file', hgot, hhashed, hdest, hin, hlog₂, hend⟩ := copyReporting_spec body.reads hfile.dest hfile.inStep
  obtain rfl := hin.file
  rcases hcopy : copyReporting body.reads file.writer w₁ with ⟨kind, hw, w₂⟩
  rw [hcopy] at hhashed hdest hin hlog₂ hend
  simp only at hhashed hdest hin hlog₂ hend
  have hheld : Held { file with writer := hw } w₂ := ⟨hdest, hin, by rw [hlog₂]; exact hfile.clean⟩
  have hgrow : w₂.log = w.log ++ more := hlog₂.trans hlog
  have hsound₂ : w.Sound → w₂.Sound := by
    intro h
    unfold World.Sound
    rw [hlog₂]
    exact hsound h
  cases kind with
  | some kind =>
    refine ⟨⟨more, hgrow.symm⟩, hsound₂, ?_, by simp⟩
    rintro file' h
    cases h
    exact ⟨hheld, fun hA => hkept hw got (hlog₂ ▸ hA) hheld.inStep hhashed hgot⟩
  | none =>
    obtain ⟨rfl, hbreak⟩ := hend rfl
    have hJ : AllMeet A w₂.log → J { file with writer := hw } := fun hA => hdone hw (hlog₂ ▸ hA) hheld.inStep hhashed hbreak
    simp only
    split
    · refine ⟨⟨more, hgrow.symm⟩, hsound₂, ?_⟩
      rintro file' h
      cases h
      exact ⟨hheld, fun hA => hagain _ (hJ hA)⟩
    · refine ⟨⟨more, hgrow.symm⟩, hsound₂, by simp [KeptOk], ?_⟩
      rintro file' h
      cases h
      exact ⟨rfl, hheld, hJ⟩

theorem attemptRound_rule (hrule : AttemptRule src A I J) (start : Nat) (part : Option Part) (w : World ρ)
    (hpart : KeptOk A I part w) : Rounded A I J w (attemptRound src start part w) := by
  unfold attemptRound
  have hopen := openBody_opened src part w
  generalize openBody src part w = out at hopen
  cases hopen with
  | failed hkept hlog hreq hdest =>
    rename_i err part' w' log
    refine ⟨⟨log, hlog.symm⟩, fun h => h.requests hlog hreq, ?_, by simp⟩
    intro file hfile
    obtain rfl | rfl := hkept
    · cases hfile
    obtain ⟨hheld, hI⟩ := hpart file hfile
    refine ⟨⟨hdest.trans hheld.dest, hheld.inStep, ?_⟩, fun hA => hI (AllMeet.of_append (hlog ▸ hA))⟩
    rw [cleanLog, hlog, foldl_append, (hreq.keeps _).1]
    exact hheld.clean
  | whole point hpoint hlog hreq hmem =>
    rename_i body w' log
    have hcreated : cleanLog (w'.log ++ [.created]) = true := by simp [cleanLog, clean]
    simp only [fileFor, Option.bind_none]
    cases hc : w'.creates.headD .made with
    | noParent kind | refused kind => exact ⟨⟨log, hlog.symm⟩, fun h => h.requests hlog hreq, by simp [KeptOk], by simp⟩
    | made =>
      have hlog' : w'.log ++ [.created] = w.log ++ (log ++ [.created]) := by rw [hlog, append_assoc]
      have hmeet : AllMeet A (w'.log ++ [.created]) → A point body := fun hA => hA point body (by simp [hlog, hmem])
      refine rounded_copy _ hrule.again hlog' ?_ ⟨rfl, inStep_new, hcreated⟩ ?_ ?_
      · exact fun h => (h.requests hlog hreq).event rfl (by simp)
      · intro hw got hA hin hhashed hgot
        refine hrule.fresh point body hw (hmeet hA) hpoint hin ?_
        simpa [hhashed, Part.start, new] using hgot
      · intro hw hA hin hhashed hbreak
        refine hrule.freshDone point body hw (hmeet hA) hpoint hin ?_ hbreak
        simpa [Part.start, new] using hhashed
  | @continued file point body w' hsome hpoint hcont hlog hdest =>
    obtain ⟨hheld, hI⟩ := hpart file hsome
    have hclean : cleanLog w'.log = true := by
      rw [cleanLog, hlog, foldl_append]
      exact hheld.clean
    have hmeet : AllMeet A w'.log → A (some point) body ∧ I file := by
      intro hA
      exact ⟨hA (some point) body (by simp [hlog]), hI (AllMeet.of_append (hlog ▸ hA))⟩
    simp only [fileFor]
    refine rounded_copy (file.resume point.offset body) hrule.again hlog ?_
      ⟨hdest.trans hheld.dest, hheld.inStep, hclean⟩ ?_ ?_
    · intro h
      unfold World.Sound at h ⊢
      have hbefore : w.log.foldl clean true = true := hheld.clean
      simp [hlog, neverContinued_append, h, neverContinued, clean, hbefore]
    · intro hw got hA hin hhashed hgot
      exact hrule.resumed file point body hw got (hmeet hA).2 hheld.inStep hpoint (hmeet hA).1 hcont hin hhashed hgot
    · intro hw hA hin hhashed hbreak
      exact hrule.resumedDone file point body hw (hmeet hA).2 hheld.inStep hpoint (hmeet hA).1 hcont hin hhashed hbreak

theorem attemptLoop_rule (hrule : AttemptRule src A I J) (start fuel : Nat) (part : Option Part) (w : World ρ)
    (hpart : KeptOk A I part w) : ∀ out ∈ attemptLoop src start fuel part w, Attempted A I J w out := by
  induction fuel generalizing part w with
  | zero => simp [attemptLoop]
  | succ fuel ih =>
    have hround := attemptRound_rule hrule start part w hpart
    rw [attemptLoop]
    cases hr : attemptRound src start part w with
    | returned out =>
      rw [hr] at hround
      rintro _ ⟨⟩
      exact hround
    | again file w' =>
      rw [hr] at hround
      obtain ⟨hlog, hsound, hkept⟩ := hround
      intro out hout
      have hnext := ih (some file) w' hkept out hout
      exact ⟨hlog.trans hnext.log, fun h => hnext.sound (hsound h), hnext.kept, hnext.returned⟩

/-- What the caller knows of a kept file before an attempt holds of the file it keeps after, and what it wants of a finished
file of the one it returns. -/
theorem attempt_rule (hrule : AttemptRule src A I J) (start : Nat) (part : Option Part) (w : World ρ)
    (hpart : KeptOk A I part w) : Attempted A I J w (attempt src start part w) := by
  have hloop := attemptLoop_rule hrule start (w.replies.length + 1) part w hpart
  unfold attempt
  cases hout : attemptLoop src start (w.replies.length + 1) part w with
  | none => exact ⟨prefix_rfl, id, hpart, by simp⟩
  | some out => exact hloop out hout

end Pipette.Download
