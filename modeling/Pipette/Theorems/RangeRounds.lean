import Pipette.Download.Public
import Pipette.Lemmas.Resume

/-!
# An attempt ends

A range answer that sent all of its range and stopped short of the known size makes an attempt ask again. Whatever the server
answers, the file has then grown and is still short of that size, so an attempt asks again only so often.
-/

namespace Pipette.Download

open HashingWriter ContentRange

variable {ρ ε : Type} (src : Source ρ ε) (start : Nat)

/-- A round that asked again: it took a reply, the file has grown, is short of a size that has not changed once known, and is
still what is on disk. -/
structure Asked (old : Part) (w : World ρ) (file : Part) (w' : World ρ) : Prop where
  again : attemptRound src start (some old) w = .again file w'
  replied : w'.replies.length < w.replies.length
  grown : old.writer.written < file.writer.written
  total : old.expect.total = none ∨ old.expect.total = file.expect.total
  short : ∃ t ≤ u64Max, file.expect.total = some t ∧ file.writer.written < t
  onDisk : w.dest = some old.writer.hashed → old.writer.InStep old.writer.hashed →
    w'.dest = some file.writer.hashed ∧ file.writer.InStep file.writer.hashed

/-- So many rounds that asked again. -/
inductive Repeats : Nat → Option Part → World ρ → Option Part → World ρ → Prop
  | refl (part : Option Part) (w : World ρ) : Repeats 0 part w part w
  | step {n : Nat} {old file : Part} {part : Option Part} {w w₁ w' : World ρ} (h : Asked src start old w file w₁)
      (hmore : Repeats n (some file) w₁ part w') : Repeats (n + 1) (some old) w part w'

variable {src start} {part part' : Option Part} {w w' : World ρ} {file : Part} {body : Body} {n t : Nat}

/-- A continued file that is short of its size, by the range of the answer, has grown. -/
theorem grown_of_short {old : Part} {point : ResumePoint} {writer : HashingWriter} (hpoint : old.resumePoint = some point)
    (hcont : point.continuedBy body) (hsize : ∀ t ∈ old.expect.total, t ≤ u64Max)
    (hshort : stoppedShort (body.contentRange.map (·.last)) { old.resume point.offset body with writer }) :
    old.writer.written < writer.written ∧
      (old.expect.total = none ∨ old.expect.total = (old.resume point.offset body).expect.total) ∧
      ∃ t ≤ u64Max, (old.resume point.offset body).expect.total = some t ∧ writer.written < t := by
  obtain ⟨-, hoffset, -⟩ := resumePoint_eq hpoint
  obtain ⟨range, hrange, hfirst⟩ : ∃ range, body.contentRange = some range ∧ range.first = point.offset := by
    cases hrange : body.contentRange with
    | none => simp [ResumePoint.continuedBy, hrange] at hcont
    | some range => exact ⟨range, rfl, by simp_all [ResumePoint.continuedBy]⟩
  obtain ⟨hle, hranged⟩ := fromHeader_le hrange
  have htotal : (old.resume point.offset body).expect.total = old.expect.total.or range.total := by simp [Part.resume, hrange]
  simp only [stoppedShort, hrange, htotal, Bool.and_eq_true, Option.map_some, Option.any_some, decide_eq_true_eq] at hshort ⊢
  obtain ⟨hlast, hshort⟩ := hshort
  cases hsome : old.expect.total.or range.total with
  | none => simp [hsome] at hshort
  | some t =>
    have hlt : writer.written < t := by simpa [hsome] using hshort
    have hold : old.expect.total = none ∧ range.total = some t ∨ old.expect.total = some t := by
      cases htot : old.expect.total <;> simp_all
    have ht : t ≤ u64Max := hold.elim (fun h => hranged t h.2) (hsize t)
    refine ⟨?_, hold.imp_left And.left, t, ht, rfl, hlt⟩
    unfold satAdd at hlast
    omega

/-- A round ends the attempt or asks again. -/
theorem attemptRound_cases (part : Option Part) (w : World ρ) (hsize : ∀ old ∈ part, ∀ t ∈ old.expect.total, t ≤ u64Max) :
    (∃ out, attemptRound src start part w = .returned out) ∨ ∃ old file w', part = some old ∧ Asked src start old w file w' := by
  have hopened := openBody_opened src part w
  rcases hopen : openBody src part w with ⟨err | ⟨body, continued⟩, part', w₁⟩
  · exact .inl (by simp [attemptRound, hopen])
  rw [hopen] at hopened
  cases hopened with
  | whole =>
    -- a file from zero has no range to be short of
    left
    rcases hfile : fileFor src start body none w₁ with ⟨err | file, w₂⟩
    · simp [attemptRound, hopen, hfile]
    rcases hcopy : copyReporting body.reads file.writer w₂ with ⟨_ | kind, writer, w₃⟩
    · simp [attemptRound, hopen, hfile, hcopy, stoppedShort]
    · simp [attemptRound, hopen, hfile, hcopy]
  | @continued old point _ _ hpart hpoint hcont _ hdest hreplies =>
    subst hpart
    have hspec := @copyReporting_spec old.writer old.writer.hashed ρ body.reads w₁
    have htaken := copyReporting_replies body.reads old.writer w₁
    rcases hcopy : copyReporting body.reads old.writer w₁ with ⟨_ | kind, writer, w₂⟩ <;>
      have hcopy' : copyReporting body.reads (old.resume point.offset body).writer w₁ = _ := hcopy
    · rw [hcopy] at hspec htaken
      cases hshort : stoppedShort (body.contentRange.map (·.last)) { old.resume point.offset body with writer } with
      | false => exact .inl (by simp [attemptRound, hopen, fileFor, hcopy', hshort])
      | true =>
        obtain ⟨hgrown, htotal, hknown⟩ := grown_of_short hpoint hcont (hsize old rfl) hshort
        have hreplied : w₂.replies.length < w.replies.length := htaken ▸ hreplies
        refine .inr ⟨old, { old.resume point.offset body with writer }, w₂, rfl, ⟨?_, hreplied, hgrown, htotal, hknown, ?_⟩⟩
        · simp [attemptRound, hopen, fileFor, hcopy', hshort]
        · intro hd hin
          obtain ⟨_, _, _, _, hd', hin', -⟩ := hspec (hdest.trans hd) hin
          obtain rfl := hin'.file
          exact ⟨hd', hin'⟩
    · exact .inl (by simp [attemptRound, hopen, fileFor, hcopy'])

/-- A file of a known size is asked for again only as often as it lacks bytes. -/
theorem Repeats.le (h : Repeats src start n (some file) w part' w') (htotal : file.expect.total = some t) :
    n ≤ t - file.writer.written := by
  generalize hpart : some file = part at h
  induction h generalizing file with
  | refl => exact Nat.zero_le _
  | step h _ ih =>
    cases hpart
    obtain ⟨t', -, htotal', hshort⟩ := h.short
    have hsame : t = t' := by simpa [htotal, htotal'] using h.total
    have hmore := ih (htotal'.trans (congrArg some hsame.symm)) rfl
    have hgrown := h.grown
    omega

/-- Every repeat took a reply. -/
theorem Repeats.replied (h : Repeats src start n part w part' w') : n ≤ w.replies.length := by
  induction h with
  | refl => exact Nat.zero_le _
  | step h _ ih =>
    have hless := h.replied
    omega

/-- With fuel for the repeats and one round more, an attempt gives what the round after them returns. -/
theorem Repeats.loop {out : Except ε Part × Option Part × World ρ} (h : Repeats src start n part w part' w')
    (hout : attemptRound src start part' w' = .returned out) (fuel : Nat) :
    attemptLoop src start (n + fuel + 1) part w = some out := by
  induction h with
  | refl => simp only [attemptLoop, hout]
  | @step n _ _ _ _ _ _ h _ ih =>
    rw [Nat.add_right_comm n 1 fuel, attemptLoop, h.again]
    exact ih hout

theorem repeats_then_returns {m : Nat} (hm : ∀ old ∈ part, u64Max ≤ old.writer.written + m)
    (hsize : ∀ old ∈ part, ∀ t ∈ old.expect.total, t ≤ u64Max) :
    ∃ n ≤ m, ∃ part' w' out, Repeats src start n part w part' w' ∧ attemptRound src start part' w' = .returned out := by
  induction m using Nat.strongRecOn generalizing part w with
  | ind m ih =>
    rcases attemptRound_cases part w hsize with ⟨out, hout⟩ | ⟨old, file, w₁, rfl, hasked⟩
    · exact ⟨0, Nat.zero_le _, part, w, out, .refl part w, hout⟩
    obtain ⟨t, ht, htotal, hshort⟩ := hasked.short
    have hgrown := hasked.grown
    have hleft := hm old rfl
    obtain ⟨n, hn, part', w', out, hmore, hout⟩ :=
      @ih (m - 1) (by omega) (some file) w₁ (by rintro _ ⟨⟩; omega) (by simp [htotal, ht])
    exact ⟨n + 1, by omega, part', w', out, .step hasked hmore, hout⟩

/-- Whatever the server answers, an attempt returns: some rounds ask again, and the round after them returns what the attempt
gives, with any fuel above their number. Each of them made the file longer, and there are no more of them than a known size
leaves bytes to fetch, or than a size can count. -/
theorem attempt_ends (src : Source ρ ε) (start : Nat) (part : Option Part) (w : World ρ)
    (hsize : ∀ old ∈ part, ∀ t ∈ old.expect.total, t ≤ u64Max) :
    ∃ n ≤ u64Max, ∃ part' w', Repeats src start n part w part' w' ∧
      attemptRound src start part' w' = .returned (attempt src start part w) ∧
      (∀ fuel, attemptLoop src start (n + fuel + 1) part w = some (attempt src start part w)) ∧
      ∀ old ∈ part, ∀ t ∈ old.expect.total, n ≤ t - old.writer.written := by
  obtain ⟨n, hn, part', w', out, hrepeats, hout⟩ :=
    @repeats_then_returns ρ ε src start part w u64Max (fun _ _ => Nat.le_add_left _ _) hsize
  have hattempt : attempt src start part w = out := by
    have hloop := hrepeats.loop hout (w.replies.length - n)
    rw [Nat.add_sub_cancel' hrepeats.replied] at hloop
    simp [attempt, hloop]
  rw [hattempt]
  refine ⟨n, hn, part', w', hrepeats, hout, hrepeats.loop hout, ?_⟩
  rintro old rfl t ht
  exact hrepeats.le ht

/-- One byte of three. -/
def oneOfThree : Part := { writer := ⟨1, [0], 1⟩, expect := ⟨some "t", some 3⟩, resumedAt := none }

/-- A range answer of one byte of the three. -/
def oneByte (range : String) (byte : UInt8) : Except HttpError Body :=
  .ok ⟨206, some "t", some range.toList, none, [.data [byte]]⟩

/-- A server that sends the two bytes one at a time. -/
def byteByByte : World HttpError :=
  .start (some [0]) [oneByte "bytes 1-1/3" 1, oneByte "bytes 2-2/3" 2] [] [] ⟨none, 1⟩

/-- The attempt asks twice, and all three bytes are on disk when it returns. -/
theorem oneOfThree_ends :
    (∃ n ≤ 2, ∃ part' w', Repeats publicFile 0 n (some oneOfThree) byteByByte part' w' ∧
      attemptRound publicFile 0 part' w' = .returned (attempt publicFile 0 (some oneOfThree) byteByByte)) ∧
    attemptLoop publicFile 0 1 (some oneOfThree) byteByByte = none ∧
    (attempt publicFile 0 (some oneOfThree) byteByByte).2.2.dest = some [0, 1, 2] := by
  obtain ⟨n, -, part', w', hrepeats, hlast, -, hle⟩ := attempt_ends publicFile 0 (some oneOfThree) byteByByte
    (by simp [oneOfThree, u64Max])
  exact ⟨⟨n, hle _ rfl _ rfl, part', w', hrepeats, hlast⟩, by rfl, by decide⟩

end Pipette.Download
