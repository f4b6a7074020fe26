import Pipette.Lemmas.Resume
import Pipette.Download.Vault

/-!
# Vault downloads are what their record pins

For every script of records, replies and disk behaviour and every retry policy: a vault fetch that returns a record leaves the
bytes it hashed, their hash is the record's pin and the plan's pin, and no file whose pin failed is ever continued.
-/

namespace Pipette.Download

open Retry

/-- What holds of a vault fetch between two attempts. -/
structure VaultState.Ok (s : VaultState) : Prop where
  kept : KeptOk (fun _ _ => True) (fun _ => True) s.part s.world
  sound : s.world.Sound

/-- No caller assumption: the rule every download meets. -/
theorem attemptRule_true {ρ ε : Type} (src : Source ρ ε) : AttemptRule src (fun _ _ => True) (fun _ => True) (fun _ => True) := by
  constructor <;> intros <;> trivial

/-- Filtering the kept file, and setting the total of the progress, leave a sound state. -/
theorem VaultState.Ok.filter {s : VaultState} (h : s.Ok) (p : Part → Bool) (reporter : Reporter) :
    KeptOk (fun _ _ => True) (fun _ => True) (s.part.filter p) { s.world with reporter } := by
  intro file hfile
  obtain ⟨hsome, -⟩ := Option.filter_eq_some_iff.1 hfile
  obtain ⟨⟨hdest, hin, hclean⟩, -⟩ := h.kept file hsome
  exact ⟨⟨hdest, hin, hclean⟩, fun _ => trivial⟩

variable (sha : Bytes → Text)

/-- The destination holds the bytes that were hashed, and their hash is the pin. -/
def Verified (record : VaultResource) (w : World ApiError) : Prop :=
  ∃ bytes, w.dest = some bytes ∧ w.log.getLast? = some (.verified bytes) ∧ sha bytes = record.sha256

/-- One attempt at the content keeps the state sound, and verifies the file when it succeeds. -/
theorem fetchContent_spec (record : VaultResource) (start : Nat) (s : VaultState) (h : s.Ok) :
    (fetchContent sha record start s).2.Ok ∧
      ((fetchContent sha record start s).1 = .ok () → Verified sha record (fetchContent sha record start s).2.world) := by
  have hattempt := attempt_rule (attemptRule_true (vaultContent record)) start _ _
    (h.filter (fun file => file.expect = expectOf record) (s.world.reporter.setTotalIfUnknown (some record.bytes)))
  have hsound := hattempt.sound h.sound
  unfold fetchContent
  simp only
  rcases hout : attempt (vaultContent record) start (s.part.filter fun file => file.expect = expectOf record)
    { s.world with reporter := s.world.reporter.setTotalIfUnknown (some record.bytes) } with ⟨_ | file, part, w⟩
  · rw [hout] at hattempt hsound
    exact ⟨⟨hattempt.kept, hsound⟩, by simp⟩
  rw [hout] at hattempt hsound
  -- nothing else is kept beside the returned file, so a file that fails its pin is gone
  obtain ⟨rfl, hheld, -⟩ := hattempt.returned file rfl
  simp only
  split
  · refine ⟨⟨?_, hsound⟩, by simp⟩
    rintro file' hfile
    cases hfile
    exact ⟨hheld, fun _ => trivial⟩
  split
  · cases file.resumedAt <;> exact ⟨⟨by simp [KeptOk], hsound.event rfl (by simp)⟩, by simp⟩
  · rename_i hpin
    exact ⟨⟨by simp [KeptOk], hsound.event rfl (by simp)⟩,
      fun _ => ⟨file.writer.hashed, hheld.dest, by simp, by simpa using hpin⟩⟩

/-- Reading a record moves neither the file nor the log, and one that is returned agrees with the plan's pin. -/
theorem readRecord_spec (pinned : Option Text) (s : VaultState) :
    (readRecord pinned s).2.part = s.part ∧ (readRecord pinned s).2.world = s.world ∧
      ∀ record, (readRecord pinned s).1 = .ok record → ∀ plan, pinned = some plan → plan = record.sha256 := by
  unfold readRecord
  rcases hr : s.records with _ | ⟨_ | record, records⟩
  · simp
  · simp
  cases pinned with
  | none => simp
  | some plan =>
    simp only
    split
    · simp
    · simp_all

/-- An attempt keeps the state sound, and when it returns a record the file is verified against it. -/
theorem fetchAttempt_spec (registered : Bool) (pinned : Option Text) (start : Nat) (s : VaultState)
    (h : s.Ok) :
    (fetchAttempt sha registered pinned start s).2.Ok ∧
      ∀ record, (fetchAttempt sha registered pinned start s).1 = .ok record →
        Verified sha record (fetchAttempt sha registered pinned start s).2.world ∧
          ∀ plan, pinned = some plan → plan = record.sha256 := by
  unfold fetchAttempt
  cases registered with
  | false => exact ⟨h, by simp⟩
  | true =>
    obtain ⟨hpart, hworld, hpin⟩ := readRecord_spec pinned s
    have h₁ : (readRecord pinned s).2.Ok := ⟨by rw [hpart, hworld]; exact h.kept, by rw [hworld]; exact h.sound⟩
    rcases hread : readRecord pinned s with ⟨_ | record, s₁⟩
    · rw [hread] at h₁
      exact ⟨h₁, by simp⟩
    rw [hread] at h₁ hpin
    obtain ⟨hok, hverified⟩ := fetchContent_spec sha record start s₁ h₁
    rcases hfetch : fetchContent sha record start s₁ with ⟨err | _, s₂⟩
    · rw [hfetch] at hok
      simpa [hfetch] using hok
    rw [hfetch] at hok hverified
    simp only [Bool.not_true, Bool.false_eq_true, if_false, hfetch]
    refine ⟨hok, ?_⟩
    rintro record' hrecord
    cases hrecord
    exact ⟨hverified rfl, hpin record rfl⟩

/-- In a sound log a continuation after a failed pin has a creation of the file between the two. -/
theorem created_of_neverContinued {ρ : Type} {log a b c : List (Event ρ)} {offset : Nat} (h : neverContinued true log)
    (hlog : log = a ++ .pinFailed :: b ++ .resumed offset :: c) : .created ∈ b := by
  by_contra hno
  have hb : b.foldl Event.clean false = false := by
    clear h hlog
    induction b with
    | nil => rfl
    | cons ev b ih =>
      have hev : ev.clean false = false := by cases ev <;> simp_all [Event.clean]
      rw [List.foldl_cons, hev]
      exact ih fun hmem => hno (List.mem_cons_of_mem _ hmem)
  rw [hlog, List.append_assoc, neverContinued_append, List.cons_append] at h
  simp [neverContinued, Event.clean, neverContinued_append, hb] at h

/-- Whatever the server answers and the disk does: a vault fetch that returns a record leaves exactly the bytes it hashed,
their hash is the record's pin, and the plan's pin is that pin. Between a failed pin and a continuation, the file was
created again. -/
theorem fetchToFile_verified (registered : Bool) (pinned : Option Text) (policy : Policy)
    (records : List (Except ApiError VaultResource)) (dest : Option Bytes) (replies : List (Except ApiError Body))
    (chunks : List (List WriteStep)) (creates : List CreateStep) (reporter : Reporter) :
    let out := fetchToFile sha registered pinned policy records (World.start dest replies chunks creates reporter)
    (∀ record, out.1 = .ok record →
      (∃ bytes, out.2.world.dest = some bytes ∧ out.2.world.log.getLast? = some (.verified bytes) ∧
        sha bytes = record.sha256) ∧ ∀ plan, pinned = some plan → plan = record.sha256) ∧
      ∀ a b c offset, out.2.world.log = a ++ .pinFailed :: b ++ .resumed offset :: c → .created ∈ b := by
  intro out
  have hstart : VaultState.Ok { records, part := none, world := World.start dest replies chunks creates reporter } :=
    ⟨by simp [KeptOk], rfl⟩
  obtain ⟨hend, hverified⟩ := retrying_spec
    (Q := fun record s => Verified sha record s.world ∧ ∀ plan, pinned = some plan → plan = record.sha256)
    (fetchAttempt_spec sha registered pinned reporter.doneBytes) (policy.attempts - 1) hstart
  exact ⟨hverified, fun a b c offset hlog => created_of_neverContinued hend.sound hlog⟩

end Pipette.Download
