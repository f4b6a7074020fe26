import Pipette.Android.RuneAccumulator

/-!
# Streamed text is whole text

At most three bytes are held back, and the bytes can be cut before them (`completeUtf8Length_spec`). So the texts of all pieces join
to the decoding of all bytes.
-/

namespace Pipette.Android

open Utf8 RuneAccumulator List

variable (bytes : List UInt8)

/-- How many bytes the sequence that is open after some bytes needs. -/
abbrev openAfter : Nat := owed (run none bytes).2

theorem openAfter_concat_le (b : UInt8) :
    openAfter (bytes ++ [b]) ≤ if Continues b then openAfter bytes - 1 else owed (first b).2 := by
  simpa [openAfter, run_append, run] using owed_step_le (run none bytes).2 b

/-- The masks of the source against the bytes a sequence has. -/
theorem mask_spec : ∀ b : UInt8, (b &&& 0x80 = 0 → ¬Continues b ∧ owed (first b).2 = 0) ∧ (b &&& 0xC0 = 0xC0 → ¬Continues b) ∧
    (b &&& 0x80 ≠ 0 → b &&& 0xC0 ≠ 0xC0 → Continues b) ∧ owed (first b).2 < expectedLength b ∧ expectedLength b ≤ 4 :=
  of_fin (by decide +kernel)

/-- The look back finds a first byte, or so many continuing bytes that no sequence is open. -/
theorem leaderBack_spec (before : List UInt8) (n : Nat) :
    match leaderBack (before.take n) with
    | none => openAfter before.reverse ≤ 3 - n
    | some k => ∃ xs leader ys, before.reverse = xs ++ leader :: ys ∧ ys.length = k ∧ ¬Continues leader ∧
        openAfter before.reverse ≤ owed (first leader).2 - k := by
  induction before generalizing n with
  | nil => cases n <;> exact Nat.zero_le _
  | cons b before ih =>
    obtain ⟨hascii, hleader, hcontinues, hlt, hle⟩ := mask_spec b
    have hopen := openAfter_concat_le before.reverse b
    rw [reverse_cons]
    cases n with
    | zero =>
      have hbefore : openAfter before.reverse ≤ 3 := ih 0
      refine Nat.le_trans hopen ?_
      split <;> omega
    | succ n =>
      rw [take_succ_cons, leaderBack]
      by_cases h80 : b &&& 0x80 = 0
      · rw [if_neg (hascii h80).1, (hascii h80).2] at hopen
        rw [if_pos h80]
        exact Nat.le_trans hopen (Nat.zero_le _)
      by_cases hC0 : b &&& 0xC0 = 0xC0
      · rw [if_neg (hleader hC0)] at hopen
        rw [if_neg h80, if_pos hC0]
        exact ⟨before.reverse, b, [], rfl, rfl, hleader hC0, hopen⟩
      · rw [if_pos (hcontinues h80 hC0)] at hopen
        rw [if_neg h80, if_neg hC0]
        have hbefore := ih n
        cases hback : leaderBack (before.take n) with
        | none =>
          rw [hback] at hbefore
          exact Nat.le_trans hopen (Nat.sub_le_sub_right hbefore 1)
        | some k =>
          rw [hback] at hbefore
          obtain ⟨xs, leader, ys, hbytes, rfl, hnot, howed⟩ := hbefore
          exact ⟨xs, leader, ys ++ [b], by simp [hbytes], by simp, hnot, Nat.le_trans hopen (Nat.sub_le_sub_right howed 1)⟩

theorem completeUtf8Length_spec : ∃ xs ys, bytes = xs ++ ys ∧ completeUtf8Length bytes = xs.length ∧
    ys.length ≤ 3 ∧ ∀ more, decode (xs ++ (ys ++ more)) = decode xs ++ decode (ys ++ more) := by
  have hspec := leaderBack_spec bytes.reverse 4
  unfold completeUtf8Length
  cases hback : leaderBack (bytes.reverse.take 4) with
  | none =>
    rw [hback, reverse_reverse] at hspec
    exact ⟨bytes, [], by simp, rfl, by simp, fun _ => decode_append (.inl (Nat.le_zero.mp hspec))⟩
  | some k =>
    rw [hback, reverse_reverse] at hspec
    obtain ⟨xs, leader, ys, rfl, rfl, hleader, hopen⟩ := hspec
    obtain ⟨-, -, -, hlt, hle⟩ := mask_spec leader
    have hindex : (xs ++ leader :: ys).length - 1 - ys.length = xs.length := by simp
    have hget : (xs ++ leader :: ys).getD xs.length 0 = leader := by simp
    have hactual : (xs ++ leader :: ys).length - xs.length = ys.length + 1 := by simp
    simp only [hindex, hget, hactual]
    split
    next hlong => exact ⟨xs ++ leader :: ys, [], by simp, rfl, by simp, fun _ => decode_append (.inl (show openAfter _ = 0 by omega))⟩
    next hshort => exact ⟨xs, leader :: ys, rfl, rfl, by simp; omega, fun _ => decode_append (.inr ⟨leader, rfl, hleader⟩)⟩

variable (a : RuneAccumulator) (ha : a.pending.length ≤ 3)
include ha

/-- One piece: with what is held back after it, what follows is decoded as it was before. -/
theorem accumulate_spec (bytes more : List UInt8) :
    decode (a.pending ++ (bytes ++ more)) = (a.accumulate bytes).1 ++ decode ((a.accumulate bytes).2.pending ++ more) ∧
      (a.accumulate bytes).2.pending.length ≤ 3 := by
  unfold accumulate
  split
  next hbytes => simp [hbytes, ha]
  next =>
    have hcombined : (if a.pending = [] then bytes else a.pending ++ bytes) = a.pending ++ bytes := by split <;> simp_all
    obtain ⟨xs, ys, hcut, hlength, hys, hdecode⟩ := completeUtf8Length_spec (a.pending ++ bytes)
    simp only [hcombined]
    rw [← append_assoc, hlength, hcut]
    split
    next hxs => simpa [length_eq_zero_iff.mp hxs] using hys
    next => simpa using ⟨hdecode more, hys⟩

theorem accumulateAll_spec (pieces : List (List UInt8)) (more : List UInt8) : decode (a.pending ++ (pieces.flatten ++ more)) =
        (a.accumulateAll pieces).1 ++ decode ((a.accumulateAll pieces).2.pending ++ more) ∧
      (a.accumulateAll pieces).2.pending.length ≤ 3 := by
  induction pieces generalizing a with
  | nil => simp [accumulateAll, ha]
  | cons bytes pieces ih =>
    obtain ⟨htext, hheld⟩ := accumulate_spec a ha bytes (pieces.flatten ++ more)
    obtain ⟨hrest, hend⟩ := ih _ hheld
    exact ⟨by rw [flatten_cons, append_assoc, htext, hrest, accumulateAll, append_assoc], hend⟩

omit ha

/-- For any bytes in any pieces: what is given before the end is how the decoding of the whole starts, whatever pieces follow,
so it has no mark that the whole has not; and never more than three bytes are held back. -/
theorem streamed_eq_whole (pieces : List (List UInt8)) :
    (accumulateAll {} pieces).1 ++ (accumulateAll {} pieces).2.flush.1 = decode pieces.flatten ∧
      (∀ later, (accumulateAll {} pieces).1 <+: decode (pieces ++ later).flatten) ∧
      (accumulateAll {} pieces).2.pending.length ≤ 3 := by
  have hspec := accumulateAll_spec {} (Nat.zero_le 3) pieces
  refine ⟨?_, fun later => ?_, (hspec []).2⟩
  · have hflush : ∀ a : RuneAccumulator, a.flush.1 = decode a.pending := fun a => by
      unfold flush
      split
      next hnone => simp [hnone, decode, run, rest]
      next => rfl
    simpa [hflush] using (hspec []).1.symm
  · rw [flatten_append]
    exact ⟨_, (hspec later.flatten).1.symm⟩

end Pipette.Android
