import Pipette.Worker.InFlight

/-!
# A job that could not start its marker

`startWithHeartbeat` by itself, with every answer it can get. Until the marker is in place the temporary file is removed, and
once the guard exists it removes the marker. Between the two nobody does: if the directory cannot be synced after the rename,
the job is refused and its marker stays.
-/

namespace Pipette.Marker

open Threads

/-- The marker, the temporary file and what was written to it, and which of the next answers are bad: a job that is to stop, a
failed operation, a thread that cannot be started. -/
structure Disk where
  marker : Option InFlight
  tmp : Option (Option InFlight)
  bad : Nat → Bool

/-- The next answer is good. -/
def Disk.good (d : Disk) : Bool × Disk := (!d.bad 0, { d with bad := fun n => d.bad (n + 1) })

/-- What an operation of a start does. No removal fails; what a start never does is `none`. -/
def handle : (o : Op) → Disk → Option (Ans o × Disk)
  | .register, d | .deregister, d | .lockClosing, d | .unlockClosing, d | .drop, d => some ((), d)
  | .readClosing, d => some (!d.good.1, d.good.2)
  | .loadStop, d => some (!d.good.1, d.good.2)
  | .createDir, d => some d.good
  | .createTmp, d => some (d.good.1, { d.good.2 with tmp := if d.good.1 then some none else d.tmp })
  | .writeTmp m, d => some (d.good.1, { d.good.2 with tmp := some (if d.good.1 then some m else none) })
  | .syncTmp, d => some d.good
  | .rename, d => some (d.good.1, if d.good.1 then { d.good.2 with marker := d.tmp.join, tmp := none } else d.good.2)
  | .syncDir, d => some d.good
  | .removeTmp, d => some ((), { d with tmp := none })
  | .removeMarker, d => some (if d.marker = none then .notFound else .removed, { d with marker := none })
  | .spawn, d => some d.good
  | _, _ => none

/-- A program by itself. -/
def run {α : Type} : Act α → Disk → Option (α × Disk)
  | .done a, d => some (a, d)
  | .op o next, d => (handle o d).bind fun (r, d) => run (next r) d

/-- The first bad answer is the `n`-th. -/
def Disk.BadAt (d : Disk) (n : Nat) : Prop := d.bad n ∧ ∀ k < n, d.bad k = false

/-- The marker is of the job. -/
def Disk.Names (d : Disk) (marker : InFlight) : Prop := ∃ m ∈ d.marker, m.jobId = marker.jobId

theorem Disk.BadAt.unique {d : Disk} {m n : Nat} (hm : d.BadAt m) (hn : d.BadAt n) : m = n := by
  rcases Nat.lt_trichotomy m n with h | h | h
  · exact absurd (hn.2 m h) (by simp [hm.1])
  · exact h
  · exact absurd (hm.2 n h) (by simp [hn.1])

theorem Disk.badAt_or (d : Disk) (n : Nat) : (∀ k < n, d.bad k = false) ∨ ∃ k < n, d.BadAt k := by
  induction n with
  | zero => exact .inl nofun
  | succ n ih =>
    rcases ih with hgood | ⟨k, hk, hbad⟩
    · cases hn : d.bad n with
      | false => exact .inl fun k hk => (Nat.lt_succ_iff_lt_or_eq.1 hk).elim (hgood k) (· ▸ hn)
      | true => exact .inr ⟨n, Nat.lt_succ_self n, hn, hgood⟩
    · exact .inr ⟨k, Nat.lt_succ_of_lt hk, hbad⟩

attribute [local simp] run handle Disk.good bind Prog.bind pure call Prog.call startWithHeartbeat startable MarkerStore.write
  MarkerStore.replace MarkerStore.remove dropRun

/-- A start that fails leaves neither file exactly when not the sync of the directory failed, which is its eighth step; and a
marker of the job that was there before goes only if the thread, the ninth, could not be started. -/
theorem unstarted_iff (marker : InFlight) (d : Disk) (htmp : d.tmp = none) :
    (run (startWithHeartbeat marker) d).isSome ∧ ∀ d', run (startWithHeartbeat marker) d = some (false, d') →
      (d'.tmp = none ∧ ¬d'.Names marker ↔ ¬d.BadAt 7 ∧ (d.Names marker → d.BadAt 8)) := by
  -- the run is followed through every step up to the bad answer
  rcases d.badAt_or 9 with hgood | ⟨n, hn, hbad⟩
  · simp [hgood]
  · have hother : ∀ m, d.BadAt m ↔ m = n := fun m => ⟨fun h => h.unique hbad, fun h => h ▸ hbad⟩
    obtain ⟨hbad, hbefore⟩ := hbad
    interval_cases n <;> simp [Disk.Names, hother, hbad, hbefore, htmp]

def refusedJob : InFlight := ⟨"job-1", none, "2026-01-01T00:00:00Z", none⟩

/-- The heartbeat thread cannot be started, and nothing is left. -/
theorem unstarted_thread : ∃ d', run (startWithHeartbeat refusedJob) ⟨none, none, (· = 8)⟩ = some (false, d') ∧
    d'.tmp = none ∧ ¬d'.Names refusedJob :=
  ⟨_, rfl, ((unstarted_iff refusedJob ⟨none, none, (· = 8)⟩ rfl).2 _ rfl).2 ⟨by simp [Disk.BadAt], by simp [Disk.Names]⟩⟩

/-- The directory cannot be synced: the job is refused, and its marker stays. -/
theorem unstarted_synced : ∃ d', run (startWithHeartbeat refusedJob) ⟨none, none, (· = 7)⟩ = some (false, d') ∧
    d'.marker = some refusedJob := ⟨_, rfl, rfl⟩

end Pipette.Marker
