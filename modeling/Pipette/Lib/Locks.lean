import Pipette.Lib.Threads

/-!
# Exclusive locks

A table of locks, each held by one thread at most. A lock is taken only where it is free, and a thread that ends gives back every
lock it holds.
-/

namespace Threads

open Function

/-- Who holds each lock. -/
abbrev Locks (κ : Type) := κ → Option Tid

namespace Locks

variable {κ : Type} {locks : Locks κ} {t u : Tid} {k : κ}

/-- The thread gets the lock. -/
def take [DecidableEq κ] (locks : Locks κ) (t : Tid) (k : κ) : Locks κ := update locks k (some t)

/-- The lock becomes free. -/
def drop [DecidableEq κ] (locks : Locks κ) (k : κ) : Locks κ := update locks k none

/-- Every lock of a thread is given back. -/
def release (locks : Locks κ) (t : Tid) : Locks κ := fun k => if locks k = some t then none else locks k

/-- A lock that is taken is held. -/
theorem take_self [DecidableEq κ] : locks.take t k k = some t := update_self ..

/-- Taking a free lock takes none from a thread. -/
theorem take_held [DecidableEq κ] {j : κ} (hfree : locks k = none) (h : locks j = some u) : locks.take t k j = some u := by
  rw [take, update_of_ne, h]
  rintro rfl
  rw [hfree] at h
  cases h

/-- Giving back a lock takes none from another thread. -/
theorem drop_held [DecidableEq κ] {j : κ} (hk : locks k = some t) (hu : u ≠ t) (h : locks j = some u) :
    locks.drop k j = some u := by
  rw [drop, update_of_ne, h]
  rintro rfl
  rw [hk] at h
  exact hu (Option.some.inj h).symm

/-- A thread that ends gives back only its own locks. -/
theorem release_held (hu : u ≠ t) (h : locks k = some u) : locks.release t k = some u := by
  rw [release, if_neg, h]
  rw [h]
  exact fun he => hu (Option.some.inj he)

end Locks

end Threads
