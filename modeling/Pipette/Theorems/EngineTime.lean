import Pipette.Proxy.Job

/-!
# How long the app's engine has had the cell

`EngineClock` reads it off stderr as each line arrives: the time since the last dispatch line less the holds since (a corpus
fetch or a readiness wait), each from the line that opens it to the next line that closes one, or to now.
-/

namespace Pipette.Proxy

open List Option

def corpusFetch : Text := "[HEADLESS] info corpus fetching a corpus: "
def corpusReady : Text := "[HEADLESS] info corpus corpus for "
def readiness : Text := "[HEADLESS] info jobRun readiness: "

/-- What a line of stderr is to the clock. -/
inductive ClockLine where
  | dispatch
  | hold
  | release
  | other
  deriving DecidableEq

def ClockLine.ofText (text : Text) : ClockLine :=
  let line := trimText text
  let ready := readiness.isPrefixOf line
  if engineStarted.isPrefixOf line then .dispatch
  else if corpusFetch.isPrefixOf line || (ready && containsText " → waiting " line) then .hold
  else if corpusReady.isPrefixOf line ||
      (ready && (containsText " → proceeding" line || containsText " → timed out" line)) then .release
  else .other

structure EngineClock where
  since : Option Nat := none
  /-- When the fetch or wait in progress began. -/
  heldFrom : Option Nat := none
  held : Nat := 0

namespace EngineClock

variable (clock : EngineClock)

/-- All the time held until now, the fetch or wait in progress included. -/
def heldBy (now : Nat) : Nat := clock.held + (clock.heldFrom.map (now - ·)).getD 0

/-- A line, given with the moment it arrived. -/
def line (x : Text × Nat) : EngineClock :=
  match ClockLine.ofText x.1 with
  | .dispatch => { since := some x.2 }
  | .hold => { clock with heldFrom := some (clock.heldFrom.getD x.2) }
  | .release => { clock with heldFrom := none, held := clock.heldBy x.2 }
  | .other => clock

/-- The engine's time, none before the dispatch line. -/
def time (now : Nat) : Option Nat := clock.since.map fun since => now - since - clock.heldBy now

/-! ## What the time means -/

abbrev kind (x : Text × Nat) : ClockLine := ClockLine.ofText x.1

/-- The lines from the next one on that ends a hold. -/
def fromRelease (lines : List (Text × Nat)) : List (Text × Nat) := lines.dropWhile (kind · ≠ .release)

theorem fromRelease_suffix (lines : List (Text × Nat)) : fromRelease lines <:+ lines := dropWhile_suffix _

/-- When a hold ends that the given lines close: at the first of them, or now. -/
def endOf (now : Nat) (closing : List (Text × Nat)) : Nat := (closing.head?.map Prod.snd).getD now

/-- The holds of some lines, each with its begin and its end. -/
def holds (now : Nat) : List (Text × Nat) → List (Nat × Nat)
  | [] => []
  | x :: rest =>
    if kind x = .hold then (x.2, endOf now (fromRelease rest)) :: holds now (fromRelease rest) else holds now rest
termination_by lines => lines.length
decreasing_by
  · exact Nat.lt_succ_of_le (fromRelease_suffix rest).length_le
  · exact Nat.lt_succ_self _

def totalLength (spans : List (Nat × Nat)) : Nat := (spans.map fun span => span.2 - span.1).sum

@[simp] theorem totalLength_nil : totalLength [] = 0 := rfl

@[simp] theorem totalLength_cons (span : Nat × Nat) (spans : List (Nat × Nat)) :
    totalLength (span :: spans) = span.2 - span.1 + totalLength spans := rfl

variable {lines : List (Text × Nat)} {now : Nat}

/-- A hold that is open counts up to the next line that ends one. -/
theorem heldBy_open (since : Option Nat) (t held now : Nat) (h : ∀ x ∈ lines, kind x ≠ .dispatch) :
    (lines.foldl line ⟨since, some t, held⟩).heldBy now =
      ((fromRelease lines).foldl line ⟨since, none, held + (endOf now (fromRelease lines) - t)⟩).heldBy now := by
  induction lines with
  | nil => simp [fromRelease, heldBy, endOf]
  | cons x rest ih =>
    obtain ⟨hx, hrest⟩ := forall_mem_cons.1 h
    cases hkind : kind x with
    | dispatch => exact absurd hkind hx
    | hold => simpa [fromRelease, line, hkind] using ih hrest
    | release => simp [fromRelease, line, hkind, heldBy, endOf]
    | other => simpa [fromRelease, line, hkind] using ih hrest

theorem heldBy_foldl (since : Option Nat) (held : Nat) (h : ∀ x ∈ lines, kind x ≠ .dispatch) :
    (lines.foldl line ⟨since, none, held⟩).heldBy now = held + totalLength (holds now lines) := by
  fun_induction holds now lines generalizing held with
  | case1 => rfl
  | case2 x rest hkind ih =>
    obtain ⟨-, hrest⟩ := forall_mem_cons.1 h
    have hopen := heldBy_open since x.2 held now hrest
    rw [ih _ fun y hy => hrest y ((fromRelease_suffix rest).subset hy)] at hopen
    simpa [line, hkind, Nat.add_assoc] using hopen
  | case3 x rest hkind ih =>
    obtain ⟨hx, hrest⟩ := forall_mem_cons.1 h
    have hline : line ⟨since, none, held⟩ x = ⟨since, none, held⟩ := by
      unfold line
      split <;> simp_all [heldBy]
    rw [foldl_cons, hline, ih held hrest]

theorem since_foldl (clock : EngineClock) (h : ∀ x ∈ lines, kind x ≠ .dispatch) :
    (lines.foldl line clock).since = clock.since := by
  induction lines generalizing clock with
  | nil => rfl
  | cons x rest ih =>
    obtain ⟨hx, hrest⟩ := forall_mem_cons.1 h
    rw [foldl_cons, ih _ hrest]
    unfold line
    split <;> simp_all

/-- Holds come one after the other, so they fit between a moment before the lines and now. -/
theorem totalLength_holds_le {begun : Nat} (hbegun : begun ≤ now) (hsorted : (lines.map Prod.snd).Pairwise (· ≤ ·))
    (hlines : ∀ x ∈ lines, begun ≤ x.2 ∧ x.2 ≤ now) : begun + totalLength (holds now lines) ≤ now := by
  fun_induction holds now lines generalizing begun with
  | case1 => exact hbegun
  | case2 x rest hkind ih =>
    obtain ⟨⟨hx, hxnow⟩, hrest⟩ := forall_mem_cons.1 hlines
    obtain ⟨hle, hsorted⟩ := pairwise_cons.1 hsorted
    have hsuffix := fromRelease_suffix rest
    have hafter := hsorted.sublist (hsuffix.sublist.map Prod.snd)
    cases hclosed : fromRelease rest with
    | nil =>
      simp only [holds, endOf, totalLength_cons, totalLength_nil, head?_nil, map_none, getD_none]
      omega
    | cons r more =>
      rw [hclosed] at ih hafter hsuffix
      have hr : r ∈ rest := hsuffix.subset mem_cons_self
      have hxr := hle r.2 (mem_map_of_mem hr)
      have := ih (hrest r hr).2 hafter fun y hy => by
        refine ⟨?_, (hrest y (hsuffix.subset hy)).2⟩
        rcases mem_cons.1 hy with rfl | hy
        · exact Nat.le_refl _
        · exact (pairwise_cons.1 hafter).1 y.2 (mem_map_of_mem hy)
      simp only [endOf, totalLength_cons, head?_cons, map_some, getD_some]
      omega
  | case3 x rest hkind ih =>
    exact ih hbegun (pairwise_cons.1 hsorted).2 fun y hy => hlines y (mem_cons_of_mem x hy)

/-- As now moves on, only a hold still open gets longer. -/
theorem totalLength_holds_mono {later : Nat} (hlater : now ≤ later) :
    totalLength (holds later lines) ≤ totalLength (holds now lines) + (later - now) := by
  fun_induction holds now lines with
  | case1 => simp [holds]
  | case2 x rest hkind ih =>
    rw [holds, if_pos hkind]
    cases hclosed : fromRelease rest with
    | nil =>
      simp only [holds, endOf, totalLength_cons, totalLength_nil, head?_nil, map_none, getD_none]
      omega
    | cons r more =>
      rw [hclosed] at ih
      simp only [endOf, totalLength_cons, head?_cons, map_some, getD_some]
      omega
  | case3 x rest hkind ih => rwa [holds, if_neg hkind]

/-- **The engine's time is the time since the last dispatch line that no hold covers.** -/
theorem time_eq_not_held (lines : List (Text × Nat)) (now : Nat) (hsorted : (lines.map Prod.snd).Pairwise (· ≤ ·))
    (hnow : ∀ x ∈ lines, x.2 ≤ now) :
    ((∀ x ∈ lines, kind x ≠ .dispatch) → (lines.foldl line {}).time now = none) ∧
    ∀ before dispatch after, lines = before ++ dispatch :: after → kind dispatch = .dispatch →
      (∀ x ∈ after, kind x ≠ .dispatch) →
      ∃ t, (lines.foldl line {}).time now = some t ∧ (t : ℤ) = (now - dispatch.2 : ℤ) - totalLength (holds now after) ∧
        ∀ later, now ≤ later → ∃ t', (lines.foldl line {}).time later = some t' ∧ t ≤ t' := by
  constructor
  · intro h
    rw [time, since_foldl _ h]
    rfl
  · rintro before x after rfl hx hafter
    have htime : ∀ moment, ((before ++ x :: after).foldl line {}).time moment =
        some (moment - x.2 - totalLength (holds moment after)) := by
      intro moment
      have hclock : (before.foldl line {}).line x = ⟨some x.2, none, 0⟩ := by simp [line, hx]
      rw [foldl_append, foldl_cons, hclock, time, since_foldl _ hafter, heldBy_foldl _ _ hafter, Nat.zero_add]
      rfl
    rw [map_append, pairwise_append] at hsorted
    obtain ⟨hle, hsorted⟩ := pairwise_cons.1 hsorted.2.1
    have hxnow : x.2 ≤ now := hnow x (by simp)
    have hheld := totalLength_holds_le hxnow hsorted fun y hy => ⟨hle y.2 (mem_map_of_mem hy), hnow y (by simp [hy])⟩
    refine ⟨_, htime now, by omega, ?_⟩
    intro later hlater
    have := @totalLength_holds_mono after now later hlater
    exact ⟨_, htime later, by omega⟩

/-- A corpus fetch that ends, and a readiness wait that does not. -/
def heldLines : List (Text × Nat) :=
  [(corpusFetch ++ ['x'], 4), (corpusReady ++ ['x'], 7), ([], 8), (readiness ++ "x → waiting 5 s", 9)]

/-- Seven after the dispatch line, of which the fetch held three and the wait holds one. -/
theorem time_after_holds : (((engineStarted ++ ['x'], 3) :: heldLines).foldl line {}).time 10 = some 3 := by
  obtain ⟨t, htime, ht, -⟩ := (time_eq_not_held ((engineStarted ++ ['x'], 3) :: heldLines) 10 (by decide) (by decide)).2
    [] _ heldLines rfl (by decide) (by decide)
  have hholds : holds 10 heldLines = [(4, 7), (9, 10)] := by decide +kernel
  rw [hholds] at ht
  obtain rfl : t = 3 := by
    simp only [totalLength_cons, totalLength_nil] at ht
    omega
  exact htime

end EngineClock

end Pipette.Proxy
