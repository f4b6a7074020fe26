import Pipette.Evals.Json
import Pipette.Lemmas.EvalChunks

/-!
# A cell over chunks

For every source of chunks: the cell asks for ascending positions that its checkpoint had not settled, does nothing with a
chunk it refuses, sends of every other one exactly the samples still to do, comes to an end, and has a result only if every id
of the dataset has a completed row.
-/

namespace Pipette.Measurement

open Evals List Cell

variable {k : Codec} {start : Session}

/-! ## How often a sample is sent -/

/-- Whether a send was alone. -/
def Event.alone : Event → Option Bool
  | .sent _ alone => some alone
  | _ => none

/-- The sends of an id in a log, each with whether it was alone. -/
def sends (log : List Event) (id : Text) : List Bool := (about log id).filterMap Event.alone

/-- An id is not sent, sent once, or sent again alone after it was lost beside others. -/
def AtMostTwice (log : List Event) (id : Text) : Prop :=
  sends log id = [] ∨ (∃ alone, sends log id = [alone]) ∨ (sends log id = [false, true] ∧ .lost id ∈ log)

variable {log : List Event} {id : Text} {source : ChunkSource} {s : Session}

theorem atMostTwice_of_flying {alone again : Bool} {es rest : List Event}
    (hpath : Path id (.flying alone again) es) (hlog : about log id = es ++ rest) (hrest : rest.filterMap Event.alone = []) :
    AtMostTwice log id := by
  unfold AtMostTwice sends
  rw [hlog, filterMap_append, hrest, append_nil]
  rcases hpath.flying_cases with rfl | rfl
  · exact .inr (.inl ⟨alone, rfl⟩)
  refine .inr (.inr ⟨rfl, mem_of_mem_filter (p := fun e => e.id = some id) ?_⟩)
  change _ ∈ about log id
  rw [hlog]
  simp

theorem atMostTwice_of_phase (h : (phase log id).isSome) : AtMostTwice log id := by
  obtain ⟨p, hp⟩ := Option.isSome_iff_exists.1 h
  have hpath := path_of_phase hp
  cases p with
  | fresh => exact .inl (by rw [sends, hpath.of_fresh]; rfl)
  | flying alone again => exact atMostTwice_of_flying hpath (append_nil _).symm rfl
  | lost => exact .inr (.inl ⟨false, by rw [sends, hpath.of_lost]; rfl⟩)
  | closed held =>
    generalize hes : about log id = es at hpath
    cases hpath with
    | next hbefore he hnext =>
      cases Phase.next_cases hnext with
      | held hrow | unheld hrow => exact atMostTwice_of_flying hbefore hes (by rcases hrow with rfl | rfl <;> rfl)

/-! ## What a cell over chunks does -/

/-- The visits of a cell, what they ended with, and the result of the cell. -/
structure Chunked (source : ChunkSource) (cell : Cell k start) (visits : List Visit) (sent : Except EvalError Unit)
    (result : Except EvalError (List Completion)) : Prop where
  log : cell.log = visits.flatMap Visit.log
  ascending : (visits.map Visit.offset).Pairwise fun i j => i < j
  unsettled : ∀ v ∈ visits, v.offset < source.declared ∧ settled start true (source.idAt v.offset) = false
  answers : ∀ (i : Nat) (v : Visit), visits[i]? = some v → v.rows = source.chunk ((visits.take (i + 1)).map Visit.offset)
  refused : ∀ (i : Nat) (v : Visit), visits[i]? = some v → ∀ e, v.refused source = some e →
    v.events = [] ∧ i + 1 = visits.length ∧ sent = .error e
  only : ∀ v ∈ visits, ∀ e ∈ v.events, ∃ id ∈ v.rows.getD [], e.id = some id ∧ settled start true id = false
  all : ∀ (i : Nat) (v : Visit), visits[i]? = some v → (i + 1 < visits.length ∨ sent = .ok ()) →
    ∀ id ∈ v.rows.getD [], settled start true id = false → ∃ c, SentIn v.events id c
  twice : ∀ id, AtMostTwice cell.log id
  ended : ∀ e, sent = .error e → result = .error e
  fueled : result ≠ .error .stuck
  complete : ∀ rows, result = .ok rows → ∀ i < source.declared, ∃ c ∈ rows, c.id = source.idAt i ∧ c.failed = false

/-- A cell with a completed row for each id of its dataset has one of every id. -/
theorem complete_of_checkComplete (h : checkComplete false s source.declared = .ok ())
    (hids : ∀ id ∈ s.completions.ids, ∃ i < source.declared, source.idAt i = id) :
    ∀ i < source.declared, ∃ c ∈ s.completions.list, c.id = source.idAt i ∧ c.failed = false := by
  unfold checkComplete at h
  dsimp only at h
  split at h
  · cases h
  · next hcount =>
    split at h
    · next hfailed =>
      have hdataset : s.completions.ids = (Finset.range source.declared).image source.idAt := by
        refine Finset.eq_of_subset_of_card_le (fun id hid => ?_) ?_
        · obtain ⟨i, hi, rfl⟩ := hids id hid
          exact Finset.mem_image_of_mem _ (Finset.mem_range.2 hi)
        · rw [Rows.card_ids, not_not.1 hcount]
          exact Finset.card_image_le.trans (Finset.card_range _).le
      intro i hi
      have hmem : source.idAt i ∈ s.completions.ids := hdataset ▸ Finset.mem_image_of_mem _ (Finset.mem_range.2 hi)
      obtain ⟨c, hc, hid⟩ := mem_map.1 (mem_toFinset.1 hmem)
      rw [s.failedCount_eq, Rows.failures, countP_eq_zero] at hfailed
      exact ⟨c, hc, hid, by simpa using hfailed c hc⟩
    · cases h

theorem checkComplete_ne_stuck {waived : Bool} {served : Nat} {e : EvalError}
    (h : checkComplete waived s served = .error e) : e ≠ .stuck := by
  unfold checkComplete at h
  dsimp only at h
  split at h
  · cases h
    simp
  split at h
  · cases h
  split at h
  · cases h
  · cases h
    simp

/-- The rows of a chunk that is not refused stand at positions of the dataset. -/
theorem Visit.exists_position {v : Visit} (h : v.refused source = none) (hid : id ∈ v.rows.getD []) :
    ∃ position < source.declared, id = source.idAt position := by
  unfold Visit.refused at h
  split at h
  · cases h
  · next ids hrows =>
    rw [hrows] at hid
    obtain ⟨-, hle, hplaced⟩ := placed_of_chunkRefused h
    obtain ⟨j, hj⟩ := getElem?_of_mem hid
    have hlt : j < ids.length := (List.getElem?_eq_some_iff.1 hj).1
    exact ⟨v.offset + j, by omega, hplaced j id hj⟩

/-- A cell over chunks visits what its checkpoint had not settled, for every source, engine and schedule. -/
theorem evalCompleteChunked_visits (k : Codec) (start : Session) (env : Env) (source : ChunkSource) (inFlight : InFlight)
    (hstart : ∀ id ∈ start.completions.ids, ∃ i < source.declared, source.idAt i = id) :
    ∃ visits sent, Chunked source (evalCompleteChunked env source inFlight (opened k start)).2 visits sent
      (evalCompleteChunked env source inFlight (opened k start)).1 := by
  have hpos : Positions source (chunkedPending start source.declared source.idAt) := positions_chunkedPending start source
  have hmem : ∀ p, p ∈ chunkedPending start source.declared source.idAt ↔
      p.1 < source.declared ∧ p.2 = source.idAt p.1 ∧ settled start true p.2 = false := fun p => mem_chunkedPending
  obtain ⟨hcell, hresult⟩ := evalCompleteChunked_result env source inFlight (opened k start)
    (rfl : chunkedPending start source.declared source.idAt = _)
  rw [hcell]
  generalize chunkedPending start source.declared source.idAt = todo at hpos hmem hresult ⊢
  obtain ⟨visits, htrace⟩ := @exists_chunkTrace k start env source todo inFlight todo.length 0 [] (opened k start) hpos Open.nil
    (fun _ _ => rfl) (Nat.le_refl _)
  rw [drop_zero] at htrace
  generalize (evalCompleteChunked env source inFlight (opened k start)).1 = result at hresult ⊢
  generalize chunksFrom env source inFlight todo todo.length 0 [] (opened k start) = out at htrace hresult ⊢
  obtain ⟨sent, cell⟩ := out
  -- a given id is one of the chunk's that the checkpoint has not settled
  have hgiven : ∀ {v : Visit} {id : Text}, id ∈ v.given todo → id ∈ v.rows.getD [] ∧ settled start true id = false := by
    intro v id hid
    obtain ⟨hid, htodo⟩ := mem_filter.1 hid
    obtain ⟨p, hp, rfl⟩ := mem_map.1 (of_decide_eq_true htodo)
    exact ⟨hid, ((hmem p).1 hp).2.2⟩
  refine ⟨visits, sent, ?_⟩
  refine ⟨htrace.visited, ?_, ?_, htrace.answers, htrace.refused, ?_, ?_, fun id => atMostTwice_of_phase (htrace.defined id), ?_, ?_, ?_⟩
  · exact (pairwise_map.2 hpos.sorted).sublist htrace.offsets
  · intro v hv
    obtain ⟨p, hp, hoffset⟩ := mem_map.1 (htrace.offsets.subset (mem_map.2 ⟨v, hv, rfl⟩))
    obtain ⟨hlt, hid, hsettled⟩ := (hmem p).1 hp
    rw [← hoffset, ← hid]
    exact ⟨hlt, hsettled⟩
  · intro v hv e he
    obtain ⟨id, hid, heid⟩ := htrace.only v hv e he
    exact ⟨id, (hgiven hid).1, heid, (hgiven hid).2⟩
  · intro i v hv hlast id hid hsettled
    have haccepted : v.refused source = none := by
      cases hrefused : v.refused source with
      | none => rfl
      | some e =>
        obtain ⟨-, hlength, hsent⟩ := htrace.refused i v hv e hrefused
        rcases hlast with hlast | hlast
        · exact absurd hlength (Nat.ne_of_lt hlast)
        · cases hsent.symm.trans hlast
    obtain ⟨position, hlt, hposition⟩ := Visit.exists_position haccepted hid
    refine htrace.all i v hv hlast id (mem_filter.2 ⟨hid, decide_eq_true (mem_map.2 ⟨(position, id), ?_, rfl⟩)⟩)
    exact (hmem _).2 ⟨hlt, hposition, hsettled⟩
  · rintro e rfl
    cases hresult
    rfl
  · intro hstuck
    cases hresult with
    | stopped => exact htrace.fueled (by rw [Except.error.inj hstuck])
    | refused hcheck => exact checkComplete_ne_stuck hcheck (Except.error.inj hstuck)
    | complete hcheck => cases hstuck
  · intro rows hrows
    cases hresult with
    | stopped | refused hcheck => cases hrows
    | complete hcheck =>
      cases hrows
      refine complete_of_checkComplete hcheck fun id hid => ?_
      by_cases htodo : ∃ p ∈ todo, p.2 = id
      · obtain ⟨p, hp, rfl⟩ := htodo
        exact ⟨p.1, ((hmem p).1 hp).1, ((hmem p).1 hp).2.1.symm⟩
      · have hfresh : phase cell.log id = some .fresh := htrace.frame id fun p hp heq => htodo ⟨p, hp, heq⟩
        rw [mem_ids_iff, rowsWith_of_fresh hfresh, ← mem_ids_iff] at hid
        exact hstart id hid

/-- Three rows, in chunks of two. -/
def threeRows : ChunkSource where
  declared := 3
  idAt i := replicate (i + 1) 's'
  chunk asked := asked.getLast?.map fun offset => ((range 3).drop offset |>.take 2).map fun i => replicate (i + 1) 's'
  idAt_inj i j _ _ h := by simpa using congrArg length h

/-- A checkpoint with a row of the second sample. -/
def secondDone : Session :=
  openIn json ⟨"00ff", none⟩
    (some (checkpointBody json ⟨"00ff", none⟩ [⟨"ss", "yes", false, none, .eos, none, some 1⟩]))

/-- An engine that completes the one sample of each attempt. -/
def answering : Env where
  pick _ := 0
  move t := if t % 2 = 0 then .record 0 (.completed "a" .eos none (some 1)) else .finish
  fault _ := none

theorem threeRows_visits :
    ∃ visits sent, Chunked threeRows (evalCompleteChunked answering threeRows (.batch 1) (opened json secondDone)).2 visits sent
      (evalCompleteChunked answering threeRows (.batch 1) (opened json secondDone)).1 :=
  evalCompleteChunked_visits json secondDone answering threeRows (.batch 1) (by decide +kernel)

/-- The settled position is not asked for on its own, and its sample is not sent. -/
example : (evalCompleteChunked answering threeRows (.batch 1) (opened json secondDone)).2.log.map Event.offset =
    [some 0, none, none, some 2, none, none] := by decide +kernel

end Pipette.Measurement
