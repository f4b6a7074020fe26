import Pipette.Lemmas.DetailCache

/-!
# A cached tag belongs to the cached bytes

Processes that cache, read and prune the same benchmarks in any interleaving, killed anywhere or not, never make a read return
a definition with a tag that came with another body.
-/

namespace Pipette.Benchmarks

open Threads

variable {ρ δ ν : Type} (F : Format ρ δ) (tasks : Tid → List Task)

/-- Any number of processes on a store that was empty, each with its tasks. -/
def processes : Pool (Op ρ δ ν) Ans (Disk ρ δ ν) :=
  ⟨Disk.empty, fun t => work F (tasks t)⟩

/-- No two bodies that servers sent have the same SHA-256. -/
def NoCollision (s : Disk ρ δ ν) : Prop :=
  ∀ a ∈ s.answers, ∀ b ∈ s.answers, textSha256 (F.pretty a.1) = textSha256 (F.pretty b.1) → F.pretty a.1 = F.pretty b.1

theorem sound_empty : Sound F (Disk.empty : Disk ρ δ ν) where
  detail _ _ h := by cases h
  etag _ _ h := by cases h
  returned _ h := by cases h

/-- Whatever a read of the cache returned with a tag, a server answered with exactly that body and that tag. -/
theorem returned_tag_of_body {p : Pool (Op ρ δ ν) Ans (Disk ρ δ ν)}
    (hrun : Reaches (machine ρ δ ν) (processes F tasks) p) (hsha : NoCollision F p.state) {read : Returned δ}
    (hread : read ∈ p.state.returned) {tag : EntityTag} (htag : read.etag = some tag) :
    F.parse read.body = some read.definition ∧ ∃ sent, (sent, some tag) ∈ p.state.answers ∧ F.pretty sent = read.body := by
  have hexit : ∀ t s, (protocol F).inv s → (protocol F).inv ((machine ρ δ ν).exit t s) ∧
      (protocol F).guar t s ((machine ρ δ ν).exit t s) := fun _ _ hs => ⟨hs, List.Subset.refl _⟩
  have hsound : Sound F p.state :=
    (hrun.holds hexit ⟨sound_empty F, fun t => safe_work (tasks t) t _ (sound_empty F) trivial⟩).1
  obtain ⟨hparsed, ⟨etag, sent, hsent, hbody⟩, htagged⟩ := hsound.returned read hread
  obtain ⟨body, hdigest, sent', hsent', rfl⟩ := htagged tag htag
  -- The body that came with the tag has the digest of the one that was read, so it is the same.
  refine ⟨hparsed, sent', hsent', ?_⟩
  rw [← hbody] at hdigest ⊢
  exact hsha _ hsent' _ hsent hdigest

/-- A wire format of plain texts, one benchmark's. -/
def plainFormat : Format Text Text where
  pretty := id
  convert := some
  parse := some
  benchmarkId := fun _ => "img80"
  acceptsId := fun _ => true
  knownType := fun _ => true

/-- A server that answers every detail request with this body and tag; nothing fails. -/
def answering (body : Text) (tag : EntityTag) : Choice Text Unit where
  fails := false
  names := []
  clock := none
  refused := none
  current := []
  tag := none
  notModified := false
  names304 := false
  detail := .modified body (some tag)

def firstTag : EntityTag := ⟨"\"1\"", by decide⟩

def secondTag : EntityTag := ⟨"\"2\"", by decide⟩

/-- Two claims of the same benchmark and a read of it. -/
def raceTasks : Tid → List Task
  | 0 => [.claim "https://mgmt" "img80"]
  | 1 => [.claim "https://mgmt" "img80"]
  | 2 => [.lookup "img80"]
  | _ => []

/-- The first claim is killed between its body and its tag; the second writes both files in between. -/
def raceTurns : List (Turn (Choice Text Unit)) :=
  let first := Turn.run 0 (answering "one" firstTag)
  let second := Turn.run 1 (answering "two" secondTag)
  let read := Turn.run 2 (answering [] firstTag)
  [first, second, first, second, first, second, first, second, first, second, second, .kill 0, read, read, read, read]

def raceEnd : Option (Pool (Op Text Text Unit) Ans (Disk Text Text Unit)) :=
  (processes plainFormat raceTasks).play (machine Text Text Unit) choose raceTurns

theorem raceEnd_returned : raceEnd.map (fun p => p.state.returned.map fun r => (r.body, r.etag)) =
    some [("two".toList, some secondTag)] := by
  decide

theorem raceEnd_answers : raceEnd.map (fun p => p.state.answers) =
    some [("one".toList, some firstTag), ("two".toList, some secondTag)] := by
  decide

/-- After the race the body and the tag of the second claim are read together. -/
theorem raced_claims_tag_of_body : ∃ p read, Reaches (machine Text Text Unit) (processes plainFormat raceTasks) p ∧
    NoCollision plainFormat p.state ∧ read ∈ p.state.returned ∧ read.etag = some secondTag ∧
    ∃ sent, (sent, some secondTag) ∈ p.state.answers ∧ plainFormat.pretty sent = read.body := by
  obtain ⟨p, hend⟩ : ∃ p, raceEnd = some p := Option.isSome_iff_exists.1 (by decide)
  have hrun : Reaches (machine Text Text Unit) (processes plainFormat raceTasks) p := Pool.reaches_of_play step_of_choose hend
  have hreturned := raceEnd_returned
  have hanswers := raceEnd_answers
  simp only [hend, Option.map_some, Option.some.injEq] at hreturned hanswers
  obtain ⟨read, hread, hpair⟩ := List.mem_map.1 (hreturned ▸ List.mem_singleton_self ("two".toList, some secondTag))
  have hsha : NoCollision plainFormat p.state := by
    rw [NoCollision, hanswers]
    decide
  have htag : read.etag = some secondTag := congrArg Prod.snd hpair
  exact ⟨p, read, hrun, hsha, hread, htag, (returned_tag_of_body plainFormat raceTasks hrun hsha hread htag).2⟩

end Pipette.Benchmarks
