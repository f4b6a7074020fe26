import Pipette.Lemmas.CatalogPull
import Pipette.Theorems.DetailTags

/-!
# A list `304` and the list it validates

A pull that is answered `304` goes on with the list on disk. That is the list this server sent with the tag exactly if it is
still the one that came with the tag in the sync state. A pull cut short between its two writes leaves another.
-/

namespace Pipette.Benchmarks

open Threads

variable {ρ δ ν : Type}

/-- The stores that pulls against any servers leave, one after the other, each cut short anywhere or not. -/
inductive Pulled (F : Format ρ δ) : Disk ρ δ ν → Prop where
  | empty : Pulled F Disk.empty
  | pull {s s' : Disk ρ δ ν} {server : ServerUrl} {x : Option (Option Nat)} :
      Pulled F s → Exec (machine ρ δ ν) 0 (pullRemoteBenchmarks F server) s x s' → Pulled F s'

/-- Whatever cached list the next pull takes after a `304`, this server served it with the tag sent. -/
def TakesValidated (F : Format ρ δ) (s : Disk ρ δ ν) : Prop :=
  ∀ server x s', Exec (machine ρ δ ν) 0 (pullRemoteBenchmarks F server) s x s' →
    ∃ new, s'.taken = s.taken ++ new ∧ ∀ list ∈ new, Validated s' list

/-- No server has sent two lists with the same tag. -/
def TagsIdentify (s : Disk ρ δ ν) : Prop :=
  ∀ a ∈ s.served, ∀ b ∈ s.served, a.server = b.server → a.etag = b.etag → a.etag ≠ none → a.rows = b.rows

variable {F : Format ρ δ} {s : Disk ρ δ ν} {server : ServerUrl}

theorem exec_kept {s' : Disk ρ δ ν} {x : Option (Option Nat)} (hs : Paired s)
    (hrun : Exec (machine ρ δ ν) 0 (pullRemoteBenchmarks F server) s x s') : Kept s s' :=
  (keeps_pullRemoteBenchmarks s hs server (fun _ h => h) s x s' (kept_self hs) rfl hrun).1

theorem Pulled.paired (h : Pulled F s) : Paired s := by
  induction h with
  | empty =>
    rintro server tag ⟨state, hstate, -⟩
    cases hstate
  | pull _ hrun ih => exact (exec_kept ih hrun).paired

/-- Nothing fails, and the server's list has this tag. -/
def unchanged (tag : EntityTag) : Choice ρ ν where
  fails := false
  names := []
  clock := none
  refused := none
  current := []
  tag := some tag
  notModified := true
  names304 := false
  detail := .notModified none

theorem exec_getSyncState (s : Disk ρ δ ν) (tag : EntityTag) : Exec (machine ρ δ ν) 0 getSyncState s (some (some s.sync)) s := by
  refine .bind (.call ⟨unchanged tag, rfl⟩) ?_
  cases hsync : s.sync with
  | none => exact .done
  | some state =>
    refine .bind (.call ⟨unchanged tag, rfl⟩) ?_
    rw [hsync]
    exact .done

theorem exec_listRemoteIndex (s : Disk ρ δ ν) (tag : EntityTag) :
    Exec (machine ρ δ ν) 0 listRemoteIndex s (some (some (s.index.getD []))) s := by
  refine .bind (.call ⟨unchanged tag, rfl⟩) ?_
  cases hindex : s.index with
  | none => exact .done
  | some rows => exact .call ⟨unchanged tag, by simp [act, unchanged, hindex]⟩

/-- A pull that is answered `304` to the tag in the sync state, and is cut short right after. -/
theorem exec_took (F : Format ρ δ) {tag : EntityTag} (hnames : Names s server tag) :
    Exec (machine ρ δ ν) 0 (pullRemoteBenchmarks F server) s none
      { s with answered := none, taken := s.taken ++ [⟨server, s.index.getD [], some tag⟩] } := by
  obtain ⟨state, hsync, hserver, htag⟩ := hnames
  have hprevious : s.sync.filter (fun state => decide (state.serverUrl = some server)) = some state := by
    simp [hsync, hserver]
  have hsent : previousBenchmarksEtag (!(s.index.getD []).isEmpty || (s.sync.filter fun state => state.serverUrl = some server).isSome)
      (s.sync.filter fun state => state.serverUrl = some server) = some tag := by
    simp [previousBenchmarksEtag, hprevious, htag]
  have hask : (machine ρ δ ν).step 0 (.listBenchmarks server (previousBenchmarksEtag _ _)) s (.ok (.notModified none))
      { s with answered := none } := ⟨unchanged tag, by rw [hsent]; simp [act, unchanged]⟩
  have htook : (machine ρ δ ν).step 0 (.took ⟨server, s.index.getD [], previousBenchmarksEtag _ _⟩) { s with answered := none } ()
      { s with answered := none, taken := s.taken ++ [⟨server, s.index.getD [], some tag⟩] } :=
    ⟨unchanged tag, by rw [hsent]; rfl⟩
  refine .bind (exec_getSyncState s tag) (.bind (exec_listRemoteIndex s tag) (.bind (.call hask) ?_))
  simp only [hprevious, Option.isSome_some, Bool.or_true, if_true]
  exact .bind (.call htook) .kill

/-- After any pulls, the next one takes only lists that this server served with the tag sent, if the list on disk is the one
that came with the tag in the sync state; and only if it is, where no server sends two lists with the same tag. -/
theorem takesValidated_of_settled (F : Format ρ δ) {s : Disk ρ δ ν} (h : Pulled F s) :
    (Settled s → TakesValidated F s) ∧ (TagsIdentify s → TakesValidated F s → Settled s) := by
  constructor
  · intro hsettled server x s' hrun
    obtain ⟨new, htaken, hvalid⟩ := (exec_kept h.paired hrun).taken
    exact ⟨new, htaken, hvalid hsettled⟩
  · intro hidentify htakes server tag hnames
    obtain ⟨new, htaken, hvalid⟩ := htakes server _ _ (exec_took F hnames)
    obtain rfl := List.append_cancel_left htaken
    obtain ⟨-, hserved⟩ := hvalid _ (List.mem_singleton_self _)
    exact hidentify _ hserved _ (h.paired server tag hnames) rfl rfl nofun

/-! ## A pull cut short between its two files -/

def serverA : ServerUrl := "https://a.example"

def serverB : ServerUrl := "https://b.example"

def img80Row : BenchmarkSummary Unit := ⟨"img80", "vl_latency", []⟩

/-- A server with this list and tag, that answers `304` where it may; nothing fails. -/
def serving (rows : List (BenchmarkSummary Unit)) (tag : EntityTag) : Choice Text Unit where
  fails := false
  names := ["img80"]
  clock := some "2026-01-01T00:00:00Z"
  refused := none
  current := rows
  tag := some tag
  notModified := true
  names304 := true
  detail := .modified "img80" none

/-- A pull against a server that serves this, cut short after `n` operations. -/
def pullFor (n : Nat) (server : ServerUrl) (rows : List (BenchmarkSummary Unit)) (tag : EntityTag) (s : Disk Text Text Unit) :
    Option (Option Nat) × Disk Text Text Unit :=
  (pullRemoteBenchmarks plainFormat server).play (machine Text Text Unit) choose 0 (List.replicate n (serving rows tag)) s

theorem exec_pullFor (n : Nat) (server : ServerUrl) (rows : List (BenchmarkSummary Unit)) (tag : EntityTag)
    (s : Disk Text Text Unit) : Exec (machine Text Text Unit) 0 (pullRemoteBenchmarks plainFormat server) s
      (pullFor n server rows tag s).1 (pullFor n server rows tag s).2 :=
  Prog.exec_play step_of_choose _ _ _

/-- A whole pull against the first server. -/
def pulledA : Disk Text Text Unit := (pullFor 20 serverA [img80Row] firstTag Disk.empty).2

/-- A pull against the second server, which has no benchmarks, cut short between its list and its sync state. -/
def cutAtB : Disk Text Text Unit := (pullFor 11 serverB [] secondTag pulledA).2

theorem pulled_pulledA : Pulled plainFormat pulledA := .pull .empty (exec_pullFor 20 serverA [img80Row] firstTag Disk.empty)

/-- After the whole pull the list on disk is the one that came with the tag, and a `304` is used rightly. -/
theorem pulledA_takesValidated : Settled pulledA ∧ TagsIdentify pulledA ∧ TakesValidated plainFormat pulledA := by
  have hindex : pulledA.index.getD [] = pulledA.full := by decide
  have hsettled : Settled pulledA := fun _ _ _ => hindex
  have hidentify : TagsIdentify pulledA := by
    unfold TagsIdentify
    decide
  exact ⟨hsettled, hidentify, (takesValidated_of_settled plainFormat pulled_pulledA).1 hsettled⟩

/-- The next pull against the first server is answered `304` and takes the list of the second, which the first never served. -/
theorem cut_pull_keeps_unserved_list : ∃ s s' : Disk Text Text Unit, Pulled plainFormat s ∧
    Exec (machine Text Text Unit) 0 (pullRemoteBenchmarks plainFormat serverA) s (some (some 0)) s' ∧
    s.taken = [] ∧ s'.taken = [⟨serverA, [], some firstTag⟩] ∧ ∀ list ∈ s'.served, list.server = serverA → list.rows ≠ [] := by
  refine ⟨cutAtB, _, .pull pulled_pulledA (exec_pullFor 11 serverB [] secondTag pulledA),
    exec_pullFor 20 serverA [img80Row] firstTag cutAtB, ?_, ?_, ?_⟩
  all_goals decide

end Pipette.Benchmarks
