import Pipette.Lib.Sha256
import Pipette.Plan.Model

/-!
# Storage keys

A model's identity segments, made filesystem-safe and joined with `__` into one directory name, capped at 32 bytes by a hash
of the full slug. A key carries the proof that all its characters are safe.
-/

namespace Pipette

open List

/-! ## Flattening -/

/-- Each run of characters outside the safe ones becomes one `_`; a leading or trailing run drops. -/
def sanitize (segment : Text) : Text :=
  intercalate ['_'] ((segment.splitOnP fun c => !isSafeChar c).filter fun run => !run.isEmpty)

/-- The safe segments joined with `__`; empty ones drop out. -/
def slugFrom (segments : List Text) : Text := intercalate ['_', '_'] ((segments.map sanitize).filter fun s => !s.isEmpty)

def maxLen : Nat := 32
def hashLen : Nat := 8

/-- The length of the text in UTF-8. -/
def utf8Len (t : Text) : Nat := (t.map Char.utf8Size).sum

/-- The longest part of the text that fits in `n` bytes. -/
def takeBytes : Nat → Text → Text
  | _, [] => []
  | n, c :: cs => if c.utf8Size ≤ n then c :: takeBytes (n - c.utf8Size) cs else []

def trimEndUnderscores (t : Text) : Text := (t.reverse.dropWhile (· = '_')).reverse

/-- The first hex digits of the slug's SHA-256. -/
def hashTail (slug : Text) : Text :=
  (Sha256.hex (slug.flatMap fun c => (String.utf8EncodeChar c).map UInt8.toNat)).take hashLen

/-- The slug, or its head and its hash when it is over the cap. -/
def boundTo (slug : Text) (max : Nat) : Text :=
  if utf8Len slug ≤ max then slug
  else trimEndUnderscores (takeBytes (max - hashLen - 1) slug) ++ '_' :: hashTail slug

def bound (slug : Text) : Text := boundTo slug maxLen

/-! ## Keys are safe names -/

variable {c : Char} {t slug : Text}

theorem mem_intercalate {sep : Text} {parts : List Text} (h : c ∈ intercalate sep parts) :
    c ∈ sep ∨ ∃ part ∈ parts, c ∈ part := by
  induction parts with
  | nil => simp [intercalate] at h
  | cons part rest ih =>
    cases rest with
    | nil => exact .inr ⟨part, mem_cons_self, by simpa [intercalate] using h⟩
    | cons next rest =>
      rw [intercalate_cons_cons, append_assoc, mem_append, mem_append] at h
      rcases h with h | h | h
      · exact .inr ⟨part, mem_cons_self, h⟩
      · exact .inl h
      · exact (ih h).imp_right fun ⟨p, hp, hc⟩ => ⟨p, mem_cons_of_mem _ hp, hc⟩

/-- What a text splits into holds none of the separators. -/
theorem not_of_mem_splitOnP {p : Char → Bool} {run : Text} (hrun : run ∈ t.splitOnP p) (hc : c ∈ run) : p c = false := by
  induction t generalizing run with
  | nil => simp_all
  | cons x t ih =>
    rw [splitOnP_cons_eq_if_modifyHead] at hrun
    split at hrun
    · rcases mem_cons.1 hrun with rfl | hrun
      · simp at hc
      · exact ih hrun hc
    · next hx =>
      cases ht : t.splitOnP p with
      | nil => exact absurd ht (splitOnP_ne_nil p t)
      | cons first rest =>
        rw [ht, modifyHead_cons, mem_cons] at hrun
        rcases hrun with rfl | hrun
        · rcases mem_cons.1 hc with rfl | hc
          · simpa using hx
          · exact ih (by simp [ht]) hc
        · exact ih (by simp [ht, hrun]) hc

theorem sanitize_safe {segment : Text} (h : c ∈ sanitize segment) : isSafeChar c := by
  rcases mem_intercalate h with hsep | ⟨run, hrun, hc⟩
  · rw [mem_singleton.1 hsep]
    decide
  · simpa using not_of_mem_splitOnP (mem_of_mem_filter hrun) hc

theorem slugFrom_safe {segments : List Text} (h : c ∈ slugFrom segments) : isSafeChar c := by
  rcases mem_intercalate h with hsep | ⟨part, hpart, hc⟩
  · obtain rfl : c = '_' := by simpa using hsep
    decide
  · obtain ⟨segment, _, rfl⟩ := mem_map.1 (mem_of_mem_filter hpart)
    exact sanitize_safe hc

theorem mem_of_mem_takeBytes {n : Nat} (h : c ∈ takeBytes n t) : c ∈ t := by
  induction t generalizing n with
  | nil => simp [takeBytes] at h
  | cons x t ih =>
    unfold takeBytes at h
    split at h
    · exact (mem_cons.1 h).elim (fun hx => hx ▸ mem_cons_self) fun ht => mem_cons_of_mem _ (ih ht)
    · simp at h

theorem mem_of_mem_trimEndUnderscores (h : c ∈ trimEndUnderscores t) : c ∈ t := by
  have hd : c ∈ t.reverse.dropWhile (· = '_') := mem_reverse.1 h
  exact mem_reverse.1 ((dropWhile_sublist _).subset hd)

theorem hashTail_safe (h : c ∈ hashTail slug) : isSafeChar c = true := by
  have hall : ∀ d ∈ "0123456789abcdef".toList, isSafeChar d = true := all_eq_true.1 rfl
  exact hall c (Sha256.hex_chars (mem_of_mem_take h))

theorem bound_safe (hs : ∀ c ∈ slug, isSafeChar c) (h : c ∈ bound slug) : isSafeChar c := by
  unfold bound boundTo at h
  split at h
  · exact hs c h
  rcases mem_append.1 h with hhead | htail
  · exact hs c (mem_of_mem_takeBytes (mem_of_mem_trimEndUnderscores hhead))
  · rcases mem_cons.1 htail with rfl | hhash
    · decide
    · exact hashTail_safe hhash

/-! ## The key of a model -/

/-- Flat storage key: a text of safe characters. -/
@[ext]
structure ModelStorageKey where
  text : Text
  safe : ∀ c ∈ text, isSafeChar c
  deriving DecidableEq

/-- The bounded slug of the segments. -/
def ModelStorageKey.ofSegments (segments : List Text) : ModelStorageKey where
  text := bound (slugFrom segments)
  safe _ := bound_safe fun _ => slugFrom_safe

def repoSegments (repo : HfRepo) : List Text := [repo.org.1, repo.repoName.1] ++ (repo.revision.map (·.1)).toList

/-- `vault`, then the resource id. -/
def vaultSegments (path : VaultPath) : List Text := ["vault", path.resourceId.1]

/-- No segments for a store-relative path, which names nothing outside the store. -/
def dirSegments : ModelSource → Option (List Text)
  | .huggingFace repo subdir => some (repoSegments repo ++ (subdir.map (·.1)).toList)
  | .vaultArchive url _ _ => some (vaultSegments url)
  | .absoluteDir dir => some [dir.1]
  | .relativeDir _ => none

def ggufTextSegments : GgufTextSource → Option (List Text)
  | .huggingFace repo path _ => some (repoSegments repo ++ [path.1])
  | .url url _ => some [url.1]
  | .vaultUrl url _ _ => some (vaultSegments url)
  | .absoluteFile path => some [path.1]
  | .relativeFile _ => none

/-- Both files distinguish a vision instance. -/
def ggufVisionSegments : GgufVisionSource → Option (List Text)
  | .huggingFace repo model mmproj _ _ => some (repoSegments repo ++ [model.1, mmproj.1])
  | .url model mmproj _ _ => some [model.1, mmproj.1]
  | .vaultUrl model mmproj _ _ _ => some (vaultSegments model ++ (vaultSegments mmproj).drop 1)
  | .absoluteFiles model mmproj => some [model.1, mmproj.1]
  | .relativeFiles .. => none

/-- The segment of the drafter, if it is not merged. -/
def draftSegment : GgufVisionSpeculativeSource → Option (Option Text)
  | .huggingFace _ _ _ _ _ draft _ => some (draft.map (·.1))
  | .url _ _ _ _ draft _ => some (draft.map (·.1))
  | .vaultUrl _ _ _ _ _ draft _ => some (draft.map fun url => intercalate ['_'] (vaultSegments url))
  | .absoluteFiles _ _ draft => some (draft.map (·.1))
  | .relativeFiles .. => none

/-- `spec`, the bounded key of the vision files as one segment, then the drafter. -/
def ggufVisionSpeculativeSegments (source : GgufVisionSpeculativeSource) : Option (List Text) := do
  let vision ← ggufVisionSegments source.vision
  let draft ← draftSegment source
  return ["spec".toList, (ModelStorageKey.ofSegments vision).text] ++ draft.toList

/-- `spec`, then the segments of both sources. -/
def speculativeSegments (target draft : ModelSource) : Option (List Text) := do
  let target ← dirSegments target
  let draft ← dirSegments draft
  return "spec" :: (target ++ draft)

/-- The identity segments of a model; store-relative sources and the system model have none. -/
def identitySegments : Model → Option (List Text)
  | .ggufText source => ggufTextSegments source
  | .ggufVision source => ggufVisionSegments source
  | .ggufVisionSpeculative source => ggufVisionSpeculativeSegments source
  | .mlx source | .appleCoreAi source | .torch source | .openvino source | .onnxGenai source => dirSegments source
  | .mlxSpeculative target draft | .torchSpeculative target draft => speculativeSegments target draft
  | .appleFoundationText => none

/-- The key of a declared model, if it is storable. -/
def ModelStorageKey.of (model : Model) : Option ModelStorageKey := (identitySegments model).map ModelStorageKey.ofSegments

/-- A long slug keeps its head and its hash. -/
example : bound "microsoft__Phi-3-mini-4k-instruct-onnx__cpu_and_mobile_cpu-int4-rtn-block-32" =
    "microsoft__Phi-3-mini-4_671e5a0d" := by decide +kernel

end Pipette
