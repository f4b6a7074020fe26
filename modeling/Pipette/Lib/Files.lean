import Mathlib

/-!
# File trees

A map from paths to what stands there, with the operations on it. `Within S a b` says that `a` and `b` differ only at paths in
`S`; every operation is `Within` its own footprint, and footprints compose by `Within.trans` and `Within.mono`.
-/

namespace Files

/-- What stands at a path. -/
inductive Node (γ : Type) where
  | dir
  | file (content : γ)
  deriving DecidableEq

/-- A file tree over names `ν` and file contents `γ`. -/
abbrev Tree (ν γ : Type) := List ν → Option (Node γ)

variable {ν γ : Type}

/-- Whether it is a file. -/
def Node.isFile : Node γ → Bool
  | .dir => false
  | .file _ => true

section Ops

variable [DecidableEq ν]

/-- The tree of these nodes and nothing else. -/
def ofNodes (nodes : List (List ν × Node γ)) : Tree ν γ := fun p => nodes.lookup p

/-- The tree without what is at or below `p`, but for the paths a broken-off removal keeps. -/
def remove (keep : List ν → Bool) (p : List ν) (t : Tree ν γ) : Tree ν γ :=
  fun q => if p <+: q ∧ keep q = false then none else t q

/-- The tree with a node at `p`. -/
def write (p : List ν) (node : Node γ) (t : Tree ν γ) : Tree ν γ := fun q => if q = p then some node else t q

/-- The tree with every missing directory down to `p`. -/
def mkdirAll (p : List ν) (t : Tree ν γ) : Tree ν γ := fun q => if q <+: p ∧ t q = none then some .dir else t q

/-- Whether a file stands at `p`. -/
def fileAt (t : Tree ν γ) (p : List ν) : Bool := (t p).elim false Node.isFile

/-- Whether no file is in the way of the directory `p`. -/
def clear (p : List ν) (t : Tree ν γ) : Bool := p.inits.all fun q => !fileAt t q

/-- The tree with what is at or below `p` put at `q`. -/
def move (p q : List ν) (t : Tree ν γ) : Tree ν γ :=
  fun r => if q <+: r then t (p ++ r.drop q.length) else if p <+: r then none else t r

/-- The tree with `sub` in place of what is at or below `p`. -/
def graft (p : List ν) (sub : Tree ν γ) (t : Tree ν γ) : Tree ν γ := fun q => if p <+: q then sub (q.drop p.length) else t q

end Ops

/-- What stands in a tree stands in a directory. -/
def Rooted (t : Tree ν γ) : Prop := ∀ p name, (t (p ++ [name])).isSome → t p = some .dir

/-! ## Footprints -/

/-- The two trees differ only at paths in `S`. -/
def Within (S : List ν → Prop) (a b : Tree ν γ) : Prop := ∀ p, ¬S p → b p = a p

variable {S T : List ν → Prop} {a b c : Tree ν γ}

theorem Within.refl (S : List ν → Prop) (a : Tree ν γ) : Within S a a := fun _ _ => rfl

/-- One change after another. -/
theorem Within.trans (hab : Within S a b) (hbc : Within S b c) : Within S a c := by
  intro p hp
  rw [hbc p hp, hab p hp]

/-- A larger footprint. -/
theorem Within.mono (h : Within S a b) (hst : ∀ p, S p → T p) : Within T a b := fun p hp => h p fun hs => hp (hst p hs)

variable [DecidableEq ν]

/-- A removal changes nothing outside `p`. -/
theorem remove_within (keep : List ν → Bool) (p : List ν) (a : Tree ν γ) : Within (fun q => p <+: q) a (remove keep p a) := by
  intro q hq
  simp [remove, hq]

/-- A write changes one path. -/
theorem write_within (p : List ν) (node : Node γ) (a : Tree ν γ) : Within (fun q => q = p) a (write p node a) := by
  intro q hq
  simp [write, hq]

/-- Making directories changes nothing but `p` and what is above it. -/
theorem mkdirAll_within (p : List ν) (a : Tree ν γ) : Within (fun q => q <+: p) a (mkdirAll p a) := by
  intro q hq
  simp [mkdirAll, hq]

/-- A move changes nothing outside `p` and `q`. -/
theorem move_within (p q : List ν) (a : Tree ν γ) : Within (fun r => p <+: r ∨ q <+: r) a (move p q a) := by
  intro r hr
  rw [not_or] at hr
  simp [move, hr.1, hr.2]

theorem graft_within (p : List ν) (sub a : Tree ν γ) : Within (fun q => p <+: q) a (graft p sub a) := by
  intro q hq
  simp [graft, hq]

/-! ## What stands after an operation -/

variable {p q : List ν} {nodes : List (List ν × Node γ)}

/-- A whole removal leaves nothing. -/
theorem remove_below (h : p <+: q) (t : Tree ν γ) : remove (fun _ => false) p t q = none := by simp [remove, h]

/-- A removal puts nothing anywhere. -/
theorem remove_eq_none {t : Tree ν γ} (h : t q = none) (keep : List ν → Bool) (p : List ν) : remove keep p t q = none := by
  simp [remove, h]

/-- The directories are there. -/
theorem mkdirAll_above (h : q <+: p) (t : Tree ν γ) : (mkdirAll p t q).isSome := by
  cases hq : t q <;> simp [mkdirAll, h, hq]

theorem ofNodes_eq_none (h : ∀ x ∈ nodes, x.1 ≠ p) : ofNodes nodes p = none := by
  refine List.lookup_eq_none_iff.2 ?_
  intro x hx
  simpa using (h x hx).symm

/-- What stands in the tree is one of the nodes. -/
theorem mem_of_ofNodes (h : (ofNodes nodes p).isSome) : ∃ x ∈ nodes, x.1 = p := by
  by_contra hn
  rw [ofNodes_eq_none fun x hx hxp => hn ⟨x, hx, hxp⟩] at h
  cases h

/-- Nodes each of which has its directory make a tree. -/
theorem rooted_ofNodes (h : ∀ x ∈ nodes, x.1 ≠ [] → ofNodes nodes x.1.dropLast = some .dir) : Rooted (ofNodes nodes) := by
  intro p name hp
  obtain ⟨x, hx, hxp⟩ := mem_of_ofNodes hp
  simpa [hxp] using h x hx (by simp [hxp])

/-- Making directories puts no file in the way. -/
theorem fileAt_mkdirAll (p : List ν) (t : Tree ν γ) (q : List ν) : fileAt (mkdirAll p t) q = fileAt t q := by
  by_cases h : q <+: p ∧ t q = none
  · simp [fileAt, mkdirAll, h, Node.isFile]
  · simp [fileAt, mkdirAll, h]

end Files
