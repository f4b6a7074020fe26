import Pipette.Lib.LineLog
import Pipette.Mgmt.Signing

/-!
# A signature covers one request

Without line breaks in its values a base is read back line by line, and the parameters field by field: a number ends before `;`, and
what is quoted ends at the first quote that is not escaped.
-/

namespace Pipette.Mgmt

open List LineLog FlatJson

/-- Reads a value after its opening quote. -/
def unquote : Text → Text × Text
  | [] => ([], [])
  | '"' :: rest => ([], rest)
  | '\\' :: c :: rest => (unquote rest).map (c :: ·) id
  | c :: rest => (unquote rest).map (c :: ·) id

/-- Where a quoted value ends can be seen. -/
theorem unquote_quoted (value rest : Text) : unquote (quoted value ++ rest).tail = (value, rest) := by
  simp only [quoted, replaceChar, flatMap_assoc, cons_append, tail_cons, append_assoc, nil_append,
    show "\\\\" = ['\\', '\\'] from rfl, show "\\\"" = ['\\', '"'] from rfl]
  induction value with
  | nil => rfl
  | cons c value ih =>
    by_cases hslash : c = '\\'
    · subst hslash
      simp [unquote, Prod.map, ih]
    by_cases hquote : c = '"'
    · subst hquote
      simp [unquote, Prod.map, ih]
    · simp only [flatMap_cons, hslash, hquote, if_false, flatMap_nil, append_nil, cons_append, nil_append]
      rw [unquote]
      · simp [Prod.map, ih]
      all_goals simp_all

theorem quoted_append_inj {v v' s s' : Text} (h : quoted v ++ s = quoted v' ++ s') : v = v' ∧ s = s' := by
  simpa [unquote_quoted] using congrArg (fun text => unquote text.tail) h

theorem notMem_printNat {c : Char} (hc : ∀ d < 10, c ≠ Char.ofNat (48 + d)) (n : Nat) : c ∉ printNat n := by
  intro h
  obtain ⟨d, hd, rfl⟩ := printNat_isDigit h
  exact hc d hd rfl

theorem notMem_printInt {c : Char} (hc : c ≠ '-' ∧ ∀ d < 10, c ≠ Char.ofNat (48 + d)) (n : Int) : c ∉ printInt n := by
  unfold printInt
  split <;> simp [hc.1, notMem_printNat hc.2]

theorem printInt_inj {m n : Int} (h : printInt m = printInt n) : m = n := by
  have hminus := notMem_printNat (c := '-') (by decide)
  have hnat : ∀ {a b : Nat}, printNat a = printNat b → a = b := fun {a b} h => by
    rw [← foldl_printNat a, h, foldl_printNat]
  unfold printInt at h
  split at h <;> split at h
  · have habs := hnat (cons.inj h).2
    omega
  · exact absurd (mem_of_mem_head? (congrArg head? h.symm)) (hminus _)
  · exact absurd (mem_of_mem_head? (congrArg head? h)) (hminus _)
  · have habs := hnat h
    omega

theorem signatureParams_inj {names : List Text} {created created' : Int} {nonce nonce' keyId keyId' : Text}
    (h : signatureParams names created nonce keyId = signatureParams names created' nonce' keyId') :
    created = created' ∧ nonce = nonce' ∧ keyId = keyId' := by
  have hsemi := notMem_printInt (c := ';') (by decide)
  simp only [signatureParams, append_assoc, cons_append, append_cancel_left_eq, cons.injEq, true_and] at h
  have hfirst := congrArg (complete ';') h
  rw [complete_line_append (hsemi created), complete_line_append (hsemi created')] at hfirst
  obtain rfl := printInt_inj (cons.inj hfirst).1
  obtain ⟨hnonce, hrest⟩ := quoted_append_inj (append_cancel_left (cons.inj (append_cancel_left h)).2)
  exact ⟨rfl, hnonce, (quoted_append_inj (append_cancel_left hrest)).1⟩

theorem notMem_quoted {value : Text} (h : '\n' ∉ value) : '\n' ∉ quoted value := by
  simp only [quoted, replaceChar, flatMap_assoc, mem_append, mem_cons, mem_flatMap]
  rintro ((hq | ⟨c, hc, x, hx, hn⟩) | hq)
  · exact absurd hq (by decide)
  · grind
  · exact absurd hq (by decide)

section User

variable {Digest : Type} {base64 : Digest → Text} {request request' : Outgoing Digest} {created created' : Int}
  {nonce nonce' keyId keyId' : Text}

/-- No value that is signed has a line break. -/
structure LineFree (base64 : Digest → Text) (request : Outgoing Digest) (nonce keyId : Text) : Prop where
  values : ∀ line ∈ coveredLines base64 request, '\n' ∉ line.2
  nonce : '\n' ∉ nonce
  keyId : '\n' ∉ keyId

theorem rendered_inj {name value value' : Text} (h : rendered (name, value) = rendered (name, value')) : value = value' :=
  append_cancel_left h

/-- The names that are covered depend on the presence of a body only. -/
theorem names_eq (request : Outgoing Digest) : (coveredLines base64 request).map Prod.fst =
    ["@method", "@authority", "@path", "@query"] ++
      if request.bodySha256.isSome then ["content-digest"] else [] := by
  cases hbody : request.bodySha256 <;> simp [coveredLines, hbody]

theorem LineFree.lines (h : LineFree base64 request nonce keyId) :
    ∀ text ∈ (coveredLines base64 request).map rendered, '\n' ∉ text := by
  have hname : ∀ name ∈ (coveredLines base64 request).map Prod.fst, '\n' ∉ name := by
    rw [names_eq]
    split <;> decide
  intro text htext
  obtain ⟨line, hline, rfl⟩ := mem_map.1 htext
  simp [rendered, hname line.1 (mem_map_of_mem hline), h.values line hline]

theorem LineFree.params (h : LineFree base64 request nonce keyId) (created : Int) : '\n' ∉ rendered ("@signature-params",
    signatureParams ((coveredLines base64 request).map Prod.fst) created nonce keyId) := by
  have hnames : '\n' ∉ [' '].intercalate (((coveredLines base64 request).map Prod.fst).map quoted) := by
    rw [names_eq]
    split <;> decide
  have hcreated := notMem_printInt (c := '\n') (by decide) created
  rw [map_map] at hnames
  simp [rendered, signatureParams, hcreated, hnames, notMem_quoted h.nonce, notMem_quoted h.keyId]

theorem userBase_inj (hencode : Function.Injective base64) (h : LineFree base64 request nonce keyId)
    (h' : LineFree base64 request' nonce' keyId')
    (heq : userBase base64 request created nonce keyId = userBase base64 request' created' nonce' keyId') :
    request.method = request'.method ∧ authority request.url = authority request'.url ∧ path request.url = path request'.url ∧
      request.url.query.getD [] = request'.url.query.getD [] ∧ request.bodySha256 = request'.bodySha256 ∧ created = created' ∧
      nonce = nonce' ∧ keyId = keyId' := by
  obtain ⟨hlines, hparams⟩ := unlines_append_inj h.lines h'.lines (h.params created) (h'.params created') heq
  simp only [coveredLines, map_cons, cons_append, nil_append, cons.injEq] at hlines
  obtain ⟨hmethod, hauthority, hpath, hquery, hdigest⟩ := hlines
  have hbody : request.bodySha256 = request'.bodySha256 := by
    cases hr : request.bodySha256 <;> cases hr' : request'.bodySha256 <;> simp [hr, hr'] at hdigest ⊢
    exact hencode (append_cancel_left (append_cancel_right (rendered_inj hdigest)))
  rw [names_eq, names_eq, hbody] at hparams
  exact ⟨rendered_inj hmethod, rendered_inj hauthority, rendered_inj hpath, (cons.inj (rendered_inj hquery)).2, hbody,
    signatureParams_inj (rendered_inj hparams)⟩

theorem clientPayload_inj {m t s c n m' t' s' c' n' : Text} (h : ∀ value ∈ [m, t, s, c, n, m', t', s', c', n'], '\n' ∉ value)
    (heq : clientPayload m t s c n = clientPayload m' t' s' c' n') : m = m' ∧ t = t' ∧ s = s' ∧ c = c' ∧ n = n' := by
  have hlines : ∀ m t s c n, clientPayload m t s c n = unlines '\n' ["v1", m, t, s, c] ++ n := by
    simp [clientPayload, unlines]
  simp only [forall_mem_cons] at h
  rw [hlines, hlines] at heq
  obtain ⟨hfields, hnonce⟩ := unlines_append_inj (by simp [h]) (by simp [h]) h.2.2.2.2.1 h.2.2.2.2.2.2.2.2.2.1 heq
  simpa [hnonce] using hfields

def listJobs : Outgoing Text := ⟨"GET", ⟨some "host", none, "/jobs", none⟩, none⟩

end User

end Pipette.Mgmt
