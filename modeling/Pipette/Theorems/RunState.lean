import Pipette.Lib.LineLog
import Pipette.Lib.Traverse
import Pipette.Runner.StateFile

/-!
# The state file after killed runs

As long as no run was killed inside a line, the next load succeeds and says what the written events say. A run killed inside a
line leaves a text that is no event, or, if only the line end is missing, one that the next event is glued to; either way the
load fails from then on (`survives_iff`).
-/

namespace Pipette.Runner

open LineLog List Evals StateIndex StateFile

variable {k : EventCodec} {planId : Text}

/-- The text of a file of some events. -/
def textOf (es : List k.Event) : Text := unlines '\n' (es.map k.encode)

/-! ## Trimming and lines -/

variable {c : Char} {text : Text} {α β : Type} {a : Text} {e : k.Event} {p q : Text} {bytes rest : Evals.Bytes}
  {file : StateFile k} {r : PlanRun k} {runs : List (PlanRun k)}

/-- A text that starts with no blank is trimmed at its end only. -/
theorem exists_trimText_append (hc : isWhiteSpace c = false) (rest : Text) :
    ∃ w, c :: rest = trimText (c :: rest) ++ w ∧ ∀ x ∈ w, isWhiteSpace x := by
  have hdrop : (c :: rest).dropWhile isWhiteSpace = c :: rest := dropWhile_cons_of_neg (by simp [hc])
  refine ⟨((c :: rest).reverse.takeWhile isWhiteSpace).reverse, ?_, ?_⟩
  · rw [trimText, hdrop, ← reverse_append, takeWhile_append_dropWhile, reverse_reverse]
  · intro x hx
    exact all_eq_true.1 all_takeWhile x (mem_reverse.1 hx)

theorem trimText_concat (hc : isWhiteSpace c) : trimText (text ++ [c]) = trimText text := by
  rw [trimText, trimText]
  by_cases hall : ∀ x ∈ text, isWhiteSpace x
  · rw [dropWhile_append_of_pos hall, dropWhile_eq_nil_iff.2 hall]
    simp [hc]
  · have hne : text.dropWhile isWhiteSpace ≠ [] := fun h => hall (dropWhile_eq_nil_iff.1 h)
    rw [dropWhile_append, if_neg (by simpa using hne), reverse_append]
    simp [hc]

theorem trimText_stripCr (text : Text) : trimText (stripCr text) = trimText text := by
  unfold stripCr
  split
  · next h =>
    obtain ⟨init, rfl⟩ := getLast?_eq_some_iff.1 h
    rw [dropLast_concat, trimText_concat (by decide)]
  · rfl

/-- The lines that have their end, and what stands after the last if there is something. -/
theorem lines_eq (text : Text) :
    lines text = (complete '\n' text).map stripCr ++ [torn '\n' text].filter (· ≠ []) := by
  have hlast : (text.splitOn '\n').getLast? = some (torn '\n' text) := by
    rw [torn, getLast?_eq_some_getLast (splitOn_ne_nil _ _), getLastD_eq_getLast?,
      getLast?_eq_some_getLast (splitOn_ne_nil _ _)]
    rfl
  rw [lines, hlast]
  rfl

/-! ## Loading -/

/-- A line that is no event fails the load. -/
theorem load_eq_none {line : Text} (hline : line ∈ lines text) (hne : trimText line ≠ [])
    (hdecode : k.decode (trimText line) = none) :
    load (fun line => (k.decode line).map k.seen) (some text) planId = none := by
  have hmem : trimText line ∈ ((lines text).map trimText).filter (· ≠ []) :=
    mem_filter.2 ⟨mem_map_of_mem hline, by simpa using hne⟩
  have hnone : (((lines text).map trimText).filter (· ≠ [])).mapM (fun line => (k.decode line).map k.seen) = none :=
    mapM_eq_none_of_mem (mem_map.2 ⟨_, hmem, by simp [hdecode]⟩)
  rw [load, hnone]
  rfl

theorem trimText_encode (e : k.Event) : trimText (k.encode e) = k.encode e := by
  obtain ⟨c, rest, hopens, hc⟩ := k.opens e
  obtain ⟨init, d, hcloses, hd⟩ := k.closes e
  obtain ⟨w, hw, hblank⟩ := exists_trimText_append hc rest
  rw [← hopens] at hw
  rcases eq_nil_or_concat w with rfl | ⟨w', x, rfl⟩
  · simpa using hw.symm
  have hlast : x = d := by
    have h := congrArg getLast? (hcloses.symm.trans hw)
    simpa using h.symm
  have hx := hblank x (by simp)
  rw [hlast, hd] at hx
  cases hx

theorem encode_ne_nil (e : k.Event) : k.encode e ≠ [] := by
  obtain ⟨c, rest, hopens, -⟩ := k.opens e
  simp [hopens]

theorem oneLine_of_mem {es : List k.Event} {l : Text} (h : l ∈ es.map k.encode) : '\n' ∉ l := by
  obtain ⟨e, -, rfl⟩ := mem_map.1 h
  exact k.oneLine e

theorem utf8_append (a b : Text) : encode (a ++ b) = encode a ++ encode b := by simp [encode]

theorem utf8_ne_nil (h : a ≠ []) : encode a ≠ [] := by
  intro hnil
  have hdecode := decode_encode a
  rw [hnil, show decode [] = some [] from decode_encode []] at hdecode
  exact h (Option.some.inj hdecode).symm

variable (es : List k.Event)

theorem load_textOf : loadStateIndex k (some (encode (textOf es))) planId = some (.replay planId (es.map k.seen)) := by
  have hcomplete : complete '\n' (textOf es) = es.map k.encode := complete_unlines fun l => oneLine_of_mem
  have htorn : torn '\n' (textOf es) = [] := torn_unlines fun l => oneLine_of_mem
  have htrim : ((lines (textOf es)).map trimText).filter (· ≠ []) = es.map k.encode := by
    rw [lines_eq, hcomplete, htorn]
    simp only [ne_eq, not_true_eq_false, decide_false, filter_cons_of_neg, Bool.false_eq_true, not_false_eq_true,
      filter_nil, append_nil, map_map]
    have hmap : es.map (trimText ∘ stripCr ∘ k.encode) = es.map k.encode :=
      map_congr_left fun e _ => (trimText_stripCr _).trans (trimText_encode e)
    rw [hmap, filter_eq_self]
    intro l hl
    obtain ⟨e, -, rfl⟩ := mem_map.1 hl
    simpa using encode_ne_nil e
  have hread : (es.map k.encode).mapM (fun line => (k.decode line).map k.seen) = some (es.map k.seen) :=
    mapM_eq_some_iff.2 (by simp [k.decode_encode])
  rw [loadStateIndex, readLocalState, decode_encode]
  simp only [load, Option.map_some, Option.bind_eq_bind, Option.bind_some, htrim, hread]
  rfl

/-! ## A file that ends inside a line -/

/-- A line that goes on after an event is no event. -/
theorem decode_glued (e : k.Event) (hc : isWhiteSpace c = false) (rest : Text) :
    trimText (k.encode e ++ c :: rest) ≠ [] ∧ k.decode (trimText (k.encode e ++ c :: rest)) = none := by
  obtain ⟨d, init, hopens, hd⟩ := k.opens e
  obtain ⟨w, hw, hblank⟩ := exists_trimText_append hd (init ++ c :: rest)
  rw [← cons_append, ← hopens] at hw
  -- What is trimmed off is blank, so it does not reach `c`.
  have hkept : ∃ tail, trimText (k.encode e ++ c :: rest) = k.encode e ++ c :: tail := by
    rcases append_eq_append_iff.1 hw with ⟨kept, htrim, hrest⟩ | ⟨cut, -, hcut⟩
    · cases kept with
      | nil =>
        have hblankc := hblank c (by simp [← nil_append w ▸ hrest])
        simp [hc] at hblankc
      | cons c' tail =>
        obtain rfl := (cons.inj hrest).1
        exact ⟨tail, htrim⟩
    · have hblankc := hblank c (by simp [hcut])
      simp [hc] at hblankc
  obtain ⟨tail, htail⟩ := hkept
  rw [htail]
  exact ⟨by simp, k.whole (k.decode_encode e) ⟨c, by simp, hc⟩⟩

/-- A part of an event is no event. -/
theorem decode_part (hp : p ≠ []) (hq : q ≠ []) (h : p ++ q = k.encode e) :
    trimText p ≠ [] ∧ k.decode (trimText p) = none := by
  obtain ⟨c, p', rfl⟩ := exists_cons_of_ne_nil hp
  obtain ⟨d, init, hopens, hd⟩ := k.opens e
  obtain ⟨front, last, hcloses, hlast⟩ := k.closes e
  obtain rfl : c = d := (cons.inj (h.trans hopens)).1
  obtain ⟨w, hw, hblank⟩ := exists_trimText_append hd p'
  refine ⟨?_, ?_⟩
  · intro hnil
    rw [hnil, nil_append] at hw
    have := hblank c (by simp [← hw])
    simp [hd] at this
  · cases hdecode : k.decode (trimText (c :: p')) with
    | none => rfl
    | some e' =>
      have hmem : last ∈ q := by
        have hends := congrArg getLast? (h.trans hcloses)
        rw [getLast?_append, getLast?_eq_some_getLast hq, getLast?_concat, Option.some_or] at hends
        exact Option.some.inj hends ▸ getLast_mem hq
      have hwhole : k.decode (trimText (c :: p') ++ (w ++ q)) = none := k.whole hdecode ⟨last, by simp [hmem], hlast⟩
      rw [← append_assoc, ← hw, h, k.decode_encode] at hwhole
      cases hwhole

/-- A text that ends with a part of an event does not load. -/
theorem load_part (hp : p ≠ []) (hq : q ≠ []) (h : p ++ q = k.encode e) :
    load (fun line => (k.decode line).map k.seen) (some (textOf es ++ p)) planId = none := by
  have hfree : '\n' ∉ p := fun hmem => k.oneLine e (h ▸ mem_append_left q hmem)
  obtain ⟨hne, hdecode⟩ := decode_part hp hq h
  refine load_eq_none ?_ hne hdecode
  have htorn : torn '\n' (textOf es ++ p) = torn '\n' p := torn_unlines_append (fun l => oneLine_of_mem) p
  rw [lines_eq, htorn, torn_of_notMem hfree]
  simp [hp]

/-- A text in which an event is followed on its line does not load. -/
theorem load_glued (e : k.Event) (hc : isWhiteSpace c = false) (rest : Text) :
    load (fun line => (k.decode line).map k.seen) (some (textOf es ++ (k.encode e ++ c :: rest))) planId = none := by
  have hcn : c ≠ '\n' := by
    rintro rfl
    exact absurd hc (by decide)
  have hfree : ∀ {rest}, '\n' ∉ rest → '\n' ∉ k.encode e ++ c :: rest := fun h => by simp [k.oneLine e, hcn.symm, h]
  by_cases hmem : '\n' ∈ rest
  · obtain ⟨rest, s', rfl, hline⟩ := eq_append_cons_of_mem hmem
    obtain ⟨hne, hdecode⟩ := decode_glued e hc rest
    have hcomplete : complete '\n' (textOf es ++ ((k.encode e ++ c :: rest) ++ '\n' :: s')) =
        es.map k.encode ++ complete '\n' ((k.encode e ++ c :: rest) ++ '\n' :: s') :=
      complete_unlines_append (fun l => oneLine_of_mem) _
    rw [← cons_append, ← append_assoc (k.encode e)]
    have hmem' : stripCr (k.encode e ++ c :: rest) ∈ lines (textOf es ++ ((k.encode e ++ c :: rest) ++ '\n' :: s')) := by
      rw [lines_eq, hcomplete, complete_line_append (hfree hline)]
      simp
    refine load_eq_none hmem' ?_ ?_ <;> rwa [trimText_stripCr]
  · obtain ⟨hne, hdecode⟩ := decode_glued e hc rest
    refine load_eq_none ?_ hne hdecode
    have htorn : torn '\n' (textOf es ++ (k.encode e ++ c :: rest)) = torn '\n' (k.encode e ++ c :: rest) :=
      torn_unlines_append (fun l => oneLine_of_mem) _
    rw [lines_eq, htorn, torn_of_notMem (hfree hmem)]
    simp

/-! ## The bytes of a file -/

/-- Bytes that are of no text, or of one that does not load, do not load. -/
theorem loadStateIndex_eq_none (h : ∀ text, decode bytes = some text →
    load (fun line => (k.decode line).map k.seen) (some text) planId = none) :
    loadStateIndex k (some bytes) planId = none := by
  rw [loadStateIndex, readLocalState]
  cases hdecode : decode bytes with
  | none => rfl
  | some text => exact h text hdecode

/-- A text whose bytes start with those of another starts with it. -/
theorem exists_append_of_decode
    (h : decode (encode a ++ rest) = some text) : ∃ x, text = a ++ x ∧ encode x = rest := by
  have hencode := encode_of_decode h
  obtain ⟨x, rfl⟩ := prefix_of_encode_append hencode.symm
  refine ⟨x, rfl, ?_⟩
  rw [utf8_append] at hencode
  exact append_cancel_left hencode

/-- A file that ends with a part of a line does not load, unless only the line end is missing. -/
theorem load_torn (hne : bytes ≠ []) (hrest : rest ≠ []) (h : bytes ++ rest = jsonLine k e) :
    loadStateIndex k (some (encode (textOf es) ++ bytes)) planId = none ∨ bytes = encode (k.encode e) := by
  by_cases hend : bytes = encode (k.encode e)
  · exact .inr hend
  left
  refine loadStateIndex_eq_none fun text htext => ?_
  obtain ⟨x, rfl, rfl⟩ := exists_append_of_decode htext
  obtain ⟨y, hy⟩ : x <+: k.encode e ++ ['\n'] := prefix_of_encode_append h
  have hx : x ≠ [] := by
    rintro rfl
    exact hne rfl
  have hyne : y ≠ [] := by
    rintro rfl
    rw [append_nil] at hy
    rw [hy, jsonLine] at h
    exact hrest (by simpa using h)
  obtain ⟨y', c, rfl⟩ := (eq_nil_or_concat y).resolve_left hyne
  rw [concat_eq_append, ← append_assoc] at hy
  have hpart : x ++ y' = k.encode e := (append_inj' hy rfl).1
  refine load_part es hx ?_ hpart
  rintro rfl
  rw [append_nil] at hpart
  exact hend (by rw [hpart])

/-- A file in which an event has no line end and more follows does not load. -/
theorem load_unended (es' : List k.Event) (e : k.Event) (hne : bytes ≠ []) (h : bytes <+: encode (textOf es')) :
    loadStateIndex k (some (encode (textOf es ++ k.encode e) ++ bytes)) planId = none := by
  refine loadStateIndex_eq_none fun text htext => ?_
  obtain ⟨y, rfl, rfl⟩ := exists_append_of_decode htext
  obtain ⟨rest, hrest⟩ := h
  obtain ⟨z, hz⟩ : y <+: textOf es' := prefix_of_encode_append hrest
  cases y with
  | nil => exact absurd rfl hne
  | cons c y =>
    cases es' with
    | nil => cases hz
    | cons e' es' =>
      obtain ⟨d, init, hopens, hd⟩ := k.opens e'
      obtain rfl : c = d := by
        have hcons : textOf (e' :: es') = d :: (init ++ '\n' :: textOf es') := by simp [textOf, unlines_cons, hopens]
        exact (cons.inj (hz.trans hcons)).1
      rw [append_assoc]
      exact load_glued es e hd y

/-! ## Runs -/

/-- The bytes of the file; a file that is not there has none. -/
def StateFile.content (file : StateFile k) : Evals.Bytes := file.bytes.getD []

theorem loadStateIndex_content (file : StateFile k) :
    loadStateIndex k file.bytes planId = loadStateIndex k (some file.content) planId := by
  unfold content
  cases file.bytes with
  | none => exact (load_textOf []).symm
  | some bytes => rfl

theorem textOf_append (es' : List k.Event) : textOf (es ++ es') = textOf es ++ textOf es' := by
  rw [textOf, map_append, unlines_append]
  rfl

theorem encode_textOf_singleton (e : k.Event) : encode (textOf [e]) = jsonLine k e := by simp [textOf, unlines, jsonLine]

theorem jsonLine_ne_nil (e : k.Event) : jsonLine k e ≠ [] := utf8_ne_nil (by simp)

/-- What a run that loads the state adds to the file. -/
def PlanRun.added (r : PlanRun k) : Evals.Bytes := Evals.encode (textOf r.events) ++ r.torn

theorem foldl_append_getD (file : Option Evals.Bytes) :
    (es.foldl (fun file e => appendLocalState file (jsonLine k e)) file).getD [] = file.getD [] ++ encode (textOf es) := by
  induction es using reverseRecOn with
  | nil => simp [textOf, unlines, encode]
  | append_singleton es e ih =>
    rw [foldl_append, textOf_append, utf8_append, encode_textOf_singleton, ← append_assoc, ← ih]
    rfl

theorem PlanRun.appended_getD (r : PlanRun k) (file : Option Evals.Bytes) : (r.appended file).getD [] = file.getD [] ++ r.added := by
  have hevents := foldl_append_getD r.events file
  unfold PlanRun.appended PlanRun.added PlanRun.torn
  cases hkill : r.kill with
  | none => simpa using hevents
  | some x =>
    rw [← append_assoc, ← hevents]
    rfl

theorem run_of_load_none (h : loadStateIndex k (some file.content) planId = none) (r : PlanRun k) :
    file.run planId r = file := by
  rw [run, loadStateIndex_content, h]

/-- A run over a file that loads adds to it. -/
theorem content_run_of_load {index : StateIndex} (h : loadStateIndex k (some file.content) planId = some index)
    (r : PlanRun k) : (file.run planId r).content = file.content ++ r.added ∧
      (file.run planId r).recorded = file.recorded ++ r.written := by
  rw [run, loadStateIndex_content, h]
  exact ⟨r.appended_getD file.bytes, rfl⟩

/-- The file is made of the lines of the recorded events. -/
def Intact (file : StateFile k) : Prop := file.content = Evals.encode (textOf file.recorded)

theorem Intact.load (h : Intact file) (planId : Text) :
    loadStateIndex k (some file.content) planId = some (.replay planId (file.recorded.map k.seen)) := by
  rw [h]
  exact load_textOf _

/-- A run that is not killed inside a line keeps the file intact. -/
theorem intact_run (h : Intact file) (hr : r.Whole) : Intact (file.run planId r) := by
  obtain ⟨hcontent, hrecorded⟩ := content_run_of_load (h.load planId) r
  have hadded : r.added = encode (textOf r.written) := by
    unfold PlanRun.added PlanRun.torn PlanRun.written
    cases hkill : r.kill with
    | none => simp
    | some x =>
      obtain ⟨e, n⟩ := x
      rcases hr e n hkill with rfl | hn
      · simp [jsonLine_ne_nil]
      · simp [hn, textOf_append, utf8_append, encode_textOf_singleton]
  rw [Intact, hcontent, hrecorded, h, hadded, textOf_append, utf8_append]

/-- The file does not load, or it will not after the next event: the last has no line end. -/
def Hanging (planId : Text) (file : StateFile k) : Prop :=
  loadStateIndex k (some file.content) planId = none ∨ ∃ (es : List k.Event) (e : k.Event), file.content = Evals.encode (textOf es ++ k.encode e)

/-- What a run adds is the start of the lines of some events. -/
theorem PlanRun.added_prefix (r : PlanRun k) : ∃ es' : List k.Event, r.added <+: encode (textOf es') := by
  unfold PlanRun.added PlanRun.torn
  cases r.kill with
  | none => exact ⟨r.events, by simp⟩
  | some x =>
    refine ⟨r.events ++ [x.1], ?_⟩
    rw [textOf_append, utf8_append, encode_textOf_singleton]
    exact prefix_append_right_inj _ |>.2 (List.take_prefix _ _)

/-- A run that adds something to a hanging file leaves one that does not load. -/
theorem Hanging.load_run (h : Hanging planId file) (hr : r.added ≠ []) :
    loadStateIndex k (some (file.run planId r).content) planId = none := by
  cases hload : loadStateIndex k (some file.content) planId with
  | none => rwa [run_of_load_none hload]
  | some index =>
    obtain ⟨es, e, hcontent⟩ := h.resolve_left (by simp [hload])
    obtain ⟨es', hprefix⟩ := r.added_prefix
    rw [(content_run_of_load hload r).1, hcontent]
    exact load_unended es es' e hr hprefix

theorem Hanging.run (h : Hanging planId file) (r : PlanRun k) : Hanging planId (file.run planId r) := by
  by_cases hr : r.added = []
  · cases hload : loadStateIndex k (some file.content) planId with
    | none => rwa [run_of_load_none hload]
    | some index =>
      have hcontent := (content_run_of_load hload r).1
      rw [hr, append_nil] at hcontent
      rwa [Hanging, hcontent]
  · exact .inl (h.load_run hr)

/-- A run that is killed inside a line leaves a hanging file. -/
theorem hanging_run (h : Intact file) (hr : ¬ r.Whole) : Hanging planId (file.run planId r) := by
  simp only [PlanRun.Whole, not_forall, not_or] at hr
  obtain ⟨e, n, hkill, hn, hlength⟩ := hr
  have hcontent := (content_run_of_load (h.load planId) r).1
  have htorn : r.torn = (jsonLine k e).take n := by simp [PlanRun.torn, hkill]
  rw [h, PlanRun.added, htorn, ← append_assoc, ← utf8_append, ← textOf_append] at hcontent
  have hne : (jsonLine k e).take n ≠ [] := by simp [take_eq_nil_iff, hn, jsonLine_ne_nil]
  have hrest : (jsonLine k e).drop n ≠ [] := by simpa [drop_eq_nil_iff] using hlength
  rcases load_torn (file.recorded ++ r.events) hne hrest (take_append_drop n _) with hnone | hend
  · exact .inl (hcontent ▸ hnone)
  · exact .inr ⟨_, e, by rw [hcontent, hend, utf8_append]⟩

/-- After runs of which none was killed inside a line the file is intact, and after others it is hanging. -/
theorem foldl_run (planId : Text) (h : Intact file) (runs : List (PlanRun k)) :
    ((∀ r ∈ runs, r.Whole) → Intact (runs.foldl (run planId) file)) ∧
      ((¬ ∀ r ∈ runs, r.Whole) → Hanging planId (runs.foldl (run planId) file)) := by
  induction runs using reverseRecOn with
  | nil => exact ⟨fun _ => h, fun hruns => absurd nofun hruns⟩
  | append_singleton runs r ih =>
    simp only [foldl_append, foldl_cons, foldl_nil, forall_mem_append, forall_mem_singleton]
    refine ⟨fun hall => intact_run (ih.1 hall.1) hall.2, fun hn => ?_⟩
    by_cases hruns : ∀ r ∈ runs, r.Whole
    · exact hanging_run (ih.1 hruns) fun hr => hn ⟨hruns, hr⟩
    · exact (ih.2 hruns).run r

/-- The next load succeeds, and each cell's state, attempts and pin are what the recorded events say. -/
def Survives (T : PlanTypes) (planId : Text) (file : StateFile k) : Prop :=
  ∃ index, loadStateIndex k file.bytes planId = some index ∧ ∀ cell : RunnableCell T,
    index.stateFor cell = (StateIndex.replay planId (file.recorded.map k.seen)).stateFor cell ∧
      index.attemptsFor cell = (StateIndex.replay planId (file.recorded.map k.seen)).attemptsFor cell ∧
      index.pinnedTransportFor cell = (StateIndex.replay planId (file.recorded.map k.seen)).pinnedTransportFor cell

/-- The state survives some runs, and any that follow and are not killed inside a line, exactly if none of them was killed
inside a line. -/
theorem survives_iff (T : PlanTypes) (k : EventCodec) (planId : Text) (runs : List (PlanRun k)) :
    (∀ later : List (PlanRun k), (∀ r ∈ later, r.Whole) → Survives T planId (after planId (runs ++ later))) ↔
      ∀ r ∈ runs, r.Whole := by
  have hstart : Intact (⟨none, []⟩ : StateFile k) := rfl
  constructor
  · intro hall
    by_contra hruns
    have hhang := (foldl_run planId hstart runs).2 hruns
    obtain ⟨e⟩ : Nonempty k.Event := by
      simp only [PlanRun.Whole, not_forall] at hruns
      obtain ⟨-, -, e, -⟩ := hruns
      exact ⟨e⟩
    have hone : (⟨[e], none⟩ : PlanRun k).added ≠ [] := by
      simpa [PlanRun.added, PlanRun.torn, encode_textOf_singleton] using jsonLine_ne_nil e
    obtain ⟨index, hindex, -⟩ := hall [⟨[e], none⟩] (by simp [PlanRun.Whole])
    rw [loadStateIndex_content, StateFile.after, foldl_append, foldl_cons, foldl_nil, hhang.load_run hone] at hindex
    cases hindex
  · intro hruns later hlater
    have hintact : Intact (after planId (runs ++ later)) :=
      (foldl_run planId hstart _).1 (forall_mem_append.2 ⟨hruns, hlater⟩)
    exact ⟨_, (loadStateIndex_content _).trans (hintact.load planId), fun _ => ⟨rfl, rfl, rfl⟩⟩

/-- An event of a plan and of a cell with a key of two letters. -/
def eventAt (cellKey : String) (status : AttemptStatus) : json.Event :=
  StateEvent.mk "p" cellKey.toList status "t1"

/-- A run records the success of a cell and is killed 20 bytes into the next event; a later run. -/
def killedRuns : List (PlanRun json) :=
  [⟨[eventAt "aa" .started, eventAt "aa" .success], some (eventAt "bb" .started, 20)⟩, ⟨[eventAt "bb" .started], none⟩]

/-- The state does not load again after the kill: the recorded success is lost, and the later run records nothing. -/
theorem killedRuns_not_survives :
    (after "p" killedRuns).recorded = [eventAt "aa" .started, eventAt "aa" .success] ∧
      loadStateIndex json (after "p" killedRuns).bytes "p" = none ∧
      ∀ T, ¬ Survives T "p" (after "p" killedRuns) := by
  have hload : loadStateIndex json (after "p" killedRuns).bytes "p" = none :=
    Option.isNone_iff_eq_none.1 (by decide +kernel)
  refine ⟨by decide +kernel, hload, ?_⟩
  rintro T ⟨index, hindex, -⟩
  rw [hload] at hindex
  cases hindex

end Pipette.Runner
