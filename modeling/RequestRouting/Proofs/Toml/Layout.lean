import RequestRouting.Proofs.Toml.Spelling

/-!
Documents line by line.

A line has a key with its value, or a header in single or doubled brackets. Written one below the other, with blank
lines among them and spaces where they may stand, lines change the document one after the other
(`Layout.parse?_ofList`).
-/

namespace RequestRouting.Toml

/-! ## Lines -/

inductive Line where
  | entry (key : String) (v : Value)
  | table (name : String)
  | series (name : String)

/-- What a line does to the document before it. -/
def Line.run (d : Document) : Line → Option Document
  | entry key v => d.addValue [] key v
  | table name => d.openTable [] name
  | series name => d.openSeries [] name

/-- How a line may be written, up to its end. -/
inductive LineSpelling : Line → List Char → Prop
  | entry {n : Nat} {key : String} {v : Value} {field before t after : List Char} (hkey : KeyField key field)
      (hbefore : Spaces before) (hn : n < depthLimit) (hv : ValueSpelling n v t) (hafter : Spaces after) :
      LineSpelling (.entry key v) (field ++ '=' :: (before ++ (t ++ after)))
  | table {name : String} {before field after : List Char} (hbefore : Spaces before) (hname : KeyField name field)
      (hafter : Spaces after) : LineSpelling (.table name) (before ++ '[' :: (field ++ ']' :: after))
  | series {name : String} {before field after : List Char} (hbefore : Spaces before)
      (hname : KeyField name field) (hafter : Spaces after) :
      LineSpelling (.series name) (before ++ '[' :: '[' :: (field ++ ']' :: ']' :: after))

/-- What stands behind a line: nothing, or a line end and more. -/
def Finished (cs : List Char) : Prop := cs = [] ∨ ∃ eol rest, LineEnd eol ∧ cs = eol ++ rest

/-- How lines may be written one below the other. The last one need not have an end. -/
inductive Layout : List Line → List Char → Prop
  | nil {space : List Char} (h : Spaces space) : Layout [] space
  | blank {lines : List Line} {space eol rest : List Char} (hspace : Spaces space) (heol : LineEnd eol)
      (h : Layout lines rest) : Layout lines (space ++ (eol ++ rest))
  | line {l : Line} {lines : List Line} {t eol rest : List Char} (hl : LineSpelling l t) (heol : LineEnd eol)
      (h : Layout lines rest) : Layout (l :: lines) (t ++ (eol ++ rest))
  | last {l : Line} {t : List Char} (hl : LineSpelling l t) : Layout [l] t

section

variable {l : Line} {key : String} {d : Document} {fuel : Nat} {cs t rest field space : List Char} {c : Char}

theorem Finished.nil : Finished [] := .inl rfl

theorem LineEnd.finished {eol : List Char} (h : LineEnd eol) (rest : List Char) : Finished (eol ++ rest) :=
  .inr ⟨eol, rest, h, rfl⟩

/-- Spaces in front of the end of a line do not matter. -/
theorem Spaces.lineEnd?_append (h : Spaces space) (rest : List Char) :
    lineEnd? (space ++ rest) = lineEnd? rest := by
  rw [lineEnd?, lineEnd?, h.skipSpaces_append]

theorem lineEnd?_eol {eol : List Char} (h : LineEnd eol) (rest : List Char) :
    lineEnd? (eol ++ rest) = some rest := by
  cases h <;> rfl

/-- No string of many lines opens at the end of a line. -/
theorem Finished.head?_ne_quote (h : Finished cs) : cs.head? ≠ some '"' := by
  rcases h with rfl | ⟨eol, rest, heol, rfl⟩
  · decide
  · exact heol.head?_append_ne (by decide) (by decide) rest

/-! ## Reading lines -/

/-- A line is read as its spaces in front allow for. -/
theorem lines?_skipSpaces (h : skipSpaces cs = skipSpaces t) : lines? (fuel + 1) d cs = lines? (fuel + 1) d t := by
  rw [lines?, lines?, h]

theorem lines?_eol {eol : List Char} (h : LineEnd eol) (rest : List Char) :
    lines? (fuel + 1) d (eol ++ rest) = lines? fuel d rest := by
  cases h <;> rfl

theorem lines?_nil : lines? fuel d [] = some d := by
  cases fuel <;> rfl

theorem lines?_key (hc : BeginsKey c) (r : List Char) : lines? (fuel + 1) d (c :: r) =
    (do
      let ((path, key), rest) ← key? (c :: r)
      match rest with
      | '=' :: rest =>
        let rest := skipSpaces rest
        let (v, rest) ← value? (2 * rest.length + 2) 0 rest
        lines? fuel (← d.addValue path key v) (← lineEnd? rest)
      | _ => none) := by
  rw [lines?, skipSpaces_cons hc.solid.space]
  split
  · exact absurd ‹_› (List.cons_ne_nil c r)
  · exact absurd (List.cons.inj ‹_›).1 hc.solid.comment
  · exact absurd (List.cons.inj ‹_›).1 hc.solid.lf
  · exact absurd (List.cons.inj ‹_›).1 hc.solid.cr
  · exact absurd (List.cons.inj ‹_›).1 hc.bracket
  · exact absurd (List.cons.inj ‹_›).1 hc.bracket
  · rfl

theorem lines?_entry {n : Nat} {v : Value} {before after tail : List Char} (hkey : KeyField key field)
    (hbefore : Spaces before) (hn : n < depthLimit) (hv : ValueSpelling n v t) (hafter : Spaces after)
    (htail : Finished tail) :
    lines? (fuel + 1) d (field ++ '=' :: (before ++ (t ++ (after ++ tail)))) =
      (d.addValue [] key v).bind fun d => (lineEnd? tail).bind (lines? fuel d) := by
  cases hkey with
  | @intro space k behind hspace hk hbehind =>
    -- The spaces in front are skipped before it is seen that a key begins.
    have hread := (KeyField.intro .nil hk hbehind).key?_append (c := '=') ⟨by decide, by decide, by decide⟩
      (before ++ (t ++ (after ++ tail)))
    have hvalue : value? (2 * (t ++ (after ++ tail)).length + 2) 0 (t ++ (after ++ tail)) =
        some (v, after ++ tail) :=
      hv.value?_append (by omega) (by rw [List.length_append]; omega)
        (hafter.head?_append_ne (by decide) htail.head?_ne_quote)
    have hskip : skipSpaces (before ++ (t ++ (after ++ tail))) = t ++ (after ++ tail) := by
      obtain ⟨e, s, rfl, -⟩ := hv.exists_cons
      rw [hbefore.skipSpaces_append, List.cons_append, skipSpaces_cons hv.solid.1.space]
    obtain ⟨c, r, rfl, hc⟩ := hk.exists_cons
    rw [List.append_assoc, lines?_skipSpaces (hspace.skipSpaces_append _)]
    rw [List.nil_append] at hread
    simp only [List.cons_append] at hread ⊢
    rw [lines?_key hc, hread]
    show (value? (2 * (skipSpaces _).length + 2) 0 (skipSpaces _) >>= _) = _
    rw [hskip, hvalue]
    show ((d.addValue [] key v).bind fun d => (lineEnd? (after ++ tail)).bind (lines? fuel d)) = _
    rw [hafter.lineEnd?_append]

theorem lines?_series {name : String} {before after tail : List Char} (hbefore : Spaces before)
    (hname : KeyField name field) (hafter : Spaces after) :
    lines? (fuel + 1) d (before ++ '[' :: '[' :: (field ++ ']' :: ']' :: (after ++ tail))) =
      (d.openSeries [] name).bind fun d => (lineEnd? tail).bind (lines? fuel d) := by
  have hread := hname.key?_append (c := ']') ⟨by decide, by decide, by decide⟩ (']' :: (after ++ tail))
  rw [lines?_skipSpaces (hbefore.skipSpaces_append _), lines?]
  show (key? (field ++ ']' :: ']' :: (after ++ tail)) >>= _) = _
  rw [hread]
  show ((d.openSeries [] name).bind fun d => (lineEnd? (after ++ tail)).bind (lines? fuel d)) = _
  rw [hafter.lineEnd?_append]

/-- A key does not begin with a bracket. -/
theorem KeyField.exists_cons (h : KeyField key field) :
    ∃ c r, field = c :: r ∧ c ≠ '[' ∧ c ≠ byteOrderMark := by
  cases h with
  | @intro space k behind hspace hk hbehind =>
    cases space with
    | nil =>
      obtain ⟨c, r, rfl, hc⟩ := hk.exists_cons
      exact ⟨c, _, rfl, hc.bracket, hc.mark⟩
    | cons c space =>
      have hc := hspace c List.mem_cons_self
      refine ⟨c, _, rfl, ?_, ?_⟩
      · rintro rfl
        exact absurd hc (by decide)
      · rintro rfl
        exact absurd hc (by decide)

theorem lines?_table {name : String} {before after tail : List Char} (hbefore : Spaces before)
    (hname : KeyField name field) (hafter : Spaces after) :
    lines? (fuel + 1) d (before ++ '[' :: (field ++ ']' :: (after ++ tail))) =
      (d.openTable [] name).bind fun d => (lineEnd? tail).bind (lines? fuel d) := by
  have hread := hname.key?_append (c := ']') ⟨by decide, by decide, by decide⟩ (after ++ tail)
  rw [lines?_skipSpaces (hbefore.skipSpaces_append _), lines?, skipSpaces_cons (by decide)]
  -- One bracket alone opens a table, since no name begins with another.
  obtain ⟨c, r, rfl, hc, -⟩ := hname.exists_cons
  split
  · cases ‹_›
  · exact absurd (List.cons.inj ‹_›).1 (by decide)
  · exact absurd (List.cons.inj ‹_›).1 (by decide)
  · exact absurd (List.cons.inj ‹_›).1 (by decide)
  · exact absurd (List.cons.inj (List.cons.inj ‹_›).2).1 hc
  · rename_i heq
    rw [← (List.cons.inj heq).2, hread]
    show ((d.openTable [] name).bind fun d => (lineEnd? (after ++ tail)).bind (lines? fuel d)) = _
    rw [hafter.lineEnd?_append]
  · rename_i hne
    exact (hne _ rfl).elim

/-- A written line changes the document as it is meant to. -/
theorem LineSpelling.lines?_append (h : LineSpelling l t) (hrest : Finished rest) :
    lines? (fuel + 1) d (t ++ rest) = (l.run d).bind fun d => (lineEnd? rest).bind (lines? fuel d) := by
  cases h with
  | entry hkey hbefore hn hv hafter =>
    rw [List.append_assoc, List.cons_append, List.append_assoc, List.append_assoc]
    exact lines?_entry hkey hbefore hn hv hafter hrest
  | table hbefore hname hafter =>
    rw [List.append_assoc, List.cons_append, List.append_assoc, List.cons_append]
    exact lines?_table hbefore hname hafter
  | series hbefore hname hafter =>
    rw [List.append_assoc, List.cons_append, List.cons_append, List.append_assoc, List.cons_append,
      List.cons_append]
    exact lines?_series hbefore hname hafter

/-- The lines of a document are run one after the other. -/
theorem Layout.lines?_eq {lines : List Line} (h : Layout lines cs) :
    ∀ {fuel : Nat} {d : Document}, cs.length < fuel → lines? fuel d cs = lines.foldlM Line.run d := by
  induction h with
  | nil h =>
    intro fuel d hfuel
    obtain ⟨fuel, rfl⟩ := Nat.exists_eq_succ_of_ne_zero (Nat.ne_zero_of_lt hfuel)
    have hskip := h.skipSpaces_append []
    rw [List.append_nil] at hskip
    rw [lines?_skipSpaces hskip]
    rfl
  | blank hspace heol _ ih =>
    intro fuel d hfuel
    obtain ⟨fuel, rfl⟩ := Nat.exists_eq_succ_of_ne_zero (Nat.ne_zero_of_lt hfuel)
    simp only [List.length_append] at hfuel
    have hpos := heol.length_pos
    rw [lines?_skipSpaces (hspace.skipSpaces_append _), lines?_eol heol]
    exact ih (by omega)
  | @line l lines t eol rest hl heol _ ih =>
    intro fuel d hfuel
    obtain ⟨fuel, rfl⟩ := Nat.exists_eq_succ_of_ne_zero (Nat.ne_zero_of_lt hfuel)
    simp only [List.length_append] at hfuel
    have hpos := heol.length_pos
    rw [hl.lines?_append (heol.finished rest), lineEnd?_eol heol, List.foldlM_cons]
    exact congrArg (l.run d).bind (funext fun d => ih (by omega))
  | @last l t hl =>
    intro fuel d hfuel
    obtain ⟨fuel, rfl⟩ := Nat.exists_eq_succ_of_ne_zero (Nat.ne_zero_of_lt hfuel)
    rw [← List.append_nil t, hl.lines?_append .nil, List.foldlM_cons]
    exact congrArg (l.run d).bind (funext fun d => lines?_nil)

/-! ## Whole documents -/

theorem LineSpelling.head?_ne_mark (h : LineSpelling l t) (rest : List Char) :
    (t ++ rest).head? ≠ some byteOrderMark := by
  cases h with
  | entry hkey =>
    obtain ⟨c, r, rfl, -, hc⟩ := hkey.exists_cons
    exact fun heq => hc (Option.some.inj heq)
  | table hbefore =>
    rw [List.append_assoc]
    exact hbefore.head?_append_ne (by decide) fun heq => absurd (Option.some.inj heq) (by decide)
  | series hbefore =>
    rw [List.append_assoc]
    exact hbefore.head?_append_ne (by decide) fun heq => absurd (Option.some.inj heq) (by decide)

theorem Layout.head?_ne_mark {lines : List Line} (h : Layout lines cs) : cs.head? ≠ some byteOrderMark := by
  cases h with
  | nil h =>
    rw [← List.append_nil cs]
    exact h.head?_append_ne (by decide) (by decide)
  | blank hspace heol =>
    exact hspace.head?_append_ne (by decide) (heol.head?_append_ne (by decide) (by decide) _)
  | line hl => exact hl.head?_ne_mark _
  | last hl =>
    rw [← List.append_nil cs]
    exact hl.head?_ne_mark []

/-- What a document says is what its lines make of the empty one. -/
theorem Layout.parse?_ofList {lines : List Line} (h : Layout lines cs) :
    parse? (String.ofList cs) = (lines.foldlM Line.run {}).bind Document.value? := by
  rw [parse?, String.toList_ofList]
  split
  · exact absurd rfl h.head?_ne_mark
  · exact congrArg (Option.bind · Document.value?) (h.lines?_eq (Nat.lt_succ_self _))

end

end RequestRouting.Toml
