import Mathlib.Tactic.Common
import RequestRouting.Toml.Parser

/-!
How strings, arrays and keys may be written in TOML.

A string stands in double quotes, with each of its characters for itself or escaped; an array has its items
between brackets, with commas, blanks and line ends among them. Whatever way is chosen, the reader gives back the
value (`ValueSpelling.value?_append`) or the key (`KeyField.key?_append`) and leaves what follows.
-/

namespace RequestRouting.Toml

open Text (isHexDigit valueOf scalar?_toNat)

/-! ## Blanks and line ends -/

/-- Spaces and tabs. -/
def Spaces (cs : List Char) : Prop := ∀ c ∈ cs, isSpace c

instance (cs : List Char) : Decidable (Spaces cs) := decidable_of_iff (cs.all isSpace) List.all_eq_true

inductive LineEnd : List Char → Prop
  | lf : LineEnd ['\n']
  | crlf : LineEnd ['\r', '\n']

/-- Spaces, tabs and line ends. -/
inductive Gap : List Char → Prop
  | nil : Gap []
  | space {c : Char} {gap : List Char} (hc : isSpace c) (h : Gap gap) : Gap (c :: gap)
  | line {eol gap : List Char} (heol : LineEnd eol) (h : Gap gap) : Gap (eol ++ gap)

/-- A character at which a reader of blanks and comments stops. -/
structure Solid (c : Char) : Prop where
  space : isSpace c = false
  comment : c ≠ '#'
  lf : c ≠ '\n'
  cr : c ≠ '\r'

theorem solid_iff {c : Char} : Solid c ↔ isSpace c = false ∧ c ≠ '#' ∧ c ≠ '\n' ∧ c ≠ '\r' :=
  ⟨fun h => ⟨h.space, h.comment, h.lf, h.cr⟩, fun h => ⟨h.1, h.2.1, h.2.2.1, h.2.2.2⟩⟩

instance (c : Char) : Decidable (Solid c) := decidable_of_iff _ solid_iff.symm

section

variable {c : Char} {cs space : List Char}

theorem Spaces.nil : Spaces [] := by
  decide

theorem Spaces.skipSpaces_append (h : Spaces space) (rest : List Char) :
    skipSpaces (space ++ rest) = skipSpaces rest :=
  List.dropWhile_append_of_pos h

/-- A text begins with no more than spaces and what is behind them. -/
theorem Spaces.head?_append_ne (h : Spaces space) (hc : isSpace c = false) (hcs : cs.head? ≠ some c) :
    (space ++ cs).head? ≠ some c := by
  cases space with
  | nil => exact hcs
  | cons d space =>
    intro heq
    have hd := h d List.mem_cons_self
    rw [Option.some.inj heq, hc] at hd
    exact Bool.false_ne_true hd

theorem skipSpaces_cons (hc : isSpace c = false) : skipSpaces (c :: cs) = c :: cs := by
  rw [skipSpaces, List.dropWhile_cons, hc]
  rfl

theorem skipSpaces_space (hc : isSpace c) : skipSpaces (c :: cs) = skipSpaces cs := by
  rw [skipSpaces, List.dropWhile_cons, if_pos hc]
  rfl

theorem LineEnd.head?_append_ne {eol : List Char} (h : LineEnd eol) (hlf : c ≠ '\n') (hcr : c ≠ '\r')
    (rest : List Char) : (eol ++ rest).head? ≠ some c := by
  cases h with
  | lf => exact fun heq => hlf (Option.some.inj heq).symm
  | crlf => exact fun heq => hcr (Option.some.inj heq).symm

theorem LineEnd.length_pos {eol : List Char} (h : LineEnd eol) : 0 < eol.length := by
  cases h <;> decide

theorem LineEnd.skipBetween {eol : List Char} (h : LineEnd eol) (fuel : Nat) (rest : List Char) :
    skipBetween (fuel + 1) (eol ++ rest) = skipBetween fuel rest := by
  cases h <;> rfl

theorem skipBetween_space (hc : isSpace c) (fuel : Nat) (rest : List Char) :
    skipBetween (fuel + 1) (c :: rest) = skipBetween (fuel + 1) rest := by
  rw [skipBetween, skipBetween, skipSpaces_space hc]

theorem skipBetween_solid (hc : Solid c) (fuel : Nat) (rest : List Char) :
    skipBetween (fuel + 1) (c :: rest) = some (c :: rest) := by
  rw [skipBetween, skipSpaces_cons hc.space]
  split
  · exact absurd (List.cons.inj ‹_›).1 hc.comment
  · exact absurd (List.cons.inj ‹_›).1 hc.lf
  · exact absurd (List.cons.inj ‹_›).1 hc.cr
  · exact absurd (List.cons.inj ‹_›).1 hc.cr
  · rfl

/-- What stands between the items of an array is skipped. -/
theorem Gap.skipBetween {gap : List Char} (h : Gap gap) (hc : Solid c) (rest : List Char) :
    ∀ {fuel : Nat}, gap.length < fuel → skipBetween fuel (gap ++ c :: rest) = some (c :: rest) := by
  induction h with
  | nil =>
    intro fuel hfuel
    obtain ⟨fuel, rfl⟩ := Nat.exists_eq_succ_of_ne_zero (Nat.ne_of_gt hfuel)
    exact skipBetween_solid hc fuel rest
  | space hd _ ih =>
    intro fuel hfuel
    obtain ⟨fuel, rfl⟩ := Nat.exists_eq_succ_of_ne_zero (Nat.ne_zero_of_lt hfuel)
    rw [List.cons_append, skipBetween_space hd]
    exact ih (Nat.lt_of_succ_lt hfuel)
  | line heol _ ih =>
    intro fuel hfuel
    obtain ⟨fuel, rfl⟩ := Nat.exists_eq_succ_of_ne_zero (Nat.ne_zero_of_lt hfuel)
    rw [List.length_append] at hfuel
    have hpos := heol.length_pos
    rw [List.append_assoc, heol.skipBetween]
    exact ih (by omega)

theorem Gap.skipBetweenItems {gap : List Char} (h : Gap gap) (hc : Solid c) (rest : List Char) :
    skipBetweenItems (gap ++ c :: rest) = some (c :: rest) := by
  apply h.skipBetween hc
  rw [List.length_append]
  omega

end

/-! ## Strings -/

/-- The codes below the space, and that of the delete character. -/
def isControl (c : Char) : Bool := c.toNat < 32 || c.toNat == 127

/-- The letters that stand for a character behind a backslash. -/
def shortEscapes : List (Char × Char) :=
  [('b', '\x08'), ('t', '\t'), ('n', '\n'), ('f', '\x0c'), ('r', '\r'), ('"', '"'), ('\\', '\\')]

/-- The letters that announce the code of a character, with the number of its hexadecimal digits. -/
def codeEscapes : List (Char × Nat) := [('u', 4), ('U', 8)]

/-- How a character may be written in a string: for itself, unless it is a quote, a backslash or a control
character, or by an escape. -/
inductive CharSpelling (c : Char) : List Char → Prop
  | verbatim (hquote : c ≠ '"') (hescape : c ≠ '\\') (hcontrol : isControl c = false) : CharSpelling c [c]
  | short {letter : Char} (h : (letter, c) ∈ shortEscapes) : CharSpelling c ['\\', letter]
  | code {letter : Char} {digits : List Char} (h : (letter, digits.length) ∈ codeEscapes)
      (hdigits : digits.all isHexDigit) (hvalue : valueOf 16 digits = c.toNat) :
      CharSpelling c ('\\' :: letter :: digits)

/-- How the characters of a string may be written between its quotes. -/
inductive TextSpelling : List Char → List Char → Prop
  | nil : TextSpelling [] []
  | cons {c : Char} {cs t body : List Char} (hc : CharSpelling c t) (h : TextSpelling cs body) :
      TextSpelling (c :: cs) (t ++ body)

/-- How a string may be written. -/
inductive StringSpelling : String → List Char → Prop
  | quoted {cs body : List Char} (h : TextSpelling cs body) :
      StringSpelling (String.ofList cs) ('"' :: (body ++ ['"']))

section

variable {c : Char} {cs t body : List Char}

theorem basicString_append (t rest : List Char) :
    basicString t.length (t ++ rest) = basicString 0 rest := by
  induction t with
  | nil => rfl
  | cons c t ih => exact ih

/-- An escape stands for its character, whatever follows. -/
theorem basicString_escape (h : ∀ rest, escape? (t ++ rest) = some (c, t.length)) (rest : List Char) :
    basicString 0 ('\\' :: (t ++ rest)) = consRead c (basicString 0 rest) := by
  rw [basicString, if_neg (by decide), if_pos rfl, h]
  exact congrArg (consRead c) (basicString_append t rest)

theorem escape?_short {letter : Char} (h : (letter, c) ∈ shortEscapes) (rest : List Char) :
    escape? (letter :: rest) = some (c, 1) := by
  simp only [shortEscapes, List.mem_cons, Prod.mk.injEq, List.not_mem_nil, or_false] at h
  rcases h with ⟨rfl, rfl⟩ | ⟨rfl, rfl⟩ | ⟨rfl, rfl⟩ | ⟨rfl, rfl⟩ | ⟨rfl, rfl⟩ | ⟨rfl, rfl⟩ | ⟨rfl, rfl⟩ <;> rfl

theorem escape?_code {digits : List Char} (hdigits : digits.all isHexDigit)
    (hvalue : valueOf 16 digits = c.toNat) (rest : List Char) :
    escape?.code digits.length (digits ++ rest) = some (c, digits.length + 1) := by
  simp only [escape?.code, List.take_left, hdigits, hvalue, scalar?_toNat, and_self, if_true, Option.map_some]

theorem CharSpelling.basicString_append (h : CharSpelling c t) (rest : List Char) :
    basicString 0 (t ++ rest) = consRead c (basicString 0 rest) := by
  cases h with
  | verbatim hquote hescape hcontrol =>
    have htext : isText c := by
      simp only [isControl, Bool.or_eq_false_iff, decide_eq_false_iff_not, beq_eq_false_iff_ne] at hcontrol
      simp only [isText, Bool.or_eq_true, Bool.and_eq_true, decide_eq_true_eq, bne_iff_ne]
      exact .inr ⟨Nat.le_of_not_lt hcontrol.1, hcontrol.2⟩
    rw [List.singleton_append, basicString, if_neg hquote, if_neg hescape, if_pos htext]
  | short h => exact basicString_escape (fun rest => escape?_short h rest) rest
  | @code letter digits h hdigits hvalue =>
    refine basicString_escape (fun rest => ?_) rest
    have hcode := escape?_code hdigits hvalue rest
    simp only [codeEscapes, List.mem_cons, Prod.mk.injEq, List.not_mem_nil, or_false] at h
    rcases h with ⟨rfl, hlength⟩ | ⟨rfl, hlength⟩
    · rw [hlength] at hcode
      rw [List.length_cons, hlength]
      exact hcode
    · rw [hlength] at hcode
      rw [List.length_cons, hlength]
      exact hcode

/-- A written string is read up to its closing quote. -/
theorem TextSpelling.basicString_append (h : TextSpelling cs body) (rest : List Char) :
    basicString 0 (body ++ '"' :: rest) = some (cs, rest) := by
  induction h with
  | nil => rfl
  | cons hc _ ih =>
    rw [List.append_assoc, hc.basicString_append, ih]
    rfl

/-- No character is written by a text that begins with a quote. -/
theorem CharSpelling.exists_cons (h : CharSpelling c t) : ∃ d r, t = d :: r ∧ d ≠ '"' := by
  cases h with
  | verbatim hquote => exact ⟨c, [], rfl, hquote⟩
  | short => exact ⟨_, _, rfl, by decide⟩
  | code => exact ⟨_, _, rfl, by decide⟩

/-- A string in double quotes is none of many lines unless it is empty and another quote follows. -/
theorem TextSpelling.string?_append (h : TextSpelling cs body) {rest : List Char}
    (hrest : rest.head? ≠ some '"') : string? ('"' :: (body ++ '"' :: rest)) = some (cs, rest) := by
  have hread := h.basicString_append rest
  -- What matters is whether a third quote follows the first two.
  cases h with
  | nil =>
    cases rest with
    | nil => rfl
    | cons d rest =>
      rw [List.nil_append, string?]
      · exact hread
      · rintro r hr
        obtain ⟨rfl, -⟩ := List.cons.inj (List.cons.inj hr).2
        exact hrest rfl
  | cons hc h =>
    obtain ⟨d, r, rfl, hd⟩ := hc.exists_cons
    rw [string?]
    · exact hread
    · rintro r hr
      exact hd (List.cons.inj hr).1

theorem StringSpelling.scalarValue?_append {s : String} (h : StringSpelling s t) {rest : List Char}
    (hrest : rest.head? ≠ some '"') : scalarValue? (t ++ rest) = some (.string s, rest) := by
  cases h with
  | quoted h =>
    rw [List.cons_append, List.append_assoc, List.singleton_append]
    simp only [scalarValue?, true_or, if_true, h.string?_append hrest]
    rfl

end

/-! ## Values -/

mutual

/-- How a string, or an array of strings and arrays nested up to a depth, may be written. -/
inductive ValueSpelling : Nat → Value → List Char → Prop
  | string {n : Nat} {s : String} {t : List Char} (h : StringSpelling s t) : ValueSpelling n (.string s) t
  | array {n : Nat} {items : List Value} {body : List Char} (h : ItemsSpelling n items body) :
      ValueSpelling (n + 1) (.array items) ('[' :: (body ++ [']']))

/-- How the items of an array may be written between its brackets. -/
inductive ItemsSpelling : Nat → List Value → List Char → Prop
  | nil {n : Nat} {gap : List Char} (hgap : Gap gap) : ItemsSpelling n [] gap
  | last {n : Nat} {v : Value} {before t after : List Char} (hbefore : Gap before)
      (hv : ValueSpelling n v t) (hafter : Gap after) : ItemsSpelling n [v] (before ++ (t ++ after))
  | cons {n : Nat} {v : Value} {vs : List Value} {before t after body : List Char} (hbefore : Gap before)
      (hv : ValueSpelling n v t) (hafter : Gap after) (h : ItemsSpelling n vs body) :
      ItemsSpelling n (v :: vs) (before ++ (t ++ (after ++ ',' :: body)))

end

section

variable {n fuel depth : Nat} {v : Value} {t rest : List Char}

/-- A written value begins with a quote or a bracket. -/
theorem ValueSpelling.exists_cons (h : ValueSpelling n v t) :
    ∃ c r, t = c :: r ∧ (c = '"' ∨ c = '[') := by
  cases h with
  | string h =>
    cases h with
    | quoted => exact ⟨_, _, rfl, .inl rfl⟩
  | array => exact ⟨_, _, rfl, .inr rfl⟩

theorem ValueSpelling.solid {c : Char} {r : List Char} (h : ValueSpelling n v (c :: r)) :
    Solid c ∧ c ≠ ']' := by
  obtain ⟨d, s, heq, hd⟩ := h.exists_cons
  obtain ⟨rfl, -⟩ := List.cons.inj heq
  rcases hd with rfl | rfl <;> decide

theorem Gap.head?_append_ne {gap : List Char} (h : Gap gap) {c : Char} (hc : c ≠ '"') (rest : List Char) :
    (gap ++ c :: rest).head? ≠ some '"' := by
  cases h with
  | nil => exact fun heq => hc (Option.some.inj heq)
  | space hd =>
    intro heq
    rw [Option.some.inj heq] at hd
    exact absurd hd (by decide)
  | line heol =>
    rw [List.append_assoc]
    exact heol.head?_append_ne (by decide) (by decide) _

theorem value?_array (h : depth + 1 < depthLimit) (r : List Char) : value? (fuel + 1) depth ('[' :: r) =
    (items? fuel (depth + 1) r).map fun p => (.array p.1, p.2) := by
  rw [value?, if_neg (Nat.not_le_of_lt h)]
  cases items? fuel (depth + 1) r <;> rfl

theorem value?_string {s : String} (h : StringSpelling s t) (hrest : rest.head? ≠ some '"') :
    value? (fuel + 1) depth (t ++ rest) = some (.string s, rest) := by
  have hread := h.scalarValue?_append hrest
  cases h with
  | quoted =>
    rw [List.cons_append, value?]
    · exact hread
    · exact fun r hr => absurd (List.cons.inj hr).1 (by decide)
    · exact fun r hr => absurd (List.cons.inj hr).1 (by decide)

theorem items?_nil {gap : List Char} (h : Gap gap) :
    items? (fuel + 1) depth (gap ++ ']' :: rest) = some ([], rest) := by
  rw [items?, h.skipBetweenItems (by decide)]
  rfl

/-- What is behind an item decides whether there are more of them. -/
theorem items?_cons {before after : List Char} {c : Char} (hbefore : Gap before) (hv : ValueSpelling n v t)
    (hafter : Gap after) (hc : Solid c)
    (hread : value? fuel depth (t ++ (after ++ c :: rest)) = some (v, after ++ c :: rest)) :
    items? (fuel + 1) depth (before ++ (t ++ (after ++ c :: rest))) =
      match c :: rest with
      | ',' :: rest => do
        let (vs, rest) ← items? fuel depth rest
        return (v :: vs, rest)
      | ']' :: rest => return ([v], rest)
      | _ => none := by
  -- The item does not begin with the bracket that would end the array.
  obtain ⟨d, r, rfl, -⟩ := hv.exists_cons
  have hd := hv.solid
  rw [List.cons_append] at hread ⊢
  rw [items?, hbefore.skipBetweenItems hd.1, Option.bind_eq_bind, Option.bind_some]
  split
  · exact absurd (List.cons.inj ‹_›).1 hd.2
  · rw [hread, Option.bind_eq_bind, Option.bind_some]
    show (skipBetweenItems (after ++ c :: rest) >>= _) = _
    rw [hafter.skipBetweenItems hc]
    rfl

/-- Whether the fuel is enough for written values that are no longer than that. -/
def ReadsValues (fuel : Nat) : Prop :=
  ∀ ⦃n depth : Nat⦄ ⦃v : Value⦄ ⦃t rest : List Char⦄, ValueSpelling n v t → depth + n < depthLimit →
    t.length ≤ fuel → rest.head? ≠ some '"' → value? fuel depth (t ++ rest) = some (v, rest)

/-- Whether the fuel is enough for written items that are shorter than that. -/
def ReadsItems (fuel : Nat) : Prop :=
  ∀ ⦃n depth : Nat⦄ ⦃vs : List Value⦄ ⦃body : List Char⦄ (rest : List Char), ItemsSpelling n vs body →
    depth + n < depthLimit → body.length < fuel →
      items? fuel depth (body ++ ']' :: rest) = some (vs, rest)

theorem ReadsItems.readsValues (hitems : ReadsItems fuel) : ReadsValues (fuel + 1) := by
  intro n depth v t rest h hdepth hfuel hrest
  cases h with
  | string h => exact value?_string h hrest
  | array h =>
    rw [List.length_cons, List.length_append, List.length_singleton] at hfuel
    rw [List.cons_append, List.append_assoc, List.singleton_append, value?_array (by omega),
      hitems rest h (by omega) (by omega)]
    rfl

theorem ReadsValues.readsItems (hvalues : ReadsValues fuel) (hitems : ReadsItems fuel) :
    ReadsItems (fuel + 1) := by
  intro n depth vs body rest h hdepth hfuel
  cases h with
  | nil hgap => exact items?_nil hgap
  | last hbefore hv hafter =>
    simp only [List.length_append] at hfuel
    have hread := hvalues hv hdepth (by omega) (hafter.head?_append_ne (c := ']') (by decide) rest)
    rw [List.append_assoc, List.append_assoc, items?_cons hbefore hv hafter (by decide) hread]
    rfl
  | @cons _ _ vs before t after body hbefore hv hafter h =>
    simp only [List.length_append, List.length_cons] at hfuel
    have hread := hvalues hv hdepth (by omega)
      (hafter.head?_append_ne (c := ',') (by decide) (body ++ ']' :: rest))
    rw [List.append_assoc, List.append_assoc, List.append_assoc, List.cons_append,
      items?_cons hbefore hv hafter (by decide) hread]
    show (items? fuel depth (body ++ ']' :: rest) >>= _) = _
    rw [hitems rest h hdepth (by omega)]
    rfl

-- Values and items are read in turn, each with one less of the fuel.
theorem reads_of_fuel (fuel : Nat) : ReadsValues fuel ∧ ReadsItems fuel := by
  induction fuel with
  | zero =>
    refine ⟨fun n depth v t rest h _ hfuel => ?_, fun n depth vs body rest _ _ hfuel => ?_⟩
    · obtain ⟨c, r, rfl, -⟩ := h.exists_cons
      exact absurd hfuel (Nat.not_succ_le_zero _)
    · exact absurd hfuel (Nat.not_lt_zero _)
  | succ fuel ih => exact ⟨ih.2.readsValues, ih.1.readsItems ih.2⟩

/-- A written value is read if the nesting stays below the limit and the fuel is no less than the length. -/
theorem ValueSpelling.value?_append (h : ValueSpelling n v t) (hdepth : depth + n < depthLimit)
    (hfuel : t.length ≤ fuel) (hrest : rest.head? ≠ some '"') :
    value? fuel depth (t ++ rest) = some (v, rest) :=
  (reads_of_fuel fuel).1 h hdepth hfuel hrest

end

/-! ## Keys -/

/-- How a key may be written: its characters alone, if they are letters, digits, hyphens and underscores, or a
string. -/
inductive KeySpelling : String → List Char → Prop
  | bare {cs : List Char} (hne : cs ≠ []) (h : ∀ c ∈ cs, isBareKeyChar c) : KeySpelling (String.ofList cs) cs
  | string {key : String} {t : List Char} (h : StringSpelling key t) : KeySpelling key t

/-- A key with spaces around it. -/
inductive KeyField : String → List Char → Prop
  | intro {key : String} {before t after : List Char} (hbefore : Spaces before) (h : KeySpelling key t)
      (hafter : Spaces after) : KeyField key (before ++ (t ++ after))

section

variable {key : String} {t rest : List Char} {c : Char}

/-- A character that ends a key. -/
structure EndsKey (c : Char) : Prop where
  bare : isBareKeyChar c = false
  space : isSpace c = false
  dot : c ≠ '.'

/-- The mark that a document may begin with. -/
def byteOrderMark : Char := '\uFEFF'

/-- A key begins with no sign that a line might begin with otherwise. -/
structure BeginsKey (c : Char) : Prop where
  solid : Solid c
  bracket : c ≠ '['
  mark : c ≠ byteOrderMark

theorem isBareKeyChar_of_isSpace (h : isSpace c) : isBareKeyChar c = false := by
  rw [isSpace, Bool.or_eq_true, beq_iff_eq, beq_iff_eq] at h
  rcases h with rfl | rfl <;> decide

theorem Spaces.head_append {space : List Char} (h : Spaces space) (hc : isBareKeyChar c = false)
    (rest : List Char) : ∃ d r, space ++ c :: rest = d :: r ∧ isBareKeyChar d = false := by
  cases space with
  | nil => exact ⟨c, rest, rfl, hc⟩
  | cons d space => exact ⟨d, _, rfl, isBareKeyChar_of_isSpace (h d List.mem_cons_self)⟩

theorem KeySpelling.keyPart?_append (h : KeySpelling key t) (hc : isBareKeyChar c = false)
    (rest : List Char) : keyPart? (t ++ c :: rest) = some (key, c :: rest) := by
  cases h with
  | string h =>
    cases h with
    | quoted h =>
      rw [List.cons_append, List.append_assoc, List.singleton_append, keyPart?, h.basicString_append]
      rfl
  | bare hne h =>
    obtain ⟨d, t, rfl⟩ := List.exists_cons_of_ne_nil hne
    have hd := h d List.mem_cons_self
    have htake : ((d :: t) ++ c :: rest).takeWhile isBareKeyChar = d :: t := by
      rw [List.takeWhile_append_of_pos h, List.takeWhile_cons_of_neg (Bool.eq_false_iff.1 hc), List.append_nil]
    have hdrop : ((d :: t) ++ c :: rest).dropWhile isBareKeyChar = c :: rest := by
      rw [List.dropWhile_append_of_pos h, List.dropWhile_cons_of_neg (Bool.eq_false_iff.1 hc)]
    rw [keyPart?, htake, hdrop]
    · rintro r hr
      rw [(List.cons.inj hr).1] at hd
      exact absurd hd (by decide)
    · rintro r hr
      rw [(List.cons.inj hr).1] at hd
      exact absurd hd (by decide)

theorem BeginsKey.of_bare (h : isBareKeyChar c) : BeginsKey c := by
  have hne : ∀ d : Char, isBareKeyChar d = false → c ≠ d := by
    rintro d hd rfl
    exact Bool.false_ne_true (hd.symm.trans h)
  refine ⟨⟨?_, hne _ (by decide), hne _ (by decide), hne _ (by decide)⟩, hne _ (by decide), hne _ (by decide)⟩
  by_contra hspace
  exact Bool.false_ne_true ((isBareKeyChar_of_isSpace (Bool.not_eq_false _ ▸ hspace)).symm.trans h)

theorem KeySpelling.exists_cons (h : KeySpelling key t) : ∃ c r, t = c :: r ∧ BeginsKey c := by
  cases h with
  | string h =>
    cases h with
    | quoted => exact ⟨_, _, rfl, by decide, by decide, by decide⟩
  | bare hne h =>
    obtain ⟨c, r, rfl⟩ := List.exists_cons_of_ne_nil hne
    exact ⟨c, r, rfl, .of_bare (h c List.mem_cons_self)⟩

theorem KeySpelling.skipSpaces_append (h : KeySpelling key t) (rest : List Char) :
    skipSpaces (t ++ rest) = t ++ rest := by
  obtain ⟨c, r, rfl, hc⟩ := h.exists_cons
  exact skipSpaces_cons hc.solid.space

theorem moreKeyParts_nil (hc : EndsKey c) {space : List Char} (h : Spaces space) (rest : List Char) :
    moreKeyParts (space ++ c :: rest).length (space ++ c :: rest) = some ([], c :: rest) := by
  have hlength : (space ++ c :: rest).length = (space ++ rest).length + 1 := by
    simp only [List.length_append, List.length_cons, Nat.add_assoc]
  rw [hlength, moreKeyParts, h.skipSpaces_append, skipSpaces_cons hc.space]
  split
  · exact absurd (List.cons.inj ‹_›).1 hc.dot
  · rfl

/-- A key of one part is read up to the character that ends it. -/
theorem KeyField.key?_append (h : KeyField key t) (hc : EndsKey c) (rest : List Char) :
    key? (t ++ c :: rest) = some (([], key), c :: rest) := by
  cases h with
  | @intro before t after hbefore h hafter =>
    -- A bare key ends at the spaces behind it, if there are any, or at the character behind them.
    obtain ⟨d, r, heq, hd⟩ := hafter.head_append hc.bare rest
    have hpart := h.keyPart?_append hd r
    rw [← heq] at hpart
    rw [List.append_assoc, List.append_assoc, key?, hbefore.skipSpaces_append, h.skipSpaces_append, hpart]
    show (moreKeyParts (after ++ c :: rest).length (after ++ c :: rest) >>= _) = _
    rw [moreKeyParts_nil hc hafter]
    rfl

end

end RequestRouting.Toml
