import RequestRouting.Proofs.Toml.Blocks

/-!
Writing documents.

Each line is written with single spaces and an end, each key bare where it can be, and each character of a string
for itself where it can be. What is written so is a spelling of what was meant (`layout_writeLines`), so every
document of strings and arrays can be written.
-/

namespace RequestRouting.Toml

open Text (hexDigit hexDigit? isHexDigit valueOf)

/-! ## Strings -/

/-- A character as it is written in a string. -/
def escape (c : Char) : List Char :=
  if c = '"' ∨ c = '\\' then ['\\', c]
  else if isControl c then ['\\', 'u', '0', '0', hexDigit (c.toNat / 16), hexDigit (c.toNat % 16)]
  else [c]

def writeString (s : String) : List Char := '"' :: (s.toList.flatMap escape ++ ['"'])

theorem hexDigit?_hexDigit {n : Nat} (h : n < 16) : hexDigit? (hexDigit n).toNat = some n :=
  (show ∀ n : Fin 16, hexDigit? (hexDigit n).toNat = some n.val by decide) ⟨n, h⟩

theorem valueOf_hexDigits {n : Nat} (h : n < 256) :
    valueOf 16 ['0', '0', hexDigit (n / 16), hexDigit (n % 16)] = n := by
  have hhigh := hexDigit?_hexDigit (Nat.div_lt_of_lt_mul h : n / 16 < 16)
  have hlow := hexDigit?_hexDigit (Nat.mod_lt n (by decide : 0 < 16))
  simp only [valueOf, List.foldl_cons, List.foldl_nil, hhigh, hlow, Option.getD_some]
  show 16 * (16 * (16 * (16 * 0 + 0) + 0) + n / 16) + n % 16 = n
  omega

theorem charSpelling_escape (c : Char) : CharSpelling c (escape c) := by
  rw [escape]
  split
  · rename_i h
    rcases h with rfl | rfl <;> exact .short (by decide)
  · rename_i hquote
    rw [not_or] at hquote
    split
    · rename_i hcontrol
      have hlt : c.toNat < 256 := by
        rw [isControl, Bool.or_eq_true, decide_eq_true_eq, beq_iff_eq] at hcontrol
        omega
      have hhigh := hexDigit?_hexDigit (Nat.div_lt_of_lt_mul hlt : c.toNat / 16 < 16)
      have hlow := hexDigit?_hexDigit (Nat.mod_lt c.toNat (by decide : 0 < 16))
      refine .code (by decide : ('u', 4) ∈ codeEscapes) ?_ (valueOf_hexDigits hlt)
      simp only [List.all_cons, isHexDigit, hhigh, hlow]
      rfl
    · exact .verbatim hquote.1 hquote.2 (Bool.eq_false_iff.2 ‹_›)

theorem textSpelling_escape (cs : List Char) : TextSpelling cs (cs.flatMap escape) := by
  induction cs with
  | nil => exact .nil
  | cons c cs ih => exact .cons (charSpelling_escape c) ih

theorem stringSpelling_write (s : String) : StringSpelling s (writeString s) := by
  have h := StringSpelling.quoted (textSpelling_escape s.toList)
  rwa [String.ofList_toList] at h

/-! ## Values -/

mutual

/-- A string or an array as it is written. Nothing is written for other values. -/
def writeValue : Value → List Char
  | .string s => writeString s
  | .array items => '[' :: (writeItems items ++ [']'])
  | _ => []

def writeItems : List Value → List Char
  | [] => []
  | [v] => writeValue v
  | v :: vs => writeValue v ++ ',' :: ' ' :: writeItems vs

end

/-- Strings, and arrays of such values nested up to a depth. -/
inductive Value.Plain : Nat → Value → Prop
  | string {n : Nat} (s : String) : Plain n (.string s)
  | array {n : Nat} {items : List Value} (h : ∀ v ∈ items, Plain n v) : Plain (n + 1) (.array items)

/-- A blank in front of items does not matter. -/
theorem ItemsSpelling.space {n : Nat} {items : List Value} {body : List Char} (h : ItemsSpelling n items body) :
    ItemsSpelling n items (' ' :: body) := by
  have hspace : isSpace ' ' := by decide
  cases h with
  | nil hgap => exact .nil (.space hspace hgap)
  | last hbefore hv hafter => exact .last (.space hspace hbefore) hv hafter
  | cons hbefore hv hafter h => exact .cons (.space hspace hbefore) hv hafter h

theorem itemsSpelling_write {n : Nat} {items : List Value}
    (h : ∀ v ∈ items, ValueSpelling n v (writeValue v)) : ItemsSpelling n items (writeItems items) := by
  induction items with
  | nil => exact .nil .nil
  | cons v vs ih =>
    obtain ⟨hv, hvs⟩ := List.forall_mem_cons.1 h
    cases vs with
    | nil =>
      have hlast := ItemsSpelling.last .nil hv .nil
      rwa [List.append_nil] at hlast
    | cons w vs => exact .cons .nil hv .nil (ih hvs).space

theorem Value.Plain.valueSpelling_write {n : Nat} {v : Value} (h : v.Plain n) : ValueSpelling n v (writeValue v) := by
  induction h with
  | string s => exact .string (stringSpelling_write s)
  | array _ ih => exact .array (itemsSpelling_write ih)

/-! ## Documents -/

def writeKey (key : String) : List Char :=
  if key.toList ≠ [] ∧ key.toList.all isBareKeyChar then key.toList else writeString key

theorem keySpelling_write (key : String) : KeySpelling key (writeKey key) := by
  rw [writeKey]
  split
  · rename_i h
    have hbare := KeySpelling.bare h.1 (List.all_eq_true.1 h.2)
    rwa [String.ofList_toList] at hbare
  · exact .string (stringSpelling_write key)

theorem keyField_write (key : String) : KeyField key (writeKey key) := by
  have h := KeyField.intro .nil (keySpelling_write key) .nil
  rwa [List.append_nil] at h

def Line.write : Line → List Char
  | entry key v => writeKey key ++ ' ' :: '=' :: ' ' :: writeValue v
  | table name => '[' :: (writeKey name ++ [']'])
  | series name => '[' :: '[' :: (writeKey name ++ [']', ']'])

/-- Whether the value of a line, if it has one, can be written. -/
def Line.Plain (n : Nat) : Line → Prop
  | entry _ v => v.Plain n
  | table _ | series _ => True

theorem Line.Plain.lineSpelling_write {n : Nat} {l : Line} (hn : n < depthLimit) (h : l.Plain n) :
    LineSpelling l l.write := by
  cases l with
  | entry key v =>
    have hkey : KeyField key (writeKey key ++ [' ']) := .intro .nil (keySpelling_write key) (by decide)
    have hline := LineSpelling.entry hkey (show Spaces [' '] by decide) hn h.valueSpelling_write .nil
    rw [List.append_nil, List.append_assoc] at hline
    exact hline
  | table name => exact .table .nil (keyField_write name) .nil
  | series name => exact .series .nil (keyField_write name) .nil

def writeLines (lines : List Line) : List Char := lines.flatMap fun l => l.write ++ ['\n']

/-- Lines whose values can be written can be written one below the other. -/
theorem layout_writeLines {n : Nat} {lines : List Line} (hn : n < depthLimit) (h : ∀ l ∈ lines, l.Plain n) :
    Layout lines (writeLines lines) := by
  induction lines with
  | nil => exact .nil .nil
  | cons l lines ih =>
    have hrest := ih fun l hl => h l (List.mem_cons_of_mem _ hl)
    rw [writeLines, List.flatMap_cons, List.append_assoc]
    exact .line ((h l List.mem_cons_self).lineSpelling_write hn) .lf hrest

theorem plain_entryLines {n : Nat} {es : Entries} (h : ∀ e ∈ es, e.2.Plain n) :
    ∀ l ∈ entryLines es, l.Plain n := by
  intro l hl
  obtain ⟨e, he, rfl⟩ := List.mem_map.1 hl
  exact h e he

/-- Whether the values of a block can be written. -/
def Block.Plain (n : Nat) : Block → Prop
  | table _ es => ∀ e ∈ es, e.2.Plain n
  | series _ tables => ∀ es ∈ tables, ∀ e ∈ es, e.2.Plain n

theorem Block.Plain.lines {n : Nat} {b : Block} (h : b.Plain n) : ∀ l ∈ b.lines, l.Plain n := by
  cases b with
  | table name es => exact List.forall_mem_cons.2 ⟨trivial, plain_entryLines h⟩
  | series name tables =>
    intro l hl
    obtain ⟨es, hes, hl⟩ := List.mem_flatMap.1 hl
    exact List.forall_mem_cons.2 ⟨trivial, plain_entryLines (h es hes)⟩ l hl

/-- Whether the values of a document can be written. -/
structure Contents.Plain (n : Nat) (c : Contents) : Prop where
  top : ∀ e ∈ c.top, e.2.Plain n
  blocks : ∀ b ∈ c.blocks, b.Plain n

theorem Contents.Plain.layout_write {n : Nat} {c : Contents} (hn : n < depthLimit) (h : c.Plain n) :
    Layout c.lines (writeLines c.lines) := by
  apply layout_writeLines hn
  intro l hl
  rcases List.mem_append.1 hl with hl | hl
  · exact plain_entryLines h.top l hl
  · obtain ⟨b, hb, hl⟩ := List.mem_flatMap.1 hl
    exact (h.blocks b hb).lines l hl

end RequestRouting.Toml
