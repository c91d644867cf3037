import RequestRouting.Proofs.Pattern.Plain

/-!
How a pattern divides into text and placeholders.

`Divides` says what a division of a pattern is, with no word on reading it: each placeholder is written as it
should be, takes a separator or a question mark that stands next to it, and no bracketed tag begins in the text
between placeholders. A pattern has exactly one division, and that is the one by which its placeholders are listed
and its expression is written (`exists_division`).
-/

namespace RequestRouting

open Regex.Parser.Passes (mark)

namespace Placeholder

/-! ## Bracketed tags -/

/-- Whether a text may be a tag or a name. -/
def Inner (cs : List Char) : Prop := ∀ c ∈ cs, isInner c

/-- What stands behind an opening bracket: a tag, a colon and a name if there is one, and the closing bracket. -/
def closing (tag : List Char) (name : Option (List Char)) : List Char :=
  tag ++ (name.elim [] (':' :: ·) ++ [']'])

/-- Whether a text begins with a tag in brackets, with a name or without one. -/
def Opens (cs : List Char) : Prop :=
  ∃ tag name rest, Inner tag ∧ (∀ n ∈ name, Inner n) ∧ cs = '[' :: closing tag name ++ rest

/-- Whether a placeholder is written as its separator, its tag and name in brackets, and its mark. An empty name
counts as none. -/
def Written (p : Placeholder) : Prop :=
  ∃ name : Option (List Char), Inner p.tag.toList ∧ (∀ n ∈ name, Inner n) ∧
    p.text.toList = p.lead ++ '[' :: closing p.tag.toList name ++ mark p.optional ∧
    p.name = (name.filter (!·.isEmpty)).map String.ofList

theorem takeWhile_inner {cs : List Char} (h : Inner cs) {c : Char} (hc : isInner c = false)
    (rest : List Char) : (cs ++ c :: rest).takeWhile isInner = cs := by
  rw [List.takeWhile_append_of_pos h, List.takeWhile_cons_of_neg (by simp [hc]), List.append_nil]

theorem dropWhile_inner {cs : List Char} (h : Inner cs) {c : Char} (hc : isInner c = false)
    (rest : List Char) : (cs ++ c :: rest).dropWhile isInner = c :: rest := by
  rw [List.dropWhile_append_of_pos h, List.dropWhile_cons_of_neg (by simp [hc])]

theorem inner_takeWhile (cs : List Char) : Inner (cs.takeWhile isInner) :=
  fun _ hc => List.mem_takeWhile_imp hc

theorem inside?_closing {tag : List Char} {name : Option (List Char)} (htag : Inner tag)
    (hname : ∀ n ∈ name, Inner n) (rest : List Char) :
    inside? (closing tag name ++ rest) = some (tag, name, (closing tag name).length) := by
  cases name with
  | none =>
    have hcs : closing tag none ++ rest = tag ++ ']' :: rest := by simp [closing]
    rw [hcs, inside?, takeWhile_inner htag rfl, dropWhile_inner htag rfl]
    simp [closing]
  | some name =>
    have hcs : closing tag (some name) ++ rest = tag ++ ':' :: (name ++ ']' :: rest) := by
      simp [closing]
    rw [hcs, inside?, takeWhile_inner htag rfl, dropWhile_inner htag rfl]
    simp only [takeWhile_inner (hname name rfl) (c := ']') rfl,
      dropWhile_inner (hname name rfl) (c := ']') rfl]
    simp [closing]
    omega

theorem closing_of_inside? {cs tag : List Char} {name : Option (List Char)} {len : Nat}
    (h : inside? cs = some (tag, name, len)) :
    Inner tag ∧ (∀ n ∈ name, Inner n) ∧ len = (closing tag name).length ∧
      ∃ rest, cs = closing tag name ++ rest := by
  have htag := cs.takeWhile_append_dropWhile (p := isInner)
  unfold inside? at h
  split at h
  next r hdrop =>
    simp only [Option.some.injEq, Prod.mk.injEq] at h
    obtain ⟨rfl, rfl, rfl⟩ := h
    rw [hdrop] at htag
    exact ⟨inner_takeWhile cs, nofun, by simp [closing], r, htag.symm.trans (by simp [closing])⟩
  next r hdrop =>
    have hname := r.takeWhile_append_dropWhile (p := isInner)
    dsimp only at h
    split at h
    next rest hdrop' =>
      simp only [Option.some.injEq, Prod.mk.injEq] at h
      obtain ⟨rfl, rfl, rfl⟩ := h
      rw [hdrop] at htag
      rw [hdrop'] at hname
      refine ⟨inner_takeWhile cs, ?_, ?_, rest, ?_⟩
      · rintro n ⟨⟩
        exact inner_takeWhile r
      · simp [closing]
        omega
      · calc
          cs = cs.takeWhile isInner ++ ':' :: r := htag.symm
          _ = cs.takeWhile isInner ++ ':' :: (r.takeWhile isInner ++ ']' :: rest) := by rw [hname]
          _ = closing (cs.takeWhile isInner) (some (r.takeWhile isInner)) ++ rest := by simp [closing]
    next => cases h
  next => cases h

/-! ## The placeholder at the front of a text -/

/-- The placeholder that a separator, a tag, a name and a mark make. -/
def make (separator : Option Separator) (tag : List Char) (name : Option (List Char))
    (optional : Bool) : Placeholder where
  text := String.ofList ((separator.map Separator.char).toList ++ '[' :: closing tag name ++ mark optional)
  separator
  tag := String.ofList tag
  name := (name.filter (!·.isEmpty)).map String.ofList
  optional

theorem written_iff {p : Placeholder} : p.Written ↔
    ∃ tag name, Inner tag ∧ (∀ n ∈ name, Inner n) ∧ p = make p.separator tag name p.optional := by
  constructor
  · intro ⟨name, htag, hname, htext, hp⟩
    refine ⟨p.tag.toList, name, htag, hname, ?_⟩
    obtain ⟨text, separator, tag, name', optional⟩ := p
    dsimp only at htext hp
    rw [make, ← String.ofList_toList (s := text), htext, hp]
    simp [lead]
  · intro ⟨tag, name, htag, hname, hp⟩
    refine ⟨name, ?_⟩
    rw [hp]
    simpa [make, lead] using ⟨htag, hname⟩

theorem exists_eq_mark_append (rest : List Char) :
    ∃ r, rest = mark (rest.head? == some '?') ++ r ∧
      ((rest.head? == some '?') = false → r = rest) := by
  cases rest with
  | nil => exact ⟨[], rfl, fun _ => rfl⟩
  | cons c rest =>
    by_cases hc : c = '?'
    · subst hc
      exact ⟨rest, rfl, nofun⟩
    · have hno : ((c :: rest).head? == some '?') = false := by simpa using hc
      exact ⟨c :: rest, by rw [hno]; rfl, fun _ => rfl⟩

/-- A placeholder takes the question mark behind it. -/
theorem at?_brackets (separator : Option Separator) {tag : List Char} {name : Option (List Char)}
    (htag : Inner tag) (hname : ∀ n ∈ name, Inner n) (rest : List Char) :
    at? ((separator.map Separator.char).toList ++ '[' :: (closing tag name ++ rest)) =
      some (make separator tag name (rest.head? == some '?')) := by
  have hfound : ∀ r, at? ((separator.map Separator.char).toList ++ '[' :: r) =
      (inside? r).map fun found =>
        let optional := (r.drop found.2.2).head? == some '?'
        let length := (if separator.isSome then 1 else 0) + 1 + found.2.2 + (if optional then 1 else 0)
        { text := String.ofList (((separator.map Separator.char).toList ++ '[' :: r).take length)
          separator
          tag := String.ofList found.1
          name := (found.2.1.filter (!·.isEmpty)).map String.ofList
          optional } := by
    intro r
    cases separator with
    | none => rfl
    | some s => cases s <;> rfl
  have hlead : (if separator.isSome then 1 else 0) = (separator.map Separator.char).toList.length := by
    cases separator <;> rfl
  rw [hfound, inside?_closing htag hname]
  simp only [Option.map_some, List.drop_left, Option.some.injEq, make, Placeholder.mk.injEq, hlead,
    and_true]
  have hmark : (if rest.head? == some '?' then 1 else 0) = (mark (rest.head? == some '?')).length := by
    cases rest.head? == some '?' <;> rfl
  obtain ⟨r, hr, -⟩ := exists_eq_mark_append rest
  -- What is taken reaches up to the end of the mark.
  have hsplit : (separator.map Separator.char).toList ++ '[' :: (closing tag name ++ rest) =
      ((separator.map Separator.char).toList ++ '[' :: closing tag name ++
        mark (rest.head? == some '?')) ++ r := by
    rw [List.append_assoc, List.append_assoc, List.cons_append, ← hr]
  rw [hmark, hsplit, List.take_left']
  simp only [List.length_append, List.length_cons]
  omega

theorem exists_inside_of_at? {cs : List Char} {p : Placeholder} (h : at? cs = some p) :
    ∃ separator r found, cs = (Option.map Separator.char separator).toList ++ '[' :: r ∧
      inside? r = some found := by
  unfold at? at h
  dsimp only at h
  split at h
  next bracket r hbracket =>
    obtain ⟨found, hfound, -⟩ := Option.map_eq_some_iff.1 h
    -- The text begins with a separator, or else with the bracket itself.
    split at hbracket
    next front => exact ⟨some .slash, r, found, congrArg ('/' :: ·) hbracket, hfound⟩
    next front => exact ⟨some .dot, r, found, congrArg ('.' :: ·) hbracket, hfound⟩
    next => exact ⟨none, r, found, hbracket, hfound⟩
  next => cases h

/-- What is found at the front of a text is written there, and leaves no question mark behind. -/
theorem at?_eq_some_iff {cs : List Char} {p : Placeholder} : at? cs = some p ↔
    p.Written ∧ ∃ rest, cs = p.text.toList ++ rest ∧ (¬p.optional → rest.head? ≠ some '?') := by
  constructor
  · intro h
    obtain ⟨separator, r, ⟨tag, name, len⟩, rfl, hinside⟩ := exists_inside_of_at? h
    obtain ⟨htag, hname, -, rest, rfl⟩ := closing_of_inside? hinside
    rw [at?_brackets separator htag hname, Option.some.injEq] at h
    obtain ⟨r, hr, hsame⟩ := exists_eq_mark_append rest
    refine ⟨written_iff.2 ⟨tag, name, htag, hname, by rw [← h]; rfl⟩, r, ?_, ?_⟩
    · rw [← h, make, String.toList_ofList, List.append_assoc, List.append_assoc, List.cons_append, ← hr]
    · rw [← h]
      intro hoptional hmark
      have hno : (rest.head? == some '?') = false := Bool.eq_false_iff.2 hoptional
      rw [hsame hno] at hmark
      exact absurd hno (by rw [hmark]; decide)
  · intro ⟨hp, rest, hcs, hmark⟩
    obtain ⟨tag, name, htag, hname, hp⟩ := written_iff.1 hp
    have htext : cs = (p.separator.map Separator.char).toList ++
        '[' :: (closing tag name ++ (mark p.optional ++ rest)) := by
      rw [hcs, hp, make, String.toList_ofList, List.append_assoc, List.append_assoc, List.cons_append]
    have hoptional : ((mark p.optional ++ rest).head? == some '?') = p.optional := by
      cases ho : p.optional with
      | true => rfl
      | false => simpa [mark] using hmark (by simp [ho])
    rw [htext, at?_brackets p.separator htag hname, hoptional, ← hp]

theorem isSome_at?_of_opens {cs : List Char} (h : Opens cs) (separator : Option Separator) :
    (at? ((separator.map Separator.char).toList ++ cs)).isSome := by
  obtain ⟨tag, name, rest, htag, hname, rfl⟩ := h
  rw [List.cons_append, at?_brackets separator htag hname]
  rfl

theorem opens_of_at? {cs : List Char} {p : Placeholder} (h : at? cs = some p) :
    ∃ rest, cs = p.lead ++ rest ∧ Opens rest := by
  obtain ⟨hp, rest, rfl, -⟩ := at?_eq_some_iff.1 h
  obtain ⟨name, htag, hname, htext, -⟩ := hp
  refine ⟨'[' :: closing p.tag.toList name ++ (mark p.optional ++ rest), ?_, _, name, _, htag, hname, rfl⟩
  rw [htext, List.append_assoc, List.append_assoc]

theorem Opens.head? {cs : List Char} (h : Opens cs) : cs.head? = some '[' := by
  obtain ⟨tag, name, rest, -, -, rfl⟩ := h
  rfl

theorem Opens.mem_bracket {cs : List Char} (h : Opens cs) : ']' ∈ cs := by
  obtain ⟨tag, name, rest, -, -, rfl⟩ := h
  simp [closing]

/-- A placeholder begins where a bracketed tag does, or right behind a separator where one does. -/
theorem at?_eq_none_iff {c : Char} {rest : List Char} :
    at? (c :: rest) = none ↔ ¬Opens (c :: rest) ∧ ∀ s : Separator, c = s.char → ¬Opens rest := by
  constructor
  · intro h
    refine ⟨fun hopens => ?_, fun s hs hopens => ?_⟩
    · have hsome := isSome_at?_of_opens hopens none
      rw [show _ ++ (c :: rest) = c :: rest from rfl, h] at hsome
      cases hsome
    · have hsome := isSome_at?_of_opens hopens (some s)
      rw [show _ ++ rest = s.char :: rest from rfl, ← hs, h] at hsome
      cases hsome
  · intro ⟨hc, hrest⟩
    rw [Option.eq_none_iff_forall_ne_some]
    intro p hp
    obtain ⟨r, hr, hopens⟩ := opens_of_at? hp
    rw [lead] at hr
    cases hsep : p.separator with
    | none =>
      rw [hsep] at hr
      exact hc (hr ▸ hopens)
    | some s =>
      rw [hsep] at hr
      obtain ⟨rfl, rfl⟩ := List.cons.inj hr
      exact hrest s rfl hopens

theorem Written.length_pos {p : Placeholder} (hp : p.Written) : 0 < p.text.toList.length := by
  obtain ⟨name, -, -, htext, -⟩ := hp
  rw [htext]
  simp

/-- A placeholder ends with its mark, or with its bracket if it has none. -/
theorem Written.getLast? {p : Placeholder} (hp : p.Written) :
    p.text.toList.getLast? = some (if p.optional then '?' else ']') := by
  obtain ⟨name, -, -, htext, -⟩ := hp
  rw [htext]
  cases p.optional with
  | true => exact List.getLast?_concat
  | false => simp [mark, closing, List.getLast?_append, List.getLast?_cons]

theorem Written.getLast?_ne {p : Placeholder} (hp : p.Written) (s : Separator) :
    p.text.toList.getLast? ≠ some s.char := by
  rw [hp.getLast?]
  cases s <;> split <;> decide

end Placeholder

/-! ## Divisions -/

/-- A pattern in pieces: the text before its placeholders, and each placeholder with the text behind it. -/
structure Division where
  front : List Char
  holes : List (Placeholder × List Char)

namespace Division

/-- The pieces one after the other, with something in place of each placeholder. -/
def join (d : Division) (f : Placeholder → List Char) : List Char :=
  d.front ++ d.holes.flatMap fun hole => f hole.1 ++ hole.2

def placeholders (d : Division) : List Placeholder := d.holes.map (·.1)

/-- The pieces of a text that was read. -/
def ofSegments : List Segment → Division
  | [] => ⟨[], []⟩
  | .char c :: segs => ⟨c :: (ofSegments segs).front, (ofSegments segs).holes⟩
  | .hole p :: segs => ⟨[], (p, (ofSegments segs).front) :: (ofSegments segs).holes⟩

theorem join_ofSegments (f : Placeholder → List Char) (segs : List Segment) :
    (ofSegments segs).join f = segs.flatMap fun
      | .char c => [c]
      | .hole p => f p := by
  induction segs with
  | nil => rfl
  | cons seg segs ih =>
    cases seg with
    | char c => exact congrArg (c :: ·) ih
    | hole p =>
      rw [List.flatMap_cons, ← ih, join, ofSegments, List.nil_append, List.flatMap_cons,
        List.append_assoc]
      rfl

theorem placeholders_ofSegments (segs : List Segment) :
    (ofSegments segs).placeholders = segs.filterMap Segment.hole? := by
  induction segs with
  | nil => rfl
  | cons seg segs ih =>
    cases seg with
    | char c => exact ih
    | hole p => exact congrArg (p :: ·) ih

end Division

/-- Whether a text behind a character, or at the start of a pattern, divides like this. -/
inductive Divides : Option Char → List Char → Division → Prop
  /-- Nothing is left. -/
  | nil {before} : Divides before [] ⟨[], []⟩
  /-- A character belongs to no placeholder if no bracketed tag begins with it, wherever that would end. -/
  | char {before c rest front holes} : ¬Placeholder.Opens (c :: rest) →
    Divides (some c) rest ⟨front, holes⟩ → Divides before (c :: rest) ⟨c :: front, holes⟩
  /-- A placeholder has a separator if one stands before its bracket, and is optional if a question mark stands
  behind it. -/
  | hole {before p rest front holes} : p.Written →
    (p.separator = none → ∀ s : Separator, before ≠ some s.char) →
    (¬p.optional → rest.head? ≠ some '?') →
    Divides p.text.toList.getLast? rest ⟨front, holes⟩ →
    Divides before (p.text.toList ++ rest) ⟨[], (p, front) :: holes⟩

theorem Divides.join_eq {before : Option Char} {cs : List Char} {d : Division}
    (h : Divides before cs d) : d.join (·.text.toList) = cs := by
  induction h with
  | nil => rfl
  | char _ _ ih => exact congrArg (_ :: ·) ih
  | hole _ _ _ _ ih =>
    rw [← ih]
    simp [Division.join]

/-! ## Reading a pattern -/

namespace Segment

theorem scan_eq_drop (k : Nat) (cs : List Char) : scan k cs = scan 0 (cs.drop k) := by
  induction k generalizing cs with
  | zero => rfl
  | succ k ih =>
    cases cs with
    | nil => rfl
    | cons c cs => exact ih cs

theorem scan_of_none {c : Char} {cs : List Char} (h : Placeholder.at? (c :: cs) = none) :
    scan 0 (c :: cs) = char c :: scan 0 cs := by
  rw [scan, h]

theorem scan_of_some {p : Placeholder} {rest : List Char}
    (h : Placeholder.at? (p.text.toList ++ rest) = some p) :
    scan 0 (p.text.toList ++ rest) = hole p :: scan 0 rest := by
  have hpos := (Placeholder.at?_eq_some_iff.1 h).1.length_pos
  cases htext : p.text.toList with
  | nil => simp [htext] at hpos
  | cons c cs =>
    have hlength : p.text.length - 1 = cs.length := by
      rw [← String.length_toList, htext, List.length_cons, Nat.add_sub_cancel]
    rw [htext, List.cons_append] at h
    rw [List.cons_append, scan, h]
    simp only [hlength]
    rw [scan_eq_drop, List.drop_left]

/-- Along a text as it is read, by characters that begin no placeholder and by whole placeholders. -/
@[elab_as_elim]
theorem scan_induction {motive : List Char → Prop} (nil : motive [])
    (char : ∀ c rest, Placeholder.at? (c :: rest) = none → motive rest → motive (c :: rest))
    (hole : ∀ p rest, Placeholder.at? (p.text.toList ++ rest) = some p → motive rest →
      motive (p.text.toList ++ rest)) (cs : List Char) : motive cs := by
  induction hn : cs.length using Nat.strong_induction_on generalizing cs with
  | _ n ih =>
    cases cs with
    | nil => exact nil
    | cons c rest =>
      cases hfound : Placeholder.at? (c :: rest) with
      | none => exact char c rest hfound (ih rest.length (by simp [← hn]) rest rfl)
      | some p =>
        obtain ⟨hp, r, hr, -⟩ := Placeholder.at?_eq_some_iff.1 hfound
        have hlength := congrArg List.length hr
        have hpos := hp.length_pos
        rw [List.length_append] at hlength
        rw [hr] at hfound ⊢
        exact hole p r hfound (ih r.length (by omega) r rfl)

end Segment

open Placeholder (Opens at?)

theorem divides_scan {before : Option Char} {cs : List Char}
    (hbefore : ∀ s : Separator, before = some s.char → ¬Opens cs) :
    Divides before cs (Division.ofSegments (Segment.scan 0 cs)) := by
  induction cs using Segment.scan_induction generalizing before with
  | nil => exact .nil
  | char c rest hnone ih =>
    obtain ⟨hopens, hbehind⟩ := Placeholder.at?_eq_none_iff.1 hnone
    rw [Segment.scan_of_none hnone]
    exact .char hopens (ih fun s hs => hbehind s (Option.some.inj hs))
  | hole p rest hfound ih =>
    obtain ⟨hp, r, hr, hmark⟩ := Placeholder.at?_eq_some_iff.1 hfound
    rw [← List.append_cancel_left hr] at hmark
    rw [Segment.scan_of_some hfound]
    refine .hole hp (fun hnone s hs => hbefore s hs ?_) hmark
      (ih fun s hs => absurd hs (hp.getLast?_ne s))
    obtain ⟨front, hfront, hopens⟩ := Placeholder.opens_of_at? hfound
    rw [hfront, Placeholder.lead, hnone]
    exact hopens

/-- Behind a separator that belongs to no placeholder, no bracketed tag begins. -/
theorem Divides.not_opens {s : Separator} {cs : List Char} {d : Division}
    (h : Divides (some s.char) cs d) : ¬Opens cs := by
  cases h with
  | nil =>
    rintro ⟨tag, name, rest, -, -, hcs⟩
    cases hcs
  | char hopens _ => exact hopens
  | @hole before p rest front holes hp hseparator _ _ =>
    rintro ⟨tag, name, r, -, -, hcs⟩
    obtain ⟨name', -, -, htext, -⟩ := hp
    cases hs : p.separator with
    | none => exact hseparator hs s rfl
    | some s' =>
      -- A placeholder with a separator does not begin with its bracket.
      have hfirst : s'.char = '[' := by
        rw [htext, Placeholder.lead, hs] at hcs
        exact (List.cons.inj hcs).1
      cases s' <;> exact absurd hfirst (by decide)

theorem Divides.eq_scan {before : Option Char} {cs : List Char} {d : Division}
    (h : Divides before cs d) : d = Division.ofSegments (Segment.scan 0 cs) := by
  induction h with
  | nil => rfl
  | @char before c rest front holes hopens h ih =>
    have hnone : at? (c :: rest) = none :=
      Placeholder.at?_eq_none_iff.2 ⟨hopens, fun s hs => (hs ▸ h).not_opens⟩
    rw [Segment.scan_of_none hnone, Division.ofSegments, ← ih]
  | hole hp _ hmark _ ih =>
    rw [Segment.scan_of_some (Placeholder.at?_eq_some_iff.2 ⟨hp, _, rfl, hmark⟩), Division.ofSegments,
      ← ih]

/-- A pattern has one division into text and placeholders. Its placeholders are the ones that are listed, and its
expression has a group in the place of each of them. -/
theorem exists_division (pattern : String) : ∃ d : Division,
    Divides none pattern.toList d ∧ d.join (·.text.toList) = pattern.toList ∧
    d.placeholders = placeholders pattern ∧
    (∀ types, translate pattern types =
      String.ofList ('^' :: d.join (fun p => (p.group types).toList) ++ ['$'])) ∧
    ∀ d', Divides none pattern.toList d' → d' = d := by
  have h : Divides none pattern.toList (Division.ofSegments (segments pattern)) :=
    divides_scan nofun
  refine ⟨_, h, h.join_eq, Division.placeholders_ofSegments _, fun types => ?_, fun d' h' => h'.eq_scan⟩
  rw [Division.join_ofSegments]
  rfl

-- A bracket that is not closed in time is text, and a tag may have a bracket in it.
example : (placeholders "/[a:b:c]/[[i:id]?").map (·.text) = ["/[[i:id]?"] := by decide

end RequestRouting
