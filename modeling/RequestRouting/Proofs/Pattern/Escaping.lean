import RequestRouting.Proofs.Pattern.Behind
import RequestRouting.Proofs.Pattern.Joining
import RequestRouting.Proofs.Pattern.PlainMatch

/-!
Text that is escaped to stand for itself.

Behind a backslash, each sign of the language of expressions is a plain character. But placeholders are found before
the expression is read, and with no regard to backslashes: an escaped bracket begins one as any other does. So an
escaped text is matched as it is written if no bracketed tag begins in it, and only then
(`compile_escapePattern_iff`).
-/

namespace RequestRouting

open Regex
open Regex.Parser (State Passes Refuses Quiet isMeta isEscapable isGroupName nameFault? nameFault?_eq_none_iff)
open Placeholder (Inner Opens closing isInner inside? at?)

/-! ## Escaped text -/

/-- A character, with a backslash before it if it has a meaning of its own in an expression. -/
def escapeChar (c : Char) : List Char := if isMeta c then ['\\', c] else [c]

def escapeText (cs : List Char) : List Char := cs.flatMap escapeChar

/-- The pattern that is meant for a text. -/
def escapePattern (text : String) : String := String.ofList (escapeText text.toList)

theorem escapeText_cons (c : Char) (cs : List Char) :
    escapeText (c :: cs) = escapeChar c ++ escapeText cs :=
  List.flatMap_cons

theorem escapeText_append (cs ds : List Char) : escapeText (cs ++ ds) = escapeText cs ++ escapeText ds :=
  List.flatMap_append

theorem isEscapable_of_isMeta {c : Char} (h : isMeta c) : isEscapable c := by
  rw [isMeta, List.contains_iff_mem] at h
  have hall : "\\.+*?()|[]\x7b\x7d^$".toList.all isEscapable := by decide
  exact List.all_eq_true.1 hall c h

/-- The only sign that an escaped text may begin with is the backslash. -/
theorem head?_escapeText_ne {c : Char} (hc : isMeta c) (hne : c ≠ '\\') (cs : List Char) :
    (escapeText cs).head? ≠ some c := by
  cases cs with
  | nil => exact nofun
  | cons d cs =>
    rw [escapeText_cons, escapeChar]
    intro h
    split at h
    next => exact hne (Option.some.inj h).symm
    next hd => exact hd (Option.some.inj h ▸ hc)

theorem quiet_escapeText (cs : List Char) : Quiet (escapeText cs) :=
  head?_escapeText_ne (by decide) (by decide) cs

/-! ## Brackets in escaped text -/

theorem inner_escapeChar {c : Char} (hc : isInner c) : Inner (escapeChar c) := by
  unfold escapeChar
  split
  · exact List.forall_mem_cons.2 ⟨by decide, List.forall_mem_singleton.2 hc⟩
  · exact List.forall_mem_singleton.2 hc

theorem inner_escapeText {cs : List Char} (h : Inner cs) : Inner (escapeText cs) := by
  intro d hd
  obtain ⟨c, hc, hd⟩ := List.mem_flatMap.1 hd
  exact inner_escapeChar (h c hc) d hd

theorem dropWhile_escapeText (cs : List Char) :
    (escapeText cs).dropWhile isInner = match cs.dropWhile isInner with
      | [] => []
      | d :: r => d :: escapeText r := by
  induction cs with
  | nil => rfl
  | cons c cs ih =>
    rw [escapeText_cons]
    cases hc : isInner c with
    | true =>
      rw [List.dropWhile_append_of_pos (inner_escapeChar hc), ih, List.dropWhile_cons_of_pos hc]
    | false =>
      -- A colon is not escaped; the backslash before a closing bracket is dropped.
      have hend : c = ':' ∨ c = ']' := by
        by_contra hne
        have hinner : isInner c := by simpa [isInner] using hne
        exact Bool.noConfusion (hc.symm.trans hinner)
      rw [List.dropWhile_cons_of_neg (by simp [hc])]
      rcases hend with rfl | rfl <;> rfl

/-- A colon or a closing bracket of an escaped text is one of the text. -/
theorem exists_of_escapeText_eq {cs u r : List Char} {d : Char} (hu : Inner u)
    (hd : isInner d = false) (h : escapeText cs = u ++ d :: r) :
    ∃ v q, Inner v ∧ cs = v ++ d :: q ∧ r = escapeText q := by
  have hdrop := dropWhile_escapeText cs
  rw [h, Placeholder.dropWhile_inner hu hd] at hdrop
  have hsplit := cs.takeWhile_append_dropWhile (p := isInner)
  cases htail : cs.dropWhile isInner with
  | nil =>
    rw [htail] at hdrop
    cases hdrop
  | cons e q =>
    rw [htail] at hdrop hsplit
    obtain ⟨rfl, hr⟩ := List.cons.inj hdrop
    exact ⟨_, q, Placeholder.inner_takeWhile cs, hsplit.symm, hr⟩

theorem opens_of_opens_escapeText {cs : List Char} (h : Opens ('[' :: escapeText cs)) :
    Opens ('[' :: cs) := by
  obtain ⟨tag, name, rest, htag, hname, heq⟩ := h
  have hinside := (List.cons.inj heq).2
  cases name with
  | none =>
    have hclosed : escapeText cs = tag ++ ']' :: rest := by simpa [closing] using hinside
    obtain ⟨v, q, hv, rfl, -⟩ := exists_of_escapeText_eq htag rfl hclosed
    exact ⟨v, none, q, hv, by simp, by simp [closing]⟩
  | some n =>
    have hcolon : escapeText cs = tag ++ ':' :: (n ++ ']' :: rest) := by simpa [closing] using hinside
    obtain ⟨v, q, hv, rfl, hq⟩ := exists_of_escapeText_eq htag rfl hcolon
    obtain ⟨w, q, hw, rfl, -⟩ := exists_of_escapeText_eq (hname n rfl) rfl hq.symm
    exact ⟨v, some w, q, hv, fun _ heq => Option.some.inj heq ▸ hw, by simp [closing]⟩

/-- Whether a bracketed tag begins somewhere in a text. -/
def HasTag (cs : List Char) : Prop := ∃ rest, rest <:+ cs ∧ Opens rest

theorem hasTag_cons_iff {c : Char} {cs : List Char} :
    HasTag (c :: cs) ↔ Opens (c :: cs) ∨ HasTag cs := by
  simp only [HasTag, List.suffix_cons_iff, or_and_right, exists_or, exists_eq_left]

theorem at?_escapeText {c : Char} {cs : List Char} (h : ¬Opens (c :: cs)) :
    at? (c :: escapeText cs) = none := by
  refine Placeholder.at?_eq_none_iff.2 ⟨fun hopens => ?_, fun s _ hopens => ?_⟩
  · obtain rfl : c = '[' := Option.some.inj hopens.head?
    exact h (opens_of_opens_escapeText hopens)
  · -- What stands behind a separator is a whole escaped text, so it is no bracket.
    exact head?_escapeText_ne (by decide) (by decide) cs hopens.head?

theorem scan_escapeText_cons {c : Char} {cs : List Char} (h : ¬Opens (c :: cs)) :
    Segment.scan 0 (escapeText (c :: cs)) =
      (escapeChar c).map .char ++ Segment.scan 0 (escapeText cs) := by
  have hchar := Segment.scan_of_none (at?_escapeText h)
  rw [escapeText_cons, escapeChar]
  split
  · have hbackslash : at? ('\\' :: c :: escapeText cs) = none := rfl
    show Segment.scan 0 ('\\' :: c :: escapeText cs) = _
    rw [Segment.scan_of_none hbackslash, hchar]
    rfl
  · exact hchar

theorem scan_of_not_hasTag {cs : List Char} (h : ¬HasTag cs) :
    Segment.scan 0 (escapeText cs) = (escapeText cs).map .char := by
  induction cs with
  | nil => rfl
  | cons c cs ih =>
    rw [hasTag_cons_iff, not_or] at h
    rw [scan_escapeText_cons h.1, ih h.2, escapeText_cons, List.map_append]

/-- What an escaped bracket begins. The backslash before the closing bracket is a part of it. -/
def escapedHole (tag : List Char) : Option (List Char) → Placeholder
  | none => .make none (escapeText tag ++ ['\\']) none false
  | some name => .make none (escapeText tag) (some (escapeText name ++ ['\\'])) false

theorem scan_brackets {tag : List Char} {name : Option (List Char)} (htag : Inner tag)
    (hname : ∀ n ∈ name, Inner n) {rest : List Char} (hrest : Quiet rest) :
    Segment.scan 0 ('[' :: (closing tag name ++ rest)) =
      .hole (.make none tag name false) :: Segment.scan 0 rest := by
  have hmark : (rest.head? == some '?') = false := beq_eq_false_iff_ne.2 hrest
  have hfound := Placeholder.at?_brackets none htag hname rest
  rw [hmark] at hfound
  have htext : '[' :: (closing tag name ++ rest) =
      (Placeholder.make none tag name false).text.toList ++ rest := by
    simp [Placeholder.make, Passes.mark]
  rw [htext]
  refine Segment.scan_of_some ?_
  rw [← htext]
  exact hfound

theorem scan_escapeText_tag {tag : List Char} {name : Option (List Char)} (htag : Inner tag)
    (hname : ∀ n ∈ name, Inner n) (rest : List Char) :
    Segment.scan 0 (escapeText ('[' :: (closing tag name ++ rest))) =
      .char '\\' :: .hole (escapedHole tag name) :: Segment.scan 0 (escapeText rest) := by
  have hbackslash : Inner ['\\'] := List.forall_mem_singleton.2 (by decide)
  have hopen : ∀ cs, Segment.scan 0 ('\\' :: cs) = .char '\\' :: Segment.scan 0 cs :=
    fun cs => Segment.scan_of_none rfl
  have htext : escapeText ('[' :: (closing tag name ++ rest)) =
      '\\' :: '[' :: (escapeText (closing tag name) ++ escapeText rest) := by
    rw [escapeText_cons, escapeText_append]
    rfl
  have hbracket : escapeText [']'] = ['\\', ']'] := rfl
  cases name with
  | none =>
    have hclosing : escapeText (closing tag none) = closing (escapeText tag ++ ['\\']) none := by
      simp [closing, escapeText_append, hbracket]
    rw [htext, hclosing, hopen, scan_brackets ?_ ?_ (quiet_escapeText rest)]
    · rfl
    · exact List.forall_mem_append.2 ⟨inner_escapeText htag, hbackslash⟩
    · simp
  | some name =>
    have hcolon : escapeText (':' :: (name ++ [']'])) = ':' :: (escapeText name ++ ['\\', ']']) := by
      rw [escapeText_cons, escapeText_append]
      rfl
    have hclosing : escapeText (closing tag (some name)) =
        closing (escapeText tag) (some (escapeText name ++ ['\\'])) := by
      simp [closing, escapeText_append, hcolon]
    rw [htext, hclosing, hopen, scan_brackets (inner_escapeText htag) ?_ (quiet_escapeText rest)]
    · rfl
    · rintro n ⟨⟩
      exact List.forall_mem_append.2 ⟨inner_escapeText (hname name rfl), hbackslash⟩

/-- The first placeholder in an escaped text. -/
theorem exists_scan_of_hasTag {cs : List Char} (h : HasTag cs) : ∃ front tag name rest,
    cs = front ++ '[' :: (closing tag name ++ rest) ∧
      Segment.scan 0 (escapeText cs) = (escapeText front).map .char ++
        .char '\\' :: .hole (escapedHole tag name) :: Segment.scan 0 (escapeText rest) := by
  induction cs with
  | nil =>
    obtain ⟨rest, hrest, _, _, _, -, -, rfl⟩ := h
    cases List.suffix_nil.1 hrest
  | cons c cs ih =>
    by_cases hopens : Opens (c :: cs)
    · obtain ⟨tag, name, rest, htag, hname, hcs⟩ := hopens
      rw [hcs, List.cons_append]
      exact ⟨[], tag, name, rest, rfl, scan_escapeText_tag htag hname rest⟩
    · obtain ⟨front, tag, name, rest, rfl, hscan⟩ := ih ((hasTag_cons_iff.1 h).resolve_left hopens)
      refine ⟨c :: front, tag, name, rest, rfl, ?_⟩
      rw [scan_escapeText_cons hopens, hscan, escapeText_cons, List.map_append, List.append_assoc]

/-! ## Reading escaped text -/

theorem passes_escapeText (cs : List Char) {s : State} (hv : s.verbose = false) :
    Passes (escapeText cs) s
      { s with items := cs.reverse.map (fun c => .literal ⟨c, false⟩) ++ s.items } := by
  induction cs generalizing s with
  | nil => exact Passes.refl s
  | cons c cs ih =>
    have hchar : Passes (escapeChar c) s { s with items := .literal ⟨c, false⟩ :: s.items } := by
      unfold escapeChar
      split
      next hc => exact Passes.escaped (isEscapable_of_isMeta hc) hv
      next hc => exact Passes.literal (Bool.eq_false_iff.2 hc) hv
    have hall := hchar.append (ih (s := { s with items := .literal ⟨c, false⟩ :: s.items }) hv)
      (quiet_escapeText cs)
    rw [escapeText_cons, List.reverse_cons, List.map_append, List.append_assoc]
    exact hall

/-- An escaped text and the beginning of a placeholder: the backslash takes its parenthesis away. -/
def frontText (front : List Char) : List Char := escapeText front ++ ['\\', '(', '?', ':']

/-- The question mark makes the parenthesis optional, and the colon is a plain character. -/
def frontItems (front : List Char) : List Syntax :=
  .literal ⟨':', false⟩ :: .repeated 0 (some 1) true (.literal ⟨'(', false⟩) ::
    front.reverse.map fun c => .literal ⟨c, false⟩

def frontExprs (front : List Char) : List Expr :=
  .letter ':' :: (Expr.letter '(').marked true :: front.reverse.map .letter

theorem passes_frontText (front : List Char) {s : State} (hv : s.verbose = false) :
    Passes (frontText front) s { s with items := frontItems front ++ s.items } := by
  have hopening : ∀ s : State, s.verbose = false → Passes ['\\', '(', '?', ':'] s
      { s with
        items := .literal ⟨':', false⟩ :: .repeated 0 (some 1) true (.literal ⟨'(', false⟩) :: s.items } := by
    intro s hv r _ n hn
    obtain ⟨rest, v⟩ := s
    subst hv
    match n, hn with
    | n + 3, _ =>
      -- One step for the escaped parenthesis, one for its mark, and one for the colon.
      refine ⟨n, by simp, ?_⟩
      exact (Parser.run_step rfl rfl (n + 2)).trans ((Parser.run_step rfl rfl (n + 1)).trans
        (Parser.run_step rfl rfl n))
  exact (passes_escapeText front hv).append (hopening { s with items := _ } hv)
    (Parser.quiet_cons (by decide) _)

theorem resolve_frontItems (front : List Char) :
    List.Forall₂ (fun (t : Syntax) e => t.resolveBranches {} = .ok ([e], {}))
      (frontItems front) (frontExprs front) :=
  .cons (resolve_literal ':') (.cons (resolve_marked (resolve_literal '(') true)
    (resolve_literals front.reverse))

theorem quiet_frontText (front : List Char) : Quiet (frontText front) :=
  (quiet_escapeText front).append (Parser.quiet_cons (by decide) _)

/-- Whether reading a piece of text outside of all groups fails, or adds items that resolve to one expression each. -/
def Settles (cs : List Char) : Prop :=
  ∀ s : State, s.verbose = false → s.opened = [] →
    (∃ e, Refuses cs s e) ∨
      ∃ items es captures, Passes cs s { s with items := items ++ s.items, captures } ∧
        List.Forall₂ (fun (t : Syntax) e => t.resolveBranches {} = .ok ([e], {})) items es

theorem Settles.append {cs ds : List Char} (h : Settles cs) (h' : Settles ds) (hds : Quiet ds) :
    Settles (cs ++ ds) := by
  intro s hv hopened
  rcases h s hv hopened with ⟨e, he⟩ | ⟨items, es, captures, hpasses, hes⟩
  · exact Or.inl ⟨e, he.append hds⟩
  rcases h' { s with items := items ++ s.items, captures } hv hopened with
    ⟨e, he⟩ | ⟨items', es', captures', hpasses', hes'⟩
  · exact Or.inl ⟨e, hpasses.refuses he hds⟩
  · refine Or.inr ⟨items' ++ items, es' ++ es, captures', ?_, List.rel_append hes' hes⟩
    rw [List.append_assoc]
    exact hpasses.append hpasses' hds

theorem settles_escapeText (cs : List Char) : Settles (escapeText cs) :=
  fun s hv _ => Or.inr ⟨_, _, s.captures, passes_escapeText cs hv, resolve_literals cs.reverse⟩

theorem settles_frontText (front : List Char) : Settles (frontText front) :=
  fun s hv _ => Or.inr ⟨_, _, s.captures, passes_frontText front hv, resolve_frontItems front⟩

theorem inside_escapeText (cs : List Char) : Passes.Inside (escapeText cs) (wordTree cs) := by
  intro s hv hbranches hitems
  have hpasses := passes_escapeText cs hv
  rw [hitems, List.append_nil] at hpasses
  refine ⟨s.branches, _, hpasses, ?_⟩
  rw [hbranches]
  rfl

/-- An escaped tag without a name is a group of plain characters. -/
theorem settles_unnamed (tag : List Char) : Settles ('(' :: (escapeText (tag ++ [')']) ++ [')'])) := by
  intro s hv _
  have hpasses := Passes.capture (n := none) (inside_escapeText (tag ++ [')'])) (quiet_escapeText _) hv
    nofun nofun false
  exact Or.inr ⟨[_], [_], s.captures + 1, hpasses, .cons (resolve_capture (resolve_wordTree _) _) .nil⟩

/-! ## Names in escaped text -/

/-- The fragment of a tag is that of a builtin type, or the tag itself. -/
theorem resolve_builtin (tag : String) : TypeRegistry.builtin.resolve tag = tag ∨
    ∃ r : Run, tag = r.tag ∧ TypeRegistry.builtin.resolve tag = r.fragment := by
  unfold TypeRegistry.resolve
  cases h : TypeRegistry.builtin.get? tag with
  | none => exact Or.inl rfl
  | some fragment =>
    obtain ⟨entry, hfind, rfl⟩ := Option.map_eq_some_iff.1 h
    have htag := List.find?_some hfind
    rw [decide_eq_true_eq] at htag
    subst htag
    exact Or.inr (Run.exists_of_mem (List.mem_of_find?_eq_some hfind))

/-- The fragment of an escaped tag adds an item or some characters, wherever it stands. -/
theorem passes_escapedTag (tag : List Char) :
    Quiet (TypeRegistry.builtin.resolve (String.ofList (escapeText tag))).toList ∧
    ∀ s : State, s.verbose = false → ∃ items,
      Passes (TypeRegistry.builtin.resolve (String.ofList (escapeText tag))).toList s { s with items } := by
  rcases resolve_builtin (String.ofList (escapeText tag)) with hself | ⟨r, -, hfragment⟩
  · rw [hself, String.toList_ofList]
    exact ⟨quiet_escapeText tag, fun s hv => ⟨_, passes_escapeText tag hv⟩⟩
  · rw [hfragment]
    exact ⟨r.quiet_fragment, fun s hv => ⟨_, r.passes_fragment hv⟩⟩

/-- A backslash and an angle are a sign for the end of a word. -/
theorem passes_escapedAngle {s : State} (hv : s.verbose = false) :
    Passes ['\\', '>'] s { s with items := .assertion .wordEnd :: s.items } := by
  refine Passes.of_step fun r _ => ?_
  obtain ⟨rest, v⟩ := s
  subst hv
  rfl

/-- Behind the end of the outermost group there is none that another parenthesis would close. -/
theorem refuses_closings {s : State} (hv : s.verbose = false) {g : Parser.OpenGroup}
    (hopened : s.opened = [g]) (hg : g.verbose = false) : Refuses [')', ')'] s .groupUnopened :=
  (Passes.close hv hopened hg false).refuses (Refuses.of_step fun _ => rfl)
    (Parser.quiet_cons (by decide) _)

theorem not_mem_escapeText {c : Char} (hne : c ≠ '\\') {cs : List Char} (h : c ∉ cs) :
    c ∉ escapeText cs := by
  intro hmem
  obtain ⟨d, hd, hc⟩ := List.mem_flatMap.1 hmem
  unfold escapeChar at hc
  split at hc
  · rcases List.mem_pair.1 hc with rfl | rfl
    · exact hne rfl
    · exact h hd
  · rw [List.mem_singleton.1 hc] at h
    exact h hd

theorem nameFault?_of_backslash {names : List String} {name : List Char} (h : '\\' ∈ name) :
    nameFault? names (String.ofList name) = some .captureNameInvalid := by
  have hname : isGroupName name = false := by
    cases name with
    | nil => rfl
    | cons c cs =>
      rw [isGroupName, Bool.and_eq_false_iff]
      rcases List.mem_cons.1 h with rfl | h
      · exact Or.inl (by decide)
      · exact Or.inr (List.all_eq_false.2 ⟨_, h, by decide⟩)
  rw [nameFault?, String.toList_ofList, if_neg (List.ne_nil_of_mem h), if_pos hname]

/-- Where the name of a group ends at an angle that is not its own, the group ends with the fragment. -/
theorem refuses_behindName {s : State} (hv : s.verbose = false) {g : Parser.OpenGroup}
    (hopened : s.opened = [g]) (hg : g.verbose = false) (cs : List Char) {fragment : List Char}
    (hquiet : Quiet fragment)
    (hfragment : ∀ s : State, s.verbose = false → ∃ items, Passes fragment s { s with items }) :
    Refuses (escapeText cs ++ (['\\', '>'] ++ (fragment ++ [')', ')']))) s .groupUnopened := by
  have hbracket : Quiet [')', ')'] := Parser.quiet_cons (by decide) _
  have hend : ∀ items, Refuses (fragment ++ [')', ')']) { s with items } .groupUnopened := by
    intro items
    obtain ⟨items', hitems⟩ := hfragment { s with items } hv
    exact hitems.refuses (refuses_closings (s := { s with items := items' }) hv hopened hg) hbracket
  have hword : ∀ items, Refuses (['\\', '>'] ++ (fragment ++ [')', ')'])) { s with items }
      .groupUnopened :=
    fun items => (passes_escapedAngle (s := { s with items }) hv).refuses (hend _) (hquiet.append hbracket)
  exact (passes_escapeText cs hv).refuses (hword _) (Parser.quiet_cons (by decide) _)

/-- An escaped tag with a name is refused: the backslash before its bracket may not stand in a name. A name that ends
before, at an angle, leaves a parenthesis too many. -/
theorem refuses_named {s : State} (hv : s.verbose = false) (hopened : s.opened = [])
    (name : List Char) {fragment : List Char} (hquiet : Quiet fragment)
    (hfragment : ∀ s : State, s.verbose = false → ∃ items, Passes fragment s { s with items }) :
    ∃ e, Refuses ('(' :: '?' :: 'P' :: '<' ::
      (escapeText name ++ (['\\', '>'] ++ (fragment ++ [')', ')'])))) s e := by
  have htail := hquiet.append (Parser.quiet_cons (c := ')') (by decide) [')'])
  -- The name is read up to the first angle, be it one of its own or the one behind it.
  by_cases hangle : '>' ∈ name
  · obtain ⟨front, back, rfl, hfront⟩ := List.eq_append_cons_of_mem hangle
    have hsplit : escapeText (front ++ '>' :: back) ++ (['\\', '>'] ++ (fragment ++ [')', ')'])) =
        escapeText front ++ ['>'] ++ (escapeText back ++ (['\\', '>'] ++ (fragment ++ [')', ')']))) := by
      rw [escapeText_append, escapeText_cons]
      simp [escapeChar, isMeta]
    have hrest := (quiet_escapeText back).append
      ((Parser.quiet_cons (c := '\\') (by decide) ['>']).append htail)
    rw [hsplit]
    cases hfault : nameFault? (s.names.map Prod.fst) (String.ofList (escapeText front)) with
    | some e =>
      have hrefused := Parser.refuses_openNamed hv ?_ hfault
      · rw [String.toList_ofList] at hrefused
        exact ⟨e, hrefused.append hrest⟩
      · rw [String.toList_ofList]
        exact not_mem_escapeText (by decide) hfront
    | none =>
      obtain ⟨hname, hnew⟩ := nameFault?_eq_none_iff.1 hfault
      rw [String.toList_ofList] at hname
      have hopen := Passes.openNamed hv hname hnew
      have hbehind := refuses_behindName (g := ⟨.capture (s.captures + 1), s.verbose, s.branches, s.items⟩)
        (s := { s.enterCapture [] with
          names := s.names ++ [(String.ofList (escapeText front), s.captures + 1)] })
        hv (congrArg (_ :: ·) hopened) hv back hquiet hfragment
      exact ⟨_, hopen.refuses hbehind hrest⟩
  · have hfault : nameFault? (s.names.map Prod.fst) (String.ofList (escapeText name ++ ['\\'])) = some _ :=
      nameFault?_of_backslash (List.mem_append_right _ (List.mem_singleton_self _))
    have hrefused := Parser.refuses_openNamed hv ?_ hfault
    · have hshape : escapeText name ++ (['\\', '>'] ++ (fragment ++ [')', ')'])) =
          escapeText name ++ ['\\'] ++ ['>'] ++ (fragment ++ [')', ')']) := by
        simp
      rw [String.toList_ofList] at hrefused
      rw [hshape]
      exact ⟨_, hrefused.append htail⟩
    · rw [String.toList_ofList, List.mem_append, not_or]
      exact ⟨not_mem_escapeText (by decide) hangle, by decide⟩

theorem resolve_builtin_of_backslash (tag : List Char) :
    TypeRegistry.builtin.resolve (String.ofList (tag ++ ['\\'])) = String.ofList (tag ++ ['\\']) := by
  rcases resolve_builtin (String.ofList (tag ++ ['\\'])) with hself | ⟨r, htag, -⟩
  · exact hself
  · have hlast := congrArg (fun tag => tag.toList.getLast?) htag
    rw [String.toList_ofList, List.getLast?_concat] at hlast
    cases r <;> exact absurd hlast (by decide)

theorem toList_group_make (types : TypeRegistry) (tag : List Char) (name : Option (List Char)) :
    ((Placeholder.make none tag name false).group types).toList =
      '(' :: '?' :: ':' :: '(' :: (Passes.nameText (name.filter (!·.isEmpty)) ++
        ((types.resolve (String.ofList tag)).toList ++ [')', ')'])) := by
  have hname : (Placeholder.make none tag name false).name.map String.toList =
      name.filter (!·.isEmpty) := by
    rw [Placeholder.make, Option.map_map]
    simp
  rw [Placeholder.toList_group, hname]
  simp [Placeholder.make, Placeholder.leadText, Passes.mark]

/-- The group of a placeholder that an escaped bracket begins, behind its first parenthesis. -/
theorem exists_settles_expand (tag : List Char) (name : Option (List Char)) : ∃ tail,
    (Segment.hole (escapedHole tag name)).expand .builtin = '(' :: '?' :: ':' :: tail ∧
      Quiet tail ∧ Settles tail := by
  cases name with
  | none =>
    have htext : escapeText (tag ++ [')']) ++ [')'] = escapeText tag ++ ['\\'] ++ [')', ')'] := by
      rw [escapeText_append, List.append_assoc, List.append_assoc]
      rfl
    have hunnamed := settles_unnamed tag
    rw [htext] at hunnamed
    refine ⟨_, ?_, Parser.quiet_cons (by decide) _, hunnamed⟩
    rw [escapedHole, Segment.expand, toList_group_make, resolve_builtin_of_backslash, String.toList_ofList]
    rfl
  | some name =>
    have hname : (some (escapeText name ++ ['\\'])).filter (!·.isEmpty) = some (escapeText name ++ ['\\']) := by
      simp
    obtain ⟨hquiet, hfragment⟩ := passes_escapedTag tag
    refine ⟨_, ?_, Parser.quiet_cons (by decide) _, fun s hv hopened =>
      Or.inl (refuses_named hv hopened name hquiet hfragment)⟩
    rw [escapedHole, Segment.expand, toList_group_make, hname, Passes.nameText]
    simp

/-- What the pattern for a text expands to. -/
def escapedExpansion (cs : List Char) : List Char :=
  (Segment.scan 0 (escapeText cs)).flatMap (Segment.expand .builtin)

theorem escapedExpansion_of_not_hasTag {cs : List Char} (h : ¬HasTag cs) :
    escapedExpansion cs = escapeText cs := by
  rw [escapedExpansion, scan_of_not_hasTag h, flatMap_expand_char]

theorem exists_escapedExpansion_of_hasTag {cs : List Char} (h : HasTag cs) : ∃ front tail rest,
    front ++ ['['] <+: cs ∧ rest.length < cs.length ∧ Quiet tail ∧ Settles tail ∧
      escapedExpansion cs = frontText front ++ (tail ++ escapedExpansion rest) := by
  obtain ⟨front, tag, name, rest, rfl, hscan⟩ := exists_scan_of_hasTag h
  obtain ⟨tail, hexpand, hquiet, hsettles⟩ := exists_settles_expand tag name
  refine ⟨front, tail, rest, ?_, ?_, hquiet, hsettles, ?_⟩
  · exact (List.prefix_append_right_inj front).2 (List.prefix_append ['['] _)
  · simp only [List.length_append, List.length_cons]
    omega
  · rw [escapedExpansion, hscan, List.flatMap_append, flatMap_expand_char, List.flatMap_cons,
      List.flatMap_cons, hexpand, frontText, List.append_assoc]
    rfl

theorem settles_escapedExpansion (cs : List Char) :
    Quiet (escapedExpansion cs) ∧ Settles (escapedExpansion cs) := by
  induction hn : cs.length using Nat.strong_induction_on generalizing cs with
  | _ n ih =>
    by_cases h : HasTag cs
    · -- What stands behind the placeholder is an escaped text again, and a shorter one.
      obtain ⟨front, tail, rest, -, hrest, hquiet, htail, hexpansion⟩ :=
        exists_escapedExpansion_of_hasTag h
      obtain ⟨hrestquiet, hrestsettles⟩ := ih rest.length (hn ▸ hrest) rest rfl
      have hbehindquiet := hquiet.append hrestquiet
      rw [hexpansion]
      exact ⟨(quiet_frontText front).append hbehindquiet,
        (settles_frontText front).append (htail.append hrestsettles hrestquiet) hbehindquiet⟩
    · rw [escapedExpansion_of_not_hasTag h]
      exact ⟨quiet_escapeText cs, settles_escapeText cs⟩

/-! ## What escaped text matches -/

/-- A pattern that compiles, and whose groups have no names, has the expression that its items resolve to. -/
theorem expr_of_passes [ProgramSize] {types : TypeRegistry} {pattern : String} {items : List Syntax}
    {es : List Expr} {captures : Nat}
    (h : Passes ((segments pattern).flatMap (Segment.expand types))
      { rest := [], items := [.assertion .lineStart] }
      { rest := [], items := items ++ [.assertion .lineStart], captures })
    (hquiet : Quiet ((segments pattern).flatMap (Segment.expand types)))
    (hes : List.Forall₂ (fun (t : Syntax) e => t.resolveBranches {} = .ok ([e], {})) items es)
    {c : CompiledPattern} (hc : CompiledPattern.compile pattern types = .ok c) :
    c.regex.expr = .between es := by
  obtain ⟨parsed, hparse, hresolve, -, -⟩ := Regex.of_read (CompiledPattern.read_of_compile hc)
  rw [parse_translate_of_passes h hquiet] at hparse
  cases hparse
  rw [resolve_between hes] at hresolve
  exact (Except.ok.inj hresolve).symm

theorem walkAll_letters {text w : List Char} {s t : Stand} :
    Expr.WalkAll text (w.map .letter) s t ↔
      w <+: text.drop s.pos ∧ t = ⟨s.pos + w.length, s.groups⟩ := by
  induction w generalizing s with
  | nil => exact ⟨fun h => ⟨List.nil_prefix, h.symm⟩, fun h => h.2.symm⟩
  | cons c w ih =>
    have hsplit : c :: w <+: text.drop s.pos ↔
        [c] <+: text.drop s.pos ∧ w <+: text.drop (s.pos + 1) := append_prefix_drop_iff (v := [c])
    have hlength : s.pos + (c :: w).length = s.pos + 1 + w.length := by
      rw [List.length_cons]
      omega
    have hletter := @Expr.Spells.letter text c s.pos (s.pos + 1)
    rw [hsplit, hlength]
    constructor
    · rintro ⟨_, ⟨htakes, rfl⟩, hwalk⟩
      obtain ⟨hw, rfl⟩ := ih.1 hwalk
      obtain ⟨_, rfl, hc, -⟩ := hletter.1 ⟨htakes, rfl⟩
      exact ⟨⟨hc, hw⟩, rfl⟩
    · rintro ⟨⟨hc, hw⟩, rfl⟩
      obtain ⟨htakes, -⟩ := hletter.2 ⟨_, rfl, hc, rfl⟩
      exact ⟨_, ⟨htakes, rfl⟩, ih.2 ⟨hw, rfl⟩⟩

/-- Letters between the start and the end of a text are found in that text only. -/
theorem exists_search_letters_iff {text cs : List Char} :
    (∃ m, search (.between (cs.reverse.map .letter)) text = some m) ↔ text = cs := by
  have hwalk : ∀ s t : Stand, (Expr.between (cs.reverse.map .letter)).Walk text s t ↔
      s.pos = 0 ∧ (cs <+: text.drop s.pos ∧ t = ⟨s.pos + cs.length, s.groups⟩) ∧ t.pos = text.length := by
    intro s t
    rw [walk_between, List.map_reverse, List.reverse_reverse, walkAll_letters]
  constructor
  · intro ⟨m, hm⟩
    obtain ⟨hstart, ⟨hcs, hstand⟩, hend⟩ := (hwalk _ _).1 (walk_of_search hm).1
    have hstop := congrArg Stand.pos hstand
    dsimp only at hstart hcs hstop hend
    rw [hstart, List.drop_zero] at hcs
    exact (hcs.eq_of_length (by omega)).symm
  · rintro rfl
    -- From the start of the text the letters lead to its end.
    have hall := (hwalk ⟨0, []⟩ ⟨text.length, []⟩).2 ⟨rfl, ⟨List.prefix_refl text, by simp⟩, rfl⟩
    exact exists_search_iff.2 ⟨0, Nat.zero_le _, text.length, hall.reaches⟩

theorem expand_segments_escapePattern (text : String) :
    (segments (escapePattern text)).flatMap (Segment.expand .builtin) = escapedExpansion text.toList := by
  rw [segments, escapePattern, String.toList_ofList]
  rfl

/-- Without a bracketed tag in it, an escaped text is read as its letters. -/
theorem read_escapePattern {text : String} (h : ¬HasTag text.toList) :
    Regex.read (translate (escapePattern text) .builtin) = .ok ⟨translate (escapePattern text) .builtin,
      .between (text.toList.reverse.map .letter), [],
      (Expr.between (text.toList.reverse.map .letter)).groups.foldl max 0⟩ := by
  have hexpansion := expand_segments_escapePattern text
  rw [escapedExpansion_of_not_hasTag h] at hexpansion
  have hpasses := passes_escapeText text.toList (s := { rest := [], items := [.assertion .lineStart] }) rfl
  have hquiet := quiet_escapeText text.toList
  rw [← hexpansion] at hpasses hquiet
  have hliterals : ∀ s ∈ text.toList.reverse.map fun c => Syntax.literal ⟨c, false⟩, s.depth ≤ 0 :=
    depth_literals_le
  have hdepth := Nat.le_trans (depth_between_le hliterals) (show 0 + 1 ≤ Syntax.nestLimit by decide)
  exact read_translate (parse_translate_of_passes hpasses hquiet) hdepth
    (resolve_between (resolve_literals _)) fun _ hentry => absurd hentry List.not_mem_nil

/-- Then it matches itself only, and takes no parameters. -/
theorem exists_compile_of_not_hasTag [ProgramSize] {text : String} (h : ¬HasTag text.toList)
    (hsize : ¬CompiledPattern.isTooBig (escapePattern text) .builtin) :
    ∃ c, CompiledPattern.compile (escapePattern text) .builtin = .ok c ∧ ∀ path : String,
      (c.isMatch path ↔ path = text) ∧ c.captures path = if path = text then some ⟨[]⟩ else none := by
  refine ⟨_, CompiledPattern.compile_of_not_isTooBig (read_escapePattern h) hsize, fun path => ?_⟩
  have hsearch := @exists_search_letters_iff path.toList text.toList
  rw [String.toList_inj] at hsearch
  rw [CompiledPattern.isMatch, CompiledPattern.captures, Regex.isMatch, Regex.find?, Option.isSome_iff_exists]
  refine ⟨hsearch, ?_⟩
  by_cases hpath : path = text
  · obtain ⟨m, hm⟩ := hsearch.2 hpath
    rw [if_pos hpath, hm]
    rfl
  · rw [if_neg hpath, Option.eq_none_iff_forall_ne_some.2 fun m hm => hpath (hsearch.1 ⟨m, hm⟩)]
    rfl

/-- Where the text has a bracket, neither of the two signs that the backslash leaves is found. -/
theorem search_ne_some_of_bracket {text front : List Char} (hfront : front ++ ['['] <+: text)
    (es : List Expr) (m : Match) :
    search (.between (es ++ frontExprs front)) text ≠ some m := by
  intro hm
  obtain ⟨hstart, hwalk, -⟩ := walk_between.1 (walk_of_search hm).1
  have hreverse : (es ++ frontExprs front).reverse =
      front.map .letter ++ (Expr.letter '(').marked true :: .letter ':' :: es.reverse := by
    simp [frontExprs]
  rw [hreverse] at hwalk
  obtain ⟨_, hletters, u, hopening, v, hcolon, -⟩ := Expr.walkAll_append.1 hwalk
  obtain ⟨-, rfl⟩ := walkAll_letters.1 hletters
  obtain ⟨-, hbracket⟩ := append_prefix_drop_iff (i := 0).1 hfront
  rw [Nat.zero_add, singleton_prefix_drop_iff] at hbracket
  have hsame : ∀ c (s t : Stand), s.pos = front.length → (Expr.letter c).Walk text s t → c = '[' := by
    intro c s t hs hc
    obtain ⟨_, rfl, hfound, -⟩ := (Expr.Spells.letter c _ _).1 hc.reaches
    rw [hs, singleton_prefix_drop_iff, hbracket] at hfound
    exact (Option.some.inj hfound).symm
  have hpos : m.span.start + front.length = front.length := by
    dsimp only at hstart
    omega
  rcases walk_marked hopening with hopening | ⟨-, rfl⟩
  · exact absurd (hsame _ _ _ hpos hopening) (by decide)
  · exact absurd (hsame _ _ _ hpos hcolon) (by decide)

/-- With one in it, the pattern asks for a colon where the tag begins. -/
theorem not_isMatch_of_hasTag [ProgramSize] {text : String} (h : HasTag text.toList) {c : CompiledPattern}
    (hc : CompiledPattern.compile (escapePattern text) .builtin = .ok c) : ¬c.isMatch text := by
  obtain ⟨front, tail, rest, hfront, -, hquiet, htail, hexpansion⟩ := exists_escapedExpansion_of_hasTag h
  obtain ⟨hrestquiet, hrest⟩ := settles_escapedExpansion rest
  have hbehind := htail.append hrest hrestquiet
  have hbehindquiet := hquiet.append hrestquiet
  have hwholequiet := (quiet_frontText front).append hbehindquiet
  have hread := passes_frontText front (s := { rest := [], items := [.assertion .lineStart] }) rfl
  have hsegments := expand_segments_escapePattern text
  rw [hexpansion] at hsegments
  rw [← hsegments] at hwholequiet
  rcases hbehind { rest := [], items := frontItems front ++ [.assertion .lineStart] } rfl rfl with
    ⟨e, he⟩ | ⟨items, es, captures, hpasses, hes⟩
  · have hrefused := hread.refuses he hbehindquiet
    rw [← hsegments] at hrefused
    rw [compile_of_refuses hrefused hwholequiet] at hc
    cases hc
  · have hall := hread.append hpasses hbehindquiet
    rw [← hsegments, ← List.append_assoc] at hall
    have hexpr := expr_of_passes hall hwholequiet (List.rel_append hes (resolve_frontItems front)) hc
    intro hmatch
    obtain ⟨m, hm⟩ := Option.isSome_iff_exists.1 hmatch
    rw [Regex.find?, hexpr] at hm
    exact search_ne_some_of_bracket hfront es m hm

/-- An escaped text is the pattern for itself, matched by no other text and without parameters, just when no bracketed
tag begins in it and it is not too big. -/
theorem compile_escapePattern_iff [ProgramSize] (text : String) :
    (∃ c, CompiledPattern.compile (escapePattern text) .builtin = .ok c ∧ ∀ path : String,
      (c.isMatch path ↔ path = text) ∧ c.captures path = if path = text then some ⟨[]⟩ else none) ↔
      ¬HasTag text.toList ∧ ¬CompiledPattern.isTooBig (escapePattern text) .builtin := by
  constructor
  · intro ⟨c, hc, hmatch⟩
    exact ⟨fun htag => not_isMatch_of_hasTag htag hc ((hmatch text).1.2 rfl),
      CompiledPattern.not_isTooBig_of_compile hc⟩
  · exact fun ⟨htag, hsize⟩ => exists_compile_of_not_hasTag htag hsize

/-- The brackets of `[i]` are a placeholder with a backslash or without. -/
theorem not_escapePattern_bracket : ¬∀ text : String,
    ∃ c, CompiledPattern.compile (escapePattern text) .builtin = .ok c ∧ ∀ path : String,
      (c.isMatch path ↔ path = text) ∧ c.captures path = if path = text then some ⟨[]⟩ else none := by
  intro h
  obtain ⟨c, hc, hmatch⟩ := h "[i]"
  have hescaped : escapePattern "[i]" = "\\[i\\]" := by decide
  have hcompile : CompiledPattern.compile "\\[i\\]" .builtin = .ok ⟨"\\[i\\]", "^\\(?:(i\\))$",
      .seq (.seq (.seq (.seq (.look .textStart) (.rep 0 (some 1) true (.letter '('))) (.letter ':'))
        (.group 1 (.seq (.letter 'i') (.letter ')')))) (.look .textEnd), [], 1⟩ := by
    rfl
  rw [hescaped, hcompile] at hc
  cases hc
  exact absurd ((hmatch "[i]").1.2 rfl) (by decide)

end RequestRouting
