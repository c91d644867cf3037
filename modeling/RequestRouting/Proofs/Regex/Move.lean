import RequestRouting.Proofs.Regex.Groups
import RequestRouting.Regex.Parser

/-!
What a step of the reader does.

Every part of the reader takes its text from the front: what it leaves is an end of what it was given (`Gives`).
So each step takes at least one character, and does one of a few things to the items, alternatives and groups that
were read so far; `Move` lists them.
-/

namespace RequestRouting.Regex

namespace Parser

/-! ## Texts that are left -/

/-- Whether what is read has a property, and what is left is an end of the text. -/
def Gives {α : Type} (P : α → Prop) (cs : List Char) (x : Except Error (α × List Char)) : Prop :=
  ∀ a r, x = .ok (a, r) → P a ∧ r <:+ cs

/-- Whether what is left is an end of the text. -/
abbrev Leaves {α : Type} (cs : List Char) (x : Except Error (α × List Char)) : Prop :=
  Gives (fun _ => True) cs x

namespace Gives

variable {α β : Type} {P : α → Prop} {Q : β → Prop} {cs ds r : List Char}

theorem error (e : Error) : Gives P cs (.error e) := nofun

theorem ok {a : α} (ha : P a) (hr : r <:+ cs) : Gives P cs (.ok (a, r)) := by
  rintro a r ⟨⟩
  exact ⟨ha, hr⟩

theorem left (hr : r <:+ cs) (a : α) : Leaves cs (.ok (a, r)) := ok trivial hr

theorem mono {x : Except Error (α × List Char)} (h : Gives P cs x) (hcs : cs <:+ ds) :
    Gives P ds x :=
  fun a r hx => ⟨(h a r hx).1, (h a r hx).2.trans hcs⟩

/-- First one part is read, and then another from what is left. -/
theorem bind {x : Except Error (α × List Char)} {f : α × List Char → Except Error (β × List Char)}
    (hx : Gives P cs x) (hf : ∀ a r, P a → r <:+ cs → Gives Q cs (f (a, r))) :
    Gives Q cs (x >>= f) := by
  cases x with
  | error e => exact error e
  | ok ar => exact hf ar.1 ar.2 (hx _ _ rfl).1 (hx _ _ rfl).2

/-- A check, and then a part that is read. -/
theorem check {x : Except Error α} {f : α → Except Error (β × List Char)}
    (hf : ∀ a, x = .ok a → Gives Q cs (f a)) : Gives Q cs (x >>= f) := by
  cases x with
  | error e => exact error e
  | ok a => exact hf a rfl

end Gives

theorem skipTrivia_suffix (comment : Bool) (cs : List Char) : skipTrivia comment cs <:+ cs := by
  fun_induction skipTrivia comment cs with
  | case1 => exact List.suffix_rfl
  | case2 c r ih => exact ih.trans (List.suffix_cons c r)
  | case3 c r _ ih => exact ih.trans (List.suffix_cons c r)
  | case4 r _ ih => exact ih.trans (List.suffix_cons '#' r)
  | case5 => exact List.suffix_rfl

theorem skip_suffix (verbose : Bool) (cs : List Char) : skip verbose cs <:+ cs := by
  unfold skip
  split
  · exact skipTrivia_suffix false cs
  · exact List.suffix_rfl

/-- What stands behind the first character that counts. -/
theorem suffix_of_skip {verbose : Bool} {cs r : List Char} {c : Char} (h : skip verbose cs = c :: r) : r <:+ cs :=
  (List.suffix_cons c r).trans (h ▸ skip_suffix verbose cs)

theorem takeSkipping_suffix (verbose : Bool) (accept : Char → Bool) (fuel : Nat) (cs : List Char) :
    (takeSkipping verbose accept fuel cs).2 <:+ cs := by
  induction fuel generalizing cs with
  | zero => cases cs <;> exact List.suffix_rfl
  | succ fuel ih =>
    cases cs with
    | nil => exact List.suffix_rfl
    | cons c r =>
      rw [takeSkipping]
      split
      · exact (ih _).trans ((skip_suffix verbose r).trans (List.suffix_cons c r))
      · exact List.suffix_rfl

theorem takeAccepted_suffix {verbose : Bool} {accept : Char → Bool} {cs taken rest : List Char}
    (h : takeAccepted verbose accept cs = (taken, rest)) : rest <:+ cs := by
  have hsuffix := takeSkipping_suffix verbose accept cs.length cs
  rw [← takeAccepted, h] at hsuffix
  exact hsuffix

/-! ### Escapes -/

theorem leaves_fixedHex (verbose : Bool) (n : Nat) (cs : List Char) :
    Leaves cs (fixedHex verbose n cs) := by
  induction n generalizing cs with
  | zero => exact .left List.suffix_rfl []
  | succ n ih =>
    cases cs with
    | nil => exact .error _
    | cons c r =>
      rw [fixedHex]
      split
      · exact .error _
      · exact ((ih _).mono ((skip_suffix verbose r).trans (List.suffix_cons c r))).bind
          fun ds rest _ hrest => .left hrest _

theorem leaves_hexEscape (verbose : Bool) (digits : Nat) (cs : List Char) :
    Leaves cs (hexEscape verbose digits cs) := by
  have hskip := skip_suffix verbose cs
  unfold hexEscape
  split
  next => exact .error _
  next r hr =>
    have hopen : skip verbose r <:+ cs := (skip_suffix verbose r).trans (suffix_of_skip hr)
    split
    next => exact .error _
    next ds rest hds =>
      have hrest := (List.suffix_cons _ rest).trans ((takeAccepted_suffix hds).trans hopen)
      split
      · exact .error _
      · exact .check fun c _ => .left ((skip_suffix verbose rest).trans hrest) _
    next => exact .error _
  next r _ _ =>
    exact ((leaves_fixedHex verbose digits _).mono hskip).bind
      fun ds rest _ hrest => .check fun c _ => .left hrest _

/-- Whether a tree has no capturing group in it. -/
def Bare (item : Syntax) : Prop := item.groups = []

theorem gives_propertyEscape (verbose negated : Bool) (cs : List Char) :
    Gives Bare cs (propertyEscape verbose negated cs) := by
  have hskip := skip_suffix verbose cs
  unfold propertyEscape
  split
  next => exact .error _
  next r hr =>
    have hopen : skip verbose r <:+ cs := (skip_suffix verbose r).trans (suffix_of_skip hr)
    split
    next text rest htext =>
      exact .ok rfl ((List.suffix_cons _ rest).trans ((takeAccepted_suffix htext).trans hopen))
    next => exact .error _
  next => exact .error _
  next c r _ _ hr =>
    exact .ok rfl ((skip_suffix verbose r).trans (suffix_of_skip hr))

theorem suffix_of_boundaryName? {verbose : Bool} {cs rest : List Char} {a : Assertion}
    (h : boundaryName? verbose cs = .ok (some (a, rest))) : rest <:+ cs := by
  have hskip := skip_suffix verbose cs
  unfold boundaryName? at h
  split at h
  next => cases h
  next c r hr =>
    split at h
    next => cases h
    next =>
      split at h
      next name rest' hname =>
        have hrest : rest' <:+ cs :=
          (List.suffix_cons _ rest').trans ((takeAccepted_suffix hname).trans (hr ▸ hskip))
        split at h <;> cases h <;> exact hrest
      next => cases h

theorem gives_escape (verbose : Bool) (cs : List Char) : Gives Bare cs (escape verbose cs) := by
  unfold escape
  split
  next => exact .error _
  next c r =>
    have hr := List.suffix_cons c r
    dsimp only
    split
    · exact .ok rfl hr
    split
    · exact .error _
    -- The letters in the order of the reader: hexadecimal forms, properties, then those with nothing behind them.
    split
    iterate 3 exact ((leaves_hexEscape verbose _ r).mono hr).bind fun l rest _ hrest => .ok rfl hrest
    iterate 2 exact (gives_propertyEscape verbose _ r).mono hr
    iterate 17 exact .ok rfl hr
    -- A brace behind the boundary may name it, or start a repetition.
    · split
      · refine .check fun found hfound => ?_
        split
        next a rest =>
          exact .ok rfl ((suffix_of_boundaryName? hfound).trans ((List.suffix_cons _ _).trans hr))
        next => exact .ok rfl hr
      · exact .ok rfl hr
    · exact .error _

/-! ### Bracketed classes -/

theorem leaves_openSet (verbose : Bool) (cs : List Char) : Leaves cs (openSet verbose cs) := by
  have hskip := skip_suffix verbose cs
  unfold openSet
  split
  next negated cs₁ hsign =>
    have h₁ : cs₁ <:+ cs := by
      split at hsign
      next r hr =>
        cases hsign
        exact (skip_suffix verbose r).trans (suffix_of_skip hr)
      next =>
        cases hsign
        exact hskip
    split
    next hyphens cs₂ hhyphens =>
      have h₂ : cs₂ <:+ cs := (takeAccepted_suffix hhyphens).trans h₁
      dsimp only
      split
      next => exact .error _
      next r =>
        split
        · split
          next => exact .error _
          next => exact .left ((skip_suffix verbose r).trans ((List.suffix_cons _ r).trans h₂)) _
        · exact .left h₂ _
      next => exact .left h₂ _

theorem suffix_of_namedClass? {cs rest : List Char} {item : SetSyntax}
    (h : namedClass? cs = some (item, rest)) : rest <:+ cs := by
  unfold namedClass? at h
  split at h
  next r =>
    split at h
    next negated r₁ hsign =>
      have h₁ : r₁ <:+ ':' :: r := by
        split at hsign
        next =>
          cases hsign
          exact (List.suffix_cons _ _).trans (List.suffix_cons _ _)
        next =>
          cases hsign
          exact List.suffix_cons _ _
      split at h
      next rest' hcolon =>
        obtain ⟨kind, -, hkind⟩ := Option.map_eq_some_iff.1 h
        cases hkind
        have hdrop : ':' :: ']' :: rest <:+ r₁ := hcolon ▸ List.dropWhile_suffix _
        exact ((List.suffix_cons _ rest).trans (List.suffix_cons _ _)).trans (hdrop.trans h₁)
      next => cases h
  next => cases h

theorem leaves_setItem (verbose : Bool) (cs : List Char) : Leaves cs (setItem verbose cs) := by
  unfold setItem
  split
  next => exact .error _
  next r =>
    intro item rest h
    exact ⟨trivial, (gives_escape verbose r item rest h).2.trans (List.suffix_cons _ r)⟩
  next c r _ => exact .left (List.suffix_cons c r) _

theorem leaves_setRange (verbose : Bool) (cs : List Char) : Leaves cs (setRange verbose cs) := by
  refine (leaves_setItem verbose cs).bind fun first cs₁ _ h₁ => ?_
  have h₂ : skip verbose cs₁ <:+ cs := (skip_suffix verbose cs₁).trans h₁
  dsimp only
  split
  next => exact .error _
  next r hr =>
    have h₃ : '-' :: r <:+ cs := hr ▸ h₂
    -- Before a bracket or another hyphen, the hyphen is left for the next item.
    split
    · exact .check fun item _ => .left h₃ item
    · have h₄ : skip verbose r <:+ cs :=
        (skip_suffix verbose r).trans ((List.suffix_cons _ r).trans h₃)
      split
      next => exact .error _
      next =>
        refine ((leaves_setItem verbose _).mono h₄).bind fun last cs₅ _ h₅ => ?_
        refine .check fun lo _ => .check fun hi _ => ?_
        dsimp only
        split
        · exact .error _
        · exact .left h₅ _
  next => exact .check fun item _ => .left h₂ item

theorem gives_setLoop (verbose : Bool) (fuel : Nat) (cur : OpenSet) (outer : List OpenSet)
    (cs : List Char) : Gives Bare cs (setLoop verbose fuel cur outer cs) := by
  induction fuel generalizing cur outer cs with
  | zero => exact .error _
  | succ fuel ih =>
    have hskip := skip_suffix verbose cs
    rw [setLoop]
    split
    next => exact .error _
    next r hr =>
      have h := suffix_of_skip hr
      -- Either the outermost class is closed, or reading goes on in the one around.
      split
      next => exact .ok rfl h
      next => exact (ih _ _ r).mono h
    next r hr =>
      have h := suffix_of_skip hr
      split
      next item rest hnamed => exact (ih _ _ rest).mono ((suffix_of_namedClass? hnamed).trans h)
      next => exact ((leaves_openSet verbose r).mono h).bind fun inner rest _ hrest => (ih _ _ rest).mono hrest
    iterate 3
      next r hr =>
        exact (ih _ _ r).mono ((List.suffix_cons _ r).trans (suffix_of_skip hr))
    next => exact ((leaves_setRange verbose _).mono hskip).bind fun item rest _ hrest => (ih _ _ rest).mono hrest

theorem gives_bracketed (verbose : Bool) (cs : List Char) : Gives Bare cs (bracketed verbose cs) :=
  (leaves_openSet verbose cs).bind fun cur rest _ hrest => (gives_setLoop verbose _ cur [] rest).mono hrest

/-! ### Counts, names and flags -/

theorem decimal_suffix (verbose : Bool) (cs : List Char) : (decimal verbose cs).2 <:+ cs := by
  unfold decimal
  split
  next ds rest hds =>
    have hrest : rest <:+ cs := (takeAccepted_suffix hds).trans (List.dropWhile_suffix _)
    exact (takeAccepted_suffix rfl).trans hrest

theorem leaves_countRange (verbose : Bool) (cs : List Char) : Leaves cs (countRange verbose cs) := by
  have hskip := skip_suffix verbose cs
  unfold countRange
  dsimp only
  split
  next => exact .error _
  next =>
    have hdecimal := (decimal_suffix verbose (skip verbose cs)).trans hskip
    split
    next => exact .error _
    next least r hr =>
      have h₁ : skip verbose r <:+ cs :=
        (skip_suffix verbose r).trans ((List.suffix_cons _ r).trans (hr ▸ hdecimal))
      split
      next => exact .error _
      next rest hrest => exact .check fun n _ => .left ((List.suffix_cons _ rest).trans (hrest ▸ h₁)) _
      next =>
        refine .check fun n _ => .check fun m _ => ?_
        have h₂ := (decimal_suffix verbose (skip verbose r)).trans h₁
        split
        next rest hrest => exact .left ((List.suffix_cons _ rest).trans (hrest ▸ h₂)) _
        next => exact .error _
    next times r _ _ hr =>
      have h₁ : r <:+ cs := by rwa [hr] at hdecimal
      refine .check fun n _ => ?_
      split
      next => exact .left ((List.suffix_cons _ _).trans h₁) _
      next => exact .error _

/-- A name is what stands before the first closing angle. -/
theorem captureName_eq {taken cs rest : List Char} {name : String}
    (h : captureName taken cs = .ok (name, rest)) :
    name = String.ofList (taken.reverse ++ cs.takeWhile (· != '>')) ∧ rest <:+ cs := by
  fun_induction captureName taken cs with
  | case1 => cases h
  | case2 => cases h
  | case3 =>
    cases h
    exact ⟨by simp, List.suffix_cons _ _⟩
  | case4 taken c r hangle _ ih =>
    have hne : c ≠ '>' := fun hc => hangle hc
    obtain ⟨hname, hrest⟩ := ih h
    refine ⟨?_, hrest.trans (List.suffix_cons c r)⟩
    rw [hname, List.takeWhile_cons_of_pos (by simpa using hne)]
    simp
  | case5 => cases h

theorem flagsFrom_suffix {negated dangling ownGroup : Bool} {ch ch' : FlagChange} {cs rest : List Char}
    (h : flagsFrom negated dangling ch cs = .ok (ch', ownGroup, rest)) : rest <:+ cs := by
  fun_induction flagsFrom negated dangling ch cs with
  | case1 | case2 | case4 | case6 | case8 | case9 => cases h
  | case3 | case5 =>
    cases h
    exact List.suffix_cons _ _
  | case7 negated dangling ch r _ ih => exact (ih h).trans (List.suffix_cons _ r)
  | case10 dangling ch c r _ _ _ _ _ _ ih => exact (ih h).trans (List.suffix_cons c r)
  | case11 negated dangling ch c r _ _ _ _ _ _ _ ih => exact (ih h).trans (List.suffix_cons c r)

/-! ## Steps -/

/-- What a parenthesis before a text opens: nothing that captures, or a capturing group with its name if it has
one. The name is what stands before the closing angle. -/
def opened? : List Char → Option (Option String)
  | '?' :: 'P' :: '<' :: r => some (some (String.ofList (r.takeWhile (· != '>'))))
  | '?' :: '<' :: r => some (some (String.ofList (r.takeWhile (· != '>'))))
  | '?' :: _ => none
  | _ => some none

/-- What the first character of a text opens. -/
def opening? (verbose : Bool) : List Char → Option (Option String)
  | '(' :: r => opened? (skip verbose r)
  | _ => none

/-- What a step can do, with the text behind its first character and what was opened. -/
inductive Move (s : State) (r : List Char) : Option (Option String) → State → Prop
  | item {i rest} (verbose : Bool) : Bare i → rest <:+ r →
    Move s r none { s.push i rest with verbose }
  | bar : Move s r none { s with
      rest := r, branches := Syntax.ofItemsRev s.items :: s.branches, items := [] }
  | plain {rest} (ch : FlagChange) (verbose : Bool) : rest <:+ r →
    Move s r none (s.enter (.plain ch) verbose rest)
  | capture {rest} : rest <:+ r → Move s r (some none) (s.enterCapture rest)
  | named {rest name} : rest <:+ r → name ∉ s.names.map Prod.fst →
    Move s r (some (some name))
      { s.enterCapture rest with names := s.names ++ [(name, s.captures + 1)] }
  | close {g gs} : s.opened = g :: gs →
    Move s r none { s with
      rest := r, verbose := g.verbose, branches := g.branches
      items := .group g.kind s.inner :: g.items, opened := gs }
  | repeated {i items rest} (least : Nat) (most : Option Nat) (greedy : Bool) :
    s.items = i :: items → rest <:+ r →
    Move s r none { s with rest, items := .repeated least most greedy i :: items }

namespace State

variable {s s' : State} {r cs : List Char}

theorem of_enterNamed (h : s.enterNamed cs = .ok s') :
    ∃ rest, rest <:+ cs ∧ String.ofList (cs.takeWhile (· != '>')) ∉ s.names.map Prod.fst ∧
      s' = { s.enterCapture rest with
        names := s.names ++ [(String.ofList (cs.takeWhile (· != '>')), s.captures + 1)] } := by
  obtain ⟨⟨name, rest⟩, hname, h⟩ := bind_eq_ok_iff.1 h
  obtain ⟨rfl, hrest⟩ := captureName_eq hname
  dsimp only at h
  split at h
  next => cases h
  next hnew =>
    cases h
    rw [List.contains_iff_mem] at hnew
    exact ⟨rest, hrest, hnew, rfl⟩

theorem of_enterFlags (h : s.enterFlags cs = .ok s') : ∃ ch verbose rest, rest <:+ cs ∧
    (s' = s.enter (.plain ch) verbose rest ∨ s' = { s.push (.flags ch) rest with verbose }) := by
  unfold enterFlags at h
  split at h
  next => cases h
  next =>
    obtain ⟨⟨ch, ownGroup, rest⟩, hflags, h⟩ := bind_eq_ok_iff.1 h
    have hrest := flagsFrom_suffix hflags
    dsimp only at h
    split at h
    · cases h
      exact ⟨ch, _, rest, hrest, .inl rfl⟩
    split at h
    · cases h
    · cases h
      exact ⟨ch, _, rest, hrest, .inr rfl⟩

theorem of_repeatLast {least : Nat} {most : Option Nat} (h : s.repeatLast least most r = .ok s') :
    ∃ i items rest greedy, s.items = i :: items ∧ rest <:+ r ∧
      s' = { s with rest, items := .repeated least most greedy i :: items } := by
  unfold repeatLast at h
  split at h
  next => cases h
  next => cases h
  next => cases h
  next i items _ _ hitems =>
    split at h
    next greedy rest hmark =>
      cases h
      refine ⟨i, items, rest, greedy, hitems, ?_, rfl⟩
      split at hmark
      next r' =>
        cases hmark
        exact List.suffix_cons _ _
      next =>
        cases hmark
        exact List.suffix_rfl

theorem of_repeatCounted (h : s.repeatCounted r = .ok s') : ∃ i items rest least most greedy,
    s.items = i :: items ∧ rest <:+ r ∧
      s' = { s with rest, items := .repeated least most greedy i :: items } := by
  unfold repeatCounted at h
  split at h
  next => cases h
  next => cases h
  next => cases h
  next =>
    obtain ⟨⟨⟨least, most⟩, rest⟩, hrange, h⟩ := bind_eq_ok_iff.1 h
    have hrest := (skip_suffix s.verbose rest).trans (leaves_countRange s.verbose r _ _ hrange).2
    obtain ⟨s₁, hlast, h⟩ := bind_eq_ok_iff.1 h
    obtain ⟨i, items, rest', greedy, hitems, hrest', rfl⟩ := of_repeatLast hlast
    split at h
    · cases h
    · cases h
      exact ⟨i, items, rest', least, most, greedy, hitems, hrest'.trans hrest, rfl⟩

theorem of_openGroup (h : s.openGroup r = .ok s') : Move s r (opened? (skip s.verbose r)) s' := by
  have hskip := skip_suffix s.verbose r
  unfold openGroup at h
  dsimp only at h
  generalize skip s.verbose r = cs at h hskip ⊢
  split at h
  next => cases h
  next =>
    split at h
    next cs _ =>
      obtain ⟨rest, hrest, hnew, rfl⟩ := of_enterNamed h
      exact .named (hrest.trans ((List.suffix_append ['?', 'P', '<'] cs).trans hskip)) hnew
    next cs _ =>
      obtain ⟨rest, hrest, hnew, rfl⟩ := of_enterNamed h
      exact .named (hrest.trans ((List.suffix_append ['?', '<'] cs).trans hskip)) hnew
    next cs hP hangle _ =>
      obtain ⟨ch, verbose, rest, hrest, hs'⟩ := of_enterFlags h
      have hcs : rest <:+ r := hrest.trans ((List.suffix_cons _ cs).trans hskip)
      have hnone : opened? ('?' :: cs) = none := by
        unfold opened?
        split <;> simp_all
      rw [hnone]
      rcases hs' with rfl | rfl
      · exact .plain ch verbose hcs
      · exact .item verbose rfl hcs
    next hP hangle hmark =>
      cases h
      have hsome : opened? cs = some none := by
        unfold opened?
        split <;> simp_all
      rw [hsome]
      exact .capture hskip

end State

/-- What a step does with the first character that counts. -/
theorem move_of_step {s s' : State} {c : Char} {r : List Char} (hskip : skip s.verbose s.rest = c :: r)
    (h : step s = .ok s') : Move s r (opening? s.verbose (c :: r)) s' := by
  -- Most characters add one item without groups, or repeat the last one.
  have hitem {i : Syntax} {rest : List Char} (hi : Bare i) (hrest : rest <:+ r) :
      Move s r none (s.push i rest) := .item s.verbose hi hrest
  have hrepeated {least : Nat} {most : Option Nat} (h : s.repeatLast least most r = .ok s') :
      Move s r none s' := by
    obtain ⟨i, items, rest, greedy, hitems, hrest, rfl⟩ := State.of_repeatLast h
    exact .repeated least most greedy hitems hrest
  unfold step at h
  rw [hskip] at h
  dsimp only at h
  split at h
  next => exact State.of_openGroup h
  next =>
    unfold State.closeGroup at h
    split at h
    next => cases h
    next g gs hopened =>
      cases h
      exact .close hopened
  next =>
    cases h
    exact .bar
  next =>
    obtain ⟨⟨i, rest⟩, hset, h⟩ := bind_eq_ok_iff.1 h
    cases h
    exact hitem (gives_bracketed s.verbose r i rest hset).1 (gives_bracketed s.verbose r i rest hset).2
  iterate 3
    next => exact hrepeated h
  next =>
    obtain ⟨i, items, rest, least, most, greedy, hitems, hrest, rfl⟩ := State.of_repeatCounted h
    exact .repeated least most greedy hitems hrest
  next =>
    obtain ⟨⟨i, rest⟩, hescape, h⟩ := bind_eq_ok_iff.1 h
    cases h
    exact hitem (gives_escape s.verbose r i rest hescape).1 (gives_escape s.verbose r i rest hescape).2
  iterate 3
    next =>
      cases h
      exact hitem rfl List.suffix_rfl
  next hparen _ _ _ _ _ _ _ _ _ _ _ =>
    cases h
    have hnone : opening? s.verbose (c :: r) = none := by
      unfold opening?
      split <;> simp_all
    rw [hnone]
    exact hitem rfl List.suffix_rfl

end Parser

end RequestRouting.Regex
