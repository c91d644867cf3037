import RequestRouting.Proofs.Pattern.PlainMatch

/-!
Which matches cover the whole path.

The expression of a pattern stands between a sign for the start and one for the end, but what the pattern
says may reach past them: an alternation takes one of the signs for each side. A compiled pattern covers what
it matches on those paths on which the signs around the whole expression would change nothing. It does so on
all paths if each way through the expression begins and ends with a condition on the text (`opensText`,
`closesText`), or if the pattern is plain.
-/

namespace RequestRouting

open Regex

/-! ## Conditions on an expression -/

namespace Regex.Expr

/-- Whether each way through the expression surely passes the start of the text. -/
def opensText : Expr → Bool
  | empty => false
  | char _ => false
  | look l => l == .textStart
  | group _ e => e.opensText
  | seq a _ => a.opensText
  | alt a b => a.opensText && b.opensText
  | rep least _ _ e => least != 0 && e.opensText

/-- Whether each way through the expression surely passes the end of the text. -/
def closesText : Expr → Bool
  | empty => false
  | char _ => false
  | look l => l == .textEnd
  | group _ e => e.closesText
  | seq _ b => b.closesText
  | alt a b => a.closesText && b.closesText
  | rep least _ _ e => least != 0 && e.closesText

variable {text : List Char} {e : Expr} {i j : Nat}

theorem Reaches.start_eq (h : e.Reaches text i j) (he : e.opensText) : i = 0 := by
  induction e generalizing i j with
  | empty => cases he
  | char set => cases he
  | look l =>
    obtain rfl := beq_iff_eq.1 he
    exact holdsAt_textStart.1 h.1
  | group k e ih => exact ih h he
  | seq a b iha _ =>
    obtain ⟨k, hik, -⟩ := h
    exact iha hik he
  | alt a b iha ihb =>
    rw [opensText, Bool.and_eq_true] at he
    exact h.elim (fun h => iha h he.1) (fun h => ihb h he.2)
  | rep least most greedy e ih =>
    obtain ⟨n, ⟨hn, -⟩, h⟩ := h
    rw [opensText, Bool.and_eq_true, bne_iff_ne] at he
    match n, h with
    | 0, _ => omega
    | n + 1, ⟨k, hik, _⟩ => exact ih hik he.2

theorem Reaches.stop_eq (h : e.Reaches text i j) (he : e.closesText) : j = text.length := by
  induction e generalizing i j with
  | empty => cases he
  | char set => cases he
  | look l =>
    obtain rfl := beq_iff_eq.1 he
    obtain ⟨hend, rfl⟩ := h
    exact holdsAt_textEnd.1 hend
  | group k e ih => exact ih h he
  | seq a b _ ihb =>
    obtain ⟨k, -, hkj⟩ := h
    exact ihb hkj he
  | alt a b iha ihb =>
    rw [closesText, Bool.and_eq_true] at he
    exact h.elim (fun h => iha h he.1) (fun h => ihb h he.2)
  | rep least most greedy e ih =>
    obtain ⟨n, ⟨hn, -⟩, h⟩ := h
    rw [closesText, Bool.and_eq_true, bne_iff_ne] at he
    match n, h with
    | 0, _ => omega
    | n + 1, h =>
      -- The last turn is the one that ends where the repetition ends.
      obtain ⟨k, -, hkj⟩ := turns_snoc_iff.2 h
      exact ih hkj he.2

end Regex.Expr

/-! ## Compiled patterns -/

namespace CompiledPattern

/-- Whether the match in a path, if there is one, is the whole path. -/
def Covers (c : CompiledPattern) (path : String) : Prop :=
  c.isMatch path → ∃ m, c.regex.find? path = some m ∧ m.span = ⟨0, path.length⟩

theorem covers_iff_span (c : CompiledPattern) (path : String) : c.Covers path ↔
    ∀ m, search c.regex.expr path.toList = some m → m.span = ⟨0, path.toList.length⟩ := by
  rw [String.length_toList]
  constructor
  · intro h m hm
    have hmatch : c.isMatch path := by
      rw [isMatch, Regex.isMatch, Regex.find?, hm]
      rfl
    obtain ⟨m', hm', hspan⟩ := h hmatch
    rw [Regex.find?, hm] at hm'
    cases hm'
    exact hspan
  · intro h hmatch
    obtain ⟨m, hm⟩ := Option.isSome_iff_exists.1 hmatch
    exact ⟨m, hm, h m hm⟩

/-- A compiled pattern covers what it matches on just those paths on which its expression finds the same
between the start and the end of the text. It does so on all paths if the expression surely passes both
ends of the text, and if the pattern is plain. -/
theorem compile_covers_iff [Regex.ProgramSize] {types : TypeRegistry} {pattern : String} {c : CompiledPattern}
    (h : compile pattern types = .ok c) :
    (∀ path, c.Covers path ↔
      c.regex.find? path = search c.regex.expr.bracketed path.toList) ∧
    (c.regex.expr.opensText ∧ c.regex.expr.closesText → ∀ path, c.Covers path) ∧
    ∀ ps, Plain types pattern ps → ∀ path, c.Covers path := by
  refine ⟨fun path => ?_, fun ⟨hopens, hcloses⟩ path => ?_, fun ps hplain path => ?_⟩
  · rw [covers_iff_span]
    exact forall_span_iff
  · rw [covers_iff_span]
    intro m hm
    have hreach := (walk_of_search hm).1.reaches
    have hstart : m.span.start = 0 := hreach.start_eq hopens
    have hstop : m.span.stop = path.toList.length := hreach.stop_eq hcloses
    rw [← hstart, ← hstop]
  · obtain rfl := eq_of_compile hplain.read h
    rw [covers_iff_span]
    exact fun m hm => span_of_search_wholeExpr hm

/-- Alternatives that have both signs each cover what they match. -/
theorem covers_signed_alternation : ∃ c, compile "a$|^b" TypeRegistry.builtin = .ok c ∧
    c.isMatch "b" ∧ ∀ path, c.Covers path := by
  -- The sign that all alternatives begin with is taken out of them.
  have hcompile : compile "a$|^b" TypeRegistry.builtin = .ok ⟨"a$|^b", "^a$|^b$",
      .seq (.look .textStart) (.alt (.seq (.letter 'a') (.look .textEnd))
        (.seq (.letter 'b') (.look .textEnd))), [], 0⟩ := by
    rfl
  exact ⟨_, hcompile, by rfl, (compile_covers_iff hcompile).2.1 ⟨by rfl, by rfl⟩⟩

/-- Alternatives have one of the two signs each, so one of them may match the start of a path alone. -/
theorem not_covers_alternation : ¬∀ (types : TypeRegistry) (pattern : String) (c : CompiledPattern),
    compile pattern types = .ok c → ∀ path, c.Covers path := by
  intro h
  have hcompile : compile "a|b" TypeRegistry.builtin = .ok ⟨"a|b", "^a|b$",
      .alt (.seq (.look .textStart) (.letter 'a')) (.seq (.letter 'b') (.look .textEnd)), [], 0⟩ := by
    rfl
  obtain ⟨m, hm, hspan⟩ := h _ _ _ hcompile "ax" (by rfl)
  -- The alternative with the sign for the start is through after the first character.
  have hfound : search (Expr.alt (.seq (.look .textStart) (.letter 'a'))
      (.seq (.letter 'b') (.look .textEnd))) ['a', 'x'] = some ⟨⟨0, 1⟩, []⟩ := by
    decide
  have hsame : m = ⟨⟨0, 1⟩, []⟩ := Option.some.inj (hm.symm.trans hfound)
  rw [hsame] at hspan
  exact absurd hspan (by decide)

end CompiledPattern

end RequestRouting
