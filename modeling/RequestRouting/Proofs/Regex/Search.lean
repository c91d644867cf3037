import Mathlib.Data.Nat.Find
import RequestRouting.Proofs.Regex.Following

/-!
What a search finds.

A search finds a match if and only if the expression matches somewhere (`exists_search_iff`), and the
match is one of those that start leftmost (`search_eq_some_iff`). `forall_span_iff` says when it covers
the whole text: just when the search for the expression between the start and the end of the text
gives the same answer.
-/

namespace RequestRouting.Regex

variable {text : List Char} {e : Expr}

theorem within_upTo (length : Nat) : Within length (Positions.upTo length) := by
  intro i hi
  rw [Positions.testBit_upTo, decide_eq_true_eq] at hi
  exact hi

/-- From where the expression matches in the text. -/
theorem testBit_starts_iff {i : Nat} :
    ((e.matcher text).starts (Positions.upTo text.length)).testBit i ↔
      i ≤ text.length ∧ ∃ j, e.Reaches text i j := by
  rw [(Matcher.follows text e).testBit_starts _ (within_upTo text.length)]
  constructor
  · intro ⟨j, hj, hij⟩
    exact ⟨Nat.le_trans hij.le (within_upTo text.length j hj), j, hij⟩
  · intro ⟨hi, j, hij⟩
    refine ⟨j, ?_, hij⟩
    rw [Positions.testBit_upTo, decide_eq_true_eq]
    exact hij.le_length hi

/-- A search picks the first position from which the expression matches, and the preferred thread
from there. -/
theorem search_eq_some_iff {m : Match} : search e text = some m ↔
    ∃ pos t, (pos ≤ text.length ∧ (∃ j, e.Reaches text pos j) ∧
        ∀ i < pos, ∀ j, ¬e.Reaches text i j) ∧
      (e.matcher text).first (Positions.upTo text.length) { pos } = some t ∧
      m = ⟨⟨pos, t.pos⟩, t.groups⟩ := by
  rw [search, Option.bind_eq_some_iff]
  constructor
  · intro ⟨pos, hpos, hm⟩
    obtain ⟨t, ht, rfl⟩ := Option.map_eq_some_iff.1 hm
    obtain ⟨hstart, hrange, hbefore⟩ := List.find?_range_eq_some.1 hpos
    obtain ⟨hle, hj⟩ := testBit_starts_iff.1 hstart
    refine ⟨pos, t, ⟨hle, hj, fun i hi j hij => ?_⟩, ht, rfl⟩
    -- A start before the one that was picked would have been picked itself.
    have hnot := hbefore i hi
    rw [testBit_starts_iff.2 ⟨by omega, j, hij⟩] at hnot
    cases hnot
  · rintro ⟨pos, t, ⟨hle, hj, hbefore⟩, ht, rfl⟩
    refine ⟨pos, List.find?_range_eq_some.2 ⟨testBit_starts_iff.2 ⟨hle, hj⟩, ?_, fun i hi => ?_⟩,
      Option.map_eq_some_iff.2 ⟨t, ht, rfl⟩⟩
    · exact List.mem_range.2 (by omega)
    · rw [Bool.not_eq_true', ← Bool.not_eq_true, testBit_starts_iff]
      rintro ⟨-, j, hij⟩
      exact hbefore i hi j hij

/-- A match that is found is a way through the expression, and none starts before it. -/
theorem walk_of_search {m : Match} (h : search e text = some m) :
    e.Walk text ⟨m.span.start, []⟩ ⟨m.span.stop, m.groups⟩ ∧ m.span.start ≤ text.length ∧
      ∀ i < m.span.start, ∀ j, ¬e.Reaches text i j := by
  obtain ⟨pos, t, ⟨hle, -, hbefore⟩, ht, rfl⟩ := search_eq_some_iff.1 h
  exact ⟨((Matcher.follows text e).sound trivial _ _ t ht).2, hle, hbefore⟩

/-- Something is found just when the expression matches somewhere in the text. -/
theorem exists_search_iff :
    (∃ m, search e text = some m) ↔ ∃ i ≤ text.length, ∃ j, e.Reaches text i j := by
  constructor
  · intro ⟨m, hm⟩
    obtain ⟨hwalk, hle, -⟩ := walk_of_search hm
    exact ⟨m.span.start, hle, m.span.stop, hwalk.reaches⟩
  · intro ⟨i, hi, j, hij⟩
    classical
    -- The leftmost position is the least one from which there is a match.
    have hex : ∃ i, ∃ j, e.Reaches text i j := ⟨i, j, hij⟩
    obtain ⟨j', hj'⟩ := Nat.find_spec hex
    have hle : Nat.find hex ≤ text.length := Nat.le_trans (Nat.find_min' hex ⟨j, hij⟩) hi
    have hend : (Positions.upTo text.length).testBit j' := by
      rw [Positions.testBit_upTo, decide_eq_true_eq]
      exact hj'.le_length hle
    obtain ⟨t, ht⟩ := (Matcher.follows text e).found trivial _ (within_upTo text.length)
      { pos := Nat.find hex } hle j' hend hj'
    refine ⟨_, search_eq_some_iff.2 ⟨Nat.find hex, t, ⟨hle, ⟨j', hj'⟩, fun i hi j hij => ?_⟩, ht, rfl⟩⟩
    exact Nat.find_min hex hi ⟨j, hij⟩

/-! ## The whole text -/

/-- The expression between the start and the end of the text. -/
def Expr.bracketed (e : Expr) : Expr := .seq (.look .textStart) (.seq e (.look .textEnd))

theorem holdsAt_textStart {i : Nat} : holdsAt text .textStart i ↔ i = 0 := by
  rw [holdsAt, Bool.and_eq_true, decide_eq_true_eq]
  constructor
  · intro ⟨hi, hnone⟩
    by_contra hpos
    rw [if_neg hpos, List.getElem?_eq_getElem (by omega)] at hnone
    cases hnone
  · rintro rfl
    exact ⟨Nat.zero_le _, rfl⟩

theorem holdsAt_textEnd {i : Nat} : holdsAt text .textEnd i ↔ i = text.length := by
  rw [holdsAt, Bool.and_eq_true, decide_eq_true_eq]
  constructor
  · intro ⟨hi, hnone⟩
    by_contra hlt
    have hsome : text[i]? = some text[i] := List.getElem?_eq_getElem (by omega)
    rw [hsome] at hnone
    cases hnone
  · rintro rfl
    have hnone : text[text.length]? = none := List.getElem?_eq_none (Nat.le_refl _)
    rw [hnone]
    exact ⟨Nat.le_refl _, rfl⟩

/-- The expression between the two signs leads where the expression itself does, over the whole
text. -/
theorem bracketed_walk_iff {s t : Stand} :
    e.bracketed.Walk text s t ↔ s.pos = 0 ∧ e.Walk text s t ∧ t.pos = text.length := by
  constructor
  · rintro ⟨u, ⟨hstart, rfl⟩, v, hv, hend, rfl⟩
    exact ⟨holdsAt_textStart.1 hstart, hv, holdsAt_textEnd.1 hend⟩
  · intro ⟨hs, hw, ht⟩
    exact ⟨s, ⟨holdsAt_textStart.2 hs, rfl⟩, t, hw, holdsAt_textEnd.2 ht, rfl⟩

/-- What the bracketed expression finds is what the expression finds among the ends of the text. -/
theorem first_of_bracketed {goal : Positions} {t u : Thread}
    (h : (e.bracketed.matcher text).first goal t = some u) :
    (e.matcher text).first (((Expr.look .textEnd).matcher text).starts goal) t = some u := by
  obtain ⟨v, hv, hrest⟩ := Option.bind_eq_some_iff.1 h
  obtain ⟨w, hw, hlast⟩ := Option.bind_eq_some_iff.1 hrest
  -- Neither sign moves the thread, so it comes in and goes out as the expression has it.
  have hstay : ∀ l goal (t u : Thread), ((Expr.look l).matcher text).first goal t = some u → t = u := by
    intro l goal t u hu
    rw [Expr.matcher, Matcher.first_look] at hu
    split at hu
    · exact (Matcher.ending_eq_some.1 hu).2
    · cases hu
  obtain rfl := hstay _ _ _ _ hv
  obtain rfl := hstay _ _ _ _ hlast
  exact hw

/-- A search covers the whole text just when bracketing the expression changes nothing. -/
theorem forall_span_iff : (∀ m, search e text = some m → m.span = ⟨0, text.length⟩) ↔
    search e text = search e.bracketed text := by
  constructor
  · intro hspan
    rcases hm : search e text with _ | m
    · rcases hb : search e.bracketed text with _ | b
      · rfl
      · -- What the bracketed expression finds is a match of the expression too.
        obtain ⟨hwalk, hle, -⟩ := walk_of_search hb
        obtain ⟨m, hm'⟩ := exists_search_iff.2 ⟨_, hle, _, (bracketed_walk_iff.1 hwalk).2.1.reaches⟩
        rw [hm] at hm'
        cases hm'
    · have hwhole := hspan m hm
      obtain ⟨pos, t, ⟨-, -, -⟩, ht, rfl⟩ := search_eq_some_iff.1 hm
      obtain ⟨rfl, hend⟩ := Span.mk.inj hwhole
      have hwalk := (bracketed_walk_iff (s := ⟨0, []⟩) (t := ⟨t.pos, t.groups⟩)).2
        ⟨rfl, (walk_of_search hm).1, hend⟩
      have hgoal := within_upTo text.length
      have hlast : (Positions.upTo text.length).testBit t.pos := by
        rw [Positions.testBit_upTo, decide_eq_true_eq, hend]
      obtain ⟨u, hu⟩ := (Matcher.follows text e.bracketed).found trivial _ hgoal { pos := 0 }
        (Nat.zero_le _) t.pos hlast hwalk.reaches
      -- Asked for ends of the text alone, the expression finds the same thread as before.
      have hfew := (Matcher.follows text (.look .textEnd)).testBit_starts _ hgoal
      have hshrink := (Matcher.follows text e).shrink trivial _ hgoal _ (fun i hi => ?_) { pos := 0 }
        (Nat.zero_le _) t ht ((hfew t.pos).2 ⟨t.pos, hlast, holdsAt_textEnd.2 hend, rfl⟩)
      · have heq : u = t := Option.some.inj ((first_of_bracketed hu).symm.trans hshrink)
        rw [heq] at hu
        exact (search_eq_some_iff.2 ⟨0, t, ⟨Nat.zero_le _, ⟨_, hwalk.reaches⟩, by simp⟩, hu, rfl⟩).symm
      · obtain ⟨j, hj, -, rfl⟩ := (hfew i).1 hi
        exact hj
  · intro hsame m hm
    rw [hsame] at hm
    obtain ⟨hstart, -, hend⟩ := bracketed_walk_iff.1 (walk_of_search hm).1
    cases m with
    | mk span groups =>
      cases span
      exact Span.mk.injEq .. ▸ ⟨hstart, hend⟩

end RequestRouting.Regex
