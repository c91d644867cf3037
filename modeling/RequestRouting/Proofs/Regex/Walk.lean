import Mathlib.Tactic.Common
import RequestRouting.Regex.Match

/-!
What an expression matches, said without a matcher.

`Expr.Reaches` relates the positions between which an expression can match, and `Expr.Walk` also
says what the groups hold before and after. Both are read off the expression, with no word on which
of several ways is preferred. The second adds nothing to the first but the groups (`Walk.reaches`,
`Reaches.walk`).
-/

namespace RequestRouting.Regex

/-- So many steps, one after the other. -/
def Turns {α : Type} (step : α → α → Prop) : Nat → α → α → Prop
  | 0 => fun a b => a = b
  | n + 1 => fun a c => ∃ b, step a b ∧ Turns step n b c

/-- Whether a part may be taken so many times. A bound below the least number does not count. -/
def InBounds (least : Nat) (most : Option Nat) (n : Nat) : Prop :=
  least ≤ n ∧ ∀ m, most = some m → n ≤ max least m

/-- A position with what the groups hold there. -/
structure Stand where
  pos : Nat
  groups : List (Nat × Span)

/-- Notes a group that was entered at a position and is left here. -/
def Stand.record (s : Stand) (index start : Nat) : Stand :=
  ⟨s.pos, (index, ⟨start, s.pos⟩) :: s.groups.filter (·.1 != index)⟩

def Thread.stand (t : Thread) : Stand := ⟨t.pos, t.groups⟩

/-- Whether a span goes forward and lies between two positions. -/
def Span.Within (i j : Nat) (s : Span) : Prop := i ≤ s.start ∧ s.start ≤ s.stop ∧ s.stop ≤ j

theorem Span.Within.mono {i i' j j' : Nat} {s : Span} (h : s.Within i j) (hi : i' ≤ i) (hj : j ≤ j') :
    s.Within i' j' :=
  ⟨Nat.le_trans hi h.1, h.2.1, Nat.le_trans h.2.2 hj⟩

/-- Whether the character after a position is in a set. -/
def takes (text : List Char) (set : CharSet) (i : Nat) : Bool := text[i]?.any set.contains

/-- Whether a condition holds at a position. -/
def holdsAt (text : List Char) (l : Look) (i : Nat) : Bool :=
  decide (i ≤ text.length) && l.holdsBetween (if i = 0 then none else text[i - 1]?) text[i]?

namespace Expr

/-- Whether the expression can match between two positions. -/
def Reaches (text : List Char) : Expr → Nat → Nat → Prop
  | .empty, i, j => i = j
  | .char set, i, j => takes text set i ∧ j = i + 1
  | .look l, i, j => holdsAt text l i ∧ j = i
  | .group _ e, i, j => e.Reaches text i j
  | .seq a b, i, j => ∃ k, a.Reaches text i k ∧ b.Reaches text k j
  | .alt a b, i, j => a.Reaches text i j ∨ b.Reaches text i j
  | .rep least most _ e, i, j => ∃ n, InBounds least most n ∧ Turns (e.Reaches text) n i j

/-- Whether the expression can lead from one stand to another. -/
def Walk (text : List Char) : Expr → Stand → Stand → Prop
  | .empty, s, t => s = t
  | .char set, s, t => takes text set s.pos ∧ t = ⟨s.pos + 1, s.groups⟩
  | .look l, s, t => holdsAt text l s.pos ∧ t = s
  | .group k e, s, t => ∃ u, e.Walk text s u ∧ t = u.record k s.pos
  | .seq a b, s, t => ∃ u, a.Walk text s u ∧ b.Walk text u t
  | .alt a b, s, t => a.Walk text s t ∨ b.Walk text s t
  | .rep least most _ e, s, t => ∃ n, InBounds least most n ∧ Turns (e.Walk text) n s t

end Expr

/-! ## Steps taken several times -/

theorem Turns.append {α : Type} {step : α → α → Prop} {m n : Nat} {a b c : α}
    (h₁ : Turns step m a b) (h₂ : Turns step n b c) : Turns step (m + n) a c := by
  induction m generalizing a with
  | zero =>
    cases h₁
    rwa [Nat.zero_add]
  | succ m ih =>
    obtain ⟨d, hd, hdb⟩ := h₁
    rw [Nat.add_right_comm]
    exact ⟨d, hd, ih hdb⟩

theorem Turns.split {α : Type} {step : α → α → Prop} {m n : Nat} {a c : α}
    (h : Turns step (m + n) a c) : ∃ b, Turns step m a b ∧ Turns step n b c := by
  induction m generalizing a with
  | zero =>
    rw [Nat.zero_add] at h
    exact ⟨a, rfl, h⟩
  | succ m ih =>
    rw [Nat.add_right_comm] at h
    obtain ⟨d, hd, hdc⟩ := h
    obtain ⟨b, hdb, hbc⟩ := ih hdc
    exact ⟨b, ⟨d, hd, hdb⟩, hbc⟩

theorem Turns.one {α : Type} {step : α → α → Prop} {a b : α} (h : step a b) :
    Turns step 1 a b :=
  ⟨b, h, rfl⟩

/-- What every step keeps, so many steps keep. -/
theorem Turns.carry {α : Type} {step : α → α → Prop} (rel : α → α → Prop)
    (refl : ∀ a, rel a a) (cons : ∀ a b c, step a b → rel b c → rel a c) {n : Nat} {a b : α}
    (h : Turns step n a b) : rel a b := by
  induction n generalizing a with
  | zero =>
    cases h
    exact refl _
  | succ n ih =>
    obtain ⟨d, hd, hdb⟩ := h
    exact cons a d b hd (ih hdb)

/-- What holds before a step and then holds behind it, holds behind many. -/
theorem Turns.keeps {α : Type} {step : α → α → Prop} {P : α → Prop}
    (hstep : ∀ a b, step a b → P a → P b) {n : Nat} {a b : α} (h : Turns step n a b)
    (ha : P a) : P b :=
  h.carry (fun a b => P a → P b) (fun _ ha => ha)
    (fun a b _ hab hbc ha => hbc (hstep a b hab ha)) ha

theorem Turns.map {α β : Type} {step : α → α → Prop} {step' : β → β → Prop} (f : α → β)
    (hf : ∀ a b, step a b → step' (f a) (f b)) {n : Nat} {a b : α} (h : Turns step n a b) :
    Turns step' n (f a) (f b) := by
  induction n generalizing a with
  | zero => exact congrArg f h
  | succ n ih =>
    obtain ⟨d, hd, hdb⟩ := h
    exact ⟨f d, hf a d hd, ih hdb⟩

/-! ## Positions -/

theorem takes_lt {text : List Char} {set : CharSet} {i : Nat} (h : takes text set i) :
    i < text.length := by
  unfold takes at h
  by_contra hi
  rw [List.getElem?_eq_none (by omega)] at h
  simp at h

namespace Expr

/-- A match does not go back. -/
theorem Reaches.le {text : List Char} {e : Expr} {i j : Nat} (h : e.Reaches text i j) : i ≤ j := by
  induction e generalizing i j with
  | empty => exact Nat.le_of_eq h
  | char set => exact h.2 ▸ Nat.le_succ i
  | look l => exact Nat.le_of_eq h.2.symm
  | group k e ih => exact ih h
  | seq a b iha ihb =>
    obtain ⟨k, ha, hb⟩ := h
    exact Nat.le_trans (iha ha) (ihb hb)
  | alt a b iha ihb => exact h.elim iha ihb
  | rep least most greedy e ih =>
    obtain ⟨n, -, hn⟩ := h
    exact hn.carry (· ≤ ·) Nat.le_refl fun a b c hab hbc => Nat.le_trans (ih hab) hbc

/-- A match that starts in the text ends in it. -/
theorem Reaches.le_length {text : List Char} {e : Expr} {i j : Nat} (h : e.Reaches text i j)
    (hi : i ≤ text.length) : j ≤ text.length := by
  induction e generalizing i j with
  | empty => exact h ▸ hi
  | char set => exact h.2 ▸ takes_lt h.1
  | look l => exact h.2 ▸ hi
  | group k e ih => exact ih h hi
  | seq a b iha ihb =>
    obtain ⟨k, ha, hb⟩ := h
    exact ihb hb (iha ha hi)
  | alt a b iha ihb => exact h.elim (fun ha => iha ha hi) (fun hb => ihb hb hi)
  | rep least most greedy e ih =>
    obtain ⟨n, -, hn⟩ := h
    exact hn.keeps (P := (· ≤ text.length)) (fun a b hab => ih hab) hi

/-- An expression that surely takes a character moves on. -/
theorem Reaches.lt {text : List Char} {e : Expr} {i j : Nat} (h : e.Reaches text i j)
    (he : e.nullable = false) : i < j := by
  induction e generalizing i j with
  | empty => simp [nullable] at he
  | char set => exact h.2 ▸ Nat.lt_succ_self i
  | look l => simp [nullable] at he
  | group k e ih => exact ih h he
  | seq a b iha ihb =>
    obtain ⟨k, ha, hb⟩ := h
    rw [nullable, Bool.and_eq_false_iff] at he
    rcases he with he | he
    · exact Nat.lt_of_lt_of_le (iha ha he) hb.le
    · exact Nat.lt_of_le_of_lt ha.le (ihb hb he)
  | alt a b iha ihb =>
    rw [nullable, Bool.or_eq_false_iff] at he
    exact h.elim (fun ha => iha ha he.1) (fun hb => ihb hb he.2)
  | rep least most greedy e ih =>
    obtain ⟨n, ⟨hn, -⟩, hs⟩ := h
    rw [nullable, Bool.or_eq_false_iff, beq_eq_false_iff_ne] at he
    cases n with
    | zero => omega
    | succ n =>
      -- The first turn moves on, and the others do not go back.
      obtain ⟨k, hk, hkj⟩ := hs
      have hle : k ≤ j := hkj.carry (· ≤ ·) Nat.le_refl fun a b c hab hbc =>
        Nat.le_trans hab.le hbc
      exact Nat.lt_of_lt_of_le (ih hk he.2) hle

/-! ## Groups -/

theorem Walk.reaches {text : List Char} {e : Expr} {s t : Stand} (h : e.Walk text s t) :
    e.Reaches text s.pos t.pos := by
  induction e generalizing s t with
  | empty => exact congrArg Stand.pos h
  | char set => exact ⟨h.1, h.2 ▸ rfl⟩
  | look l => exact ⟨h.1, h.2 ▸ rfl⟩
  | group k e ih =>
    obtain ⟨u, hu, rfl⟩ := h
    exact (ih hu : e.Reaches text s.pos u.pos)
  | seq a b iha ihb =>
    obtain ⟨u, ha, hb⟩ := h
    exact ⟨u.pos, iha ha, ihb hb⟩
  | alt a b iha ihb => exact h.imp iha ihb
  | rep least most greedy e ih =>
    obtain ⟨n, hn, hs⟩ := h
    exact ⟨n, hn, hs.map Stand.pos fun a b hab => ih hab⟩

theorem Reaches.walk {text : List Char} {e : Expr} {i j : Nat} (h : e.Reaches text i j)
    (groups : List (Nat × Span)) : ∃ groups', e.Walk text ⟨i, groups⟩ ⟨j, groups'⟩ := by
  induction e generalizing i j groups with
  | empty => exact ⟨groups, by rw [h]; rfl⟩
  | char set => exact ⟨groups, h.1, by rw [h.2]⟩
  | look l => exact ⟨groups, h.1, by rw [h.2]⟩
  | group k e ih =>
    obtain ⟨g, hg⟩ := ih h groups
    exact ⟨_, ⟨j, g⟩, hg, rfl⟩
  | seq a b iha ihb =>
    obtain ⟨k, ha, hb⟩ := h
    obtain ⟨g, hg⟩ := iha ha groups
    obtain ⟨g', hg'⟩ := ihb hb g
    exact ⟨g', ⟨k, g⟩, hg, hg'⟩
  | alt a b iha ihb =>
    rcases h with h | h
    · exact (iha h groups).imp fun _ hg => Or.inl hg
    · exact (ihb h groups).imp fun _ hg => Or.inr hg
  | rep least most greedy e ih =>
    obtain ⟨n, hn, hs⟩ := h
    -- Each turn starts with the groups that the one before left.
    suffices h : ∃ g, Turns (e.Walk text) n ⟨i, groups⟩ ⟨j, g⟩ from
      h.imp fun g hg => ⟨n, hn, hg⟩
    clear hn
    induction n generalizing i groups with
    | zero => exact ⟨groups, by rw [hs]; rfl⟩
    | succ n ihn =>
      obtain ⟨k, hk, hkj⟩ := hs
      obtain ⟨g, hg⟩ := ih hk groups
      obtain ⟨g', hg'⟩ := ihn g hkj
      exact ⟨g', ⟨k, g⟩, hg, hg'⟩

/-- What the groups hold behind a walk is what they held before, or lies between its ends. -/
theorem Walk.within {text : List Char} {e : Expr} {s t : Stand} (h : e.Walk text s t) :
    ∀ g ∈ t.groups, g ∈ s.groups ∨ g.2.Within s.pos t.pos := by
  induction e generalizing s t with
  | empty =>
    cases h
    exact fun g hg => .inl hg
  | char set =>
    obtain ⟨-, rfl⟩ := h
    exact fun g hg => .inl hg
  | look l =>
    obtain ⟨-, rfl⟩ := h
    exact fun g hg => .inl hg
  | group k e ih =>
    obtain ⟨u, hu, rfl⟩ := h
    refine List.forall_mem_cons.2 ⟨.inr ⟨Nat.le_refl _, hu.reaches.le, Nat.le_refl _⟩, fun g hg => ?_⟩
    exact ih hu g (List.mem_filter.1 hg).1
  | seq a b iha ihb =>
    obtain ⟨u, ha, hb⟩ := h
    intro g hg
    rcases ihb hb g hg with hold | hnew
    · exact (iha ha g hold).imp_right fun h => h.mono (Nat.le_refl _) hb.reaches.le
    · exact .inr (hnew.mono ha.reaches.le (Nat.le_refl _))
  | alt a b iha ihb => exact h.elim iha ihb
  | rep least most greedy e ih =>
    obtain ⟨n, -, hs⟩ := h
    refine (hs.carry (fun s t => s.pos ≤ t.pos ∧ ∀ g ∈ t.groups, g ∈ s.groups ∨ g.2.Within s.pos t.pos)
      (fun s => ⟨Nat.le_refl _, fun g hg => .inl hg⟩) fun s u t hsu ⟨hle, hut⟩ => ?_).2
    have hsu' := hsu.reaches.le
    refine ⟨Nat.le_trans hsu' hle, fun g hg => ?_⟩
    rcases hut g hg with hold | hnew
    · exact (ih hsu g hold).imp_right fun h => h.mono (Nat.le_refl _) hle
    · exact .inr (hnew.mono hsu' (Nat.le_refl _))

end Expr

end RequestRouting.Regex
