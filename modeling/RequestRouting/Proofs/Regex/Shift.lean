import RequestRouting.Proofs.Regex.Search
import RequestRouting.Proofs.Regex.Spelling

/-!
More text in front.

An expression that looks at the end of the text only (`Expr.Forward`) does the same wherever it starts: with
more text in front of a text it finds, behind that text, what it finds in the text alone, and prefers what it
prefers there (`Expr.Forward.shifts`). So a sequence that begins with the start of the text and then takes
just the text in front goes on as the rest of it does from the start of the text alone (`search_behind`).
-/

namespace RequestRouting.Regex

/-- The span behind so much more text. -/
def Span.shift (k : Nat) (s : Span) : Span := ⟨s.start + k, s.stop + k⟩

def shiftGroups (k : Nat) (groups : List (Nat × Span)) : List (Nat × Span) :=
  groups.map fun g => (g.1, g.2.shift k)

def Thread.shift (k : Nat) (t : Thread) : Thread := ⟨t.pos + k, shiftGroups k t.groups, t.passed⟩

theorem Span.slice_shift (s : Span) (front text : List Char) :
    (s.shift front.length).slice (front ++ text) = s.slice text := by
  have hdrop : (front ++ text).drop (s.start + front.length) = text.drop s.start := by
    rw [Nat.add_comm, List.drop_length_add_append]
  rw [slice, shift, hdrop, Nat.add_sub_add_right, ← slice]

theorem Thread.shift_advance (k : Nat) (t : Thread) : (t.shift k).advance = t.advance.shift k := by
  show Thread.mk (t.pos + k + 1) _ _ = Thread.mk (t.pos + 1 + k) _ _
  rw [Nat.add_right_comm]
  rfl

theorem Thread.shift_record (k index start : Nat) (t : Thread) :
    (t.shift k).record index (start + k) = (t.record index start).shift k := by
  have hfilter : (shiftGroups k t.groups).filter (·.1 != index) =
      shiftGroups k (t.groups.filter (·.1 != index)) := List.filter_map
  show Thread.mk _ (_ :: (shiftGroups k t.groups).filter (·.1 != index)) _ = _
  rw [hfilter]
  rfl

/-! ## Ways behind more text -/

theorem turns_shift {k : Nat} {step step' : Nat → Nat → Prop}
    (h : ∀ i j', step' (i + k) j' ↔ ∃ j, j' = j + k ∧ step i j) (n : Nat) (i j' : Nat) :
    Turns step' n (i + k) j' ↔ ∃ j, j' = j + k ∧ Turns step n i j := by
  induction n generalizing i with
  | zero =>
    constructor
    · rintro rfl
      exact ⟨i, rfl, rfl⟩
    · rintro ⟨j, rfl, rfl⟩
      rfl
  | succ n ih =>
    constructor
    · intro ⟨b', hb', hrest⟩
      obtain ⟨b, rfl, hb⟩ := (h i b').1 hb'
      obtain ⟨j, rfl, hj⟩ := (ih b).1 hrest
      exact ⟨j, rfl, b, hb, hj⟩
    · rintro ⟨j, rfl, b, hb, hj⟩
      exact ⟨b + k, (h i _).2 ⟨b, rfl, hb⟩, (ih b).2 ⟨j, rfl, hj⟩⟩

namespace Expr

/-- Whether the expression looks at the end of the text only, and loops without end over parts only that take
a character. -/
def Forward : Expr → Prop
  | empty => True
  | char _ => True
  | look l => l = .textEnd
  | group _ e => e.Forward
  | seq a b => a.Forward ∧ b.Forward
  | alt a b => a.Forward ∧ b.Forward
  | rep _ most _ e => e.Forward ∧ (most = none → e.nullable = false)

end Expr

section

variable (front text : List Char)

theorem takes_shift (set : CharSet) (i : Nat) :
    takes (front ++ text) set (i + front.length) = takes text set i := by
  rw [takes, List.getElem?_append_right (Nat.le_add_left _ _), Nat.add_sub_cancel, takes]

theorem holdsAt_textEnd_shift (i : Nat) :
    holdsAt (front ++ text) .textEnd (i + front.length) = holdsAt text .textEnd i := by
  rw [Bool.eq_iff_iff, holdsAt_textEnd, holdsAt_textEnd, List.length_append]
  omega

variable {front text}

theorem Expr.Forward.reaches_shift {e : Expr} (h : e.Forward) (i j' : Nat) :
    e.Reaches (front ++ text) (i + front.length) j' ↔
      ∃ j, j' = j + front.length ∧ e.Reaches text i j := by
  induction e generalizing i j' with
  | empty =>
    constructor
    · rintro rfl
      exact ⟨i, rfl, rfl⟩
    · rintro ⟨j, rfl, rfl⟩
      rfl
  | char set =>
    simp only [Expr.Reaches, takes_shift]
    constructor
    · rintro ⟨ht, rfl⟩
      exact ⟨i + 1, by omega, ht, rfl⟩
    · rintro ⟨j, rfl, ht, rfl⟩
      exact ⟨ht, by omega⟩
  | look l =>
    obtain rfl : l = .textEnd := h
    simp only [Expr.Reaches, holdsAt_textEnd_shift]
    constructor
    · rintro ⟨ht, rfl⟩
      exact ⟨i, rfl, ht, rfl⟩
    · rintro ⟨j, rfl, ht, rfl⟩
      exact ⟨ht, rfl⟩
  | group k e ih => exact ih h i j'
  | seq a b iha ihb =>
    constructor
    · intro ⟨k', hk', hj'⟩
      obtain ⟨k, rfl, hk⟩ := (iha h.1 i k').1 hk'
      obtain ⟨j, rfl, hj⟩ := (ihb h.2 k j').1 hj'
      exact ⟨j, rfl, k, hk, hj⟩
    · rintro ⟨j, rfl, k, hk, hj⟩
      exact ⟨_, (iha h.1 i _).2 ⟨k, rfl, hk⟩, (ihb h.2 k _).2 ⟨j, rfl, hj⟩⟩
  | alt a b iha ihb =>
    constructor
    · rintro (hj' | hj')
      · obtain ⟨j, rfl, hj⟩ := (iha h.1 i j').1 hj'
        exact ⟨j, rfl, Or.inl hj⟩
      · obtain ⟨j, rfl, hj⟩ := (ihb h.2 i j').1 hj'
        exact ⟨j, rfl, Or.inr hj⟩
    · rintro ⟨j, rfl, hj | hj⟩
      · exact Or.inl ((iha h.1 i _).2 ⟨j, rfl, hj⟩)
      · exact Or.inr ((ihb h.2 i _).2 ⟨j, rfl, hj⟩)
  | rep least most greedy e ih =>
    have hturns := turns_shift (ih h.1)
    constructor
    · intro ⟨n, hn, hj'⟩
      obtain ⟨j, rfl, hj⟩ := (hturns n i j').1 hj'
      exact ⟨j, rfl, n, hn, hj⟩
    · rintro ⟨j, rfl, n, hn, hj⟩
      exact ⟨n, hn, (hturns n i _).2 ⟨j, rfl, hj⟩⟩

end

/-! ## Matchers behind more text -/

/-- Whether a set holds behind so many positions what another set holds from the start on. Which of the
positions before belong to it does not matter. -/
def Aligned (k : Nat) (goal' goal : Positions) : Prop := ∀ i, goal'.testBit (i + k) = goal.testBit i

theorem aligned_upTo (k length : Nat) :
    Aligned k (Positions.upTo (length + k)) (Positions.upTo length) := by
  intro i
  rw [Positions.testBit_upTo, Positions.testBit_upTo, decide_eq_decide]
  omega

namespace Matcher

/-- Whether a matcher does behind so many positions what another one does from the start on. -/
structure Shifts (k length : Nat) (m' m : Matcher) : Prop where
  within' : ∀ goal', Within (length + k) goal' → Within (length + k) (m'.starts goal')
  within : ∀ goal, Within length goal → Within length (m.starts goal)
  inside : ∀ goal t u, m.first goal t = some u → t.pos ≤ length → u.pos ≤ length
  starts : ∀ goal' goal, Within (length + k) goal' → Within length goal → Aligned k goal' goal →
    Aligned k (m'.starts goal') (m.starts goal)
  first : ∀ goal' goal, Within (length + k) goal' → Within length goal → Aligned k goal' goal →
    ∀ t : Thread, t.pos ≤ length → m'.first goal' (t.shift k) = (m.first goal t).map (·.shift k)

variable {k length : Nat} {m' m n' n : Matcher} {goal' goal : Positions}

theorem ending_shift (h : Aligned k goal' goal) (t : Thread) :
    ending goal' (t.shift k) = (ending goal t).map (·.shift k) := by
  have hbit : goal'.testBit (t.shift k).pos = goal.testBit t.pos := h t.pos
  rw [ending, ending, hbit]
  split <;> rfl

/-- A loop takes the same turns behind more text, and has fuel enough for them. -/
theorem takeTurns_shift (h : Aligned k goal' goal) {turn' turn : Thread → Option Thread}
    (hturn : ∀ t : Thread, t.pos ≤ length → turn' (t.shift k) = (turn t).map (·.shift k))
    (hmove : ∀ t u, turn t = some u → t.pos ≤ length → t.pos < u.pos ∧ u.pos ≤ length)
    (greedy : Bool) {fuel' fuel : Nat} {t : Thread} (ht : t.pos ≤ length)
    (hfuel' : length + 1 ≤ fuel' + t.pos) (hfuel : length + 1 ≤ fuel + t.pos) :
    takeTurns greedy goal' turn' fuel' (t.shift k) =
      (takeTurns greedy goal turn fuel t).map (·.shift k) := by
  induction fuel generalizing fuel' t with
  | zero => omega
  | succ fuel ih =>
    cases fuel' with
    | zero => omega
    | succ fuel' =>
      -- A turn leads on to a place from which less fuel is enough.
      have hnext : ∀ u, turn t = some u → takeTurns greedy goal' turn' fuel' (u.shift k) =
          (takeTurns greedy goal turn fuel u).map (·.shift k) := by
        intro u hu
        obtain ⟨hlt, hle⟩ := hmove t u hu ht
        exact ih hle (by omega) (by omega)
      have hend := ending_shift h t
      rw [takeTurns, takeTurns, hturn t ht, hend]
      cases greedy with
      | true =>
        cases hu : turn t with
        | none => rfl
        | some u => exact hnext u hu
      | false =>
        cases ending goal t with
        | some v => rfl
        | none =>
          cases hu : turn t with
          | none => rfl
          | some u => exact hnext u hu

namespace Shifts

theorem empty (k length : Nat) : Shifts k length Matcher.empty Matcher.empty where
  within' _ h := h
  within _ h := h
  inside goal t u hu ht := by
    obtain ⟨-, rfl⟩ := ending_eq_some.1 hu
    exact ht
  starts _ _ _ _ h := h
  first _ _ _ _ h t _ := ending_shift h t

section

variable {marks' marks : Positions} (hmarks : Aligned k marks' marks)

include hmarks

theorem char (hin' : ∀ i, marks'.testBit i → i < length + k)
    (hin : ∀ i, marks.testBit i → i < length) :
    Shifts k length (Matcher.char marks') (Matcher.char marks) where
  within' goal' _ i hi := by
    rw [Matcher.char, Nat.testBit_and, Bool.and_eq_true] at hi
    exact Nat.le_of_lt (hin' i hi.1)
  within goal _ i hi := by
    rw [Matcher.char, Nat.testBit_and, Bool.and_eq_true] at hi
    exact Nat.le_of_lt (hin i hi.1)
  inside goal t u hu _ := by
    obtain ⟨ht, hu⟩ := Option.ite_none_right_eq_some.1 hu
    obtain ⟨-, rfl⟩ := ending_eq_some.1 hu
    exact hin t.pos ht
  starts goal' goal _ _ hgoal i := by
    have hnext : 1 + (i + k) = 1 + i + k := by omega
    show (marks' &&& (goal' >>> 1)).testBit (i + k) = (marks &&& (goal >>> 1)).testBit i
    rw [Nat.testBit_and, Nat.testBit_and, Nat.testBit_shiftRight, Nat.testBit_shiftRight, hnext,
      hmarks i, hgoal (1 + i)]
  first goal' goal _ _ hgoal t _ := by
    have hbit : marks'.testBit (t.shift k).pos = marks.testBit t.pos := hmarks t.pos
    show (if marks'.testBit (t.shift k).pos then ending goal' (t.shift k).advance else none) =
      (if marks.testBit t.pos then ending goal t.advance else none).map _
    rw [hbit, t.shift_advance, ending_shift hgoal]
    split <;> rfl

theorem look : Shifts k length (Matcher.look marks') (Matcher.look marks) where
  within' goal' hg' i hi := by
    rw [Matcher.look, Nat.testBit_and, Bool.and_eq_true] at hi
    exact hg' i hi.2
  within goal hg i hi := by
    rw [Matcher.look, Nat.testBit_and, Bool.and_eq_true] at hi
    exact hg i hi.2
  inside goal t u hu ht := by
    obtain ⟨-, hu⟩ := Option.ite_none_right_eq_some.1 hu
    obtain ⟨-, rfl⟩ := ending_eq_some.1 hu
    exact ht
  starts goal' goal _ _ hgoal i := by
    show (marks' &&& goal').testBit (i + k) = (marks &&& goal).testBit i
    rw [Nat.testBit_and, Nat.testBit_and, hmarks i, hgoal i]
  first goal' goal _ _ hgoal t _ := by
    have hbit : marks'.testBit (t.shift k).pos = marks.testBit t.pos := hmarks t.pos
    rw [first_look, first_look, hbit, ending_shift hgoal]
    split <;> rfl

end

theorem group (h : Shifts k length m' m) (index : Nat) :
    Shifts k length (m'.group index) (m.group index) where
  within' := h.within'
  within := h.within
  inside goal t u hu ht := by
    obtain ⟨v, hv, rfl⟩ := Option.map_eq_some_iff.1 hu
    exact h.inside goal t v hv ht
  starts := h.starts
  first goal' goal hg' hg hgoal t ht := by
    show (m'.first goal' (t.shift k)).map _ = ((m.first goal t).map _).map _
    rw [h.first goal' goal hg' hg hgoal t ht, Option.map_map, Option.map_map]
    congr 1
    funext u
    exact u.shift_record k index t.pos

theorem seq (h : Shifts k length m' m) (h₂ : Shifts k length n' n) :
    Shifts k length (m'.seq n') (m.seq n) where
  within' goal' hg' := h.within' _ (h₂.within' goal' hg')
  within goal hg := h.within _ (h₂.within goal hg)
  inside goal t u hu ht := by
    obtain ⟨v, hv, hvu⟩ := Option.bind_eq_some_iff.1 hu
    exact h₂.inside goal v u hvu (h.inside _ t v hv ht)
  starts goal' goal hg' hg hgoal :=
    h.starts _ _ (h₂.within' goal' hg') (h₂.within goal hg) (h₂.starts goal' goal hg' hg hgoal)
  first goal' goal hg' hg hgoal t ht := by
    show (m'.first (n'.starts goal') (t.shift k)).bind _ =
      ((m.first (n.starts goal) t).bind _).map _
    rw [h.first _ _ (h₂.within' goal' hg') (h₂.within goal hg)
      (h₂.starts goal' goal hg' hg hgoal) t ht]
    cases hu : m.first (n.starts goal) t with
    | none => rfl
    | some u => exact h₂.first goal' goal hg' hg hgoal u (h.inside _ t u hu ht)

theorem alt (h : Shifts k length m' m) (h₂ : Shifts k length n' n) :
    Shifts k length (m'.alt n') (m.alt n) where
  within' goal' hg' i hi := by
    rcases (Follows.testBit_or_iff _ _ i).1 hi with hi | hi
    · exact h.within' goal' hg' i hi
    · exact h₂.within' goal' hg' i hi
  within goal hg i hi := by
    rcases (Follows.testBit_or_iff _ _ i).1 hi with hi | hi
    · exact h.within goal hg i hi
    · exact h₂.within goal hg i hi
  inside goal t u hu ht := by
    rcases Option.or_eq_some_iff.1 hu with hu | ⟨-, hu⟩
    · exact h.inside goal t u hu ht
    · exact h₂.inside goal t u hu ht
  starts goal' goal hg' hg hgoal i := by
    show (m'.starts goal' ||| n'.starts goal').testBit (i + k) =
      (m.starts goal ||| n.starts goal).testBit i
    rw [Nat.testBit_or, Nat.testBit_or, h.starts goal' goal hg' hg hgoal i,
      h₂.starts goal' goal hg' hg hgoal i]
  first goal' goal hg' hg hgoal t ht := by
    show (m'.first goal' (t.shift k)).or (n'.first goal' (t.shift k)) =
      ((m.first goal t).or (n.first goal t)).map _
    rw [h.first goal' goal hg' hg hgoal t ht, h₂.first goal' goal hg' hg hgoal t ht]
    cases m.first goal t <;> rfl

theorem optional (h : Shifts k length m' m) (greedy : Bool) :
    Shifts k length (m'.optional greedy) (m.optional greedy) := by
  cases greedy with
  | true => exact h.alt (empty k length)
  | false => exact (empty k length).alt h

theorem times (h : Shifts k length m' m) (h₂ : Shifts k length n' n) (count : Nat) :
    Shifts k length (m'.times n' count) (m.times n count) := by
  induction count with
  | zero => exact h₂
  | succ count ih => exact h.seq ih

theorem upTo (h : Shifts k length m' m) (greedy : Bool) (count : Nat) :
    Shifts k length (m'.upTo greedy count) (m.upTo greedy count) := by
  induction count with
  | zero => exact empty k length
  | succ count ih => exact (h.seq ih).optional greedy

theorem withAll (h : Shifts k length m' m) (all' all : Place → Thread → List Thread) :
    Shifts k length { m' with all := all' } { m with all } :=
  ⟨h.within', h.within, h.inside, h.starts, h.first⟩

end Shifts

/-! ### Loops -/

variable {reach reach' : Nat → Nat → Prop} {walk walk' : Stand → Stand → Prop}

/-- The positions from which ways lead to a set are shifted with the ways. -/
theorem aligned_starts (hf' : Follows (length + k) True m' reach' walk')
    (hf : Follows length True m reach walk)
    (hreach : ∀ i j', reach' (i + k) j' ↔ ∃ j, j' = j + k ∧ reach i j)
    (hg' : Within (length + k) goal') (hg : Within length goal) (hgoal : Aligned k goal' goal) :
    Aligned k (m'.starts goal') (m.starts goal) := by
  intro i
  rw [Bool.eq_iff_iff, hf'.testBit_starts goal' hg', hf.testBit_starts goal hg]
  constructor
  · intro ⟨j', hj', hij'⟩
    obtain ⟨j, rfl, hij⟩ := (hreach i j').1 hij'
    exact ⟨j, hgoal j ▸ hj', hij⟩
  · intro ⟨j, hj, hij⟩
    exact ⟨j + k, (hgoal j).symm ▸ hj, (hreach i _).2 ⟨j, rfl, hij⟩⟩

theorem Shifts.star (h : Shifts k length m' m) (hf' : Follows (length + k) True m' reach' walk')
    (hf : Follows length True m reach walk)
    (hreach : ∀ i j', reach' (i + k) j' ↔ ∃ j, j' = j + k ∧ reach i j)
    (hlt' : ∀ i j, reach' i j → i < j) (hlt : ∀ i j, reach i j → i < j) (greedy : Bool) :
    Shifts k length (m'.star greedy (length + k + 1)) (m.star greedy (length + 1)) := by
  have hstar' := hf'.star (fun _ => hlt') greedy
  have hstar := hf.star (fun _ => hlt) greedy
  have hturns : ∀ i j', AnyTurns reach' (i + k) j' ↔ ∃ j, j' = j + k ∧ AnyTurns reach i j := by
    intro i j'
    constructor
    · intro ⟨n, hn⟩
      obtain ⟨j, rfl, hj⟩ := (turns_shift hreach n i j').1 hn
      exact ⟨j, rfl, n, hj⟩
    · rintro ⟨j, rfl, n, hn⟩
      exact ⟨n, (turns_shift hreach n i _).2 ⟨j, rfl, hn⟩⟩
  refine ⟨fun _ hg' => hstar'.within_starts hg', fun _ hg => hstar.within_starts hg,
    fun _ _ _ hu ht => hstar.sound_inside trivial hu ht,
    fun _ _ hg' hg hgoal => aligned_starts hstar' hstar hturns hg' hg hgoal, ?_⟩
  intro goal' goal hg' hg hgoal t ht
  -- A turn aims at where more turns lead to the goal, and moves on.
  have haim := aligned_starts hstar' hstar hturns hg' hg hgoal
  refine takeTurns_shift hgoal
    (fun t ht => h.first _ _ (hstar'.within_starts hg') (hstar.within_starts hg) haim t ht)
    (fun t u hu ht => ⟨?_, hf.sound_inside trivial hu ht⟩) greedy ht ?_ (Nat.le_add_right _ _)
  · exact hlt _ _ (hf.reach_of_walk _ _ (hf.sound trivial _ t u hu).2)
  · omega

end Matcher

/-! ## Expressions -/

section

variable {front text : List Char}

/-- The matcher of a forward expression does behind more text what it does on the text alone. -/
theorem Expr.Forward.shifts {e : Expr} (h : e.Forward) :
    Matcher.Shifts front.length text.length (e.matcher (front ++ text)) (e.matcher text) := by
  have hlength : (front ++ text).length = text.length + front.length := by
    rw [List.length_append, Nat.add_comm]
  induction e with
  | empty => exact .empty _ _
  | char set =>
    refine .char (fun i => ?_) (fun i hi => ?_) fun i hi => ?_
    · rw [testBit_charMarks, testBit_charMarks, takes_shift]
    · rw [testBit_charMarks] at hi
      exact hlength ▸ takes_lt hi
    · rw [testBit_charMarks] at hi
      exact takes_lt hi
  | look l =>
    obtain rfl : l = .textEnd := h
    refine .look fun i => ?_
    rw [testBit_lookMarks, testBit_lookMarks, holdsAt_textEnd_shift]
  | group i e ih => exact (ih h).group i
  | seq a b iha ihb => exact (iha h.1).seq (ihb h.2)
  | alt a b iha ihb => exact (iha h.1).alt (ihb h.2)
  | rep least most greedy e ih =>
    have hbody := ih h.1
    rw [Expr.matcher, Expr.matcher, hlength]
    cases most with
    | some most => exact (hbody.times (hbody.upTo greedy (most - least)) least).withAll _ _
    | none =>
      -- A body that takes a character moves on at every turn, so no turn is stopped.
      have hnullable := h.2 rfl
      have hf' := hlength ▸ Matcher.follows (front ++ text) e
      rw [hnullable]
      exact (hbody.times (hbody.star hf' (Matcher.follows text e) h.1.reaches_shift
        (fun i j hij => hij.lt hnullable) (fun i j hij => hij.lt hnullable) greedy) least).withAll _ _

end

/-! ## Sequences behind more text -/

/-- The expressions one after the other from the start of the text on, given last first. -/
def Expr.fromStart (es : List Expr) : Expr := .ofRev (es ++ [.look .textStart])

section

variable {text front : List Char} {es : List Expr}

theorem Expr.fromStart_cons (e : Expr) (es : List Expr) :
    fromStart (e :: es) = .seq (fromStart es) e := by
  cases es <;> rfl

theorem Expr.start_of_reaches {i j : Nat} (h : (fromStart es).Reaches text i j) : i = 0 := by
  obtain ⟨groups, hw⟩ := h.walk []
  rw [fromStart, walk_ofRev, List.reverse_append] at hw
  obtain ⟨u, ⟨hstart, -⟩, -⟩ := hw
  exact holdsAt_textStart.1 hstart

/-- What begins with the start of the text is searched for there alone. -/
theorem search_fromStart : search (.fromStart es) text =
    (((Expr.fromStart es).matcher text).first (Positions.upTo text.length) { pos := 0 }).map
      fun t => ⟨⟨0, t.pos⟩, t.groups⟩ := by
  cases hfirst : ((Expr.fromStart es).matcher text).first (Positions.upTo text.length)
      { pos := 0 } with
  | some t =>
    -- No way starts further left than at 0, so the search stops there.
    have hreach := ((Matcher.follows text _).sound trivial _ _ t hfirst).2.reaches
    exact search_eq_some_iff.2
      ⟨0, t, ⟨Nat.zero_le _, ⟨_, hreach⟩, fun i hi => absurd hi (Nat.not_lt_zero i)⟩, hfirst, rfl⟩
  | none =>
    cases hsearch : search (.fromStart es) text with
    | none => rfl
    | some m =>
      obtain ⟨pos, t, ⟨-, ⟨j, hj⟩, -⟩, ht, -⟩ := search_eq_some_iff.1 hsearch
      obtain rfl := Expr.start_of_reaches hj
      rw [hfirst] at ht
      cases ht

theorem first_char (set : CharSet) (goal : Positions) (t : Thread) :
    ((Expr.char set).matcher text).first goal t =
      if takes text set t.pos then Matcher.ending goal t.advance else none := by
  rw [← testBit_charMarks]
  rfl

theorem testBit_starts_char (set : CharSet) (goal : Positions) (i : Nat) :
    (((Expr.char set).matcher text).starts goal).testBit i =
      (takes text set i && goal.testBit (1 + i)) := by
  rw [← testBit_charMarks, ← Nat.testBit_shiftRight]
  exact Nat.testBit_and _ _ i

/-- The characters that a text begins with are taken as they are. -/
theorem first_letters {front : List Char} (h : front <+: text) (goal : Positions) :
    ((Expr.fromStart (front.reverse.map .letter)).matcher text).first goal { pos := 0 } =
      Matcher.ending goal { pos := front.length } := by
  -- A sequence is built from its last part on, so the induction takes the last character off.
  induction front using List.reverseRecOn generalizing goal with
  | nil =>
    have hstart : holdsAt text .textStart 0 := holdsAt_textStart.2 rfl
    show (Matcher.look _).first goal _ = _
    rw [Matcher.first_look, testBit_lookMarks, if_pos hstart]
    rfl
  | append_singleton front c ih =>
    obtain ⟨rest, rfl⟩ := h
    rw [List.append_assoc] at ih ⊢
    have htakes : takes (front ++ ([c] ++ rest)) (.single c.toNat) front.length := by
      rw [takes, List.getElem?_append_right (Nat.le_refl _), Nat.sub_self]
      exact CharSet.contains_single.2 rfl
    rw [List.reverse_concat, List.map_cons, Expr.fromStart_cons]
    show (Option.bind _ (((Expr.char _).matcher _).first goal) : Option Thread) = _
    rw [ih (List.prefix_append _ _), List.length_append]
    have hbit : (((Expr.letter c).matcher (front ++ ([c] ++ rest))).starts goal).testBit front.length =
        goal.testBit (front.length + 1) := by
      rw [Expr.letter, testBit_starts_char, htakes, Bool.true_and, Nat.add_comm]
    by_cases hg : goal.testBit (front.length + 1)
    · rw [Matcher.ending, hbit, if_pos hg, Option.bind_some, first_char, if_pos htakes]
      rfl
    · rw [Matcher.ending, hbit, if_neg hg, Option.bind_none, Matcher.ending_eq_none.2 hg]

/-- A sequence goes on behind the text in front as it does from the start of the text alone. -/
theorem first_behind (hes : ∀ e ∈ es, e.Forward) {goal' goal : Positions}
    (hg' : Within (text.length + front.length) goal') (hg : Within text.length goal)
    (hgoal : Aligned front.length goal' goal) :
    ((Expr.fromStart (es ++ front.reverse.map .letter)).matcher (front ++ text)).first goal'
        { pos := 0 } =
      (((Expr.fromStart es).matcher text).first goal { pos := 0 }).map (·.shift front.length) := by
  induction es generalizing goal' goal with
  | nil =>
    have hempty := first_letters (List.nil_prefix (l := text)) goal
    rw [List.nil_append, first_letters (List.prefix_append front text)]
    show _ = (((Expr.fromStart (([] : List Char).reverse.map .letter)).matcher text).first goal _).map _
    rw [hempty, ← Matcher.ending_shift hgoal]
    show _ = Matcher.ending goal' ⟨0 + front.length, [], []⟩
    rw [Nat.zero_add]
  | cons e es ih =>
    -- The part before the last aims at the positions from which the last one leads on to the goal.
    have hshifts : Matcher.Shifts front.length text.length (e.matcher (front ++ text)) (e.matcher text) :=
      (hes e List.mem_cons_self).shifts
    have hrest := ih (fun e he => hes e (List.mem_cons_of_mem _ he)) (hshifts.within' goal' hg')
      (hshifts.within goal hg) (hshifts.starts goal' goal hg' hg hgoal)
    rw [List.cons_append, Expr.fromStart_cons, Expr.fromStart_cons]
    show (Option.bind _ _ : Option Thread) = (Option.bind _ _ : Option Thread).map _
    rw [hrest]
    cases hu : ((Expr.fromStart es).matcher text).first ((e.matcher text).starts goal) { pos := 0 } with
    | none => rfl
    | some u =>
      have hle := (Matcher.follows text (.fromStart es)).sound_inside trivial hu (Nat.zero_le _)
      exact hshifts.first goal' goal hg' hg hgoal u hle

/-- The match behind so much more text, if it starts at the start of the text. -/
def Match.behind (k : Nat) (m : Match) : Match := ⟨⟨0, m.span.stop + k⟩, shiftGroups k m.groups⟩

/-- With more text in front, and its characters in front of the sequence, the search finds the match that it
finds without them. -/
theorem search_behind (hes : ∀ e ∈ es, e.Forward) :
    search (.fromStart (es ++ front.reverse.map .letter)) (front ++ text) =
      (search (.fromStart es) text).map (.behind front.length) := by
  have hlength : (front ++ text).length = text.length + front.length := by
    rw [List.length_append, Nat.add_comm]
  rw [search_fromStart, search_fromStart, hlength,
    first_behind hes (within_upTo _) (within_upTo _) (aligned_upTo _ _), Option.map_map,
    Option.map_map]
  rfl

end

end RequestRouting.Regex
