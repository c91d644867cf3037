import RequestRouting.Proofs.Regex.ExprListing

/-!
What a matcher finds.

`Matcher.Follows` says that a matcher knows from where a match can end in a set of positions, and that
the thread it prefers is one that does. It also says what becomes of that thread when fewer positions
are asked for: as long as its own position is still among them, it stays the preferred one
(`shrink`). Each way of building matchers keeps this.
-/

namespace RequestRouting.Regex

theorem noTurns_and {α : Type} {step rest : α → α → Prop} {a c : α} :
    rest a c ↔ ∃ d, Turns step 0 a d ∧ rest d c := by
  constructor
  · exact fun h => ⟨a, rfl, h⟩
  · rintro ⟨d, rfl, h⟩
    exact h

theorem exists_turn_and {α : Type} {step rest : α → α → Prop} {n : Nat} {a c : α} :
    (∃ b, step a b ∧ ∃ d, Turns step n b d ∧ rest d c) ↔ ∃ d, Turns step (n + 1) a d ∧ rest d c := by
  constructor
  · intro ⟨b, hab, d, hbd, hdc⟩
    exact ⟨d, ⟨b, hab, hbd⟩, hdc⟩
  · intro ⟨d, ⟨b, hab, hbd⟩, hdc⟩
    exact ⟨b, hab, d, hbd, hdc⟩

theorem noTurns_iff {α : Type} {step : α → α → Prop} {a c : α} :
    a = c ↔ ∃ n ≤ 0, Turns step n a c := by
  constructor
  · rintro rfl
    exact ⟨0, Nat.le_refl 0, rfl⟩
  · intro ⟨n, hn, h⟩
    obtain rfl := Nat.le_zero.1 hn
    exact h

theorem turnsUpTo_succ {α : Type} {step : α → α → Prop} {n : Nat} {a c : α} :
    ((∃ b, step a b ∧ ∃ k ≤ n, Turns step k b c) ∨ a = c) ↔ ∃ k ≤ n + 1, Turns step k a c := by
  constructor
  · rintro (⟨b, hab, k, hk, hbc⟩ | rfl)
    · exact ⟨k + 1, Nat.succ_le_succ hk, b, hab, hbc⟩
    · exact ⟨0, Nat.zero_le _, rfl⟩
  · intro ⟨k, hk, h⟩
    cases k with
    | zero => exact Or.inr h
    | succ k =>
      obtain ⟨b, hab, hbc⟩ := h
      exact Or.inl ⟨b, hab, k, Nat.le_of_succ_le_succ hk, hbc⟩

theorem countedTurns_iff {α : Type} {step : α → α → Prop} {least most : Nat} {a c : α} :
    (∃ b, Turns step least a b ∧ ∃ n ≤ most - least, Turns step n b c) ↔
      ∃ n, InBounds least (some most) n ∧ Turns step n a c := by
  rw [← optionalTurns_iff]
  constructor
  · intro ⟨b, hab, n, hn, hbc⟩
    exact ⟨n, hn, b, hab, hbc⟩
  · intro ⟨n, hn, b, hab, hbc⟩
    exact ⟨b, hab, n, hn, hbc⟩

theorem loopTurns_iff {α : Type} {step : α → α → Prop} {least : Nat} {a c : α} :
    (∃ b, Turns step least a b ∧ AnyTurns step b c) ↔
      ∃ n, InBounds least none n ∧ Turns step n a c := by
  constructor
  · intro ⟨b, hab, n, hbc⟩
    exact ⟨least + n, ⟨Nat.le_add_right least n, nofun⟩, hab.append hbc⟩
  · rintro ⟨n, ⟨hn, -⟩, h⟩
    obtain ⟨m, rfl⟩ := Nat.exists_eq_add_of_le hn
    obtain ⟨b, hab, hbc⟩ := h.split
    exact ⟨b, hab, m, hbc⟩

/-- A set of positions of a text. -/
def Within (length : Nat) (goal : Positions) : Prop := ∀ i, goal.testBit i → i ≤ length

namespace Matcher

/-- A matcher that follows the ways of `reach` and `walk`. What it finds first counts only if `finds`
holds. -/
structure Follows (length : Nat) (finds : Prop) (m : Matcher) (reach : Nat → Nat → Prop)
    (walk : Stand → Stand → Prop) : Prop where
  le : ∀ i j, reach i j → i ≤ j
  inside : ∀ i j, reach i j → i ≤ length → j ≤ length
  reach_of_walk : ∀ s t, walk s t → reach s.pos t.pos
  testBit_starts : ∀ goal, Within length goal → ∀ i,
    (m.starts goal).testBit i ↔ ∃ j, goal.testBit j ∧ reach i j
  sound : finds → ∀ goal t u, m.first goal t = some u →
    goal.testBit u.pos ∧ walk t.stand u.stand
  found : finds → ∀ goal, Within length goal → ∀ t : Thread, t.pos ≤ length → ∀ j,
    goal.testBit j → reach t.pos j → ∃ u, m.first goal t = some u
  shrink : finds → ∀ goal, Within length goal → ∀ goal' : Positions,
    (∀ i, goal'.testBit i → goal.testBit i) → ∀ t : Thread, t.pos ≤ length → ∀ u,
    m.first goal t = some u → goal'.testBit u.pos → m.first goal' t = some u

theorem ending_eq_some {goal : Positions} {t u : Thread} :
    ending goal t = some u ↔ goal.testBit t.pos ∧ t = u := by
  unfold ending
  split <;> simp_all

theorem ending_eq_none {goal : Positions} {t : Thread} :
    ending goal t = none ↔ ¬goal.testBit t.pos := by
  unfold ending
  split <;> simp_all

theorem first_look (marks goal : Positions) (t : Thread) :
    (look marks).first goal t = if marks.testBit t.pos then ending goal t else none := rfl

/-- A loop goes on with a turn, unless it prefers to end, or ends, unless it prefers a turn. -/
theorem takeTurns_succ {greedy : Bool} {goal : Positions} {turn : Thread → Option Thread}
    {fuel : Nat} {t u : Thread} : takeTurns greedy goal turn (fuel + 1) t = some u ↔
      (∃ v, turn t = some v ∧ (greedy = false → ending goal t = none) ∧
        takeTurns greedy goal turn fuel v = some u) ∨
      (ending goal t = some u ∧ (greedy = true → turn t = none)) := by
  rw [takeTurns]
  cases greedy with
  | true => rcases turn t with _ | v <;> simp
  | false => rcases ending goal t with _ | v <;> simp [Option.bind_eq_some_iff]

namespace Follows

variable {length : Nat} {finds : Prop} {m m' : Matcher} {reach reach' : Nat → Nat → Prop}
  {walk walk' : Stand → Stand → Prop}

theorem congr (h : Follows length finds m reach walk) (hr : ∀ i j, reach i j ↔ reach' i j)
    (hw : ∀ s t, walk s t ↔ walk' s t) : Follows length finds m reach' walk' := by
  have hr' : reach = reach' := funext fun i => funext fun j => propext (hr i j)
  have hw' : walk = walk' := funext fun s => funext fun t => propext (hw s t)
  rw [← hr', ← hw']
  exact h

/-- The positions from which a match ends in the set are positions of the text. -/
theorem within_starts (h : Follows length finds m reach walk) {goal : Positions}
    (hg : Within length goal) : Within length (m.starts goal) := by
  intro i hi
  obtain ⟨j, hj, hij⟩ := (h.testBit_starts goal hg i).1 hi
  exact Nat.le_trans (h.le i j hij) (hg j hj)

theorem starts_mono (h : Follows length finds m reach walk) {goal goal' : Positions}
    (hg : Within length goal) (hs : ∀ i, goal'.testBit i → goal.testBit i) :
    ∀ i, (m.starts goal').testBit i → (m.starts goal).testBit i := by
  intro i hi
  obtain ⟨j, hj, hij⟩ := (h.testBit_starts goal' (fun k hk => hg k (hs k hk)) i).1 hi
  exact (h.testBit_starts goal hg i).2 ⟨j, hs j hj, hij⟩

theorem sound_inside (h : Follows length finds m reach walk) (hf : finds) {goal : Positions}
    {t u : Thread} (hu : m.first goal t = some u) (ht : t.pos ≤ length) : u.pos ≤ length :=
  h.inside _ _ (h.reach_of_walk _ _ (h.sound hf goal t u hu).2) ht

/-- What is not found for a set is not found for a smaller one. -/
theorem none_of_subset (h : Follows length finds m reach walk) (hf : finds) {goal goal' : Positions}
    (hg : Within length goal) (hs : ∀ i, goal'.testBit i → goal.testBit i) {t : Thread}
    (ht : t.pos ≤ length) (hn : m.first goal t = none) : m.first goal' t = none := by
  rcases hu : m.first goal' t with _ | u
  · rfl
  · obtain ⟨hgoal, hwalk⟩ := h.sound hf goal' t u hu
    obtain ⟨v, hv⟩ := h.found hf goal hg t ht u.pos (hs _ hgoal) (h.reach_of_walk _ _ hwalk)
    rw [hn] at hv
    cases hv

/-! ## Single steps -/

theorem empty (length : Nat) (finds : Prop) :
    Follows length finds Matcher.empty (fun i j => i = j) (fun s t => s = t) where
  le i j h := Nat.le_of_eq h
  inside i j h hi := h ▸ hi
  reach_of_walk s t h := congrArg Stand.pos h
  testBit_starts goal _ i := ⟨fun h => ⟨i, h, rfl⟩, fun ⟨_, h, hij⟩ => hij ▸ h⟩
  sound _ goal t u hu := by
    obtain ⟨hg, rfl⟩ := ending_eq_some.1 hu
    exact ⟨hg, rfl⟩
  found _ goal _ t _ j hj htj := ⟨t, ending_eq_some.2 ⟨htj ▸ hj, rfl⟩⟩
  shrink _ goal _ goal' _ t _ u hu hg := by
    obtain ⟨-, rfl⟩ := ending_eq_some.1 hu
    exact ending_eq_some.2 ⟨hg, rfl⟩

section

variable {test : Nat → Bool}

/-- A matcher that passes a test at a position, and moves on by a fixed number of positions. -/
theorem step (shift : Nat) (move : Thread → Thread)
    (hmove : ∀ t, (move t).stand = ⟨t.pos + shift, t.groups⟩)
    (hstarts : ∀ goal i, (m.starts goal).testBit i = (test i && goal.testBit (i + shift)))
    (hfirst : ∀ goal t, m.first goal t = if test t.pos then ending goal (move t) else none)
    (hin : ∀ i, test i → i ≤ length → i + shift ≤ length) :
    Follows length finds m (fun i j => test i ∧ j = i + shift)
      (fun s t => test s.pos ∧ t = ⟨s.pos + shift, s.groups⟩) where
  le i j h := h.2 ▸ Nat.le_add_right i shift
  inside i j h hi := h.2 ▸ hin i h.1 hi
  reach_of_walk s t h := ⟨h.1, congrArg Stand.pos h.2⟩
  testBit_starts goal _ i := by
    rw [hstarts, Bool.and_eq_true]
    exact ⟨fun ⟨ht, hg⟩ => ⟨_, hg, ht, rfl⟩, fun ⟨_, hg, ht, hij⟩ => ⟨ht, hij ▸ hg⟩⟩
  sound _ goal t u hu := by
    rw [hfirst] at hu
    by_cases ht : test t.pos
    · rw [if_pos ht] at hu
      obtain ⟨hg, rfl⟩ := ending_eq_some.1 hu
      exact ⟨hg, ht, hmove t⟩
    · rw [if_neg ht] at hu
      cases hu
  found _ goal _ t _ j hj htj := by
    have hpos : (move t).pos = t.pos + shift := congrArg Stand.pos (hmove t)
    rw [hfirst, if_pos htj.1]
    exact ⟨_, ending_eq_some.2 ⟨by rwa [hpos, ← htj.2], rfl⟩⟩
  shrink _ goal _ goal' _ t _ u hu hg := by
    rw [hfirst] at hu ⊢
    by_cases ht : test t.pos
    · rw [if_pos ht] at hu ⊢
      obtain ⟨-, rfl⟩ := ending_eq_some.1 hu
      exact ending_eq_some.2 ⟨hg, rfl⟩
    · rw [if_neg ht] at hu
      cases hu

variable {marks : Positions} (hm : ∀ i, marks.testBit i = test i)

include hm

theorem look (length : Nat) (finds : Prop) :
    Follows length finds (Matcher.look marks) (fun i j => test i ∧ j = i)
      (fun s t => test s.pos ∧ t = s) := by
  apply step 0 id (fun _ => rfl)
  · intro goal i
    rw [← hm i]
    exact Nat.testBit_and marks goal i
  · intro goal t
    rw [← hm t.pos]
    rfl
  · exact fun i _ hi => hi

theorem char (hin : ∀ i, test i → i < length) (finds : Prop) :
    Follows length finds (Matcher.char marks) (fun i j => test i ∧ j = i + 1)
      (fun s t => test s.pos ∧ t = ⟨s.pos + 1, s.groups⟩) := by
  apply step 1 Thread.advance (fun _ => rfl)
  · intro goal i
    rw [← hm i, Nat.add_comm i 1, ← Nat.testBit_shiftRight]
    exact Nat.testBit_and marks (goal >>> 1) i
  · intro goal t
    rw [← hm t.pos]
    rfl
  · exact fun i hi _ => hin i hi

end

theorem group (h : Follows length finds m reach walk) (index : Nat) :
    Follows length finds (m.group index) reach
      (fun s t => ∃ u, walk s u ∧ t = u.record index s.pos) where
  le := h.le
  inside := h.inside
  reach_of_walk s t := by
    rintro ⟨u, hu, rfl⟩
    exact h.reach_of_walk s u hu
  testBit_starts := h.testBit_starts
  sound hf goal t u hu := by
    obtain ⟨v, hv, rfl⟩ := Option.map_eq_some_iff.1 hu
    obtain ⟨hg, hw⟩ := h.sound hf goal t v hv
    exact ⟨hg, v.stand, hw, rfl⟩
  found hf goal hg t ht j hj htj := by
    obtain ⟨u, hu⟩ := h.found hf goal hg t ht j hj htj
    exact ⟨_, Option.map_eq_some_iff.2 ⟨u, hu, rfl⟩⟩
  shrink hf goal hg goal' hs t ht u hu hgu := by
    obtain ⟨v, hv, rfl⟩ := Option.map_eq_some_iff.1 hu
    exact Option.map_eq_some_iff.2 ⟨v, h.shrink hf goal hg goal' hs t ht v hv hgu, rfl⟩

/-! ## One after the other, and one or the other -/

theorem seq (h : Follows length finds m reach walk) (h' : Follows length finds m' reach' walk') :
    Follows length finds (m.seq m') (fun i j => ∃ k, reach i k ∧ reach' k j)
      (fun s t => ∃ u, walk s u ∧ walk' u t) where
  le i j := by
    intro ⟨k, hik, hkj⟩
    exact Nat.le_trans (h.le i k hik) (h'.le k j hkj)
  inside i j := by
    intro ⟨k, hik, hkj⟩ hi
    exact h'.inside k j hkj (h.inside i k hik hi)
  reach_of_walk s t := by
    intro ⟨u, hsu, hut⟩
    exact ⟨u.pos, h.reach_of_walk s u hsu, h'.reach_of_walk u t hut⟩
  testBit_starts goal hg i := by
    rw [Matcher.seq, h.testBit_starts _ (h'.within_starts hg)]
    constructor
    · intro ⟨k, hk, hik⟩
      obtain ⟨j, hj, hkj⟩ := (h'.testBit_starts goal hg k).1 hk
      exact ⟨j, hj, k, hik, hkj⟩
    · intro ⟨j, hj, k, hik, hkj⟩
      exact ⟨k, (h'.testBit_starts goal hg k).2 ⟨j, hj, hkj⟩, hik⟩
  sound hf goal t u hu := by
    obtain ⟨v, hv, hvu⟩ := Option.bind_eq_some_iff.1 hu
    obtain ⟨hg, hw⟩ := h'.sound hf goal v u hvu
    exact ⟨hg, v.stand, (h.sound hf _ t v hv).2, hw⟩
  found hf goal hg t ht j hj := by
    intro ⟨k, htk, hkj⟩
    -- The first part may lead to another position than `k`, but the second leads on from there too.
    have hk := (h'.testBit_starts goal hg k).2 ⟨j, hj, hkj⟩
    obtain ⟨v, hv⟩ := h.found hf _ (h'.within_starts hg) t ht k hk htk
    obtain ⟨j', hj', hvj⟩ := (h'.testBit_starts goal hg v.pos).1 (h.sound hf _ t v hv).1
    obtain ⟨u, hu⟩ := h'.found hf goal hg v (h.sound_inside hf hv ht) j' hj' hvj
    exact ⟨u, Option.bind_eq_some_iff.2 ⟨v, hv, hu⟩⟩
  shrink hf goal hg goal' hs t ht u hu hgu := by
    obtain ⟨v, hv, hvu⟩ := Option.bind_eq_some_iff.1 hu
    have hg' : Within length goal' := fun i hi => hg i (hs i hi)
    -- The second part still leads from the thread in between to a position that is asked for.
    have hmiddle : (m'.starts goal').testBit v.pos :=
      (h'.testBit_starts goal' hg' v.pos).2
        ⟨u.pos, hgu, h'.reach_of_walk _ _ (h'.sound hf goal v u hvu).2⟩
    have hfirst := h.shrink hf _ (h'.within_starts hg) _ (h'.starts_mono hg hs) t ht v hv hmiddle
    have hsecond := h'.shrink hf goal hg goal' hs v (h.sound_inside hf hv ht) u hvu hgu
    exact Option.bind_eq_some_iff.2 ⟨v, hfirst, hsecond⟩

theorem alt (h : Follows length finds m reach walk) (h' : Follows length finds m' reach' walk') :
    Follows length finds (m.alt m') (fun i j => reach i j ∨ reach' i j)
      (fun s t => walk s t ∨ walk' s t) where
  le i j hr := hr.elim (h.le i j) (h'.le i j)
  inside i j hr hi := hr.elim (fun hr => h.inside i j hr hi) (fun hr => h'.inside i j hr hi)
  reach_of_walk s t hw := hw.imp (h.reach_of_walk s t) (h'.reach_of_walk s t)
  testBit_starts goal hg i := by
    have hbit : ((m.alt m').starts goal).testBit i ↔
        (m.starts goal).testBit i ∨ (m'.starts goal).testBit i := by
      rw [← Bool.or_eq_true]
      exact Eq.congr_left (Nat.testBit_or (m.starts goal) (m'.starts goal) i)
    rw [hbit, h.testBit_starts goal hg, h'.testBit_starts goal hg, ← exists_or]
    exact exists_congr fun j => and_or_left.symm
  sound hf goal t u hu := by
    rcases Option.or_eq_some_iff.1 hu with hu | ⟨-, hu⟩
    · exact (h.sound hf goal t u hu).imp id Or.inl
    · exact (h'.sound hf goal t u hu).imp id Or.inr
  found hf goal hg t ht j hj htj := by
    rcases hu : m.first goal t with _ | u
    · rcases htj with htj | htj
      · obtain ⟨u, hu'⟩ := h.found hf goal hg t ht j hj htj
        rw [hu] at hu'
        cases hu'
      · obtain ⟨u, hu'⟩ := h'.found hf goal hg t ht j hj htj
        exact ⟨u, Option.or_eq_some_iff.2 (Or.inr ⟨hu, hu'⟩)⟩
    · exact ⟨u, Option.or_eq_some_iff.2 (Or.inl hu)⟩
  shrink hf goal hg goal' hs t ht u hu hgu := by
    rcases Option.or_eq_some_iff.1 hu with hu | ⟨hn, hu⟩
    · exact Option.or_eq_some_iff.2 (Or.inl (h.shrink hf goal hg goal' hs t ht u hu hgu))
    · exact Option.or_eq_some_iff.2
        (Or.inr ⟨h.none_of_subset hf hg hs ht hn, h'.shrink hf goal hg goal' hs t ht u hu hgu⟩)

/-! ## Closures -/

theorem testBit_without (a s i : Nat) :
    (a ^^^ (a &&& s)).testBit i ↔ a.testBit i ∧ ¬s.testBit i := by
  rw [Nat.testBit_xor, Nat.testBit_and]
  cases a.testBit i <;> cases s.testBit i <;> simp

theorem testBit_or_iff (s a i : Nat) : (s ||| a).testBit i ↔ s.testBit i ∨ a.testBit i := by
  rw [Nat.testBit_or, Bool.or_eq_true]

-- With something new in it, a set has less room left.
theorem seenCount_or {s a : Positions} (hin : Within length (s ||| a)) {p : Nat} (hp : a.testBit p)
    (hs : ¬s.testBit p) : seenCount length s < seenCount length (s ||| a) := by
  have hpin := hin p ((testBit_or_iff s a p).2 (Or.inr hp))
  apply Nat.lt_of_lt_of_le (seenCount_mark hpin hs)
  apply seenCount_mono
  intro i hi
  rw [testBit_mark, Bool.or_eq_true, decide_eq_true_eq] at hi
  rcases hi with hi | rfl
  · exact (testBit_or_iff s a i).2 (Or.inl hi)
  · exact (testBit_or_iff s a p).2 (Or.inr hp)

/-- What a closure adds leads back to the set, and whatever leads to it is added. -/
theorem closure_spec (h : Follows length finds m reach walk) (fuel : Nat) {s added : Positions}
    (hs : Within length s) (hadd : ∀ i, added.testBit i → s.testBit i)
    (hclosed : ∀ i j, reach i j → s.testBit j → s.testBit i ∨ added.testBit j)
    (hfuel : length + 1 ≤ fuel + seenCount length s) :
    (∀ i, s.testBit i → (Positions.closure m.starts fuel s added).testBit i) ∧
    (∀ i j, reach i j → (Positions.closure m.starts fuel s added).testBit j →
      (Positions.closure m.starts fuel s added).testBit i) ∧
    ∀ i, (Positions.closure m.starts fuel s added).testBit i →
      ∃ j, s.testBit j ∧ AnyTurns reach i j := by
  -- What was added last is all from which something new can lead to the set.
  induction fuel generalizing s added with
  | zero =>
    refine ⟨fun i hi => hi, fun i j hij hj => ?_, fun i hi => ⟨i, hi, AnyTurns.refl i⟩⟩
    rw [Nat.zero_add] at hfuel
    exact testBit_of_seenCount hfuel (Nat.le_trans (h.le i j hij) (hs j hj))
  | succ fuel ih =>
    have hwithin : Within length added := fun i hi => hs i (hadd i hi)
    have hfound := h.testBit_starts added hwithin
    have hfresh := testBit_without (m.starts added) s
    rw [Positions.closure]
    split
    next hzero =>
      -- Nothing new was found, so the set is closed.
      refine ⟨fun i hi => hi, fun i j hij hj => ?_, fun i hi => ⟨i, hi, AnyTurns.refl i⟩⟩
      by_contra hi
      rcases hclosed i j hij hj with hi' | hj'
      · exact hi hi'
      · have hnew := (hfresh i).2 ⟨(hfound i).2 ⟨j, hj', hij⟩, hi⟩
        rw [hzero, Nat.zero_testBit] at hnew
        cases hnew
    next hzero =>
      generalize m.starts added ^^^ (m.starts added &&& s) = fresh at hfresh hzero
      have hor := testBit_or_iff s fresh
      have hin : Within length (s ||| fresh) := by
        intro i hi
        rcases (hor i).1 hi with hi | hi
        · exact hs i hi
        · exact h.within_starts hwithin i ((hfresh i).1 hi).1
      obtain ⟨p, hp⟩ : ∃ p, fresh.testBit p := Nat.exists_testBit_of_ne_zero hzero
      have hcount := seenCount_or hin hp ((hfresh p).1 hp).2
      have hnext : ∀ i j, reach i j → (s ||| fresh).testBit j →
          (s ||| fresh).testBit i ∨ fresh.testBit j := by
        intro i j hij hj
        by_cases hi : s.testBit i
        · exact Or.inl ((hor i).2 (Or.inl hi))
        · refine ((hor j).1 hj).imp (fun hj => (hor i).2 (Or.inr ?_)) id
          exact (hfresh i).2 ⟨(hfound i).2 ⟨j, (hclosed i j hij hj).resolve_left hi, hij⟩, hi⟩
      obtain ⟨hmono, hback, hlead⟩ :=
        ih hin (fun i hi => (hor i).2 (Or.inr hi)) hnext (by omega)
      refine ⟨fun i hi => hmono i ((hor i).2 (Or.inl hi)), hback, fun i hi => ?_⟩
      obtain ⟨j, hj, hij⟩ := hlead i hi
      rcases (hor j).1 hj with hj | hj
      · exact ⟨j, hj, hij⟩
      · obtain ⟨k, hk, hjk⟩ := (hfound j).1 ((hfresh j).1 hj).1
        exact ⟨k, hadd k hk, hij.snoc hjk⟩

theorem testBit_closure (h : Follows length finds m reach walk) {goal : Positions}
    (hg : Within length goal) (i : Nat) :
    (Positions.closure m.starts (length + 1) goal goal).testBit i ↔
      ∃ j, goal.testBit j ∧ AnyTurns reach i j := by
  obtain ⟨hmono, hback, hlead⟩ := h.closure_spec (length + 1) hg (fun _ hi => hi)
    (fun _ _ _ hj => Or.inr hj) (Nat.le_add_right _ _)
  refine ⟨hlead i, fun ⟨j, hj, n, hn⟩ => ?_⟩
  exact hn.carry (fun a b => (Positions.closure m.starts (length + 1) goal goal).testBit b →
    (Positions.closure m.starts (length + 1) goal goal).testBit a) (fun _ ha => ha)
    (fun a b c hab hbc hc => hback a b hab (hbc hc)) (hmono j hj)

/-! ## Counted copies -/

theorem optional (h : Follows length finds m reach walk) (greedy : Bool) :
    Follows length finds (m.optional greedy) (fun i j => reach i j ∨ i = j)
      (fun s t => walk s t ∨ s = t) := by
  cases greedy with
  | true => exact h.alt (empty length finds)
  | false => exact ((empty length finds).alt h).congr (fun i j => or_comm) fun s t => or_comm

theorem times (h : Follows length finds m reach walk)
    (h' : Follows length finds m' reach' walk') (n : Nat) :
    Follows length finds (m.times m' n) (fun i j => ∃ k, Turns reach n i k ∧ reach' k j)
      (fun s t => ∃ u, Turns walk n s u ∧ walk' u t) := by
  induction n with
  | zero => exact h'.congr (fun i j => noTurns_and) fun s t => noTurns_and
  | succ n ih => exact (h.seq ih).congr (fun i j => exists_turn_and) fun s t => exists_turn_and

theorem upTo (h : Follows length finds m reach walk) (greedy : Bool) (n : Nat) :
    Follows length finds (m.upTo greedy n) (fun i j => ∃ k ≤ n, Turns reach k i j)
      (fun s t => ∃ k ≤ n, Turns walk k s t) := by
  induction n with
  | zero => exact (empty length finds).congr (fun i j => noTurns_iff) fun s t => noTurns_iff
  | succ n ih =>
    exact ((h.seq ih).optional greedy).congr (fun i j => turnsUpTo_succ) fun s t => turnsUpTo_succ

/-! ## Loops -/

theorem takeTurns_sound (h : Follows length finds m reach walk) (hf : finds) {greedy : Bool}
    {goal aim : Positions} {fuel : Nat} {t u : Thread}
    (hu : takeTurns greedy goal (m.first aim) fuel t = some u) :
    goal.testBit u.pos ∧ AnyTurns walk t.stand u.stand := by
  induction fuel generalizing t with
  | zero =>
    obtain ⟨hg, rfl⟩ := ending_eq_some.1 hu
    exact ⟨hg, AnyTurns.refl _⟩
  | succ fuel ih =>
    rcases takeTurns_succ.1 hu with ⟨v, hv, -, hvu⟩ | ⟨hend, -⟩
    · obtain ⟨hg, hw⟩ := ih hvu
      exact ⟨hg, ((AnyTurns.refl _).snoc (h.sound hf aim t v hv).2).trans hw⟩
    · obtain ⟨hg, rfl⟩ := ending_eq_some.1 hend
      exact ⟨hg, AnyTurns.refl _⟩

/-- Each turn moves on, so the fuel lasts until a turn leads nowhere any more. -/
theorem takeTurns_found (h : Follows length finds m reach walk) (hf : finds)
    (hlt : ∀ i j, reach i j → i < j) (greedy : Bool) {goal aim : Positions}
    (haim : Within length aim)
    (hlead : ∀ i, aim.testBit i → goal.testBit i ∨ ∃ k, reach i k ∧ aim.testBit k) {fuel : Nat}
    {t : Thread} (ht : aim.testBit t.pos) (hfuel : length + 1 ≤ fuel + t.pos) :
    ∃ u, takeTurns greedy goal (m.first aim) fuel t = some u := by
  induction fuel generalizing t with
  | zero =>
    have := haim t.pos ht
    omega
  | succ fuel ih =>
    -- The loop ends here if it may and does not prefer a turn that it could take.
    by_cases hsaimp : goal.testBit t.pos ∧ (greedy = true → m.first aim t = none)
    · exact ⟨t, takeTurns_succ.2 (Or.inr ⟨ending_eq_some.2 ⟨hsaimp.1, rfl⟩, hsaimp.2⟩)⟩
    · obtain ⟨v, hv⟩ : ∃ v, m.first aim t = some v := by
        rcases hlead t.pos ht with hg | ⟨k, htk, hk⟩
        · exact Option.ne_none_iff_exists'.1 fun hn => hsaimp ⟨hg, fun _ => hn⟩
        · exact h.found hf aim haim t (haim t.pos ht) k hk htk
      have hend : greedy = false → ending goal t = none := by
        intro hgreedy
        refine ending_eq_none.2 fun hg => hsaimp ⟨hg, fun htrue => ?_⟩
        rw [hgreedy] at htrue
        cases htrue
      obtain ⟨hvaim, hw⟩ := h.sound hf aim t v hv
      have hmove := hlt _ _ (h.reach_of_walk _ _ hw)
      obtain ⟨u, hu⟩ := ih hvaim (by change t.pos < v.pos at hmove; omega)
      exact ⟨u, takeTurns_succ.2 (Or.inl ⟨v, hv, hend, hu⟩)⟩

theorem takeTurns_shrink (h : Follows length finds m reach walk) (hf : finds) {greedy : Bool}
    {goal goal' aim aim' : Positions} (haim : Within length aim)
    (hs : ∀ i, goal'.testBit i → goal.testBit i) (hsaim : ∀ i, aim'.testBit i → aim.testBit i)
    (hlead : ∀ i j, goal'.testBit j → AnyTurns reach i j → aim'.testBit i) {fuel : Nat}
    {t u : Thread} (ht : t.pos ≤ length)
    (hu : takeTurns greedy goal (m.first aim) fuel t = some u) (hgu : goal'.testBit u.pos) :
    takeTurns greedy goal' (m.first aim') fuel t = some u := by
  induction fuel generalizing t with
  | zero =>
    obtain ⟨-, rfl⟩ := ending_eq_some.1 hu
    exact ending_eq_some.2 ⟨hgu, rfl⟩
  | succ fuel ih =>
    rcases takeTurns_succ.1 hu with ⟨v, hv, hend, hvu⟩ | ⟨hend, hturn⟩
    · -- The loop still ends where it did, so the turn is still one that leads to a goal.
      have hvaim : aim'.testBit v.pos :=
        hlead _ _ hgu ((h.takeTurns_sound hf hvu).2.map Stand.pos h.reach_of_walk)
      have hend' : greedy = false → ending goal' t = none :=
        fun hgreedy => ending_eq_none.2 fun hg => ending_eq_none.1 (hend hgreedy) (hs _ hg)
      exact takeTurns_succ.2 (Or.inl ⟨v, h.shrink hf aim haim aim' hsaim t ht v hv hvaim, hend',
        ih (h.sound_inside hf hv ht) hvu⟩)
    · obtain ⟨-, rfl⟩ := ending_eq_some.1 hend
      exact takeTurns_succ.2 (Or.inr ⟨ending_eq_some.2 ⟨hgu, rfl⟩,
        fun hgreedy => h.none_of_subset hf haim hsaim ht (hturn hgreedy)⟩)

theorem star (h : Follows length finds m reach walk) (hlt : finds → ∀ i j, reach i j → i < j)
    (greedy : Bool) :
    Follows length finds (m.star greedy (length + 1)) (AnyTurns reach) (AnyTurns walk) := by
  have hclosure : ∀ goal, Within length goal → ∀ i,
      (Positions.closure m.starts (length + 1) goal goal).testBit i ↔
        ∃ j, goal.testBit j ∧ AnyTurns reach i j := fun goal hg i => h.testBit_closure hg i
  have hle : ∀ i j, AnyTurns reach i j → i ≤ j := by
    intro i j ⟨n, hn⟩
    exact hn.carry (· ≤ ·) Nat.le_refl fun a b c hab hbc => Nat.le_trans (h.le a b hab) hbc
  have hwithin : ∀ goal, Within length goal →
      Within length (Positions.closure m.starts (length + 1) goal goal) := by
    intro goal hg i hi
    obtain ⟨j, hj, hij⟩ := (hclosure goal hg i).1 hi
    exact Nat.le_trans (hle i j hij) (hg j hj)
  constructor
  · exact hle
  · intro i j ⟨n, hn⟩ hi
    exact hn.keeps (P := (· ≤ length)) h.inside hi
  · exact fun s t hw => hw.map Stand.pos h.reach_of_walk
  · exact hclosure
  · exact fun hf goal t u hu => h.takeTurns_sound hf hu
  · intro hf goal hg t ht j hj htj
    refine h.takeTurns_found hf (hlt hf) greedy (hwithin goal hg) (fun i hi => ?_)
      ((hclosure goal hg t.pos).2 ⟨j, hj, htj⟩) (Nat.le_add_right _ _)
    obtain ⟨k, hk, n, hn⟩ := (hclosure goal hg i).1 hi
    cases n with
    | zero => exact Or.inl (hn ▸ hk)
    | succ n =>
      obtain ⟨l, hil, hlk⟩ := hn
      exact Or.inr ⟨l, hil, (hclosure goal hg l).2 ⟨k, hk, n, hlk⟩⟩
  · intro hf goal hg goal' hs t ht u hu hgu
    have hg' : Within length goal' := fun i hi => hg i (hs i hi)
    refine h.takeTurns_shrink hf (hwithin goal hg) hs (fun i hi => ?_)
      (fun i j hj hij => (hclosure goal' hg' i).2 ⟨j, hj, hij⟩) ht hu hgu
    obtain ⟨j, hj, hij⟩ := (hclosure goal' hg' i).1 hi
    exact (hclosure goal hg i).2 ⟨j, hs j hj, hij⟩

/-! ## Repetitions -/

theorem withAll (h : Follows length finds m reach walk) (all : Place → Thread → List Thread) :
    Follows length finds { m with all } reach walk :=
  ⟨h.le, h.inside, h.reach_of_walk, h.testBit_starts, h.sound, h.found, h.shrink⟩

/-- The first of all threads that ends in the set is found, if all of them are listed. -/
theorem firstOf (h : Follows length False m reach walk) {list : Thread → List Thread}
    (hsound : ∀ t, ∀ u ∈ list t, walk t.stand u.stand)
    (hlisted : ∀ t : Thread, t.pos ≤ length → ∀ j, reach t.pos j → ∃ u ∈ list t, u.pos = j) :
    Follows length finds { m with first := fun goal t => (list t).find? fun u => goal.testBit u.pos }
      reach walk := by
  refine ⟨h.le, h.inside, h.reach_of_walk, h.testBit_starts, ?_, ?_, ?_⟩
  · intro _ goal t u hu
    exact ⟨by simpa using List.find?_some hu, hsound t u (List.mem_of_find?_eq_some hu)⟩
  · intro _ goal _ t ht j hj htj
    obtain ⟨u, hu, rfl⟩ := hlisted t ht j htj
    exact Option.isSome_iff_exists.1 (List.find?_isSome.2 ⟨u, hu, hj⟩)
  · intro _ goal _ goal' hs t _ u hu hgu
    obtain ⟨-, before, after, heq, hbefore⟩ := List.find?_eq_some_iff_append.1 hu
    refine List.find?_eq_some_iff_append.2 ⟨hgu, before, after, heq, fun v hv => ?_⟩
    have hnot := hbefore v hv
    rw [Bool.not_eq_true'] at hnot ⊢
    by_contra hin
    rw [hs _ (Bool.of_not_eq_false hin)] at hnot
    cases hnot

theorem repeated (h : Follows length True m reach walk) (hall : ListingAt length m.all reach walk)
    {nullable : Bool} (hlt : nullable = false → ∀ i j, reach i j → i < j) (greedy : Bool)
    (least : Nat) (most : Option Nat) :
    Follows length True (m.repeated nullable greedy (length + 1) least most)
      (fun i j => ∃ n, InBounds least most n ∧ Turns reach n i j)
      (fun s t => ∃ n, InBounds least most n ∧ Turns walk n s t) := by
  cases most with
  | some most =>
    have hcounted := h.times (h.upTo greedy (most - least)) least
    exact (hcounted.congr (fun i j => countedTurns_iff) fun s t => countedTurns_iff).withAll _
  | none =>
    cases nullable with
    | false =>
      have hloop := h.times (h.star (fun _ => hlt rfl) greedy) least
      exact (hloop.congr (fun i j => loopTurns_iff) fun s t => loopTurns_iff).withAll _
    | true =>
      -- Such a loop takes the first of all its threads, so only its positions are told by the parts.
      have hstart : Follows length False m reach walk :=
        ⟨h.le, h.inside, h.reach_of_walk, h.testBit_starts, False.elim, False.elim, False.elim⟩
      have hloop := (hstart.times (hstart.star False.elim greedy) least).congr
        (fun i j => loopTurns_iff) fun s t => loopTurns_iff
      obtain ⟨owes, hlist⟩ := listing_runRepeated hall true greedy least none none
      refine (hloop.firstOf hlist.sound fun t ht j hj => ?_).withAll _
      refine (hlist.listed t ht j hj).resolve_right ?_
      rintro ⟨c, -, ⟨q, hq, -⟩, -⟩
      cases hq

end Follows

/-! ## Expressions -/

/-- The matcher of an expression follows the expression. -/
theorem follows (text : List Char) (e : Expr) :
    Follows text.length True (e.matcher text) (e.Reaches text) (e.Walk text) := by
  induction e with
  | empty => exact Follows.empty text.length True
  | char set => exact Follows.char (testBit_charMarks text set) (fun i => takes_lt) True
  | look l => exact Follows.look (testBit_lookMarks text l) text.length True
  | group k e ih => exact ih.group k
  | seq a b iha ihb => exact iha.seq ihb
  | alt a b iha ihb => exact iha.alt ihb
  | rep least most greedy e ih =>
    exact ih.repeated (listing_all e text) (fun he i j hij => hij.lt he) greedy least most

end Matcher

end RequestRouting.Regex
