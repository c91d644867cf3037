import RequestRouting.Proofs.Regex.Search

/-!
The texts that an expression matches, wherever they stand.

`Expr.Spells` ties an expression to a language: it leads from one position to another just when a word
of the language stands between them. Expressions without conditions on their surroundings are of this
kind, and each way of building them has its language.
-/

namespace RequestRouting

namespace CharSet

theorem contains_single {c d : Char} : (single c.toNat).contains d ↔ d = c := by
  have heq : d = c ↔ c.toNat = d.toNat := ⟨fun h => h ▸ rfl, fun h => (Char.toNat_inj.1 h).symm⟩
  rw [contains, has, single, List.any_cons, List.any_nil, Bool.or_false, Bool.and_eq_true,
    decide_eq_true_eq, decide_eq_true_eq, heq]
  omega

/-- No range of the set ends before it begins. -/
def Ordered (s : CharSet) : Prop := ∀ r ∈ s.ranges, r.1 ≤ r.2

theorem ordered_single (n : Nat) : (single n).Ordered := by
  intro r hr
  rw [List.mem_singleton.1 hr]

theorem ordered_insertRange {lo hi : Nat} (h : lo ≤ hi) {rs : List (Nat × Nat)}
    (hrs : Ordered ⟨rs⟩) : Ordered ⟨insertRange lo hi rs⟩ := by
  induction rs generalizing lo hi with
  | nil =>
    intro r hr
    rw [List.mem_singleton.1 hr]
    exact h
  | cons r rest ih =>
    -- The range goes before the first one, behind it, or becomes one with it.
    obtain ⟨a, b⟩ := r
    have hab : a ≤ b := hrs (a, b) List.mem_cons_self
    have hrest : Ordered ⟨rest⟩ := fun r hr => hrs r (List.mem_cons_of_mem _ hr)
    rw [insertRange]
    split
    · intro r hr
      rcases List.mem_cons.1 hr with rfl | hr
      · exact h
      · exact hrs r hr
    · split
      · intro r hr
        rcases List.mem_cons.1 hr with rfl | hr
        · exact hab
        · exact ih h hrest r hr
      · exact ih (by omega) hrest

theorem ordered_has_union {s t : CharSet} (hs : s.Ordered) (ht : t.Ordered) :
    (s.union t).Ordered ∧ ∀ n, (s.union t).has n = (s.has n || t.has n) := by
  obtain ⟨rs⟩ := s
  induction rs with
  | nil => exact ⟨ht, fun n => rfl⟩
  | cons r rest ih =>
    obtain ⟨hrest, hhas⟩ := ih fun r hr => hs r (List.mem_cons_of_mem _ hr)
    have hr : r.1 ≤ r.2 := hs r List.mem_cons_self
    refine ⟨ordered_insertRange hr hrest, fun n => ?_⟩
    have hinsert := has_insertRange r.1 r.2 n hr _ hrest
    have hcons := has_cons r.1 r.2 rest n
    rw [hcons, Bool.or_assoc, ← hhas n]
    exact hinsert

theorem has_unions {ss : List CharSet} (hs : ∀ s ∈ ss, s.Ordered) :
    (ss.foldr union empty).Ordered ∧ ∀ n, (ss.foldr union empty).has n = ss.any (·.has n) := by
  induction ss with
  | nil => exact ⟨fun r hr => absurd hr List.not_mem_nil, fun n => rfl⟩
  | cons s ss ih =>
    obtain ⟨hord, hhas⟩ := ih fun s hs' => hs s (List.mem_cons_of_mem _ hs')
    obtain ⟨hord', hhas'⟩ := ordered_has_union (hs s List.mem_cons_self) hord
    refine ⟨hord', fun n => ?_⟩
    rw [List.foldr_cons, hhas', hhas, List.any_cons]

end CharSet

namespace Regex

variable {text : List Char} {e f : Expr} {L M : List Char → Prop}

/-- Whether the expression matches the words of a language, and nothing else. -/
def Expr.Spells (text : List Char) (e : Expr) (L : List Char → Prop) : Prop :=
  ∀ i j, e.Reaches text i j ↔ ∃ w, L w ∧ w <+: text.drop i ∧ j = i + w.length

theorem append_prefix_drop_iff {v w : List Char} {i : Nat} :
    v ++ w <+: text.drop i ↔ v <+: text.drop i ∧ w <+: text.drop (i + v.length) := by
  rw [← List.drop_drop]
  constructor
  · intro ⟨r, hr⟩
    rw [List.append_assoc] at hr
    refine ⟨⟨w ++ r, hr⟩, r, ?_⟩
    rw [← hr, List.drop_left]
  · intro ⟨⟨r, hr⟩, q, hq⟩
    rw [← hr, List.drop_left] at hq
    exact ⟨q, by rw [List.append_assoc, hq, hr]⟩

theorem singleton_prefix_drop_iff {c : Char} {i : Nat} : [c] <+: text.drop i ↔ text[i]? = some c := by
  rw [← List.head?_drop]
  rcases text.drop i with _ | ⟨d, rest⟩
  · simp
  · simp [eq_comm]

namespace Expr.Spells

theorem congr (h : e.Spells text L) (hL : ∀ w, L w ↔ M w) : e.Spells text M := by
  have heq : L = M := funext fun w => propext (hL w)
  rwa [← heq]

theorem char (set : CharSet) :
    (Expr.char set).Spells text fun w => ∃ c, w = [c] ∧ set.contains c := by
  intro i j
  constructor
  · rintro ⟨ht, rfl⟩
    obtain ⟨c, hc, hset⟩ := (Option.any_eq_true _ _).1 ht
    exact ⟨[c], ⟨c, rfl, hset⟩, singleton_prefix_drop_iff.2 hc, rfl⟩
  · rintro ⟨_, ⟨c, rfl, hset⟩, hc, rfl⟩
    rw [singleton_prefix_drop_iff] at hc
    exact ⟨(Option.any_eq_true _ _).2 ⟨c, hc, hset⟩, rfl⟩

theorem group (h : e.Spells text L) (index : Nat) : (Expr.group index e).Spells text L := h

theorem seq (h : e.Spells text L) (h' : f.Spells text M) :
    (Expr.seq e f).Spells text fun w => ∃ u v, w = u ++ v ∧ L u ∧ M v := by
  intro i j
  constructor
  · intro ⟨k, hik, hkj⟩
    obtain ⟨u, hu, hui, rfl⟩ := (h i k).1 hik
    obtain ⟨v, hv, hvk, rfl⟩ := (h' _ j).1 hkj
    refine ⟨u ++ v, ⟨u, v, rfl, hu, hv⟩, append_prefix_drop_iff.2 ⟨hui, hvk⟩, ?_⟩
    rw [List.length_append, Nat.add_assoc]
  · rintro ⟨_, ⟨u, v, rfl, hu, hv⟩, hw, rfl⟩
    obtain ⟨hui, hvk⟩ := append_prefix_drop_iff.1 hw
    refine ⟨i + u.length, (h _ _).2 ⟨u, hu, hui, rfl⟩, (h' _ _).2 ⟨v, hv, hvk, ?_⟩⟩
    rw [List.length_append, Nat.add_assoc]

/-- Once or not at all. -/
theorem optional (h : e.Spells text L) (greedy : Bool) :
    (Expr.rep 0 (some 1) greedy e).Spells text fun w => L w ∨ w = [] := by
  intro i j
  constructor
  · rintro ⟨n, ⟨-, hn⟩, hij⟩
    have := hn 1 rfl
    match n, hij with
    | 0, hij => exact ⟨[], Or.inr rfl, List.nil_prefix, hij.symm⟩
    | 1, ⟨k, hik, hkj⟩ =>
      obtain ⟨w, hw, hi, rfl⟩ := (h i k).1 hik
      exact ⟨w, Or.inl hw, hi, hkj.symm⟩
    | n + 2, _ => omega
  · rintro ⟨w, hw | rfl, hi, rfl⟩
    · exact ⟨1, ⟨Nat.zero_le 1, fun m hm => by cases hm; exact Nat.le_refl 1⟩,
        .one ((h i _).2 ⟨w, hw, hi, rfl⟩)⟩
    · exact ⟨0, ⟨Nat.le_refl 0, fun m _ => Nat.zero_le _⟩, rfl⟩

theorem turns_char {set : CharSet} {n i j : Nat} :
    Turns ((Expr.char set).Reaches text) n i j ↔
      ∃ w, (w.length = n ∧ ∀ c ∈ w, set.contains c) ∧ w <+: text.drop i ∧ j = i + w.length := by
  induction n generalizing i with
  | zero =>
    constructor
    · rintro rfl
      exact ⟨[], ⟨rfl, by simp⟩, List.nil_prefix, rfl⟩
    · rintro ⟨w, ⟨hw, -⟩, -, rfl⟩
      rw [hw]
      rfl
  | succ n ih =>
    constructor
    · intro ⟨k, hik, hkj⟩
      obtain ⟨_, ⟨c, rfl, hset⟩, hc, rfl⟩ := (Spells.char set i k).1 hik
      obtain ⟨w, ⟨hlen, hw⟩, hwk, rfl⟩ := ih.1 hkj
      refine ⟨[c] ++ w, ⟨?_, ?_⟩, append_prefix_drop_iff.2 ⟨hc, hwk⟩, ?_⟩
      · rw [List.length_append, hlen, Nat.add_comm]
        rfl
      · intro d hd
        rcases List.mem_cons.1 hd with rfl | hd
        · exact hset
        · exact hw d hd
      · rw [List.length_append, Nat.add_assoc]
    · rintro ⟨w, ⟨hlen, hw⟩, hi, rfl⟩
      cases w with
      | nil => cases hlen
      | cons c w =>
        obtain ⟨hc, hwk⟩ := append_prefix_drop_iff (v := [c]).1 hi
        refine ⟨i + 1, (Spells.char set i _).2 ⟨[c], ⟨c, rfl, hw c List.mem_cons_self⟩, hc, rfl⟩,
          ih.2 ⟨w, ⟨Nat.succ.inj hlen, fun d hd => hw d (List.mem_cons_of_mem c hd)⟩, hwk, ?_⟩⟩
        rw [List.length_cons]
        omega

/-- Characters of a set, one or more. -/
theorem many (set : CharSet) (greedy : Bool) :
    (Expr.rep 1 none greedy (.char set)).Spells text
      fun w => w ≠ [] ∧ ∀ c ∈ w, set.contains c := by
  intro i j
  constructor
  · rintro ⟨n, ⟨hn, -⟩, hij⟩
    obtain ⟨w, ⟨rfl, hw⟩, hi, hj⟩ := turns_char.1 hij
    exact ⟨w, ⟨List.ne_nil_of_length_pos hn, hw⟩, hi, hj⟩
  · intro ⟨w, ⟨hne, hw⟩, hi, hj⟩
    exact ⟨w.length, ⟨List.length_pos_of_ne_nil hne, nofun⟩, turns_char.2 ⟨w, ⟨rfl, hw⟩, hi, hj⟩⟩

end Expr.Spells

/-! ## Groups -/

/-- An expression without groups leaves those that there are as they are. -/
theorem Expr.Walk.groups_eq {s t : Stand} (h : e.Walk text s t) (he : e.groups = []) :
    t.groups = s.groups := by
  induction e generalizing s t with
  | empty => exact congrArg Stand.groups h.symm
  | char set =>
    obtain ⟨-, rfl⟩ := h
    rfl
  | look l =>
    obtain ⟨-, rfl⟩ := h
    rfl
  | group k e _ => cases he
  | seq a b iha ihb =>
    obtain ⟨ha, hb⟩ := List.append_eq_nil_iff.1 he
    obtain ⟨u, hsu, hut⟩ := h
    exact (ihb hut hb).trans (iha hsu ha)
  | alt a b iha ihb =>
    obtain ⟨ha, hb⟩ := List.append_eq_nil_iff.1 he
    exact h.elim (fun h => iha h ha) (fun h => ihb h hb)
  | rep least most greedy e ih =>
    obtain ⟨n, -, hn⟩ := h
    refine hn.carry (fun s t => t.groups = s.groups) (fun _ => rfl) fun a b c hab hbc => ?_
    rw [hbc, ih hab he]

/-! ## Sequences -/

namespace Expr

/-- The expressions one after the other, given last first. -/
def ofRev : List Expr → Expr
  | [] => empty
  | [e] => e
  | e :: rest => seq (ofRev rest) e

/-- Whether one expression after the other can lead from one stand to another. -/
def WalkAll (text : List Char) : List Expr → Stand → Stand → Prop
  | [], s, t => s = t
  | e :: es, s, t => ∃ u, e.Walk text s u ∧ WalkAll text es u t

theorem walkAll_append {es fs : List Expr} {s t : Stand} :
    WalkAll text (es ++ fs) s t ↔ ∃ u, WalkAll text es s u ∧ WalkAll text fs u t := by
  induction es generalizing s with
  | nil =>
    constructor
    · exact fun h => ⟨s, rfl, h⟩
    · rintro ⟨u, rfl, h⟩
      exact h
  | cons e es ih =>
    constructor
    · intro ⟨u, hu, hut⟩
      obtain ⟨v, huv, hvt⟩ := ih.1 hut
      exact ⟨v, ⟨u, hu, huv⟩, hvt⟩
    · intro ⟨v, ⟨u, hu, huv⟩, hvt⟩
      exact ⟨u, hu, ih.2 ⟨v, huv, hvt⟩⟩

theorem walkAll_singleton {s t : Stand} : WalkAll text [e] s t ↔ e.Walk text s t := by
  constructor
  · rintro ⟨u, hu, rfl⟩
    exact hu
  · exact fun h => ⟨t, h, rfl⟩

theorem walk_ofRev {es : List Expr} {s t : Stand} :
    (ofRev es).Walk text s t ↔ WalkAll text es.reverse s t := by
  induction es generalizing t with
  | nil => exact Iff.rfl
  | cons e rest ih =>
    cases rest with
    | nil => exact walkAll_singleton.symm
    | cons f rest =>
      rw [List.reverse_cons (a := e), walkAll_append]
      exact exists_congr fun u => and_congr ih walkAll_singleton.symm

theorem groups_ofRev (es : List Expr) : (ofRev es).groups = es.reverse.flatMap groups := by
  induction es with
  | nil => rfl
  | cons e rest ih =>
    cases rest with
    | nil => exact (List.append_nil _).symm
    | cons f rest =>
      rw [List.reverse_cons (a := e), List.flatMap_append, ← ih]
      exact congrArg (_ ++ ·) (List.append_nil _).symm

/-! ## Words -/

/-- A fixed character. -/
def letter (c : Char) : Expr := char (.single c.toNat)

/-- The characters of a word, one after the other. -/
def word (w : List Char) : Expr := ofRev (w.reverse.map letter)

theorem Spells.letter (c : Char) : (letter c).Spells text (· = [c]) := by
  refine (Spells.char _).congr fun w => ?_
  constructor
  · rintro ⟨d, rfl, hd⟩
    rw [CharSet.contains_single.1 hd]
  · rintro rfl
    exact ⟨c, rfl, CharSet.contains_single.2 rfl⟩

theorem Spells.word (w : List Char) : (word w).Spells text (· = w) := by
  -- The expression is built from the last character on, so the induction is on the reversed word.
  suffices h : ∀ r : List Char, (ofRev (r.map Expr.letter)).Spells text (· = r.reverse) by
    have hw := h w.reverse
    rwa [List.reverse_reverse] at hw
  intro r
  induction r with
  | nil =>
    intro i j
    constructor
    · rintro rfl
      exact ⟨[], rfl, List.nil_prefix, rfl⟩
    · rintro ⟨_, rfl, -, rfl⟩
      rfl
  | cons c r ih =>
    cases r with
    | nil => exact Spells.letter c
    | cons d r =>
      refine (ih.seq (Spells.letter c)).congr fun w => ?_
      rw [List.reverse_cons (a := c)]
      simp

theorem word_cases {P : Expr → Prop} (empty : P .empty) (letter : ∀ c, P (letter c))
    (seq : ∀ e c, P (.seq e (Expr.letter c))) (w : List Char) : P (word w) := by
  unfold word
  match w.reverse with
  | [] => exact empty
  | [c] => exact letter c
  | c :: d :: r => exact seq _ c

theorem alternatives_word (w : List Char) : (word w).alternatives = [word w] :=
  word_cases (P := fun e => e.alternatives = [e]) rfl (fun _ => rfl) (fun _ _ => rfl) w

theorem groups_word (w : List Char) : (word w).groups = [] := by
  rw [word, groups_ofRev, List.flatMap_eq_nil_iff]
  intro e he
  obtain ⟨c, -, rfl⟩ := List.mem_map.1 (List.mem_reverse.1 he)
  rfl

theorem ordered_of_word {w : List Char} {s : CharSet} (h : word w = char s) : s.Ordered := by
  revert h
  refine word_cases (P := fun e => e = char s → s.Ordered) nofun (fun c h => ?_) nofun w
  cases h
  exact CharSet.ordered_single _

theorem parts_word (w : List Char) : (word w).parts = w.map letter := by
  suffices h : ∀ r : List Char, (ofRev (r.map letter)).parts = (r.map letter).reverse by
    rw [word, h, ← List.map_reverse, List.reverse_reverse]
  intro r
  induction r with
  | nil => rfl
  | cons c r ih =>
    cases r with
    | nil => rfl
    | cons d r =>
      rw [List.map_cons, List.reverse_cons, ← ih]
      rfl

/-- The characters of a word are taken together. -/
theorem clusters_word {w : List Char} (hw : w ≠ []) :
    clusters (w.map letter) = [w.map letter] := by
  induction w with
  | nil => exact absurd rfl hw
  | cons c w ih =>
    cases w with
    | nil => rfl
    | cons d w =>
      have hd : (letter c).isLetter && (letter d).isLetter := by
        simp [letter, isLetter, CharSet.onlyMember?, CharSet.single]
      rw [List.map_cons, clusters, ih nofun]
      exact if_pos hd

theorem sharedStart_of_length_lt {split : List (List (List Expr))}
    (h : ∀ cs ∈ split, cs.length < 2) : sharedStart split = [] := by
  cases split with
  | nil => rfl
  | cons cs split =>
    have hlt := h cs List.mem_cons_self
    have hall : ¬((cs :: split).all fun cs => 2 ≤ cs.length) := by
      rw [List.all_cons, Bool.and_eq_true, decide_eq_true_eq]
      omega
    exact if_neg hall

/-- Words begin with nothing that is taken out of the alternation. -/
theorem choice_words {ws : List (List Char)} (hws : ∀ w ∈ ws, w ≠ []) :
    choice (ws.map word) = oneOf (ws.map word) := by
  have halt : (ws.map word).flatMap alternatives = ws.map word := by
    rw [List.flatMap_map, List.flatMap_congr fun w _ => alternatives_word w]
    exact List.map_eq_flatMap.symm
  -- Each word is one cluster, and a start is shared only where something stands behind it.
  have hshared : sharedStart ((ws.map word).map fun e => clusters e.parts) = [] := by
    apply sharedStart_of_length_lt
    intro cs hcs
    rw [List.map_map] at hcs
    obtain ⟨w, hw, rfl⟩ := List.mem_map.1 hcs
    have hone := clusters_word (hws w hw)
    simp [parts_word, hone]
  rw [choice, halt, hshared]

theorem eq_of_mapM_asClass? {es : List Expr} {sets : List CharSet}
    (h : es.mapM asClass? = some sets) : es = sets.map char := by
  induction es generalizing sets with
  | nil =>
    cases h
    rfl
  | cons e es ih =>
    rw [List.mapM_cons] at h
    obtain ⟨s, hs, h⟩ := Option.bind_eq_some_iff.1 h
    obtain ⟨ss, hss, h⟩ := Option.bind_eq_some_iff.1 h
    cases h
    rw [List.map_cons, ← ih hss]
    cases e with
    | char s' =>
      cases hs
      rfl
    | _ => cases hs

theorem reaches_chain {es : List Expr} {i j : Nat} :
    (chain es).Reaches text i j ↔ ∃ e ∈ es, e.Reaches text i j := by
  induction es with
  | nil =>
    constructor
    · rintro ⟨ht, -⟩
      obtain ⟨c, -, hc⟩ := (Option.any_eq_true _ _).1 ht
      cases hc
    · rintro ⟨e, he, -⟩
      cases he
  | cons e rest ih =>
    cases rest with
    | nil => simp [chain]
    | cons f rest =>
      rw [List.exists_mem_cons_iff, ← ih]
      rfl

/-- One of some expressions leads where one of them does. -/
theorem reaches_oneOf {es : List Expr} (hes : ∀ s, char s ∈ es → s.Ordered) {i j : Nat} :
    (oneOf es).Reaches text i j ↔ ∃ e ∈ es, e.Reaches text i j := by
  unfold oneOf
  split
  next e => simp
  next =>
    split
    next sets hsets =>
      obtain rfl := eq_of_mapM_asClass? hsets
      have hord : ∀ s ∈ sets, s.Ordered := fun s hs => hes s (List.mem_map_of_mem hs)
      have hhas := (CharSet.has_unions hord).2
      constructor
      · intro ⟨ht, hj⟩
        obtain ⟨c, hc, hin⟩ := (Option.any_eq_true _ _).1 ht
        rw [CharSet.contains, hhas, List.any_eq_true] at hin
        obtain ⟨s, hs, hsc⟩ := hin
        exact ⟨char s, List.mem_map_of_mem hs, (Option.any_eq_true _ _).2 ⟨c, hc, hsc⟩, hj⟩
      · intro ⟨e, he, hij⟩
        obtain ⟨s, hs, rfl⟩ := List.mem_map.1 he
        obtain ⟨c, hc, hsc⟩ := (Option.any_eq_true _ _).1 hij.1
        have hin : (sets.foldr CharSet.union CharSet.empty).contains c := by
          rw [CharSet.contains, hhas, List.any_eq_true]
          exact ⟨s, hs, hsc⟩
        exact ⟨(Option.any_eq_true _ _).2 ⟨c, hc, hin⟩, hij.2⟩
    next => exact reaches_chain

theorem groups_oneOf (es : List Expr) : (oneOf es).groups = es.flatMap groups := by
  have hchain : ∀ es : List Expr, (chain es).groups = es.flatMap groups := by
    intro es
    induction es with
    | nil => rfl
    | cons e rest ih =>
      cases rest with
      | nil => exact (List.append_nil _).symm
      | cons f rest => exact congrArg (e.groups ++ ·) ih
  unfold oneOf
  split
  next e => exact (List.append_nil _).symm
  next =>
    split
    next sets hsets =>
      -- A class has no groups in it.
      rw [eq_of_mapM_asClass? hsets, List.flatMap_map]
      exact (List.flatMap_eq_nil_iff.2 fun _ _ => rfl).symm
    next => exact hchain es

/-- One of some words. -/
theorem Spells.words {ws : List (List Char)} (hws : ∀ w ∈ ws, w ≠ []) :
    (choice (ws.map Expr.word)).Spells text (· ∈ ws) := by
  intro i j
  rw [choice_words hws, reaches_oneOf]
  · constructor
    · intro ⟨e, he, hij⟩
      obtain ⟨w, hw, rfl⟩ := List.mem_map.1 he
      obtain ⟨_, rfl, hi, hj⟩ := (Spells.word w i j).1 hij
      exact ⟨_, hw, hi, hj⟩
    · intro ⟨w, hw, hi, hj⟩
      exact ⟨Expr.word w, List.mem_map_of_mem hw, (Spells.word w i j).2 ⟨w, rfl, hi, hj⟩⟩
  · intro s hs
    obtain ⟨w, -, hw⟩ := List.mem_map.1 hs
    exact ordered_of_word hw

theorem groups_words {ws : List (List Char)} (hws : ∀ w ∈ ws, w ≠ []) :
    (choice (ws.map word)).groups = [] := by
  rw [choice_words hws, groups_oneOf, List.flatMap_map]
  exact List.flatMap_eq_nil_iff.2 fun w _ => groups_word w

end Expr

end Regex

end RequestRouting
