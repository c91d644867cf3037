import Mathlib.Data.Finset.Card
import RequestRouting.Proofs.Regex.Walk

/-!
What the threads that leave an expression stand for.

A thread that comes back to a choice without having taken a character is dropped, so an expression
may list less than it matches. `Listing` says how much less: a position is missing only if the thread
came in with a choice noted from which that position can be reached (`listed`), and a choice is noted
only if whatever can be reached from it could be reached by the thread before (`kept`). So nothing is
lost where a thread starts with no choice noted.
-/

namespace RequestRouting.Regex

/-- Any number of steps. -/
def AnyTurns {α : Type} (step : α → α → Prop) (a b : α) : Prop := ∃ n, Turns step n a b

theorem AnyTurns.refl {α : Type} {step : α → α → Prop} (a : α) : AnyTurns step a a := ⟨0, rfl⟩

theorem AnyTurns.snoc {α : Type} {step : α → α → Prop} {a b c : α} (h : AnyTurns step a b)
    (hbc : step b c) : AnyTurns step a c := by
  obtain ⟨n, hn⟩ := h
  exact ⟨n + 1, hn.append (.one hbc)⟩

theorem AnyTurns.trans {α : Type} {step : α → α → Prop} {a b c : α} (h : AnyTurns step a b)
    (hbc : AnyTurns step b c) : AnyTurns step a c := by
  obtain ⟨m, hm⟩ := h
  obtain ⟨n, hn⟩ := hbc
  exact ⟨m + n, hm.append hn⟩

theorem AnyTurns.map {α β : Type} {step : α → α → Prop} {step' : β → β → Prop} (f : α → β)
    (hf : ∀ a b, step a b → step' (f a) (f b)) {a b : α} (h : AnyTurns step a b) :
    AnyTurns step' (f a) (f b) := by
  obtain ⟨n, hn⟩ := h
  exact ⟨n, hn.map f hf⟩

/-! ## Threads at distinct positions -/

theorem testBit_mark (s p i : Nat) : (s ||| 1 <<< p).testBit i = (s.testBit i || decide (p = i)) := by
  rw [Nat.testBit_or, Nat.one_shiftLeft, Nat.testBit_two_pow]

namespace Thread

theorem mem_of_mem_distinctFrom {seen : Nat} {ts : List Thread} {t : Thread}
    (h : t ∈ distinctFrom seen ts) : t ∈ ts := by
  induction ts generalizing seen with
  | nil => exact h
  | cons u ts ih =>
    unfold distinctFrom at h
    split at h
    · exact List.mem_cons_of_mem u (ih h)
    · rcases List.mem_cons.1 h with rfl | h
      · exact List.mem_cons_self
      · exact List.mem_cons_of_mem u (ih h)

theorem exists_mem_distinctFrom {seen : Nat} {ts : List Thread} {t : Thread} (h : t ∈ ts)
    (hs : seen.testBit t.pos = false) : ∃ u ∈ distinctFrom seen ts, u.pos = t.pos := by
  induction ts generalizing seen with
  | nil => cases h
  | cons v ts ih =>
    unfold distinctFrom
    by_cases hv : seen.testBit v.pos
    · rw [if_pos hv]
      rcases List.mem_cons.1 h with rfl | h
      · rw [hv] at hs
        cases hs
      · exact ih h hs
    · rw [if_neg hv]
      by_cases hp : v.pos = t.pos
      · exact ⟨v, List.mem_cons_self, hp⟩
      · rcases List.mem_cons.1 h with rfl | h
        · exact absurd rfl hp
        · have hs' : (seen ||| 1 <<< v.pos).testBit t.pos = false := by
            rw [testBit_mark, hs, decide_eq_false hp, Bool.or_false]
          obtain ⟨u, hu, hpos⟩ := ih h hs'
          exact ⟨u, List.mem_cons_of_mem v hu, hpos⟩

theorem mem_of_mem_distinct {ts : List Thread} {t : Thread} (h : t ∈ distinct ts) : t ∈ ts := by
  unfold distinct at h
  split at h
  · exact h
  · exact h
  · exact mem_of_mem_distinctFrom h

theorem exists_mem_distinct {ts : List Thread} {t : Thread} (h : t ∈ ts) :
    ∃ u ∈ distinct ts, u.pos = t.pos := by
  unfold distinct
  split
  · cases h
  · exact ⟨t, h, rfl⟩
  · exact exists_mem_distinctFrom h (Nat.zero_testBit _)

/-- A choice stops a thread only if the thread has noted it. -/
theorem exists_passed_of_pass? {t : Thread} {p : Place} (h : t.pass? p = none) :
    ∃ c ∈ t.passed, p = some c := by
  cases p with
  | none => cases h
  | some c =>
    by_cases hc : c ∈ t.passed
    · exact ⟨c, hc, rfl⟩
    · rw [pass?, if_neg hc] at h
      cases h

theorem stand_of_pass? {t u : Thread} {p : Place} (h : t.pass? p = some u) :
    u.stand = t.stand := by
  cases p with
  | none =>
    cases h
    rfl
  | some c =>
    by_cases hc : c ∈ t.passed
    · rw [pass?, if_pos hc] at h
      cases h
    · rw [pass?, if_neg hc] at h
      cases h
      rfl

theorem passed_of_pass? {t u : Thread} {p : Place} (h : t.pass? p = some u) :
    ∀ c ∈ u.passed, c ∈ t.passed ∨ p = some c := by
  cases p with
  | none =>
    cases h
    exact fun c hc => Or.inl hc
  | some d =>
    by_cases hd : d ∈ t.passed
    · rw [pass?, if_pos hd] at h
      cases h
    · rw [pass?, if_neg hd] at h
      cases h
      intro c hc
      rcases List.mem_cons.1 hc with rfl | hc
      · exact Or.inr rfl
      · exact Or.inl hc

theorem pos_of_stand {t u : Thread} (h : u.stand = t.stand) : u.pos = t.pos := congrArg Stand.pos h

end Thread

/-! ## Listings -/

/-- A way of listing threads that leads between the positions of `reach` and the stands of `walk`.
It notes the choices in `owns`, and only if `noting` holds; from the choice `c` at a position `i` it
can still lead to the positions `j` with `owes c i j`. -/
structure Listing (length : Nat) (noting : Prop) (f : Thread → List Thread)
    (reach : Nat → Nat → Prop) (walk : Stand → Stand → Prop) (owns : List Nat → Prop)
    (owes : List Nat → Nat → Nat → Prop) : Prop where
  sound : ∀ t, ∀ u ∈ f t, walk t.stand u.stand
  reach_of_walk : ∀ s s', walk s s' → reach s.pos s'.pos
  inside : ∀ i j, reach i j → i ≤ length → j ≤ length
  noting_of_owns : ∀ c, owns c → noting
  kept : noting → ∀ t, ∀ u ∈ f t, ∀ c ∈ u.passed, (c ∈ t.passed ∧ u.pos = t.pos) ∨
    (owns c ∧ ∀ j, owes c u.pos j → reach t.pos j)
  listed : ∀ t : Thread, t.pos ≤ length → ∀ j, reach t.pos j →
    (∃ u ∈ f t, u.pos = j) ∨ ∃ c ∈ t.passed, owns c ∧ owes c t.pos j

namespace Listing

variable {length : Nat} {noting : Prop} {f g : Thread → List Thread} {reach reach' : Nat → Nat → Prop}
  {walk walk' : Stand → Stand → Prop} {owns owns' : List Nat → Prop}
  {owes owes' : List Nat → Nat → Nat → Prop}

theorem reach_of_mem (h : Listing length noting f reach walk owns owes) {t u : Thread}
    (hu : u ∈ f t) : reach t.pos u.pos :=
  h.reach_of_walk _ _ (h.sound t u hu)

/-- More choices may be counted as its own, as long as they are noted. -/
theorem widen (h : Listing length noting f reach walk owns owes) (ho : ∀ c, owns c → owns' c)
    (hn : ∀ c, owns' c → noting) : Listing length noting f reach walk owns' owes where
  sound := h.sound
  reach_of_walk := h.reach_of_walk
  inside := h.inside
  noting_of_owns := hn
  kept hnote t u hu c hc := (h.kept hnote t u hu c hc).imp id fun ⟨hc, hj⟩ => ⟨ho c hc, hj⟩
  listed t ht j hj := (h.listed t ht j hj).imp id fun ⟨c, hc, ho', hj⟩ => ⟨c, hc, ho c ho', hj⟩

/-- The same relations in other words. -/
theorem congr (h : Listing length noting f reach walk owns owes)
    (hr : ∀ i j, reach i j ↔ reach' i j) (hw : ∀ s s', walk s s' ↔ walk' s s') :
    Listing length noting f reach' walk' owns owes := by
  have hr' : reach = reach' := funext fun i => funext fun j => propext (hr i j)
  have hw' : walk = walk' := funext fun s => funext fun s' => propext (hw s s')
  rw [← hr', ← hw']
  exact h

theorem single (length : Nat) (noting : Prop) : Listing length noting (fun t => [t])
    (fun i j => i = j) (fun s t => s = t) (fun _ => False) (fun _ _ _ => False) where
  sound t u hu := by rw [List.mem_singleton.1 hu]
  reach_of_walk s s' h := congrArg Stand.pos h
  inside i j h hi := h ▸ hi
  noting_of_owns c h := h.elim
  kept _ t u hu c hc := by
    rw [List.mem_singleton.1 hu] at hc ⊢
    exact Or.inl ⟨hc, rfl⟩
  listed t _ j hj := Or.inl ⟨t, List.mem_singleton_self t, hj⟩

/-- Threads for each of which a test of its position decides whether it goes on, a fixed number of positions
further. A thread that moves forgets its choices. -/
theorem step (noting : Prop) {test : Nat → Bool} (shift : Nat) (move : Thread → Thread)
    (hmove : ∀ t, (move t).stand = ⟨t.pos + shift, t.groups⟩)
    (hpassed : ∀ t, ∀ c ∈ (move t).passed, c ∈ t.passed ∧ (move t).pos = t.pos)
    (hin : ∀ i, test i → i ≤ length → i + shift ≤ length) :
    Listing length noting (fun t => if test t.pos then [move t] else [])
      (fun i j => test i ∧ j = i + shift) (fun s t => test s.pos ∧ t = ⟨s.pos + shift, s.groups⟩)
      (fun _ => False) (fun _ _ _ => False) := by
  have hmem : ∀ t, ∀ u ∈ (if test t.pos then [move t] else []), test t.pos ∧ u = move t := by
    intro t u hu
    by_cases ht : test t.pos
    · rw [if_pos ht] at hu
      exact ⟨ht, List.mem_singleton.1 hu⟩
    · rw [if_neg ht] at hu
      cases hu
  constructor
  · intro t u hu
    obtain ⟨ht, rfl⟩ := hmem t u hu
    exact ⟨ht, hmove t⟩
  · exact fun s s' h => ⟨h.1, congrArg Stand.pos h.2⟩
  · exact fun i j h hi => h.2 ▸ hin i h.1 hi
  · exact fun c h => h.elim
  · intro _ t u hu c hc
    obtain ⟨-, rfl⟩ := hmem t u hu
    exact Or.inl (hpassed t c hc)
  · intro t _ j hj
    have hpos : (move t).pos = t.pos + shift := congrArg Stand.pos (hmove t)
    refine Or.inl ⟨move t, ?_, by rw [hpos, hj.2]⟩
    rw [if_pos hj.1]
    exact List.mem_singleton_self _

theorem stay (length : Nat) (noting : Prop) (test : Nat → Bool) :
    Listing length noting (fun t => if test t.pos then [t] else [])
      (fun i j => test i ∧ j = i) (fun s t => test s.pos ∧ t = s) (fun _ => False)
      (fun _ _ _ => False) := by
  apply step noting 0 id (fun _ => rfl)
  · exact fun t c hc => ⟨hc, rfl⟩
  · exact fun i _ hi => hi

theorem move (noting : Prop) {test : Nat → Bool} (hin : ∀ i, test i → i < length) :
    Listing length noting (fun t => if test t.pos then [t.advance] else [])
      (fun i j => test i ∧ j = i + 1) (fun s t => test s.pos ∧ t = ⟨s.pos + 1, s.groups⟩)
      (fun _ => False) (fun _ _ _ => False) := by
  apply step noting 1 Thread.advance (fun _ => rfl)
  · exact fun t c hc => absurd hc List.not_mem_nil
  · exact fun i hi _ => hin i hi

/-- Groups are written down without a word on choices. -/
theorem record (h : Listing length noting f reach walk owns owes) (index : Nat) :
    Listing length noting (fun t => (f t).map (·.record index t.pos)) reach
      (fun s t => ∃ u, walk s u ∧ t = u.record index s.pos) owns owes where
  sound t u hu := by
    obtain ⟨v, hv, rfl⟩ := List.mem_map.1 hu
    exact ⟨v.stand, h.sound t v hv, rfl⟩
  reach_of_walk s s' := by
    rintro ⟨u, hu, rfl⟩
    exact h.reach_of_walk s u hu
  inside := h.inside
  noting_of_owns := h.noting_of_owns
  kept hn t u hu c hc := by
    obtain ⟨v, hv, rfl⟩ := List.mem_map.1 hu
    exact h.kept hn t v hv c hc
  listed t ht j hj := by
    refine (h.listed t ht j hj).imp ?_ id
    intro ⟨u, hu, hpos⟩
    exact ⟨u.record index t.pos, List.mem_map_of_mem hu, hpos⟩

/-- It may be said to note choices only where it owns any. -/
theorem renote {noting' : Prop} (h : Listing length noting f reach walk owns owes)
    (hn : noting' → noting) (ho : ∀ c, owns c → noting') :
    Listing length noting' f reach walk owns owes where
  sound := h.sound
  reach_of_walk := h.reach_of_walk
  inside := h.inside
  noting_of_owns := ho
  kept hnote := h.kept (hn hnote)
  listed := h.listed

/-- What was noted before does not count if all of it is forgotten. -/
theorem forget {noting' : Prop} (h : Listing length noting f reach walk owns owes)
    (hn : ¬noting') :
    Listing length noting' (fun t => f { t with passed := [] }) reach walk (fun _ => False)
      owes where
  sound t u hu := h.sound { t with passed := [] } u hu
  reach_of_walk := h.reach_of_walk
  inside := h.inside
  noting_of_owns c hc := hc.elim
  kept hnote := absurd hnote hn
  listed t ht j hj := by
    refine (h.listed { t with passed := [] } ht j hj).imp id ?_
    rintro ⟨c, hc, -⟩
    cases hc

/-- Threads may be left out and put in another order, as long as no position is lost. -/
theorem thin (h : Listing length noting f reach walk owns owes)
    (hsub : ∀ t, ∀ u ∈ g t, u ∈ f t) (hpos : ∀ t, ∀ u ∈ f t, ∃ v ∈ g t, v.pos = u.pos) :
    Listing length noting g reach walk owns owes where
  sound t u hu := h.sound t u (hsub t u hu)
  reach_of_walk := h.reach_of_walk
  inside := h.inside
  noting_of_owns := h.noting_of_owns
  kept hn t u hu := h.kept hn t u (hsub t u hu)
  listed t ht j hj := by
    refine (h.listed t ht j hj).imp ?_ id
    rintro ⟨u, hu, rfl⟩
    exact hpos t u hu

theorem distinct (h : Listing length noting f reach walk owns owes) :
    Listing length noting (fun t => Thread.distinct (f t)) reach walk owns owes :=
  h.thin (fun _ _ hu => Thread.mem_of_mem_distinct hu) fun _ _ hu => Thread.exists_mem_distinct hu

/-! ### One after the other -/

/-- What a choice of the first or of the second of two parts still leads to. -/
def owesSeq (owns owns' : List Nat → Prop) (owes owes' : List Nat → Nat → Nat → Prop)
    (reach' : Nat → Nat → Prop) (c : List Nat) (i j : Nat) : Prop :=
  (owns c ∧ ∃ k, owes c i k ∧ reach' k j) ∨ (owns' c ∧ owes' c i j)

theorem bind (h : Listing length noting f reach walk owns owes)
    (h' : Listing length noting g reach' walk' owns' owes') (hd : ∀ c, owns c → ¬owns' c) :
    Listing length noting (fun t => (f t).flatMap g)
      (fun i j => ∃ k, reach i k ∧ reach' k j) (fun s t => ∃ u, walk s u ∧ walk' u t)
      (fun c => owns c ∨ owns' c) (owesSeq owns owns' owes owes' reach') where
  sound t u hu := by
    obtain ⟨v, hv, hu⟩ := List.mem_flatMap.1 hu
    exact ⟨v.stand, h.sound t v hv, h'.sound v u hu⟩
  reach_of_walk s s' := by
    intro ⟨u, hsu, hus⟩
    exact ⟨u.pos, h.reach_of_walk s u hsu, h'.reach_of_walk u s' hus⟩
  inside i j := by
    intro ⟨k, hik, hkj⟩ hi
    exact h'.inside k j hkj (h.inside i k hik hi)
  noting_of_owns c hc := hc.elim (h.noting_of_owns c) (h'.noting_of_owns c)
  kept hn t u hu c hc := by
    obtain ⟨v, hv, hu⟩ := List.mem_flatMap.1 hu
    -- A choice was noted by the second part, by the first, or before both.
    rcases h'.kept hn v u hu c hc with ⟨hcv, hpos⟩ | ⟨ho, hj⟩
    · rcases h.kept hn t v hv c hcv with ⟨hct, hpos'⟩ | ⟨ho, hj⟩
      · exact Or.inl ⟨hct, hpos.trans hpos'⟩
      · refine Or.inr ⟨Or.inl ho, fun j hj' => ?_⟩
        rcases hj' with ⟨-, k, hk, hkj⟩ | ⟨ho', -⟩
        · exact ⟨k, hj k (hpos ▸ hk), hkj⟩
        · exact absurd ho' (hd c ho)
    · refine Or.inr ⟨Or.inr ho, fun j hj' => ?_⟩
      rcases hj' with ⟨ho', -⟩ | ⟨-, hj'⟩
      · exact absurd ho (hd c ho')
      · exact ⟨v.pos, h.reach_of_mem hv, hj j hj'⟩
  listed t ht j := by
    intro ⟨k, hk, hkj⟩
    rcases h.listed t ht k hk with ⟨v, hv, rfl⟩ | ⟨c, hc, ho, hk'⟩
    · rcases h'.listed v (h.inside _ _ hk ht) j hkj with ⟨u, hu, rfl⟩ | ⟨c, hc, ho, hj⟩
      · exact Or.inl ⟨u, List.mem_flatMap.2 ⟨v, hv, hu⟩, rfl⟩
      · rcases h.kept (h'.noting_of_owns c ho) t v hv c hc with ⟨hct, hpos⟩ | ⟨ho', -⟩
        · exact Or.inr ⟨c, hct, Or.inr ho, Or.inr ⟨ho, hpos ▸ hj⟩⟩
        · exact absurd ho (hd c ho')
    · exact Or.inr ⟨c, hc, Or.inl ho, Or.inl ⟨ho, k, hk', hkj⟩⟩

/-! ### One or the other -/

/-- What a choice of either of two parts still leads to. -/
def owesEither (owns owns' : List Nat → Prop) (owes owes' : List Nat → Nat → Nat → Prop)
    (c : List Nat) (i j : Nat) : Prop :=
  (owns c ∧ owes c i j) ∨ (owns' c ∧ owes' c i j)

theorem union (h : Listing length noting f reach walk owns owes)
    (h' : Listing length noting g reach' walk' owns' owes') (hd : ∀ c, owns c → ¬owns' c) :
    Listing length noting (fun t => f t ++ g t) (fun i j => reach i j ∨ reach' i j)
      (fun s t => walk s t ∨ walk' s t) (fun c => owns c ∨ owns' c)
      (owesEither owns owns' owes owes') where
  sound t u hu := (List.mem_append.1 hu).imp (h.sound t u) (h'.sound t u)
  reach_of_walk s s' hw := hw.imp (h.reach_of_walk s s') (h'.reach_of_walk s s')
  inside i j hr hi := hr.elim (fun hr => h.inside i j hr hi) (fun hr => h'.inside i j hr hi)
  noting_of_owns c hc := hc.elim (h.noting_of_owns c) (h'.noting_of_owns c)
  kept hn t u hu c hc := by
    rcases List.mem_append.1 hu with hu | hu
    · refine (h.kept hn t u hu c hc).imp id fun ⟨ho, hj⟩ => ⟨Or.inl ho, fun j hj' => ?_⟩
      rcases hj' with ⟨-, hj'⟩ | ⟨ho', -⟩
      · exact Or.inl (hj j hj')
      · exact absurd ho' (hd c ho)
    · refine (h'.kept hn t u hu c hc).imp id fun ⟨ho, hj⟩ => ⟨Or.inr ho, fun j hj' => ?_⟩
      rcases hj' with ⟨ho', -⟩ | ⟨-, hj'⟩
      · exact absurd ho (hd c ho')
      · exact Or.inr (hj j hj')
  listed t ht j hj := by
    rcases hj with hj | hj
    · rcases h.listed t ht j hj with ⟨u, hu, rfl⟩ | ⟨c, hc, ho, hj⟩
      · exact Or.inl ⟨u, List.mem_append_left _ hu, rfl⟩
      · exact Or.inr ⟨c, hc, Or.inl ho, Or.inl ⟨ho, hj⟩⟩
    · rcases h'.listed t ht j hj with ⟨u, hu, rfl⟩ | ⟨c, hc, ho, hj⟩
      · exact Or.inl ⟨u, List.mem_append_right _ hu, rfl⟩
      · exact Or.inr ⟨c, hc, Or.inr ho, Or.inr ⟨ho, hj⟩⟩

/-! ### Behind a choice -/

/-- The threads of a part that stands behind a choice. -/
def guarded (p : Place) (f : Thread → List Thread) (t : Thread) : List Thread :=
  match t.pass? p with
  | none => []
  | some t => f t

theorem mem_guarded {p : Place} {t u : Thread} :
    u ∈ guarded p f t ↔ ∃ v, t.pass? p = some v ∧ u ∈ f v := by
  unfold guarded
  split <;> simp_all

/-- What a choice still leads to, if it is one of a part or the choice before it. -/
def owesGuarded (p : Place) (owns : List Nat → Prop) (owes : List Nat → Nat → Nat → Prop)
    (reach : Nat → Nat → Prop) (c : List Nat) (i j : Nat) : Prop :=
  (owns c ∧ owes c i j) ∨ (p = some c ∧ reach i j)

theorem guard (h : Listing length noting f reach walk owns owes) {p : Place}
    (hp : ∀ c, p = some c → noting) (hpo : ∀ c, p = some c → ¬owns c) :
    Listing length noting (guarded p f) reach walk (fun c => owns c ∨ p = some c)
      (owesGuarded p owns owes reach) where
  sound t u hu := by
    obtain ⟨v, hv, hu⟩ := mem_guarded.1 hu
    rw [← Thread.stand_of_pass? hv]
    exact h.sound v u hu
  reach_of_walk := h.reach_of_walk
  inside := h.inside
  noting_of_owns c hc := hc.elim (h.noting_of_owns c) (hp c)
  kept hn t u hu c hc := by
    obtain ⟨v, hv, hu⟩ := mem_guarded.1 hu
    have hpos := Thread.pos_of_stand (Thread.stand_of_pass? hv)
    rcases h.kept hn v u hu c hc with ⟨hcv, hpos'⟩ | ⟨ho, hj⟩
    · rcases Thread.passed_of_pass? hv c hcv with hct | hpc
      · exact Or.inl ⟨hct, hpos'.trans hpos⟩
      · refine Or.inr ⟨Or.inr hpc, fun j hj => ?_⟩
        rcases hj with ⟨ho, -⟩ | ⟨-, hj⟩
        · exact absurd ho (hpo c hpc)
        · rwa [hpos', hpos] at hj
    · refine Or.inr ⟨Or.inl ho, fun j hj' => ?_⟩
      rcases hj' with ⟨-, hj'⟩ | ⟨hpc, -⟩
      · exact hpos ▸ hj j hj'
      · exact absurd ho (hpo c hpc)
  listed t ht j hj := by
    rcases hv : t.pass? p with _ | v
    · obtain ⟨c, hc, hpc⟩ := Thread.exists_passed_of_pass? hv
      exact Or.inr ⟨c, hc, Or.inr hpc, Or.inr ⟨hpc, hj⟩⟩
    · have hpos := Thread.pos_of_stand (Thread.stand_of_pass? hv)
      rw [← hpos] at ht hj
      rcases h.listed v ht j hj with ⟨u, hu, rfl⟩ | ⟨c, hc, ho, hj⟩
      · exact Or.inl ⟨u, mem_guarded.2 ⟨v, hv, hu⟩, rfl⟩
      · rcases Thread.passed_of_pass? hv c hc with hct | hpc
        · exact Or.inr ⟨c, hct, Or.inl ho, Or.inl ⟨ho, hpos ▸ hj⟩⟩
        · exact absurd ho (hpo c hpc)

end Listing

end RequestRouting.Regex
