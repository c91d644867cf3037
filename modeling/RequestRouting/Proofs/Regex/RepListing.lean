import RequestRouting.Proofs.Regex.LoopListing

/-!
What the threads that leave counted copies of a body stand for.

`Listing.runCopies` is about copies that all have to be gone through, and `OptionalParts.listing` about
those that may be left out. Each copy notes its choices at a place of its own, and so does each choice
whether to go through one more.
-/

namespace RequestRouting.Regex

theorem turns_snoc_iff {α : Type} {step : α → α → Prop} {n : Nat} {a c : α} :
    (∃ b, Turns step n a b ∧ step b c) ↔ Turns step (n + 1) a c := by
  constructor
  · intro ⟨b, hab, hbc⟩
    exact hab.append (.one hbc)
  · intro h
    obtain ⟨b, hab, d, hbd, rfl⟩ := h.split
    exact ⟨b, hab, hbd⟩

/-! ## Copies -/

theorem runCopies_succ (body : Nat → Thread → List Thread) (k n : Nat) (ts : List Thread) :
    runCopies body k (n + 1) ts = Thread.distinct ((runCopies body k n ts).flatMap (body (k + n))) := by
  induction n generalizing k ts with
  | zero => rfl
  | succ n ih =>
    rw [runCopies, ih, runCopies, Nat.add_right_comm]
    rfl

variable {length : Nat} {noting : Prop} {reach : Nat → Nat → Prop} {walk : Stand → Stand → Prop}
  {body : Nat → Thread → List Thread} {owns : Nat → List Nat → Prop}
  {owes : Nat → List Nat → Nat → Nat → Prop}

/-- So many copies of a body, none of which owns a choice of another. -/
theorem Listing.runCopies (h : ∀ k, Listing length noting (body k) reach walk (owns k) (owes k))
    (hd : ∀ k k' c, owns k c → owns k' c → k = k') (n : Nat) :
    ∃ owes', Listing length noting (fun t => runCopies body 0 n [t]) (Turns reach n) (Turns walk n)
      (fun c => ∃ k < n, owns k c) owes' := by
  induction n with
  | zero =>
    refine ⟨_, (Listing.single length noting).widen (fun c hc => hc.elim) ?_⟩
    rintro c ⟨k, hk, -⟩
    exact absurd hk (Nat.not_lt_zero k)
  | succ n ih =>
    obtain ⟨owes', ih⟩ := ih
    -- The last copy comes behind all the others, and shares no choice with them.
    have hdisjoint : ∀ c, (∃ k < n, owns k c) → ¬owns n c := by
      intro c ⟨k, hk, ho⟩ ho'
      exact Nat.ne_of_lt hk (hd k n c ho ho')
    have hnext := ((ih.bind (h n) hdisjoint).distinct).congr (fun i j => turns_snoc_iff)
      (fun s s' => turns_snoc_iff)
    have hwide : ∀ c, (∃ k < n, owns k c) ∨ owns n c → ∃ k < n + 1, owns k c := by
      rintro c (⟨k, hk, ho⟩ | ho)
      · exact ⟨k, Nat.lt_succ_of_lt hk, ho⟩
      · exact ⟨n, Nat.lt_succ_self n, ho⟩
    refine ⟨_, (hnext.widen hwide ?_).thin ?_ ?_⟩
    · rintro c ⟨k, -, ho⟩
      exact (h k).noting_of_owns c ho
    · intro t u hu
      rwa [runCopies_succ, Nat.zero_add] at hu
    · intro t u hu
      exact ⟨u, by rwa [runCopies_succ, Nat.zero_add], rfl⟩

/-! ## Optional copies -/

namespace Turn

/-- Whether a turn goes on or leaves, and where. -/
def standing : Turn → Bool × Nat
  | going t => (true, t.pos)
  | done t => (false, t.pos)

/-- Whether a turn like that was met before. -/
def met (g d : Nat) (s : Bool × Nat) : Bool := (if s.1 then g else d).testBit s.2

-- A turn is kept unless one like it was met, and it is noted as met for nothing else.
theorem distinctFrom_cons (g d : Nat) (t : Turn) (ts : List Turn) : ∃ g' d',
    distinctFrom g d (t :: ts) =
      (if met g d t.standing then distinctFrom g d ts else t :: distinctFrom g' d' ts) ∧
    ∀ s, t.standing ≠ s → met g d s = false → met g' d' s = false := by
  cases t with
  | going t =>
    refine ⟨g ||| 1 <<< t.pos, d, rfl, fun (goes, i) hne hs => ?_⟩
    cases goes with
    | false => exact hs
    | true =>
      have hpos : t.pos ≠ i := fun hpos => hne (congrArg (Prod.mk true) hpos)
      show (g ||| 1 <<< t.pos).testBit i = false
      rw [testBit_mark, show g.testBit i = false from hs, decide_eq_false hpos]
      rfl
  | done t =>
    refine ⟨g, d ||| 1 <<< t.pos, rfl, fun (goes, i) hne hs => ?_⟩
    cases goes with
    | true => exact hs
    | false =>
      have hpos : t.pos ≠ i := fun hpos => hne (congrArg (Prod.mk false) hpos)
      show (d ||| 1 <<< t.pos).testBit i = false
      rw [testBit_mark, show d.testBit i = false from hs, decide_eq_false hpos]
      rfl

theorem mem_of_mem_distinctFrom {g d : Nat} {ts : List Turn} {t : Turn}
    (h : t ∈ distinctFrom g d ts) : t ∈ ts := by
  induction ts generalizing g d with
  | nil => exact h
  | cons u ts ih =>
    obtain ⟨g', d', heq, -⟩ := distinctFrom_cons g d u ts
    rw [heq] at h
    split at h
    · exact List.mem_cons_of_mem _ (ih h)
    · rcases List.mem_cons.1 h with rfl | h
      · exact List.mem_cons_self
      · exact List.mem_cons_of_mem _ (ih h)

/-- A turn at a new position is kept, or one before that stands there like it. -/
theorem exists_mem_distinctFrom {g d : Nat} {ts : List Turn} {t : Turn} (h : t ∈ ts)
    (hnew : met g d t.standing = false) : ∃ u ∈ distinctFrom g d ts, u.standing = t.standing := by
  induction ts generalizing g d with
  | nil => cases h
  | cons v ts ih =>
    obtain ⟨g', d', heq, hkeep⟩ := distinctFrom_cons g d v ts
    rw [heq]
    by_cases hsame : v.standing = t.standing
    · rw [hsame, hnew]
      exact ⟨v, List.mem_cons_self, hsame⟩
    · have hts : t ∈ ts := (List.mem_cons.1 h).resolve_left fun htv => hsame (htv ▸ rfl)
      split
      · exact ih hts hnew
      · obtain ⟨u, hu, hstand⟩ := ih hts (hkeep _ hsame hnew)
        exact ⟨u, List.mem_cons_of_mem _ hu, hstand⟩

theorem exists_going {g d : Nat} {ts : List Turn} {t : Thread} (h : going t ∈ ts)
    (hg : g.testBit t.pos = false) : ∃ u, going u ∈ distinctFrom g d ts ∧ u.pos = t.pos := by
  obtain ⟨u, hu, hsame⟩ := exists_mem_distinctFrom (d := d) h hg
  cases u with
  | going u => exact ⟨u, hu, (Prod.mk.inj hsame).2⟩
  | done u => cases hsame

theorem exists_done {g d : Nat} {ts : List Turn} {t : Thread} (h : done t ∈ ts)
    (hd : d.testBit t.pos = false) : ∃ u, done u ∈ distinctFrom g d ts ∧ u.pos = t.pos := by
  obtain ⟨u, hu, hsame⟩ := exists_mem_distinctFrom (g := g) h hd
  cases u with
  | going u => cases hsame
  | done u => exact ⟨u, hu, (Prod.mk.inj hsame).2⟩

variable {greedy : Bool} {place : Place} {f : Thread → List Thread}

theorem going_mem_offer {t u : Thread} :
    going u ∈ offer greedy place f (going t) ↔ u ∈ Listing.guarded place f t := by
  rw [Listing.mem_guarded, offer]
  rcases t.pass? place with _ | v
  · simp
  · cases greedy <;> simp

theorem done_mem_offer {t u : Thread} :
    done u ∈ offer greedy place f (going t) ↔ t.pass? place = some u := by
  rw [offer]
  rcases t.pass? place with _ | v
  · simp
  · cases greedy <;> simp [eq_comm]

theorem mem_offer_done {t : Thread} {u : Turn} :
    u ∈ offer greedy place f (done t) ↔ u = done t := by
  rw [offer, List.mem_singleton]

end Turn

/-- Optional copies, without the way out at the end. -/
def optionalTurns (greedy : Bool) (place : Nat → Place) (body : Nat → Thread → List Thread)
    (ts : List Turn) : Nat → List Turn
  | 0 => ts
  | n + 1 => Turn.distinctFrom 0 0 ((optionalTurns greedy place body ts n).flatMap
      (Turn.offer greedy (place n) (body n)))

theorem runOptional_eq (greedy : Bool) (place : Nat → Place) (body : Nat → Thread → List Thread)
    (k n : Nat) (ts : List Turn) :
    runOptional greedy place body k n ts =
      Thread.distinct ((optionalTurns greedy (fun m => place (k + m)) (fun m => body (k + m)) ts
        n).map Turn.thread) := by
  induction n generalizing k ts with
  | zero => rfl
  | succ n ih =>
    rw [runOptional, ih]
    congr 2
    clear ih
    induction n with
    | zero => rfl
    | succ n ih =>
      rw [optionalTurns, ih, Nat.add_assoc, Nat.add_comm 1 n]
      rfl

/-- Optional copies of a body behind a first part: where the parts lead, which choices they own and
what these owe. The choice whether to go through a copy stands at a place of its own. -/
structure OptionalParts where
  reach₀ : Nat → Nat → Prop
  walk₀ : Stand → Stand → Prop
  owns₀ : List Nat → Prop
  owes₀ : List Nat → Nat → Nat → Prop
  reach : Nat → Nat → Prop
  walk : Stand → Stand → Prop
  owns : Nat → List Nat → Prop
  owes : Nat → List Nat → Nat → Nat → Prop
  place : Nat → Place

namespace OptionalParts

/-- Where the first part and so many copies lead. -/
def after (P : OptionalParts) (n i j : Nat) : Prop := ∃ k, P.reach₀ i k ∧ Turns P.reach n k j

/-- Each choice has one place. -/
structure Disjoint (P : OptionalParts) : Prop where
  first : ∀ k c, P.owns₀ c → ¬P.owns k c
  first_place : ∀ k c, P.owns₀ c → P.place k ≠ some c
  body : ∀ k k' c, P.owns k c → P.owns k' c → k = k'
  body_place : ∀ k k' c, P.owns k c → P.place k' ≠ some c
  place : ∀ k k' c, P.place k = some c → P.place k' = some c → k = k'

/-- What a choice noted since a thread `t` came in has to do with the thread `u`: whatever it still
owes there can be reached from `t`. The choices are those of the first so many copies. -/
def Honest (P : OptionalParts) (n : Nat) (t u : Thread) (c : List Nat) : Prop :=
  (P.owns₀ c ∧ ∀ j, P.owes₀ c u.pos j → P.reach₀ t.pos j) ∨
  ∃ k < n, (P.owns k c ∧ ∀ j, P.owes k c u.pos j → P.after (k + 1) t.pos j) ∨
    (P.place k = some c ∧ P.after k t.pos u.pos)

/-- A thread `u` that went through so many copies after a thread `t` came in, when `n` copies have
been offered. -/
structure Went (P : OptionalParts) (noting : Prop) (n count : Nat) (t u : Thread) : Prop where
  stand : ∃ s, P.walk₀ t.stand s ∧ Turns P.walk count s u.stand
  kept : noting → ∀ c ∈ u.passed, (c ∈ t.passed ∧ u.pos = t.pos) ∨ P.Honest n t u c

/-- What the choices that a thread came in with owe after so many copies. -/
def Missing (P : OptionalParts) (n : Nat) (t : Thread) (count j : Nat) : Prop :=
  ∃ c ∈ t.passed, (P.owns₀ c ∧ ∃ i, P.owes₀ c t.pos i ∧ Turns P.reach count i j) ∨
    ∃ k < n, (P.owns k c ∧ ∃ i m, P.owes k c t.pos i ∧ k + 1 + m = count ∧ Turns P.reach m i j) ∨
      (P.place k = some c ∧ ∃ m, k + m = count ∧ Turns P.reach m t.pos j)

variable {P : OptionalParts} {noting : Prop} {length : Nat} {greedy : Bool}
  {start : Thread → List Thread} {body : Nat → Thread → List Thread}

theorem Honest.mono {n n' : Nat} {t u : Thread} {c : List Nat} (h : P.Honest n t u c)
    (hn : n ≤ n') : P.Honest n' t u c :=
  h.imp id fun ⟨k, hk, h⟩ => ⟨k, Nat.lt_of_lt_of_le hk hn, h⟩

theorem Went.mono {n n' count : Nat} {t u : Thread} (h : P.Went noting n count t u)
    (hn : n ≤ n') : P.Went noting n' count t u :=
  ⟨h.stand, fun hnote c hc => (h.kept hnote c hc).imp id fun hh => hh.mono hn⟩

theorem Missing.mono {n n' count j : Nat} {t : Thread} (h : P.Missing n t count j) (hn : n ≤ n') :
    P.Missing n' t count j := by
  obtain ⟨c, hc, h⟩ := h
  exact ⟨c, hc, h.imp id fun ⟨k, hk, h⟩ => ⟨k, Nat.lt_of_lt_of_le hk hn, h⟩⟩

theorem Missing.snoc {n count i j : Nat} {t : Thread} (h : P.Missing n t count i)
    (hij : P.reach i j) : P.Missing n t (count + 1) j := by
  obtain ⟨c, hc, ⟨ho, a, ha, hai⟩ | ⟨k, hk, ⟨ho, a, m, ha, hm, hai⟩ | ⟨hp, m, hm, hti⟩⟩⟩ := h
  · exact ⟨c, hc, Or.inl ⟨ho, a, ha, turns_snoc_iff.1 ⟨i, hai, hij⟩⟩⟩
  · exact ⟨c, hc, Or.inr ⟨k, hk, Or.inl ⟨ho, a, m + 1, ha, by omega,
      turns_snoc_iff.1 ⟨i, hai, hij⟩⟩⟩⟩
  · exact ⟨c, hc, Or.inr ⟨k, hk, Or.inr ⟨hp, m + 1, by omega, turns_snoc_iff.1 ⟨i, hti, hij⟩⟩⟩⟩

theorem after_snoc {n i j k : Nat} (h : P.after n i j) (hjk : P.reach j k) :
    P.after (n + 1) i k := by
  obtain ⟨a, ha, haj⟩ := h
  exact ⟨a, ha, turns_snoc_iff.1 ⟨j, haj, hjk⟩⟩

variable (h₀ : Listing length noting start P.reach₀ P.walk₀ P.owns₀ P.owes₀)
  (h : ∀ k, Listing length noting (body k) P.reach P.walk (P.owns k) (P.owes k))

include h₀ h

theorem Went.after {n count : Nat} {t u : Thread} (hu : P.Went noting n count t u) :
    P.after count t.pos u.pos := by
  obtain ⟨s, hs, hsu⟩ := hu.stand
  exact ⟨s.pos, h₀.reach_of_walk _ _ hs, hsu.map Stand.pos (h 0).reach_of_walk⟩

omit h in
theorem went_start {t u : Thread} (hu : u ∈ start t) : P.Went noting 0 0 t u :=
  ⟨⟨u.stand, h₀.sound t u hu, rfl⟩, fun hn c hc => (h₀.kept hn t u hu c hc).imp id Or.inl⟩

/-- Passing the choice whether to go through the next copy. -/
theorem Went.pass {n : Nat} {t u v : Thread} (hu : P.Went noting n n t u)
    (hv : u.pass? (P.place n) = some v) : P.Went noting (n + 1) n t v := by
  have hst := Thread.stand_of_pass? hv
  have hpos := Thread.pos_of_stand hst
  refine ⟨hst ▸ hu.stand, fun hn c hc => ?_⟩
  rcases Thread.passed_of_pass? hv c hc with hc | hp
  · rw [hpos]
    refine (hu.kept hn c hc).imp id fun hh => ?_
    have hh' := hh.mono (Nat.le_succ n)
    unfold Honest at hh' ⊢
    rwa [hpos]
  · exact Or.inr (Or.inr ⟨n, Nat.lt_succ_self n, Or.inr ⟨hp, hpos ▸ hu.after h₀ h⟩⟩)

/-- Going through the next copy. -/
theorem Went.take {n : Nat} {t u v : Thread} (hu : P.Went noting (n + 1) n t u)
    (hv : v ∈ body n u) : P.Went noting (n + 1) (n + 1) t v := by
  obtain ⟨s, hs, hsu⟩ := hu.stand
  refine ⟨⟨s, hs, turns_snoc_iff.1 ⟨_, hsu, (h n).sound u v hv⟩⟩, fun hn c hc => ?_⟩
  rcases (h n).kept hn u v hv c hc with ⟨hc, hpos⟩ | ⟨ho, hj⟩
  · rw [hpos]
    refine (hu.kept hn c hc).imp id fun hh => ?_
    unfold Honest at hh ⊢
    rwa [hpos]
  · exact Or.inr (Or.inr ⟨n, Nat.lt_succ_self n, Or.inl ⟨ho, fun j hj' =>
      after_snoc (hu.after h₀ h) (hj j hj')⟩⟩)

variable (greedy) in
/-- The threads among optional copies went through as many as were offered, or left before. -/
theorem went_optionalTurns (n : Nat) (t : Thread) :
    (∀ u, .going u ∈ optionalTurns greedy P.place body ((start t).map .going) n →
      P.Went noting n n t u) ∧
    ∀ u, .done u ∈ optionalTurns greedy P.place body ((start t).map .going) n →
      ∃ count < n, P.Went noting n count t u := by
  induction n with
  | zero =>
    constructor
    · intro u hu
      obtain ⟨v, hv, hvu⟩ := List.mem_map.1 hu
      cases hvu
      exact went_start h₀ hv
    · intro u hu
      obtain ⟨v, -, hvu⟩ := List.mem_map.1 hu
      cases hvu
  | succ n ih =>
    obtain ⟨ihg, ihd⟩ := ih
    constructor
    · intro u hu
      obtain ⟨v, hv, hvu⟩ := List.mem_flatMap.1 (Turn.mem_of_mem_distinctFrom hu)
      cases v with
      | done v => cases Turn.mem_offer_done.1 hvu
      | going v =>
        obtain ⟨w, hw, hwu⟩ := Listing.mem_guarded.1 (Turn.going_mem_offer.1 hvu)
        exact ((ihg v hv).pass h₀ h hw).take h₀ h hwu
    · intro u hu
      obtain ⟨v, hv, hvu⟩ := List.mem_flatMap.1 (Turn.mem_of_mem_distinctFrom hu)
      cases v with
      | done v =>
        cases Turn.mem_offer_done.1 hvu
        obtain ⟨count, hcount, hw⟩ := ihd u hv
        exact ⟨count, Nat.lt_succ_of_lt hcount, hw.mono (Nat.le_succ n)⟩
      | going v =>
        exact ⟨n, Nat.lt_succ_self n, (ihg v hv).pass h₀ h (Turn.done_mem_offer.1 hvu)⟩

variable (hd : P.Disjoint) (hnote : ∀ k c, P.place k = some c → noting)

include hd hnote

omit h₀ h in
/-- A thread that is stopped at the next choice came in with it. -/
theorem Went.missing_of_stopped {n : Nat} {t u : Thread} (hu : P.Went noting n n t u)
    (hp : u.pass? (P.place n) = none) :
    u.pos = t.pos ∧ ∃ c ∈ t.passed, P.place n = some c := by
  obtain ⟨c, hc, hpc⟩ := Thread.exists_passed_of_pass? hp
  rcases hu.kept (hnote n c hpc) c hc with ⟨hct, hpos⟩ | hh
  · exact ⟨hpos, c, hct, hpc⟩
  · rcases hh with ⟨ho, -⟩ | ⟨k, hk, ⟨ho, -⟩ | ⟨hp', -⟩⟩
    · exact absurd hpc (hd.first_place n c ho)
    · exact absurd hpc (hd.body_place k n c ho)
    · exact absurd (hd.place k n c hp' hpc) (Nat.ne_of_lt hk)

/-- Where one more copy leads from a thread that may go on, there is a thread, unless a choice was noted
before. -/
theorem Went.listed {n : Nat} {t u : Thread} (hu : P.Went noting n n t u) (ht : t.pos ≤ length)
    {j : Nat} (hj : P.reach u.pos j) :
    (∃ v w, u.pass? (P.place n) = some v ∧ w ∈ body n v ∧ w.pos = j) ∨
      P.Missing (n + 1) t (n + 1) j := by
  rcases hp : u.pass? (P.place n) with _ | v
  · -- The thread is stopped by the choice whether to go through this copy at all.
    obtain ⟨hpos, c, hc, hpc⟩ := hu.missing_of_stopped hd hnote hp
    exact Or.inr ⟨c, hc, Or.inr ⟨n, Nat.lt_succ_self n, Or.inr ⟨hpc, 1, rfl, .one (hpos ▸ hj)⟩⟩⟩
  · have hv := hu.pass h₀ h hp
    have hpos := Thread.pos_of_stand (Thread.stand_of_pass? hp)
    have hin : v.pos ≤ length := by
      obtain ⟨a, ha, hav⟩ := hv.after h₀ h
      exact hav.keeps (P := (· ≤ length)) (h 0).inside (h₀.inside _ _ ha ht)
    rcases (h n).listed v hin j (hpos ▸ hj) with ⟨w, hw, hwj⟩ | ⟨c, hc, ho, hj⟩
    · exact Or.inl ⟨v, w, rfl, hw, hwj⟩
    · -- The choice is one of this copy, so no copy before can have noted it.
      have hcu := (Thread.passed_of_pass? hp c hc).resolve_right (hd.body_place n n c ho)
      rcases hu.kept ((h n).noting_of_owns c ho) c hcu with ⟨hct, hpos'⟩ | hh
      · refine Or.inr ⟨c, hct, Or.inr ⟨n, Nat.lt_succ_self n, Or.inl ⟨ho, j, 0, ?_, rfl, rfl⟩⟩⟩
        rwa [hpos, hpos'] at hj
      · rcases hh with ⟨ho', -⟩ | ⟨k', hk', ⟨ho', -⟩ | ⟨hp', -⟩⟩
        · exact absurd ho (hd.first n c ho')
        · exact absurd (hd.body k' n c ho' ho) (Nat.ne_of_lt hk')
        · exact absurd hp' (hd.body_place n k' c ho)

variable (greedy) in
/-- Wherever so many copies lead there is a thread, unless a choice was noted before. -/
theorem listed_optionalTurns (n : Nat) {t : Thread} (ht : t.pos ≤ length) :
    (∀ j, P.after n t.pos j →
      (∃ u, .going u ∈ optionalTurns greedy P.place body ((start t).map .going) n ∧ u.pos = j) ∨
        P.Missing n t n j) ∧
    ∀ count < n, ∀ j, P.after count t.pos j →
      (∃ u, .done u ∈ optionalTurns greedy P.place body ((start t).map .going) n ∧ u.pos = j) ∨
        P.Missing n t count j := by
  induction n with
  | zero =>
    refine ⟨?_, fun count hc => absurd hc (Nat.not_lt_zero count)⟩
    rintro j ⟨k, hk, rfl⟩
    rcases h₀.listed t ht k hk with ⟨u, hu, hpos⟩ | ⟨c, hc, ho, hj⟩
    · exact Or.inl ⟨u, List.mem_map_of_mem hu, hpos⟩
    · exact Or.inr ⟨c, hc, Or.inl ⟨ho, k, hj, rfl⟩⟩
  | succ n ih =>
    obtain ⟨ihg, ihd⟩ := ih
    have hwent := (went_optionalTurns greedy h₀ h n t).1
    constructor
    · intro j ⟨k, hk, hkj⟩
      obtain ⟨i, hki, hij⟩ := turns_snoc_iff.2 hkj
      rcases ihg i ⟨k, hk, hki⟩ with ⟨u, hu, rfl⟩ | hm
      · refine ((hwent u hu).listed h₀ h hd hnote ht hij).imp ?_ id
        intro ⟨v, w, hp, hw, hwj⟩
        obtain ⟨x, hx, hxpos⟩ := Turn.exists_going (g := 0) (d := 0) (t := w)
          (List.mem_flatMap.2 ⟨_, hu, Turn.going_mem_offer.2
            (Listing.mem_guarded.2 ⟨v, hp, hw⟩)⟩) (Nat.zero_testBit _)
        exact ⟨x, hx, hxpos.trans hwj⟩
      · exact Or.inr ((hm.mono (Nat.le_succ n)).snoc hij)
    · intro count hcount j hj
      rcases Nat.lt_succ_iff_lt_or_eq.1 hcount with hlt | rfl
      · -- What left before stays as it is.
        rcases ihd count hlt j hj with ⟨u, hu, rfl⟩ | hm
        · obtain ⟨x, hx, hxpos⟩ := Turn.exists_done (g := 0) (d := 0) (t := u)
            (List.mem_flatMap.2 ⟨_, hu, Turn.mem_offer_done.2 rfl⟩) (Nat.zero_testBit _)
          exact Or.inl ⟨x, hx, hxpos⟩
        · exact Or.inr (hm.mono (Nat.le_succ n))
      · -- What may go on may also leave now.
        rcases ihg j hj with ⟨u, hu, rfl⟩ | hm
        · rcases hp : u.pass? (P.place count) with _ | v
          · obtain ⟨hpos, c, hc, hpc⟩ := (hwent u hu).missing_of_stopped hd hnote hp
            exact Or.inr ⟨c, hc, Or.inr ⟨count, Nat.lt_succ_self count, Or.inr ⟨hpc, 0, rfl,
              hpos.symm⟩⟩⟩
          · obtain ⟨x, hx, hxpos⟩ := Turn.exists_done (g := 0) (d := 0) (t := v)
              (List.mem_flatMap.2 ⟨_, hu, Turn.done_mem_offer.2 hp⟩) (Nat.zero_testBit _)
            exact Or.inl ⟨x, hx, hxpos.trans (Thread.pos_of_stand (Thread.stand_of_pass? hp))⟩
        · exact Or.inr (hm.mono (Nat.le_succ count))

/-- What a choice among optional copies still leads to. -/
def owesAll (P : OptionalParts) (n : Nat) (c : List Nat) (i j : Nat) : Prop :=
  ∃ count ≤ n, (P.owns₀ c ∧ ∃ a, P.owes₀ c i a ∧ Turns P.reach count a j) ∨
    ∃ k < n, (P.owns k c ∧ ∃ a m, P.owes k c i a ∧ k + 1 + m = count ∧ Turns P.reach m a j) ∨
      (P.place k = some c ∧ ∃ m, k + m = count ∧ Turns P.reach m i j)

omit h₀ h hnote in
/-- What an honest choice owes can be reached. -/
theorem Honest.after {n : Nat} {t u : Thread} {c : List Nat} (hh : P.Honest n t u c) {j : Nat}
    (hj : P.owesAll n c u.pos j) : ∃ count ≤ n, P.after count t.pos j := by
  obtain ⟨count, hcount, hj⟩ := hj
  refine ⟨count, hcount, ?_⟩
  -- The choice has one place, so what it owes is owed for the same part in which it was noted.
  rcases hh with ⟨ho, hr⟩ | ⟨k, hk, ⟨ho, hr⟩ | ⟨hp, hr⟩⟩
  · rcases hj with ⟨-, a, ha, haj⟩ | ⟨k', hk', ⟨ho', -⟩ | ⟨hp', -⟩⟩
    · exact ⟨a, hr a ha, haj⟩
    · exact absurd ho' (hd.first k' c ho)
    · exact absurd hp' (hd.first_place k' c ho)
  · rcases hj with ⟨ho', -⟩ | ⟨k', hk', ⟨ho', a, m, ha, rfl, haj⟩ | ⟨hp', -⟩⟩
    · exact absurd ho (hd.first k c ho')
    · obtain rfl := hd.body k k' c ho ho'
      obtain ⟨b, hb, hba⟩ := hr a ha
      exact ⟨b, hb, hba.append haj⟩
    · exact absurd hp' (hd.body_place k k' c ho)
  · rcases hj with ⟨ho', -⟩ | ⟨k', hk', ⟨ho', -⟩ | ⟨hp', m, rfl, hj⟩⟩
    · exact absurd hp (hd.first_place k c ho')
    · exact absurd hp (hd.body_place k' k c ho')
    · obtain rfl := hd.place k k' c hp hp'
      obtain ⟨b, hb, hba⟩ := hr
      exact ⟨b, hb, hba.append hj⟩

variable (P greedy) in
/-- A first part and at most so many copies of a body. -/
theorem listing (n : Nat) :
    Listing length noting
      (fun t => Thread.distinct
        ((optionalTurns greedy P.place body ((start t).map .going) n).map Turn.thread))
      (fun i j => ∃ count ≤ n, P.after count i j)
      (fun s t => ∃ count ≤ n, ∃ u, P.walk₀ s u ∧ Turns P.walk count u t)
      (fun c => P.owns₀ c ∨ ∃ k < n, P.owns k c ∨ P.place k = some c) (P.owesAll n) := by
  have hwent : ∀ t, ∀ u ∈ Thread.distinct
      ((optionalTurns greedy P.place body ((start t).map .going) n).map Turn.thread),
      ∃ count ≤ n, P.Went noting n count t u := by
    intro t u hu
    obtain ⟨v, hv, rfl⟩ := List.mem_map.1 (Thread.mem_of_mem_distinct hu)
    have hw := went_optionalTurns greedy h₀ h n t
    cases v with
    | going v => exact ⟨n, Nat.le_refl n, hw.1 v hv⟩
    | done v => exact (hw.2 v hv).imp fun _ ⟨hlt, hw⟩ => ⟨Nat.le_of_lt hlt, hw⟩
  refine ⟨?_, ?_, ?_, ?_, ?_, ?_⟩
  · intro t u hu
    obtain ⟨count, hcount, hw⟩ := hwent t u hu
    exact ⟨count, hcount, hw.stand⟩
  · intro s s' ⟨count, hcount, u, hsu, hus⟩
    exact ⟨count, hcount, u.pos, h₀.reach_of_walk s u hsu, hus.map Stand.pos (h 0).reach_of_walk⟩
  · rintro i j ⟨count, -, a, ha, haj⟩ hi
    exact haj.keeps (P := (· ≤ length)) (h 0).inside (h₀.inside _ _ ha hi)
  · rintro c (hc | ⟨k, -, hc | hc⟩)
    · exact h₀.noting_of_owns c hc
    · exact (h k).noting_of_owns c hc
    · exact hnote k c hc
  · intro hn t u hu c hc
    obtain ⟨count, hcount, hw⟩ := hwent t u hu
    refine (hw.kept hn c hc).imp id fun hh => ⟨?_, fun j hj => hh.after hd hj⟩
    exact hh.imp And.left fun ⟨k, hk, hh⟩ => ⟨k, hk, hh.imp And.left And.left⟩
  · intro t ht j ⟨count, hcount, hj⟩
    have hlist := listed_optionalTurns greedy h₀ h hd hnote n ht
    have hfound : (∃ u ∈ (optionalTurns greedy P.place body ((start t).map .going) n).map
        Turn.thread, u.pos = j) ∨ P.Missing n t count j := by
      rcases Nat.lt_or_eq_of_le hcount with hlt | rfl
      · refine (hlist.2 count hlt j hj).imp ?_ id
        exact fun ⟨u, hu, hpos⟩ => ⟨u, List.mem_map_of_mem (f := Turn.thread) hu, hpos⟩
      · refine (hlist.1 j hj).imp ?_ id
        exact fun ⟨u, hu, hpos⟩ => ⟨u, List.mem_map_of_mem (f := Turn.thread) hu, hpos⟩
    refine hfound.imp ?_ ?_
    · rintro ⟨u, hu, rfl⟩
      exact Thread.exists_mem_distinct hu
    · intro ⟨c, hc, hm⟩
      refine ⟨c, hc, hm.imp And.left fun ⟨k, hk, hm⟩ => ⟨k, hk, hm.imp And.left And.left⟩,
        count, hcount, hm⟩

end OptionalParts

end RequestRouting.Regex
