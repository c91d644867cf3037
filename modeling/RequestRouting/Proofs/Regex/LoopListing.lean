import RequestRouting.Proofs.Regex.Listing

/-!
What the threads that leave a loop stand for.

A loop goes through the positions at which a turn can end, each of them once. The main statements are
`Listing.runTurns` and `Listing.runLoop`. Both rest on `listed_of_anyTurns`: a position that turns
lead to is found, unless a thread owed it before the loop began. What carries the induction is that
every position that was gone through is ready to be left (`Explored`): where a noted choice stopped a
turn, what was to be found behind it is found from the position where that choice was passed.
-/

namespace RequestRouting.Regex

/-! ## Positions that were seen -/

/-- How many positions of a text are in a set. -/
def seenCount (length s : Nat) : Nat :=
  ((Finset.range (length + 1)).filter fun i => s.testBit i).card

theorem seenCount_mono (length : Nat) {s s' : Nat} (h : ∀ i, s.testBit i → s'.testBit i) :
    seenCount length s ≤ seenCount length s' := by
  apply Finset.card_le_card
  intro i hi
  rw [Finset.mem_filter] at hi ⊢
  exact ⟨hi.1, h i hi.2⟩

theorem seenCount_mark {length s p : Nat} (hp : p ≤ length) (hs : ¬s.testBit p) :
    seenCount length s < seenCount length (s ||| 1 <<< p) := by
  apply Finset.card_lt_card
  rw [Finset.ssubset_iff_of_subset]
  · refine ⟨p, Finset.mem_filter.2 ⟨Finset.mem_range.2 (by omega), ?_⟩, ?_⟩
    · rw [testBit_mark, decide_eq_true rfl, Bool.or_true]
    · exact fun h => hs (Finset.mem_filter.1 h).2
  · intro i hi
    rw [Finset.mem_filter] at hi ⊢
    exact ⟨hi.1, by rw [testBit_mark, hi.2, Bool.true_or]⟩

/-- If no position is left, all of them were seen. -/
theorem testBit_of_seenCount {length s i : Nat} (h : length + 1 ≤ seenCount length s)
    (hi : i ≤ length) : s.testBit i := by
  have heq : (Finset.range (length + 1)).filter (fun i => s.testBit i) = Finset.range (length + 1) := by
    apply Finset.eq_of_subset_of_card_le (Finset.filter_subset _ _)
    rwa [Finset.card_range]
  have hmem : i ∈ (Finset.range (length + 1)).filter fun i => s.testBit i := by
    rw [heq, Finset.mem_range]
    omega
  exact (Finset.mem_filter.1 hmem).2

/-! ## Ending a turn -/

namespace LoopState

def mark (st : LoopState) (p : Nat) : LoopState := { st with seen := st.seen ||| 1 <<< p }

def leave (st : LoopState) (t : Thread) : LoopState := { st with found := t :: st.found }

/-- Nothing that was seen or found is lost. -/
structure Grows (st st' : LoopState) : Prop where
  seen : ∀ i, st.seen.testBit i → st'.seen.testBit i
  found : ∀ u ∈ st.found, u ∈ st'.found

theorem Grows.refl (st : LoopState) : Grows st st := ⟨fun _ h => h, fun _ h => h⟩

theorem Grows.trans {a b c : LoopState} (h : Grows a b) (h' : Grows b c) : Grows a c :=
  ⟨fun i hi => h'.seen i (h.seen i hi), fun u hu => h'.found u (h.found u hu)⟩

theorem grows_mark (st : LoopState) (p : Nat) : Grows st (st.mark p) :=
  ⟨fun i hi => by rw [mark, testBit_mark, hi, Bool.true_or], fun _ h => h⟩

theorem grows_leave (st : LoopState) (t : Thread) : Grows st (st.leave t) :=
  ⟨fun _ h => h, fun _ h => List.mem_cons_of_mem t h⟩

theorem testBit_mark_self (st : LoopState) (p : Nat) : (st.mark p).seen.testBit p := by
  rw [mark, testBit_mark, decide_eq_true rfl, Bool.or_true]

end LoopState

open LoopState

variable {length : Nat} {noting : Prop} {turn : Thread → List Thread} {reach : Nat → Nat → Prop}
  {walk : Stand → Stand → Prop} {owns : List Nat → Prop} {owes : List Nat → Nat → Nat → Prop}
  {greedy : Bool} {place : Place}

theorem endTurn_of_seen {fuel : Nat} {st : LoopState} {t : Thread} (h : st.seen.testBit t.pos) :
    endTurn greedy place turn (fuel + 1) st t = st := by
  rw [endTurn, if_pos h]

theorem endTurn_of_stopped {fuel : Nat} {st : LoopState} {t : Thread} (h : ¬st.seen.testBit t.pos)
    (hp : t.pass? place = none) : endTurn greedy place turn (fuel + 1) st t = st.mark t.pos := by
  rw [endTurn, if_neg h, hp]
  rfl

theorem endTurn_of_pass {fuel : Nat} {st : LoopState} {t u : Thread} (h : ¬st.seen.testBit t.pos)
    (hp : t.pass? place = some u) :
    endTurn greedy place turn (fuel + 1) st t =
      if greedy then ((turn u).foldl (endTurn greedy place turn fuel) (st.mark t.pos)).leave u
      else (turn u).foldl (endTurn greedy place turn fuel) ((st.mark t.pos).leave u) := by
  rw [endTurn, if_neg h, hp]
  rfl

theorem foldl_grows {step : LoopState → Thread → LoopState} (h : ∀ st t, Grows st (step st t))
    (ts : List Thread) (st : LoopState) : Grows st (ts.foldl step st) := by
  induction ts generalizing st with
  | nil => exact Grows.refl st
  | cons t ts ih => exact (h st t).trans (ih (step st t))

theorem endTurn_grows (greedy : Bool) (place : Place) (turn : Thread → List Thread) (fuel : Nat)
    (st : LoopState) (t : Thread) :
    Grows st (endTurn greedy place turn fuel st t) := by
  induction fuel generalizing st t with
  | zero => exact Grows.refl st
  | succ fuel ih =>
    by_cases hs : st.seen.testBit t.pos
    · rw [endTurn_of_seen hs]
      exact Grows.refl st
    · rcases hp : t.pass? place with _ | u
      · rw [endTurn_of_stopped hs hp]
        exact grows_mark st t.pos
      · rw [endTurn_of_pass hs hp]
        split
        · exact ((grows_mark st t.pos).trans (foldl_grows ih _ _)).trans (grows_leave _ u)
        · exact ((grows_mark st t.pos).trans (grows_leave _ u)).trans (foldl_grows ih _ _)

/-- Where a turn ended, the position was seen. -/
theorem endTurn_seen {fuel : Nat} {st : LoopState} {t : Thread} (ht : t.pos ≤ length)
    (hfuel : length + 1 ≤ fuel + seenCount length st.seen) :
    (endTurn greedy place turn fuel st t).seen.testBit t.pos := by
  cases fuel with
  | zero => exact testBit_of_seenCount (Nat.zero_add (seenCount length st.seen) ▸ hfuel) ht
  | succ fuel =>
    by_cases hs : st.seen.testBit t.pos
    · rw [endTurn_of_seen hs]
      exact hs
    · rcases hp : t.pass? place with _ | u
      · rw [endTurn_of_stopped hs hp]
        exact testBit_mark_self st t.pos
      · rw [endTurn_of_pass hs hp]
        have hfold := foldl_grows (endTurn_grows greedy place turn fuel) (turn u)
        split
        · exact (hfold (st.mark t.pos)).seen _ (testBit_mark_self st t.pos)
        · exact (hfold ((st.mark t.pos).leave u)).seen _ (testBit_mark_self st t.pos)

theorem foldl_endTurn_seen {fuel : Nat} {ts : List Thread} {st : LoopState}
    (hts : ∀ t ∈ ts, t.pos ≤ length) (hfuel : length + 1 ≤ fuel + seenCount length st.seen) :
    ∀ t ∈ ts, (ts.foldl (endTurn greedy place turn fuel) st).seen.testBit t.pos := by
  induction ts generalizing st with
  | nil => simp
  | cons v ts ih =>
    intro t ht
    have hgrow := endTurn_grows greedy place turn fuel st v
    have hcount := seenCount_mono length hgrow.seen
    rcases List.mem_cons.1 ht with rfl | ht
    · exact (foldl_grows (endTurn_grows greedy place turn fuel) ts _).seen _
        (endTurn_seen (hts t List.mem_cons_self) hfuel)
    · exact ih (fun u hu => hts u (List.mem_cons_of_mem v hu)) (by omega) t ht

/-! ## What every thread of a loop keeps -/

theorem foldl_keeps {step : LoopState → Thread → LoopState} (good : LoopState → Prop)
    {keeps : Thread → Prop} (h : ∀ st t, keeps t → good st → good (step st t)) {ts : List Thread}
    {st : LoopState} (hts : ∀ t ∈ ts, keeps t) (hst : good st) : good (ts.foldl step st) := by
  induction ts generalizing st with
  | nil => exact hst
  | cons t ts ih =>
    exact ih (fun u hu => hts u (List.mem_cons_of_mem t hu))
      (h st t (hts t List.mem_cons_self) hst)

/-- What passing the choice of a loop and taking a turn keep holds of all threads that are found. -/
theorem endTurn_found {keeps : Thread → Prop}
    (hpass : ∀ t u, keeps t → t.pass? place = some u → keeps u)
    (hturn : ∀ t, keeps t → ∀ u ∈ turn t, keeps u) (fuel : Nat) (st : LoopState) (t : Thread)
    (ht : keeps t) (hst : ∀ u ∈ st.found, keeps u) :
    ∀ u ∈ (endTurn greedy place turn fuel st t).found, keeps u := by
  induction fuel generalizing st t with
  | zero => exact hst
  | succ fuel ih =>
    by_cases hs : st.seen.testBit t.pos
    · rwa [endTurn_of_seen hs]
    · rcases hp : t.pass? place with _ | u
      · rwa [endTurn_of_stopped hs hp]
      · have hu := hpass t u ht hp
        have hleave : ∀ st : LoopState, (∀ v ∈ st.found, keeps v) →
            ∀ v ∈ (st.leave u).found, keeps v := by
          intro st hst v hv
          rcases List.mem_cons.1 hv with rfl | hv
          · exact hu
          · exact hst v hv
        have hfold : ∀ st : LoopState, (∀ v ∈ st.found, keeps v) →
            ∀ v ∈ ((turn u).foldl (endTurn greedy place turn fuel) st).found, keeps v :=
          fun st hst => foldl_keeps (fun st => ∀ v ∈ st.found, keeps v) ih (hturn u hu) hst
        rw [endTurn_of_pass hs hp]
        split
        · exact hleave _ (hfold (st.mark t.pos) hst)
        · exact hfold _ (hleave (st.mark t.pos) hst)

theorem foldl_endTurn_found {keeps : Thread → Prop}
    (hpass : ∀ t u, keeps t → t.pass? place = some u → keeps u)
    (hturn : ∀ t, keeps t → ∀ u ∈ turn t, keeps u) (fuel : Nat) (ts : List Thread)
    (hts : ∀ t ∈ ts, keeps t) :
    ∀ u ∈ (ts.foldl (endTurn greedy place turn fuel) {}).found, keeps u :=
  foldl_keeps (fun st => ∀ u ∈ st.found, keeps u)
    (fun st t ht hst => endTurn_found hpass hturn fuel st t ht hst) hts (by simp)

/-! ## Positions that were gone through -/

/-- What a thread of a loop needs so that its position can be gone through: behind the choices that it
has noted there is nothing but what is found (`aim`), or missing at this position (`owed`). -/
structure Ready (place : Place) (reach : Nat → Nat → Prop) (owns : List Nat → Prop)
    (owes : List Nat → Nat → Nat → Prop) (owed aim : Nat → Prop) (st : LoopState) (t : Thread) :
    Prop where
  inner : ∀ c ∈ t.passed, owns c → ∀ j, owes c t.pos j → aim j
  choice : ∀ c ∈ t.passed, place = some c →
    (st.seen.testBit t.pos ∨ owed t.pos) ∧ ∀ j, reach t.pos j → aim j

theorem Ready.grow {owed aim : Nat → Prop} {st st' : LoopState} {t : Thread}
    (h : Ready place reach owns owes owed aim st t) (hg : Grows st st') :
    Ready place reach owns owes owed aim st' t :=
  ⟨h.inner, fun c hc hp => ⟨(h.choice c hc hp).1.imp (hg.seen t.pos) id, (h.choice c hc hp).2⟩⟩

/-- From a state to a later one: each position that was gone through in between has a thread that
leaves the loop there, or is owed, and a turn from it leads to what is found. -/
structure Explored (reach : Nat → Nat → Prop) (owed aim : Nat → Prop) (st st' : LoopState) : Prop
    extends Grows st st' where
  new : ∀ i, st'.seen.testBit i → st.seen.testBit i ∨
    (((∃ u ∈ st'.found, u.pos = i) ∨ owed i) ∧ ∀ j, reach i j → aim j)

namespace Explored

variable {owed aim : Nat → Prop} {a b c : LoopState}

theorem refl (st : LoopState) : Explored reach owed aim st st :=
  ⟨Grows.refl st, fun _ h => Or.inl h⟩

theorem trans (h : Explored reach owed aim a b) (h' : Explored reach owed aim b c) :
    Explored reach owed aim a c := by
  refine ⟨h.toGrows.trans h'.toGrows, fun i hi => ?_⟩
  rcases h'.new i hi with hb | hn
  · refine (h.new i hb).imp id fun ⟨hl, hr⟩ => ⟨hl.imp ?_ id, hr⟩
    exact fun ⟨u, hu, hpos⟩ => ⟨u, h'.found u hu, hpos⟩
  · exact Or.inr hn

/-- A position is marked that needs no thread, or gets one later. -/
theorem of_mark {st : LoopState} {p : Nat} (hb : Explored reach owed aim (st.mark p) b)
    (hl : (∃ u ∈ b.found, u.pos = p) ∨ owed p) (hr : ∀ j, reach p j → aim j) :
    Explored reach owed aim st b := by
  refine ⟨(grows_mark st p).trans hb.toGrows, fun i hi => ?_⟩
  rcases hb.new i hi with hm | hn
  · rw [LoopState.mark, testBit_mark, Bool.or_eq_true, decide_eq_true_eq] at hm
    rcases hm with hm | rfl
    · exact Or.inl hm
    · exact Or.inr ⟨hl, hr⟩
  · exact Or.inr hn

theorem leave (h : Explored reach owed aim a b) (t : Thread) :
    Explored reach owed aim a (b.leave t) := by
  refine ⟨h.toGrows.trans (grows_leave b t), fun i hi => (h.new i hi).imp id ?_⟩
  exact fun ⟨hl, hr⟩ => ⟨hl.imp (fun ⟨u, hu, hpos⟩ => ⟨u, List.mem_cons_of_mem t hu, hpos⟩) id, hr⟩

theorem of_leave {t : Thread} (h : Explored reach owed aim (a.leave t) b) :
    Explored reach owed aim a b :=
  ⟨(grows_leave a t).trans h.toGrows, h.new⟩

end Explored

/-- Ready threads are gone through one after the other. -/
theorem explored_foldl {owed aim : Nat → Prop} {fuel : Nat}
    (hone : ∀ st t, t.pos ≤ length → length + 1 ≤ fuel + seenCount length st.seen →
      Ready place reach owns owes owed aim st t →
      (∀ i, (endTurn greedy place turn fuel st t).seen.testBit i → aim i) →
      Explored reach owed aim st (endTurn greedy place turn fuel st t))
    {ts : List Thread} {st : LoopState} (hts : ∀ t ∈ ts, t.pos ≤ length)
    (hfuel : length + 1 ≤ fuel + seenCount length st.seen)
    (hready : ∀ t ∈ ts, Ready place reach owns owes owed aim st t)
    (haim : ∀ i, (ts.foldl (endTurn greedy place turn fuel) st).seen.testBit i → aim i) :
    Explored reach owed aim st (ts.foldl (endTurn greedy place turn fuel) st) := by
  induction ts generalizing st with
  | nil => exact Explored.refl st
  | cons t ts ih =>
    -- What was seen for the first thread stays seen, so the fuel is enough for the others too.
    have hgrow := endTurn_grows greedy place turn fuel st t
    have hcount := seenCount_mono length hgrow.seen
    have hlater := foldl_grows (endTurn_grows greedy place turn fuel)
      ts (endTurn greedy place turn fuel st t)
    have hfirst := hone st t (hts t List.mem_cons_self) hfuel (hready t List.mem_cons_self)
      fun i hi => haim i (hlater.seen i hi)
    refine hfirst.trans (ih (fun u hu => hts u (List.mem_cons_of_mem t hu)) (by omega) ?_ haim)
    exact fun u hu => (hready u (List.mem_cons_of_mem t hu)).grow hgrow

section

variable {owed aim : Nat → Prop} {st st' : LoopState} {t u : Thread}

/-- A turn from a ready thread leads to what its own threads are found by, or to what a noted choice led to
before. -/
theorem Ready.reach_aim (hready : Ready place reach owns owes owed aim st t)
    (h : Listing length noting turn reach walk owns owes) (hown : ∀ c, place = some c → ¬owns c)
    (hp : t.pass? place = some u) (ht : t.pos ≤ length) (hturn : ∀ v ∈ turn u, aim v.pos) {j : Nat}
    (hj : reach t.pos j) : aim j := by
  have hpos := Thread.pos_of_stand (Thread.stand_of_pass? hp)
  rw [← hpos] at hj ht
  rcases h.listed u ht j hj with ⟨v, hv, rfl⟩ | ⟨c, hc, ho, hj⟩
  · exact hturn v hv
  · rcases Thread.passed_of_pass? hp c hc with hct | hpc
    · exact hready.inner c hct ho j (hpos ▸ hj)
    · exact absurd ho (hown c hpc)

/-- So what a turn from a ready thread gives is ready once its position was seen. -/
theorem Ready.of_turn (hready : Ready place reach owns owes owed aim st t)
    (h : Listing length noting turn reach walk owns owes) (hown : ∀ c, place = some c → ¬owns c)
    (hnote : ∀ c, place = some c → noting) (hp : t.pass? place = some u)
    (hseen : st'.seen.testBit t.pos) (hreach : ∀ j, reach t.pos j → aim j) :
    ∀ v ∈ turn u, Ready place reach owns owes owed aim st' v := by
  have hpos := Thread.pos_of_stand (Thread.stand_of_pass? hp)
  intro v hv
  constructor
  · intro c hc ho j hj
    -- Either the choice was noted before the turn, or what it owes is where the turn leads.
    rcases h.kept (h.noting_of_owns c ho) u v hv c hc with ⟨hcu, hpos'⟩ | ⟨-, hkept⟩
    · rcases Thread.passed_of_pass? hp c hcu with hct | hpc
      · exact hready.inner c hct ho j (by rwa [hpos', hpos] at hj)
      · exact absurd ho (hown c hpc)
    · exact hreach j (hpos ▸ hkept j hj)
  · intro c hc hpc
    rcases h.kept (hnote c hpc) u v hv c hc with ⟨-, hpos'⟩ | ⟨ho, -⟩
    · rw [hpos', hpos]
      exact ⟨Or.inl hseen, hreach⟩
    · exact absurd ho (hown c hpc)

end

/-- A ready thread is gone through. -/
theorem explored_endTurn (h : Listing length noting turn reach walk owns owes)
    (hown : ∀ c, place = some c → ¬owns c) (hnote : ∀ c, place = some c → noting)
    {owed aim : Nat → Prop} (fuel : Nat) (st : LoopState) (t : Thread) (ht : t.pos ≤ length)
    (hfuel : length + 1 ≤ fuel + seenCount length st.seen)
    (hready : Ready place reach owns owes owed aim st t)
    (haim : ∀ i, (endTurn greedy place turn fuel st t).seen.testBit i → aim i) :
    Explored reach owed aim st (endTurn greedy place turn fuel st t) := by
  induction fuel generalizing st t with
  | zero => exact Explored.refl st
  | succ fuel ih =>
    by_cases hs : st.seen.testBit t.pos
    · rw [endTurn_of_seen hs]
      exact Explored.refl st
    · -- The fuel that is spent here is made up for by the position that is marked.
      have hcount : length + 1 ≤ fuel + seenCount length (st.mark t.pos).seen := by
        have hlt : seenCount length st.seen < seenCount length (st.mark t.pos).seen :=
          seenCount_mark ht hs
        omega
      rcases hp : t.pass? place with _ | u
      · -- The thread is stopped, so its position is owed or was seen before.
        rw [endTurn_of_stopped hs hp]
        obtain ⟨c, hc, hpc⟩ := Thread.exists_passed_of_pass? hp
        obtain ⟨hl, hr⟩ := hready.choice c hc hpc
        exact (Explored.refl _).of_mark (Or.inr (hl.resolve_left hs)) hr
      · have hpos := Thread.pos_of_stand (Thread.stand_of_pass? hp)
        have hin : ∀ v ∈ turn u, v.pos ≤ length := fun v hv =>
          h.inside _ _ (h.reach_of_mem hv) (hpos ▸ ht)
        -- The same holds of the state with the position marked, whether the thread left before or not.
        have hturn : ∀ st' : LoopState, st'.seen = (st.mark t.pos).seen →
            (∀ i, ((turn u).foldl (endTurn greedy place turn fuel) st').seen.testBit i → aim i) →
            (∀ j, reach t.pos j → aim j) ∧
            Explored reach owed aim st' ((turn u).foldl (endTurn greedy place turn fuel) st') := by
          intro st' hst' haim
          have hseen : st'.seen.testBit t.pos := hst' ▸ testBit_mark_self st t.pos
          have hreach : ∀ j, reach t.pos j → aim j := fun j hj =>
            hready.reach_aim h hown hp ht
              (fun v hv => haim v.pos (foldl_endTurn_seen hin (hst' ▸ hcount) v hv)) hj
          exact ⟨hreach, explored_foldl ih hin (hst' ▸ hcount)
            (hready.of_turn h hown hnote hp hseen hreach) haim⟩
        rw [endTurn_of_pass hs hp] at haim ⊢
        -- A greedy loop leaves behind its turns, any other one before them.
        by_cases hg : greedy
        · rw [if_pos hg] at haim ⊢
          obtain ⟨hreach, hexplored⟩ := hturn (st.mark t.pos) rfl haim
          exact (hexplored.leave u).of_mark (Or.inl ⟨u, List.mem_cons_self, hpos⟩) hreach
        · rw [if_neg hg] at haim ⊢
          obtain ⟨hreach, hexplored⟩ := hturn ((st.mark t.pos).leave u) rfl haim
          have hlater := foldl_grows (endTurn_grows greedy place turn fuel) (turn u)
            ((st.mark t.pos).leave u)
          exact hexplored.of_leave.of_mark (Or.inl ⟨u, hlater.found u List.mem_cons_self, hpos⟩) hreach

/-- Where turns lead from the positions at which a loop begins, there is a thread that leaves it, or
the position was owed before. -/
theorem listed_of_anyTurns (greedy : Bool) (h : Listing length noting turn reach walk owns owes)
    (hown : ∀ c, place = some c → ¬owns c) (hnote : ∀ c, place = some c → noting)
    (owed : Nat → Prop) (howed : ∀ i j, owed i → reach i j → owed j) (ts : List Thread)
    (hts : ∀ t ∈ ts, t.pos ≤ length)
    (hinner : ∀ t ∈ ts, ∀ c ∈ t.passed, owns c → ∀ j, owes c t.pos j →
      (∃ u ∈ ts, u.pos = j) ∨ owed j)
    (hchoice : ∀ t ∈ ts, ∀ c ∈ t.passed, place = some c → owed t.pos) {i j : Nat}
    (hi : (∃ t ∈ ts, t.pos = i) ∨ owed i) (hij : AnyTurns reach i j) :
    (∃ u ∈ (ts.foldl (endTurn greedy place turn (length + 1)) {}).found, u.pos = j) ∨ owed j := by
  let last := ts.foldl (endTurn greedy place turn (length + 1)) {}
  -- A position is aimed at if it was gone through in the end, or if it was owed from the start.
  let aim (j : Nat) : Prop := last.seen.testBit j ∨ owed j
  have hseen : ∀ t ∈ ts, last.seen.testBit t.pos := foldl_endTurn_seen hts (by omega)
  have hexp : Explored reach owed aim {} last := by
    refine explored_foldl (explored_endTurn h hown hnote _) hts (by omega) (fun t ht => ⟨?_, ?_⟩)
      fun i hi => Or.inl hi
    · intro c hc ho j hj
      refine (hinner t ht c hc ho j hj).imp ?_ id
      rintro ⟨u, hu, rfl⟩
      exact hseen u hu
    · intro c hc hp
      have ho := hchoice t ht c hc hp
      exact ⟨Or.inr ho, fun j hj => Or.inr (howed t.pos j ho hj)⟩
  have hnew : ∀ i, last.seen.testBit i →
      ((∃ u ∈ last.found, u.pos = i) ∨ owed i) ∧ ∀ j, reach i j → aim j := fun i hi =>
    (hexp.new i hi).resolve_left (by simp)
  -- So the positions that are aimed at are closed under turns, and hold all that turns lead to.
  have hstep : ∀ a b, aim a → reach a b → aim b := fun a b ha hab =>
    ha.elim (fun ha => (hnew a ha).2 b hab) (fun ha => Or.inr (howed a b ha hab))
  have haim : aim i := by
    refine hi.imp ?_ id
    rintro ⟨t, ht, rfl⟩
    exact hseen t ht
  obtain ⟨n, hn⟩ := hij
  have hj : aim j := hn.keeps (fun a b hab ha => hstep a b ha hab) haim
  exact hj.elim (fun hj => (hnew j hj).1) Or.inr

/-! ## Loops -/

/-- What the choice of a loop, or one inside it, still leads to. -/
def owesLoop (place : Place) (owns : List Nat → Prop) (owes : List Nat → Nat → Nat → Prop)
    (reach : Nat → Nat → Prop) (c : List Nat) (i j : Nat) : Prop :=
  (owns c ∧ ∃ k, owes c i k ∧ AnyTurns reach k j) ∨ (place = some c ∧ AnyTurns reach i j)

theorem owesLoop.snoc {c : List Nat} {i j k : Nat} (h : owesLoop place owns owes reach c i j)
    (hjk : reach j k) : owesLoop place owns owes reach c i k := by
  rcases h with ⟨ho, m, hm, hj⟩ | ⟨hp, hj⟩
  · exact Or.inl ⟨ho, m, hm, hj.snoc hjk⟩
  · exact Or.inr ⟨hp, hj.snoc hjk⟩

/-- A thread on its way through a loop that a thread came to: it stands where the loop can lead, and
so do the positions that its noted choices still lead to. -/
structure OnWay (noting : Prop) (place : Place) (owns : List Nat → Prop)
    (owes : List Nat → Nat → Nat → Prop) (reach : Nat → Nat → Prop) (origin : Thread)
    (led : Stand → Prop) (goal : Nat → Prop) (t : Thread) : Prop where
  stand : led t.stand
  leads : ∀ j, AnyTurns reach t.pos j → goal j
  kept : noting → ∀ c ∈ t.passed, (c ∈ origin.passed ∧ t.pos = origin.pos) ∨
    ((owns c ∨ place = some c) ∧ ∀ j, owesLoop place owns owes reach c t.pos j → goal j)

namespace OnWay

variable {origin : Thread} {led : Stand → Prop} {goal : Nat → Prop}

theorem pass (hown : ∀ c, place = some c → ¬owns c) {t u : Thread}
    (h : OnWay noting place owns owes reach origin led goal t) (hp : t.pass? place = some u) :
    OnWay noting place owns owes reach origin led goal u := by
  have hst := Thread.stand_of_pass? hp
  have hpos := Thread.pos_of_stand hst
  refine ⟨hst ▸ h.stand, hpos ▸ h.leads, fun hn c hc => ?_⟩
  rcases Thread.passed_of_pass? hp c hc with hct | hpc
  · exact hpos ▸ h.kept hn c hct
  · refine Or.inr ⟨Or.inr hpc, fun j hj => ?_⟩
    rcases hj with ⟨ho, -⟩ | ⟨-, hj⟩
    · exact absurd ho (hown c hpc)
    · exact h.leads j (hpos ▸ hj)

/-- What a turn gives is on its way if its start was, or if it leads where the loop is to lead. -/
theorem take (h : Listing length noting turn reach walk owns owes)
    (hown : ∀ c, place = some c → ¬owns c) {t : Thread}
    (hled : ∀ s, walk t.stand s → led s)
    (hgoal : ∀ k j, reach t.pos k → AnyTurns reach k j → goal j)
    (hkept : noting → ∀ c ∈ t.passed, (c ∈ origin.passed ∧ t.pos = origin.pos) ∨
      ((owns c ∨ place = some c) ∧ ∀ j, owesLoop place owns owes reach c t.pos j → goal j)) :
    ∀ u ∈ turn t, OnWay noting place owns owes reach origin led goal u := by
  intro u hu
  refine ⟨hled _ (h.sound t u hu), fun j hj => hgoal _ j (h.reach_of_mem hu) hj, fun hn c hc => ?_⟩
  rcases h.kept hn t u hu c hc with ⟨hct, hpos⟩ | ⟨ho, hreach⟩
  · rw [hpos]
    exact hkept hn c hct
  · refine Or.inr ⟨Or.inl ho, fun j hj => ?_⟩
    rcases hj with ⟨-, k, hk, hkj⟩ | ⟨hp, -⟩
    · exact hgoal k j (hreach k hk) hkj
    · exact absurd ho (hown c hp)

end OnWay

namespace Listing

theorem anyTurns_reach (h : Listing length noting turn reach walk owns owes) {s s' : Stand}
    (hs : AnyTurns walk s s') : AnyTurns reach s.pos s'.pos :=
  hs.map Stand.pos h.reach_of_walk

theorem anyTurns_inside (h : Listing length noting turn reach walk owns owes) {i j : Nat}
    (hij : AnyTurns reach i j) (hi : i ≤ length) : j ≤ length := by
  obtain ⟨n, hn⟩ := hij
  exact hn.keeps (P := (· ≤ length)) h.inside hi

variable (greedy)

/-- Turns as many as there may be, or none. -/
theorem runTurns (h : Listing length noting turn reach walk owns owes)
    (hown : ∀ c, place = some c → ¬owns c) (hnote : ∀ c, place = some c → noting) :
    Listing length noting (runTurns greedy place turn (length + 1)) (AnyTurns reach)
      (AnyTurns walk) (fun c => owns c ∨ place = some c) (owesLoop place owns owes reach) := by
  have hway : ∀ t, ∀ u ∈ Regex.runTurns greedy place turn (length + 1) t,
      OnWay noting place owns owes reach t (AnyTurns walk t.stand) (AnyTurns reach t.pos) u := by
    intro t u hu
    have hstart : OnWay noting place owns owes reach t (AnyTurns walk t.stand)
        (AnyTurns reach t.pos) t :=
      ⟨AnyTurns.refl _, fun j hj => hj, fun _ c hc => Or.inl ⟨hc, rfl⟩⟩
    rw [Regex.runTurns, List.mem_reverse] at hu
    refine foldl_endTurn_found (fun t' u' ht' hp => ht'.pass hown hp) ?_ (length + 1) [t] (by simpa)
      u hu
    intro v hv
    exact OnWay.take h hown (fun s hs => hv.stand.snoc hs)
      (fun k j hk hkj => hv.leads j (((AnyTurns.refl _).snoc hk).trans hkj)) hv.kept
  refine ⟨fun t u hu => (hway t u hu).stand, fun s s' hs => h.anyTurns_reach hs,
    fun i j hij hi => h.anyTurns_inside hij hi, ?_, fun hn t u hu c hc => (hway t u hu).kept hn c hc,
    ?_⟩
  · rintro c (hc | hc)
    · exact h.noting_of_owns c hc
    · exact hnote c hc
  · intro t ht j hj
    let owed (j : Nat) : Prop :=
      ∃ c ∈ t.passed, (owns c ∨ place = some c) ∧ owesLoop place owns owes reach c t.pos j
    have hlist := listed_of_anyTurns greedy h hown hnote owed
      (fun i j ⟨c, hc, ho, hi⟩ hij => ⟨c, hc, ho, hi.snoc hij⟩) [t] (by simpa) ?_ ?_
      (Or.inl ⟨t, by simp, rfl⟩) hj
    · exact hlist.imp (fun ⟨u, hu, hpos⟩ => ⟨u, List.mem_reverse.2 hu, hpos⟩) id
    · intro u hu c hc ho j hj
      rw [List.mem_singleton.1 hu] at hc hj
      exact Or.inr ⟨c, hc, Or.inl ho, Or.inl ⟨ho, j, hj, AnyTurns.refl j⟩⟩
    · intro u hu c hc hp
      rw [List.mem_singleton.1 hu] at hc ⊢
      exact ⟨c, hc, Or.inr hp, Or.inr ⟨hp, AnyTurns.refl _⟩⟩

/-- Turns as many as there may be, but one at least. -/
theorem runLoop (h : Listing length noting turn reach walk owns owes)
    (hown : ∀ c, place = some c → ¬owns c) (hnote : ∀ c, place = some c → noting) :
    Listing length noting (runLoop greedy place turn (length + 1))
      (fun i j => ∃ k, reach i k ∧ AnyTurns reach k j) (fun s t => ∃ u, walk s u ∧ AnyTurns walk u t)
      (fun c => owns c ∨ place = some c) (owesLoop place owns owes reach) := by
  have hway : ∀ t, ∀ u ∈ Regex.runLoop greedy place turn (length + 1) t,
      OnWay noting place owns owes reach t (fun s => ∃ u, walk t.stand u ∧ AnyTurns walk u s)
        (fun j => ∃ k, reach t.pos k ∧ AnyTurns reach k j) u := by
    intro t u hu
    rw [Regex.runLoop, List.mem_reverse] at hu
    refine foldl_endTurn_found (fun t' u' ht' hp => ht'.pass hown hp) ?_ (length + 1) (turn t) ?_ u hu
    · intro v hv
      refine OnWay.take h hown ?_ (fun k j hk hkj => hv.leads j (((AnyTurns.refl _).snoc hk).trans hkj))
        hv.kept
      obtain ⟨w, hw, hwv⟩ := hv.stand
      exact fun s hs => ⟨w, hw, hwv.snoc hs⟩
    · exact OnWay.take h hown (fun s hs => ⟨s, hs, AnyTurns.refl s⟩) (fun k j hk hkj => ⟨k, hk, hkj⟩)
        fun _ c hc => Or.inl ⟨hc, rfl⟩
  refine ⟨fun t u hu => (hway t u hu).stand, ?_, ?_, ?_,
    fun hn t u hu c hc => (hway t u hu).kept hn c hc, ?_⟩
  · intro s s' ⟨u, hu, hus⟩
    exact ⟨u.pos, h.reach_of_walk s u hu, h.anyTurns_reach hus⟩
  · intro i j ⟨k, hk, hkj⟩ hi
    exact h.anyTurns_inside hkj (h.inside i k hk hi)
  · rintro c (hc | hc)
    · exact h.noting_of_owns c hc
    · exact hnote c hc
  · intro t ht j ⟨k, hk, hkj⟩
    let owed (j : Nat) : Prop :=
      ∃ c ∈ t.passed, (owns c ∨ place = some c) ∧ owesLoop place owns owes reach c t.pos j
    have hfirst : ∀ k, reach t.pos k → (∃ u ∈ turn t, u.pos = k) ∨ owed k := by
      intro k hk
      refine (h.listed t ht k hk).imp id ?_
      intro ⟨c, hc, ho, hj⟩
      exact ⟨c, hc, Or.inl ho, Or.inl ⟨ho, k, hj, AnyTurns.refl k⟩⟩
    have hlist := listed_of_anyTurns greedy h hown hnote owed
      (fun i j ⟨c, hc, ho, hi⟩ hij => ⟨c, hc, ho, hi.snoc hij⟩) (turn t)
      (fun u hu => h.inside _ _ (h.reach_of_mem hu) ht) ?_ ?_ (hfirst k hk) hkj
    · exact hlist.imp (fun ⟨u, hu, hpos⟩ => ⟨u, List.mem_reverse.2 hu, hpos⟩) id
    · intro u hu c hc ho j hj
      rcases h.kept (h.noting_of_owns c ho) t u hu c hc with ⟨hct, hpos⟩ | ⟨-, hreach⟩
      · exact Or.inr ⟨c, hct, Or.inl ho, Or.inl ⟨ho, j, hpos ▸ hj, AnyTurns.refl j⟩⟩
      · exact hfirst j (hreach j hj)
    · intro u hu c hc hp
      rcases h.kept (hnote c hp) t u hu c hc with ⟨hct, hpos⟩ | ⟨ho, -⟩
      · exact ⟨c, hct, Or.inr hp, Or.inr ⟨hp, hpos ▸ AnyTurns.refl _⟩⟩
      · exact absurd ho (hown c hp)

end Listing

end RequestRouting.Regex
