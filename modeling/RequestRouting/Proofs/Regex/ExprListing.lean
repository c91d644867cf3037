import RequestRouting.Proofs.Regex.RepListing

/-!
What the threads that leave an expression stand for.

`listing_all` says it of the matcher of any expression, by induction on the expression: each part
notes its choices under places of its own. A thread that leaves an expression went a way through it, and
wherever the expression leads there is a thread, unless a choice was noted before.
-/

namespace RequestRouting.Regex

/-! ## Places -/

/-- Whether a choice stands at a place or in the part that is there. -/
def Place.owns (p : Place) (c : List Nat) : Prop := ∃ q, p = some q ∧ q <:+ c

namespace Place

variable {p : Place} {c : List Nat} {k k' : Nat}

theorem isSome_of_owns (h : p.owns c) : p.isSome := by
  obtain ⟨q, rfl, -⟩ := h
  rfl

theorem owns_self (h : p = some c) : p.owns c := ⟨c, h, List.suffix_refl c⟩

theorem owns_of_part (h : (p.part k).owns c) : p.owns c := by
  obtain ⟨q, hq, hs⟩ := h
  obtain ⟨r, rfl, rfl⟩ := Option.map_eq_some_iff.1 hq
  exact ⟨r, rfl, (List.suffix_cons k r).trans hs⟩

theorem part_inj (h : (p.part k).owns c) (h' : (p.part k').owns c) : k = k' := by
  obtain ⟨q, hq, a, rfl⟩ := h
  obtain ⟨q', hq', b, hb⟩ := h'
  obtain ⟨r, rfl, rfl⟩ := Option.map_eq_some_iff.1 hq
  obtain ⟨r', hr, rfl⟩ := Option.map_eq_some_iff.1 hq'
  cases hr
  exact ((List.cons.inj (List.append_inj_right' hb rfl)).1).symm

theorem not_part_owns (h : p = some c) : ¬(p.part k).owns c := by
  intro ⟨q, hq, hs⟩
  obtain ⟨r, hr, rfl⟩ := Option.map_eq_some_iff.1 hq
  rw [h] at hr
  cases hr
  have hlen := hs.length_le
  rw [List.length_cons] at hlen
  omega

theorem ne_of_part_owns (hk : k ≠ k') (h : (p.part k).owns c) : p.part k' ≠ some c :=
  fun h' => hk (part_inj h (owns_self h'))

theorem isSome_of_part (h : p.part k = some c) : p.isSome := by
  obtain ⟨r, rfl, -⟩ := Option.map_eq_some_iff.1 h
  rfl

@[simp]
theorem part_isSome (p : Place) (k : Nat) : (p.part k).isSome = p.isSome := Option.isSome_map

end Place

/-! ## Repetitions -/

/-- A way of listing threads that notes its choices under whatever place it is given. -/
def ListingAt (length : Nat) (f : Place → Thread → List Thread) (reach : Nat → Nat → Prop)
    (walk : Stand → Stand → Prop) : Prop :=
  ∀ p : Place, ∃ owes, Listing length p.isSome (f p) reach walk p.owns owes

theorem Listing.startNoting {length : Nat} {f : Thread → List Thread} {reach : Nat → Nat → Prop}
    {walk : Stand → Stand → Prop} {p q : Place} {owes : List Nat → Nat → Nat → Prop}
    (h : Listing length q.isSome f reach walk q.owns owes) (hq : p.isSome → q = p) :
    ∃ owes, Listing length p.isSome (fun t => f (startNoting p t)) reach walk p.owns owes := by
  cases p with
  | none =>
    exact ⟨owes, (h.forget (by simp)).widen (fun c hc => hc.elim) fun _ => Place.isSome_of_owns⟩
  | some r =>
    rw [hq rfl] at h
    exact ⟨owes, h⟩

theorem loopPlace_eq {p : Place} (nullable : Bool) (h : p.isSome) : loopPlace nullable p = p := by
  cases p with
  | none => cases h
  | some q => cases nullable <;> rfl

theorem anyTurns_iff {α : Type} {step : α → α → Prop} {a b : α} :
    AnyTurns step a b ↔ ∃ n, InBounds 0 none n ∧ Turns step n a b := by
  simp [AnyTurns, InBounds]

theorem maybeTurns_iff {α : Type} {step : α → α → Prop} {a c : α} :
    ((∃ b, step a b ∧ AnyTurns step b c) ∨ a = c) ↔ ∃ n, InBounds 0 none n ∧ Turns step n a c := by
  rw [← anyTurns_iff]
  constructor
  · rintro (⟨b, hab, n, hn⟩ | rfl)
    · exact ⟨n + 1, b, hab, hn⟩
    · exact AnyTurns.refl a
  · intro ⟨n, hn⟩
    cases n with
    | zero => exact Or.inr hn
    | succ n =>
      obtain ⟨b, hab, hbc⟩ := hn
      exact Or.inl ⟨b, hab, n, hbc⟩

theorem someTurns_iff {α : Type} {step : α → α → Prop} {least : Nat} {a c : α} :
    (∃ b, Turns step least a b ∧ ∃ d, step b d ∧ AnyTurns step d c) ↔
      ∃ n, InBounds (least + 1) none n ∧ Turns step n a c := by
  constructor
  · intro ⟨b, hab, d, hbd, n, hn⟩
    exact ⟨least + (n + 1), ⟨by omega, by simp⟩, hab.append ⟨d, hbd, hn⟩⟩
  · rintro ⟨n, ⟨hn, -⟩, h⟩
    obtain ⟨m, rfl⟩ := Nat.exists_eq_add_of_le hn
    rw [Nat.add_assoc, Nat.add_comm 1 m] at h
    obtain ⟨b, hab, d, hbd, hdc⟩ := h.split
    exact ⟨b, hab, d, hbd, m, hdc⟩

theorem optionalTurns_iff {α : Type} {step : α → α → Prop} {least most : Nat} {a c : α} :
    (∃ n ≤ most - least, ∃ b, Turns step least a b ∧ Turns step n b c) ↔
      ∃ n, InBounds least (some most) n ∧ Turns step n a c := by
  constructor
  · intro ⟨n, hn, b, hab, hbc⟩
    exact ⟨least + n, ⟨by omega, fun m hm => by cases hm; omega⟩, hab.append hbc⟩
  · intro ⟨n, ⟨hn, hm⟩, h⟩
    obtain ⟨m, rfl⟩ := Nat.exists_eq_add_of_le hn
    have := hm most rfl
    obtain ⟨b, hab, hbc⟩ := h.split
    exact ⟨m, by omega, b, hab, hbc⟩

variable {length : Nat} {reach : Nat → Nat → Prop} {walk : Stand → Stand → Prop}
  {body : Place → Thread → List Thread}

/-- A body that is given the place of a part notes its choices if those of the whole are noted. -/
theorem Listing.inPart {f : Thread → List Thread} {p : Place} {k : Nat}
    {owes : List Nat → Nat → Nat → Prop}
    (h : Listing length (p.part k).isSome f reach walk (p.part k).owns owes) :
    Listing length p.isSome f reach walk (p.part k).owns owes :=
  h.renote (fun hp => by rwa [Place.part_isSome]) fun _ hc => Place.isSome_of_owns (Place.owns_of_part hc)

theorem listing_runCopies (h : ListingAt length body reach walk) (p : Place) (n : Nat) :
    ∃ owes, Listing length p.isSome (fun t => runCopies (fun k => body (p.part (2 * k))) 0 n [t])
      (Turns reach n) (Turns walk n) (fun c => ∃ k < n, (p.part (2 * k)).owns c) owes := by
  choose owes hbody using h
  have hcopy := fun k => (hbody (p.part (2 * k))).inPart
  exact Listing.runCopies hcopy (fun k k' c hc hc' => by have := Place.part_inj hc hc'; omega) n

theorem listing_bounded (h : ListingAt length body reach walk) (greedy : Bool) (p : Place)
    (least most : Nat) :
    ∃ owes, Listing length p.isSome
      (fun t => runOptional greedy (fun k => p.part (2 * k + 1)) (fun k => body (p.part (2 * k)))
        least (most - least) ((runCopies (fun k => body (p.part (2 * k))) 0 least [t]).map .going))
      (fun i j => ∃ n, InBounds least (some most) n ∧ Turns reach n i j)
      (fun s t => ∃ n, InBounds least (some most) n ∧ Turns walk n s t) p.owns owes := by
  obtain ⟨owes₀, h₀⟩ := listing_runCopies h p least
  choose owes hbody using h
  -- The copies that may be left out come behind the others: copy `k` of them stands in part
  -- `2 * (least + k)`, and the choice whether to go through it in the part behind that.
  let P : OptionalParts :=
    { reach₀ := Turns reach least
      walk₀ := Turns walk least
      owns₀ := fun c => ∃ k < least, (p.part (2 * k)).owns c
      owes₀
      reach
      walk
      owns := fun k => (p.part (2 * (least + k))).owns
      owes := fun k => owes (p.part (2 * (least + k)))
      place := fun k => p.part (2 * (least + k) + 1) }
  have hd : P.Disjoint := by
    constructor
    · intro k c ⟨k', hk', hc⟩ hc'
      have := Place.part_inj hc hc'
      omega
    · intro k c ⟨k', hk', hc⟩
      exact Place.ne_of_part_owns (by omega) hc
    · intro k k' c hc hc'
      have := Place.part_inj hc hc'
      omega
    · intro k k' c hc
      exact Place.ne_of_part_owns (by omega) hc
    · intro k k' c hc hc'
      have := Place.part_inj (Place.owns_self hc) (Place.owns_self hc')
      omega
  have hcopies : ∀ k, Listing length p.isSome (body (p.part (2 * (least + k)))) P.reach P.walk
      (P.owns k) (P.owes k) := fun k => (hbody _).inPart
  have hlist := P.listing greedy h₀ hcopies hd (fun k c hc => Place.isSome_of_part hc) (most - least)
  have hwide : ∀ c, (P.owns₀ c ∨ ∃ k < most - least, P.owns k c ∨ P.place k = some c) →
      p.owns c := by
    rintro c (⟨k, -, hc⟩ | ⟨k, -, hc | hc⟩)
    · exact Place.owns_of_part hc
    · exact Place.owns_of_part hc
    · exact Place.owns_of_part (Place.owns_self hc)
  refine ⟨_, ((hlist.congr (fun i j => optionalTurns_iff) (fun s s' => optionalTurns_iff)).widen
    hwide fun _ => Place.isSome_of_owns).thin ?_ ?_⟩
  · intro t u hu
    rwa [runOptional_eq] at hu
  · intro t u hu
    exact ⟨u, by rwa [runOptional_eq], rfl⟩

/-- One turn or more of a body that stands in a part other than the choice of the loop. -/
theorem listing_loop (h : ListingAt length body reach walk) (greedy : Bool) (q : Place) {k : Nat}
    (hk : k ≠ 1) :
    ∃ owes, Listing length q.isSome
      (runLoop greedy (q.part 1) (body (q.part k)) (length + 1))
      (fun i j => ∃ m, reach i m ∧ AnyTurns reach m j) (fun s t => ∃ u, walk s u ∧ AnyTurns walk u t)
      (fun c => (q.part k).owns c ∨ q.part 1 = some c) owes := by
  obtain ⟨owes, hbody⟩ := h (q.part k)
  have hown : ∀ c, q.part 1 = some c → ¬(q.part k).owns c :=
    fun c hc ho => Place.ne_of_part_owns hk ho hc
  exact ⟨_, hbody.inPart.runLoop greedy hown fun c hc => Place.isSome_of_part hc⟩

/-- A loop that may be left at once. -/
theorem listing_maybeLoop (h : ListingAt length body reach walk) (greedy : Bool) (q : Place) :
    ∃ owes, Listing length q.isSome
      (runMaybe greedy (q.part 3) (runLoop greedy (q.part 1) (body (q.part 0)) (length + 1)))
      (fun i j => ∃ n, InBounds 0 none n ∧ Turns reach n i j)
      (fun s t => ∃ n, InBounds 0 none n ∧ Turns walk n s t) q.owns owes := by
  obtain ⟨owes, hloop⟩ := listing_loop h greedy q Nat.zero_ne_one
  have hmaybe := ((hloop.union (Listing.single length q.isSome) fun _ _ hc => hc).congr
    (fun i j => maybeTurns_iff) fun s s' => maybeTurns_iff).widen
    (fun c hc => hc.resolve_right id) hloop.noting_of_owns
  have hown : ∀ c, q.part 3 = some c → ¬((q.part 0).owns c ∨ q.part 1 = some c) := by
    rintro c hc (ho | hc')
    · exact Place.ne_of_part_owns (by omega) ho hc
    · have := Place.part_inj (Place.owns_self hc) (Place.owns_self hc')
      omega
  have hwide : ∀ c, ((q.part 0).owns c ∨ q.part 1 = some c) ∨ q.part 3 = some c → q.owns c := by
    rintro c ((hc | hc) | hc)
    · exact Place.owns_of_part hc
    · exact Place.owns_of_part (Place.owns_self hc)
    · exact Place.owns_of_part (Place.owns_self hc)
  -- The way out stands behind the loop or before it.
  have hguard := ((hmaybe.thin (g := fun t => Thread.distinct
    (if greedy then runLoop greedy (q.part 1) (body (q.part 0)) (length + 1) t ++ [t]
      else t :: runLoop greedy (q.part 1) (body (q.part 0)) (length + 1) t)) ?_ ?_).guard
    (fun c hc => Place.isSome_of_part hc) hown).widen hwide fun _ => Place.isSome_of_owns
  · exact ⟨_, hguard⟩
  · intro t u hu
    have hu := Thread.mem_of_mem_distinct hu
    split at hu
    · exact hu
    · exact List.mem_append.2 ((List.mem_cons.1 hu).symm.imp id List.mem_singleton.2)
  · intro t u hu
    apply Thread.exists_mem_distinct
    split
    · exact hu
    · exact List.mem_cons.2 ((List.mem_append.1 hu).symm.imp List.mem_singleton.1 id)

/-- One turn more than some copies, and then a loop. -/
theorem listing_someTurns (h : ListingAt length body reach walk) (greedy : Bool) (q : Place)
    (least : Nat) :
    ∃ owes, Listing length q.isSome
      (fun t => Thread.distinct ((runCopies (fun k => body (q.part (2 * k))) 0 least [t]).flatMap
        (runLoop greedy (q.part 1) (body (q.part (2 * least))) (length + 1))))
      (fun i j => ∃ n, InBounds (least + 1) none n ∧ Turns reach n i j)
      (fun s t => ∃ n, InBounds (least + 1) none n ∧ Turns walk n s t) q.owns owes := by
  obtain ⟨owes₀, hcopies⟩ := listing_runCopies h q least
  obtain ⟨owes, hloop⟩ := listing_loop h greedy q (show 2 * least ≠ 1 by omega)
  have hdisjoint : ∀ c, (∃ k < least, (q.part (2 * k)).owns c) →
      ¬((q.part (2 * least)).owns c ∨ q.part 1 = some c) := by
    rintro c ⟨k, hk, hc⟩ (hc' | hc')
    · have := Place.part_inj hc hc'
      omega
    · exact Place.ne_of_part_owns (by omega) hc hc'
  have hwide : ∀ c, (∃ k < least, (q.part (2 * k)).owns c) ∨
      ((q.part (2 * least)).owns c ∨ q.part 1 = some c) → q.owns c := by
    rintro c (⟨k, -, hc⟩ | hc | hc)
    · exact Place.owns_of_part hc
    · exact Place.owns_of_part hc
    · exact Place.owns_of_part (Place.owns_self hc)
  have hall := ((hcopies.bind hloop hdisjoint).distinct).congr (fun i j => someTurns_iff)
    fun s s' => someTurns_iff
  exact ⟨_, hall.widen hwide fun _ => Place.isSome_of_owns⟩

/-- A body taken any number of times that cannot come back to where it was: no choice is noted
beyond those of the body. -/
theorem listing_runTurns (h : ListingAt length body reach walk) (greedy : Bool) (p : Place) :
    ∃ owes, Listing length p.isSome (runTurns greedy (p.part 1) (body (p.part 0)) (length + 1))
      (fun i j => ∃ n, InBounds 0 none n ∧ Turns reach n i j)
      (fun s t => ∃ n, InBounds 0 none n ∧ Turns walk n s t) p.owns owes := by
  obtain ⟨owes, hbody⟩ := h (p.part 0)
  have hown : ∀ c, p.part 1 = some c → ¬(p.part 0).owns c :=
    fun c hc ho => Place.ne_of_part_owns Nat.zero_ne_one ho hc
  have hwide : ∀ c, (p.part 0).owns c ∨ p.part 1 = some c → p.owns c := by
    rintro c (hc | hc)
    · exact Place.owns_of_part hc
    · exact Place.owns_of_part (Place.owns_self hc)
  have hturns := (hbody.inPart.runTurns greedy hown fun c hc => Place.isSome_of_part hc).congr
    (fun i j => anyTurns_iff) fun s s' => anyTurns_iff
  exact ⟨_, hturns.widen hwide fun _ => Place.isSome_of_owns⟩

theorem listing_runRepeated (h : ListingAt length body reach walk) (nullable greedy : Bool)
    (least : Nat) (most : Option Nat) :
    ListingAt length (fun p t => runRepeated nullable greedy body (length + 1) p t least most)
      (fun i j => ∃ n, InBounds least most n ∧ Turns reach n i j)
      (fun s t => ∃ n, InBounds least most n ∧ Turns walk n s t) := by
  intro p
  match most, least with
  | some most, least => exact listing_bounded h greedy p least most
  | none, 0 =>
    cases nullable with
    | false => exact listing_runTurns h greedy p
    | true =>
      obtain ⟨owes, hloop⟩ := listing_maybeLoop h greedy (loopPlace true p)
      exact hloop.startNoting (loopPlace_eq true)
  | none, least + 1 =>
    obtain ⟨owes, hloop⟩ := listing_someTurns h greedy (loopPlace nullable p) least
    exact hloop.startNoting (loopPlace_eq nullable)

/-! ## Expressions -/

theorem Matcher.repeated_all (nullable greedy : Bool) (fuel least : Nat) (most : Option Nat)
    (m : Matcher) : (m.repeated nullable greedy fuel least most).all =
      fun p t => runRepeated nullable greedy m.all fuel p t least most := by
  cases most with
  | some most => rfl
  | none => cases nullable <;> rfl

theorem testBit_charMarks (text : List Char) (set : CharSet) (i : Nat) :
    (Positions.marks (fun _ after => after.any set.contains) none text).testBit i =
      takes text set i := by
  rw [Positions.testBit_marks, takes]
  by_cases hi : i ≤ text.length
  · rw [decide_eq_true hi, Bool.true_and]
  · rw [List.getElem?_eq_none (by omega), decide_eq_false hi]
    rfl

theorem testBit_lookMarks (text : List Char) (l : Look) (i : Nat) :
    (Positions.marks (fun before after => l.holdsBetween before after) none text).testBit i =
      holdsAt text l i :=
  Positions.testBit_marks _ none text i

theorem all_char (text : List Char) (set : CharSet) (p : Place) (t : Thread) :
    ((Expr.char set).matcher text).all p t = if takes text set t.pos then [t.advance] else [] := by
  rw [← testBit_charMarks]
  rfl

theorem all_look (text : List Char) (l : Look) (p : Place) (t : Thread) :
    ((Expr.look l).matcher text).all p t = if holdsAt text l t.pos then [t] else [] := by
  rw [← testBit_lookMarks]
  rfl

variable {text : List Char}

/-- What the matcher of an expression lists. -/
theorem listing_all (e : Expr) (text : List Char) :
    ListingAt text.length (e.matcher text).all (e.Reaches text) (e.Walk text) := by
  have hown : ∀ p : Place, ∀ c, False → p.owns c := fun _ _ hc => hc.elim
  induction e with
  | empty =>
    intro p
    exact ⟨_, (Listing.single text.length p.isSome).widen (hown p) fun _ => Place.isSome_of_owns⟩
  | char set =>
    intro p
    have hin : ∀ i, takes text set i → i < text.length := fun _ => takes_lt
    have hchar := (Listing.move p.isSome hin).widen (hown p) fun _ => Place.isSome_of_owns
    rw [funext fun t => all_char text set p t]
    exact ⟨_, hchar⟩
  | look l =>
    intro p
    have hlook := (Listing.stay text.length p.isSome (holdsAt text l)).widen (hown p)
      fun _ => Place.isSome_of_owns
    rw [funext fun t => all_look text l p t]
    exact ⟨_, hlook⟩
  | group k e ih =>
    intro p
    obtain ⟨owes, h⟩ := ih p
    exact ⟨owes, h.record k⟩
  | seq a b iha ihb =>
    intro p
    -- Different parts of a place have no choice in common.
    obtain ⟨owes, ha⟩ := iha (p.part 0)
    obtain ⟨owes', hb⟩ := ihb (p.part 1)
    have hseq := (ha.inPart.bind hb.inPart fun c hc hc' =>
      absurd (Place.part_inj hc hc') Nat.zero_ne_one).distinct
    exact ⟨_, hseq.widen (fun c hc => hc.elim Place.owns_of_part Place.owns_of_part)
      fun _ => Place.isSome_of_owns⟩
  | alt a b iha ihb =>
    intro p
    obtain ⟨owes, ha⟩ := iha (p.part 0)
    obtain ⟨owes', hb⟩ := ihb (p.part 1)
    have hor := (ha.inPart.union hb.inPart fun c hc hc' =>
      absurd (Place.part_inj hc hc') Nat.zero_ne_one).distinct
    have halt := hor.guard (p := p) (fun c hc => hc ▸ rfl)
      fun c hc ho => ho.elim (Place.not_part_owns hc) (Place.not_part_owns hc)
    refine ⟨_, halt.widen ?_ fun _ => Place.isSome_of_owns⟩
    rintro c ((hc | hc) | hc)
    · exact Place.owns_of_part hc
    · exact Place.owns_of_part hc
    · exact Place.owns_self hc
  | rep least most greedy e ih =>
    intro p
    have hrep := listing_runRepeated ih e.nullable greedy least most p
    rw [Expr.matcher, Matcher.repeated_all]
    exact hrep

end RequestRouting.Regex
