import RequestRouting.Proofs.Pattern.PlainCompile

/-!
What plain patterns match.

A plain pattern matches a path just when the path fits its pieces, and the parameters are the values of
one way in which it fits.
-/

namespace RequestRouting

open Regex

variable {text : List Char} {types : TypeRegistry} {segs : List Segment} {ps : List Piece}
  {p : Placeholder} {k : Kind} {e : Expr} {L : List Char → Prop} {s t : Stand} {i : Nat}

/-! ## Optional parts and separators -/

theorem spells_marked (h : e.Spells text L) (optional : Bool) :
    (e.marked optional).Spells text fun w => L w ∨ (optional ∧ w = []) := by
  cases optional with
  | false => exact h.congr fun w => by simp
  | true => exact (h.optional true).congr fun w => by simp

theorem walk_marked {optional : Bool} (h : (e.marked optional).Walk text s t) :
    e.Walk text s t ∨ (optional ∧ s = t) := by
  cases optional with
  | false => exact Or.inl h
  | true =>
    obtain ⟨n, ⟨-, hn⟩, h⟩ := h
    have := hn 1 rfl
    match n, h with
    | 0, h => exact Or.inr ⟨rfl, h⟩
    | 1, ⟨u, hsu, hut⟩ => exact Or.inl (hut ▸ hsu)
    | n + 2, _ => omega

/-- An expression behind the separator of a placeholder. -/
theorem spells_lead (h : e.Spells text L) (p : Placeholder) :
    (Expr.ofRev (e :: p.lead.map .letter)).Spells text fun w => ∃ v, w = p.lead ++ v ∧ L v := by
  unfold Placeholder.lead
  cases p.separator with
  | none => exact h.congr fun w => by simp
  | some sep =>
    refine ((Expr.Spells.letter sep.char).seq h).congr fun w => ?_
    simp

theorem walk_lead (h : (Expr.ofRev (e :: p.lead.map .letter)).Walk text s t) :
    ∃ u : Stand, (p.lead <+: text.drop s.pos ∧ u = ⟨s.pos + p.lead.length, s.groups⟩) ∧
      e.Walk text u t := by
  unfold Placeholder.lead at h ⊢
  cases hsep : p.separator with
  | none =>
    rw [hsep] at h
    exact ⟨s, ⟨List.nil_prefix, rfl⟩, h⟩
  | some sep =>
    rw [hsep] at h
    obtain ⟨u, ⟨htakes, rfl⟩, hut⟩ := h
    obtain ⟨_, rfl, hw, -⟩ := (Expr.Spells.letter sep.char s.pos _).1 ⟨htakes, rfl⟩
    exact ⟨_, ⟨hw, rfl⟩, hut⟩

/-! ## Placeholders -/

theorem spells_hole (hk : k.Of types p.tag) :
    (Piece.expr i (.hole p k)).Spells text fun w => ∃ v, p.Fits k w v := by
  have hkind : (k.expr.group (i + 1)).Spells text k.Takes := hk.spells.group (i + 1)
  have hvalue := spells_marked hkind p.optional
  refine (spells_marked (spells_lead hvalue p) p.optional).congr fun w => ?_
  constructor
  · rintro (⟨v, rfl, hv | ⟨ho, rfl⟩⟩ | ⟨ho, rfl⟩)
    · exact ⟨some v, .value hv⟩
    · exact ⟨none, (List.append_nil p.lead).symm ▸ .bare ho⟩
    · exact ⟨none, .absent ho⟩
  · rintro ⟨v, hv | ho | ho⟩
    · exact Or.inl ⟨_, rfl, Or.inl hv⟩
    · exact Or.inl ⟨[], (List.append_nil _).symm, Or.inr ⟨ho, rfl⟩⟩
    · exact Or.inr ⟨ho, rfl⟩

/-- The text that a group holds. -/
def heldBy (text : List Char) (groups : List (Nat × Span)) (i : Nat) : Option (List Char) :=
  (groups.find? (·.1 == i)).map fun entry => entry.2.slice text

/-- Whether groups are as before, but for one with a new text if there is one. -/
def Noted (text : List Char) (i : Nat) (before after : List (Nat × Span)) :
    Option (List Char) → Prop
  | none => after = before
  | some v => ∃ span : Span, span.slice text = v ∧ after = (i, span) :: before.filter (·.1 != i)

theorem walk_hole (hk : k.Of types p.tag) (h : (Piece.expr i (.hole p k)).Walk text s t) :
    ∃ w v, p.Fits k w v ∧ w <+: text.drop s.pos ∧ t.pos = s.pos + w.length ∧
      Noted text (i + 1) s.groups t.groups v := by
  rcases walk_marked h with h | ⟨ho, rfl⟩
  · obtain ⟨u, ⟨hlead, rfl⟩, h⟩ := walk_lead h
    rcases walk_marked h with ⟨u, hu, rfl⟩ | ⟨ho, rfl⟩
    · -- The group notes what the value takes behind the separator.
      obtain ⟨v, hv, hpre, hpos⟩ := (hk.spells _ _).1 hu.reaches
      refine ⟨p.lead ++ v, some v, .value hv, append_prefix_drop_iff.2 ⟨hlead, hpre⟩, ?_, ?_⟩
      · rw [List.length_append, ← Nat.add_assoc]
        exact hpos
      · refine ⟨⟨s.pos + p.lead.length, u.pos⟩, ?_, ?_⟩
        · rw [Span.slice, hpos, Nat.add_sub_cancel_left]
          exact (List.prefix_iff_eq_take.1 hpre).symm
        · rw [Stand.record, hu.groups_eq hk.groups_expr]
    · exact ⟨p.lead, none, .bare ho, hlead, rfl, rfl⟩
  · exact ⟨[], none, .absent ho, List.nil_prefix, rfl, rfl⟩

namespace Noted

variable {before after : List (Nat × Span)} {v : Option (List Char)}

theorem heldBy_self (h : Noted text i before after v) (hlt : ∀ entry ∈ before, entry.1 < i) :
    heldBy text after i = v := by
  cases v with
  | none =>
    obtain rfl : after = before := h
    rw [heldBy, List.find?_eq_none.2]
    · rfl
    · intro entry hentry
      have := hlt entry hentry
      simp
      omega
  | some v =>
    obtain ⟨span, rfl, rfl⟩ := h
    simp [heldBy]

theorem heldBy_of_ne (h : Noted text i before after v) {j : Nat} (hj : j ≠ i) :
    heldBy text after j = heldBy text before j := by
  cases v with
  | none =>
    obtain rfl : after = before := h
    rfl
  | some v =>
    obtain ⟨span, -, rfl⟩ := h
    have hfind : (before.filter (·.1 != i)).find? (·.1 == j) = before.find? (·.1 == j) := by
      rw [List.find?_filter]
      congr 1
      funext entry
      by_cases hentry : entry.1 = j
      · simp [hentry, hj]
      · simp [hentry]
    rw [heldBy, List.find?_cons_of_neg, hfind, heldBy]
    simp
    omega

theorem le (h : Noted text i before after v) (hlt : ∀ entry ∈ before, entry.1 < i) :
    ∀ entry ∈ after, entry.1 ≤ i := by
  intro entry hentry
  cases v with
  | none =>
    obtain rfl : after = before := h
    exact Nat.le_of_lt (hlt entry hentry)
  | some v =>
    obtain ⟨span, -, rfl⟩ := h
    rcases List.mem_cons.1 hentry with rfl | hentry
    · exact Nat.le_refl _
    · exact Nat.le_of_lt (hlt entry (List.mem_filter.1 hentry).1)

end Noted

/-! ## Pieces -/

/-- The names of groups with the texts that the groups hold. -/
def namedTexts (text : List Char) (groups : List (Nat × Span)) (names : List (String × Nat)) :
    List (String × String) :=
  names.filterMap fun entry => (heldBy text groups entry.2).map fun v => (entry.1, String.ofList v)

theorem namedTexts_entry {groups : List (Nat × Span)} {v : Option (List Char)}
    (h : heldBy text groups (i + 1) = v) :
    namedTexts text groups (Piece.entry i (.hole p k)) =
      (p.name.bind fun name => v.map fun v => (name, String.ofList v)).toList := by
  rw [Piece.entry, Piece.name?]
  cases p.name with
  | none => rfl
  | some name =>
    simp only [namedTexts, Option.map_some, Option.toList_some, List.filterMap_cons, h]
    cases v with
    | none => rfl
    | some v => rfl

theorem namedTexts_eq (r : Regex) (m : Match) (path : String) :
    r.namedTexts m path = namedTexts path.toList m.groups r.names := by
  unfold Regex.namedTexts namedTexts
  congr 1
  funext entry
  rw [Match.group?, heldBy, Option.map_map, Option.map_map]
  rfl

/-- Whether what a placeholder among the pieces takes is what its tag stands for. -/
def Typed (types : TypeRegistry) (ps : List Piece) : Prop :=
  ∀ p k, Piece.hole p k ∈ ps → k.Of types p.tag

theorem Typed.tail {q : Piece} (h : Typed types (q :: ps)) : Typed types ps :=
  fun p k hp => h p k (List.mem_cons_of_mem q hp)

theorem Reads.typed (h : Reads types segs ps) : Typed types ps := by
  induction h with
  | nil => exact fun p k hp => absurd hp List.not_mem_nil
  | char _ _ ih => exact fun p k hp => ih p k (by simpa using hp)
  | escape _ _ ih => exact fun p k hp => ih p k (by simpa using hp)
  | @hole q l segs ps hk hrest ih =>
    intro p k hp
    rcases List.mem_cons.1 hp with heq | hp
    · cases heq
      exact hk
    · exact ih p k hp

/-- Where a path fits the pieces, their expressions lead over it. -/
theorem exists_walkAll (h : Typed types ps) {w : List Char} {vs : List (Option (List Char))}
    (hfits : Fits ps w vs) (hw : w <+: text.drop s.pos) :
    ∃ t : Stand, Expr.WalkAll text (placed Piece.expr i ps) s t ∧ t.pos = s.pos + w.length := by
  induction hfits generalizing i s with
  | nil => exact ⟨s, rfl, rfl⟩
  | @lit c ps path vs _ ih =>
    obtain ⟨hc, hpath⟩ := append_prefix_drop_iff (v := [c]).1 hw
    have hreach := (Expr.Spells.letter c s.pos _).2 ⟨_, rfl, hc, rfl⟩
    obtain ⟨groups, hwalk⟩ := hreach.walk s.groups
    obtain ⟨t, ht, hpos⟩ := ih h.tail (s := ⟨s.pos + 1, groups⟩) hpath
    refine ⟨t, ⟨_, hwalk, ht⟩, ?_⟩
    change t.pos = s.pos + 1 + path.length at hpos
    rw [hpos, List.length_cons]
    omega
  | @hole p k ps w v path vs hv _ ih =>
    obtain ⟨hlead, hpath⟩ := append_prefix_drop_iff.1 hw
    have hk := h p k List.mem_cons_self
    have hreach := (spells_hole (i := i) hk s.pos _).2 ⟨w, ⟨v, hv⟩, hlead, rfl⟩
    obtain ⟨groups, hwalk⟩ := hreach.walk s.groups
    obtain ⟨t, ht, hpos⟩ := ih h.tail (s := ⟨s.pos + w.length, groups⟩) hpath
    refine ⟨t, ⟨_, hwalk, ht⟩, ?_⟩
    rw [hpos, List.length_append, Nat.add_assoc]

/-- Where the expressions of the pieces lead, the path fits, and the groups hold the values. -/
theorem fits_of_walkAll (h : Typed types ps)
    (hwalk : Expr.WalkAll text (placed Piece.expr i ps) s t) (hs : ∀ entry ∈ s.groups, entry.1 ≤ i) :
    ∃ w vs, Fits ps w vs ∧ w <+: text.drop s.pos ∧ t.pos = s.pos + w.length ∧
      (∀ j ≤ i, heldBy text t.groups j = heldBy text s.groups j) ∧
      namedTexts text t.groups (entries i ps) = named ps vs := by
  -- Groups up to `i` are those of the pieces before, so what they hold is not changed any more.
  induction ps generalizing i s with
  | nil =>
    obtain rfl : s = t := hwalk
    exact ⟨[], [], .nil, List.nil_prefix, rfl, fun _ _ => rfl, rfl⟩
  | cons q ps ih =>
    obtain ⟨u, hu, hut⟩ := hwalk
    cases q with
    | lit c =>
      obtain ⟨_, rfl, hc, hpos⟩ := (Expr.Spells.letter c _ _).1 hu.reaches
      have hgroups : u.groups = s.groups := hu.groups_eq rfl
      obtain ⟨w, vs, hfits, hw, hpos', hheld, hnamed⟩ := ih h.tail hut (hgroups ▸ hs)
      rw [hgroups] at hheld
      rw [hpos] at hw hpos'
      refine ⟨c :: w, vs, .lit hfits, append_prefix_drop_iff (v := [c]).2 ⟨hc, hw⟩, ?_, hheld, hnamed⟩
      simp only [List.length_cons, List.length_nil] at hpos' ⊢
      omega
    | hole p k =>
      obtain ⟨w, v, hv, hw, hpos, hnoted⟩ := walk_hole (h p k List.mem_cons_self) hu
      have hlt : ∀ entry ∈ s.groups, entry.1 < i + 1 := fun entry he => Nat.lt_succ_of_le (hs entry he)
      obtain ⟨w', vs, hfits, hw', hpos', hheld, hnamed⟩ := ih h.tail hut (hnoted.le hlt)
      rw [hpos] at hw' hpos'
      refine ⟨w ++ w', v :: vs, .hole hv hfits, append_prefix_drop_iff.2 ⟨hw, hw'⟩, ?_, ?_, ?_⟩
      · rw [hpos', List.length_append, Nat.add_assoc]
      · intro j hj
        rw [hheld j (by omega), hnoted.heldBy_of_ne (by omega)]
      · -- The group of this placeholder holds its value, and the rest of the pieces leave it so.
        have hself : heldBy text t.groups (i + 1) = v := by
          rw [hheld (i + 1) (Nat.le_refl _), hnoted.heldBy_self hlt]
        have happend : namedTexts text t.groups (entries i (.hole p k :: ps)) =
            namedTexts text t.groups (Piece.entry i (.hole p k)) ++
              namedTexts text t.groups (entries (i + 1) ps) := List.filterMap_append
        rw [happend, namedTexts_entry hself, named]
        exact congrArg _ hnamed

/-! ## Whole patterns -/

theorem walk_between {es : List Expr} : (Expr.between es).Walk text s t ↔
    s.pos = 0 ∧ Expr.WalkAll text es.reverse s t ∧ t.pos = text.length := by
  rw [Expr.between, Expr.walk_ofRev, List.reverse_cons, List.reverse_append]
  constructor
  · intro h
    obtain ⟨u, ⟨v, ⟨hstart, rfl⟩, hvu⟩, v, ⟨hend, rfl⟩, rfl⟩ := Expr.walkAll_append.1 h
    exact ⟨holdsAt_textStart.1 hstart, hvu, holdsAt_textEnd.1 hend⟩
  · rintro ⟨hs, hst, ht⟩
    exact Expr.walkAll_append.2 ⟨t, ⟨s, ⟨holdsAt_textStart.2 hs, rfl⟩, hst⟩, t,
      ⟨holdsAt_textEnd.2 ht, rfl⟩, rfl⟩

theorem walk_wholeExpr : (wholeExpr ps).Walk text s t ↔
    s.pos = 0 ∧ Expr.WalkAll text (placed Piece.expr 0 ps) s t ∧ t.pos = text.length := by
  have hwhole : wholeExpr ps = .between (placed Piece.expr 0 ps).reverse := rfl
  rw [hwhole, walk_between, List.reverse_reverse]

/-- What a search for the expression of the pieces finds is the whole text. -/
theorem span_of_search_wholeExpr {m : Match} (hm : search (wholeExpr ps) text = some m) :
    m.span = ⟨0, text.length⟩ := by
  obtain ⟨hstart, -, hend⟩ := walk_wholeExpr.1 (walk_of_search hm).1
  cases hspan : m.span with
  | mk start stop =>
    rw [hspan] at hstart hend
    exact congrArg₂ Span.mk hstart hend

/-- And the text fits the pieces, with the values that the groups hold. -/
theorem fits_of_search (h : Typed types ps) {m : Match} (hm : search (wholeExpr ps) text = some m) :
    ∃ vs, Fits ps text vs ∧ namedTexts text m.groups (entries 0 ps) = named ps vs := by
  obtain ⟨-, hpieces, -⟩ := walk_wholeExpr.1 (walk_of_search hm).1
  rw [span_of_search_wholeExpr hm] at hpieces
  obtain ⟨w, vs, hfits, hw, hpos, -, hnamed⟩ := fits_of_walkAll h hpieces nofun
  change w <+: text at hw
  change text.length = 0 + w.length at hpos
  obtain rfl : w = text := hw.eq_of_length (by omega)
  exact ⟨vs, hfits, hnamed⟩

theorem exists_search_of_fits (h : Typed types ps) {vs : List (Option (List Char))}
    (hfits : Fits ps text vs) : ∃ m, search (wholeExpr ps) text = some m := by
  obtain ⟨t, ht, hpos⟩ := exists_walkAll h hfits (s := ⟨0, []⟩) (i := 0) (List.prefix_refl text)
  have hend : t.pos = text.length := by rw [hpos, Nat.zero_add]
  have hreach : (wholeExpr ps).Reaches text 0 t.pos := (walk_wholeExpr.2 ⟨rfl, ht, hend⟩).reaches
  exact exists_search_iff.2 ⟨0, Nat.zero_le _, t.pos, hreach⟩

/-- What a plain pattern takes as parameters are the values of one way in which the path fits. -/
theorem Plain.fits_of_captures [Regex.ProgramSize] {pattern : String} (h : Plain types pattern ps) {c : CompiledPattern}
    (hc : CompiledPattern.compile pattern types = .ok c) {path : String} {params : Params}
    (hparams : c.captures path = some params) :
    ∃ vs, Fits ps path.toList vs ∧ params.entries = named ps vs := by
  obtain rfl := CompiledPattern.eq_of_compile h.read hc
  obtain ⟨m, hm, rfl⟩ := Option.map_eq_some_iff.1 hparams
  obtain ⟨vs, hvs, hnamed⟩ := fits_of_search h.reads.typed hm
  refine ⟨vs, hvs, ?_⟩
  rw [← hnamed]
  exact namedTexts_eq _ m path

theorem Plain.exists_captures [Regex.ProgramSize] {pattern : String} (h : Plain types pattern ps) {c : CompiledPattern}
    (hc : CompiledPattern.compile pattern types = .ok c) {path : String}
    {vs : List (Option (List Char))} (hvs : Fits ps path.toList vs) :
    ∃ params, c.captures path = some params := by
  obtain rfl := CompiledPattern.eq_of_compile h.read hc
  obtain ⟨m, hm⟩ := exists_search_of_fits h.reads.typed hvs
  have hfound : (wholeRegex types pattern ps).find? path = some m := hm
  rw [CompiledPattern.captures, hfound]
  exact ⟨_, rfl⟩

/-- A plain pattern that is not too big compiles, matches the paths that fit its pieces, and takes the values of
one way in which the path fits as parameters. -/
theorem Plain.captures_iff_fits [Regex.ProgramSize] {pattern : String} (h : Plain types pattern ps)
    (hsize : ¬CompiledPattern.isTooBig pattern types) :
    ∃ c, CompiledPattern.compile pattern types = .ok c ∧ ∀ path : String,
      ((c.captures path).isSome ↔ ∃ vs, Fits ps path.toList vs) ∧
      ∀ params, c.captures path = some params →
        ∃ vs, Fits ps path.toList vs ∧ params.entries = named ps vs := by
  have hcompile := CompiledPattern.compile_of_not_isTooBig h.read hsize
  refine ⟨_, hcompile, fun path => ⟨⟨fun hsome => ?_, fun ⟨vs, hvs⟩ => ?_⟩, fun params => ?_⟩⟩
  · obtain ⟨params, hparams⟩ := Option.isSome_iff_exists.1 hsome
    obtain ⟨vs, hvs, -⟩ := h.fits_of_captures hcompile hparams
    exact ⟨vs, hvs⟩
  · obtain ⟨params, hparams⟩ := h.exists_captures hcompile hvs
    rw [hparams]
    rfl
  · exact h.fits_of_captures hcompile

/-- A pattern with an escaped dot, a number, and a word that may be missing. -/
theorem captures_versioned_page : ∃ ps c,
    Plain TypeRegistry.builtin "/v1\\.0/[i:id].[en|de:lang]?" ps ∧
    CompiledPattern.compile "/v1\\.0/[i:id].[en|de:lang]?" TypeRegistry.builtin = .ok c ∧
    ∀ path : String, ((c.captures path).isSome ↔ ∃ vs, Fits ps path.toList vs) ∧
      ∀ params, c.captures path = some params →
        ∃ vs, Fits ps path.toList vs ∧ params.entries = named ps vs := by
  have hplain : Plain TypeRegistry.builtin "/v1\\.0/[i:id].[en|de:lang]?"
      [.lit '/', .lit 'v', .lit '1', .lit '.', .lit '0',
        .hole ⟨"/[i:id]", some .slash, "i", some "id", false⟩ (.run .digits),
        .hole ⟨".[en|de:lang]?", some .dot, "en|de", some "lang", true⟩
          (.words [['e', 'n'], ['d', 'e']])] := by
    refine ⟨?_, by decide, by decide⟩
    have hlang : (Kind.words [['e', 'n'], ['d', 'e']]).Of TypeRegistry.builtin "en|de" :=
      ⟨nofun, by simp, rfl⟩
    exact .char rfl (.char rfl (.char rfl (.escape rfl (.char rfl (.hole ⟨rfl, rfl⟩
      (.hole hlang .nil))))))
  have hsize : ¬CompiledPattern.isTooBig "/v1\\.0/[i:id].[en|de:lang]?" .builtin := by decide +kernel
  obtain ⟨c, hc, hcaptures⟩ := hplain.captures_iff_fits hsize
  exact ⟨_, c, hplain, hc, hcaptures⟩

end RequestRouting
