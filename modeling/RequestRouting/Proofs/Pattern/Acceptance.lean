import RequestRouting.Proofs.Pattern.Behind
import RequestRouting.Proofs.Pattern.PlainMatch

/-!
Which patterns are accepted.

A pattern with plain text between its placeholders, whose types are builtin, can fail by the names of its parameters
only. It is accepted if they are well formed and different. Then it has one group for each placeholder, in order, and
its parameters are those that have names. Else the leftmost name at fault says why it is refused
(`BuiltinPattern.compile_iff_names`).
-/

namespace RequestRouting

open Regex
open Regex.Parser (isGroupName isNameChar nameFault? namesFault? nameFault?_eq_none_iff)

/-! ## Names -/

/-- Letters, digits, underscores, dots and opening brackets, the first one a letter or an underscore. -/
def isParameterName : List Char → Bool
  | [] => false
  | c :: cs => (c.isAlpha || c == '_') &&
      cs.all fun d => d.isAlphanum || d == '_' || d == '.' || d == '['

/-- In ASCII, these are the names that a group may have and that end before the bracket of the placeholder. -/
theorem isGroupName_eq {name : List Char} (hascii : ∀ c ∈ name, c.toNat < 128)
    (hbracket : ']' ∉ name) : isGroupName name = isParameterName name := by
  have hfirst : ∀ c : Char, c.toNat < 128 → isNameChar true c = (c.isAlpha || c == '_') := by
    intro c hc
    rw [isNameChar, if_pos rfl, Unicode.isAlphabetic, if_pos hc, Bool.or_comm]
  have hlater : ∀ c : Char, c.toNat < 128 → c ≠ ']' →
      isNameChar false c = (c.isAlphanum || c == '_' || c == '.' || c == '[') := by
    intro c hc hne
    have hclosing : (c == ']') = false := by simpa using hne
    rw [isNameChar, if_neg Bool.false_ne_true, Unicode.isAlphanumeric, if_pos hc, hclosing]
    cases c.isAlphanum <;> simp
  cases name with
  | nil => rfl
  | cons c cs =>
    rw [isGroupName, isParameterName, hfirst c (hascii c List.mem_cons_self)]
    congr 1
    -- A closing bracket is the one character that only a group may have in its name.
    rw [Bool.eq_iff_iff, List.all_eq_true, List.all_eq_true]
    refine forall₂_congr fun d hd => ?_
    have hd' := List.mem_cons_of_mem c hd
    rw [hlater d (hascii d hd') fun heq => hbracket (heq ▸ hd')]

/-- Placeholders are listed as they are written. -/
theorem written_of_mem {pattern : String} {p : Placeholder} (hp : p ∈ placeholders pattern) :
    p.Written := by
  have hwritten : ∀ {before cs d}, Divides before cs d → ∀ p ∈ d.placeholders, p.Written := by
    intro before cs d h
    induction h with
    | nil => exact nofun
    | char _ _ ih => exact ih
    | hole hp _ _ _ ih =>
      intro q hq
      rcases List.mem_cons.1 hq with rfl | hq
      · exact hp
      · exact ih q hq
  obtain ⟨d, hd, -, hplaceholders, -⟩ := exists_division pattern
  exact hwritten hd p (hplaceholders ▸ hp)

/-- A name is not empty, and ends before the closing bracket. -/
theorem Placeholder.Written.name_spec {p : Placeholder} (h : p.Written) {name : String}
    (hname : p.name = some name) : name.toList ≠ [] ∧ ']' ∉ name.toList := by
  obtain ⟨written, -, hinner, -, hp⟩ := h
  rw [hname] at hp
  obtain ⟨cs, hcs, rfl⟩ := Option.map_eq_some_iff.1 hp.symm
  obtain ⟨hwritten, hne⟩ := Option.filter_eq_some_iff.1 hcs
  rw [String.toList_ofList]
  refine ⟨by simpa using hne, fun hmem => ?_⟩
  exact absurd (hinner cs hwritten ']' hmem) (by decide)

/-- Why the leftmost name at fault is refused: it is not well formed, or a name before it is the same. -/
def LeftmostFault (names : List String) (reason : Regex.Error) : Prop :=
  ∃ before name after, names = before ++ name :: after ∧
    (∀ n ∈ before, isParameterName n.toList) ∧ before.Nodup ∧
    (¬isParameterName name.toList ∧ reason.message = "invalid capture group character" ∨
      isParameterName name.toList ∧ name ∈ before ∧ reason.message = "duplicate capture group name")

/-- The reader refuses the leftmost name at fault. -/
theorem leftmostFault_of_namesFault? {before names : List String} {e : Regex.Error}
    (hproper : ∀ name ∈ before ++ names,
      name.toList ≠ [] ∧ isGroupName name.toList = isParameterName name.toList)
    (hbefore : ∀ name ∈ before, isParameterName name.toList) (hnodup : before.Nodup)
    (h : namesFault? before names = some e) : LeftmostFault (before ++ names) e := by
  induction names generalizing before with
  | nil => cases h
  | cons name names ih =>
    obtain ⟨hne, hsame⟩ := hproper name (by simp)
    rw [namesFault?] at h
    cases hfault : nameFault? before name with
    | some e' =>
      rw [hfault, Option.some_or, Option.some.injEq] at h
      subst h
      refine ⟨before, name, names, rfl, hbefore, hnodup, ?_⟩
      rw [nameFault?, if_neg hne, hsame] at hfault
      cases hname : isParameterName name.toList with
      | false =>
        rw [if_pos hname, Option.some.injEq] at hfault
        exact Or.inl ⟨Bool.false_ne_true, by rw [← hfault]; rfl⟩
      | true =>
        rw [hname, if_neg Bool.noConfusion, Option.ite_none_right_eq_some, Option.some.injEq] at hfault
        exact Or.inr ⟨rfl, hfault.1, by rw [← hfault.2]; rfl⟩
    | none =>
      -- This name is one of those before the fault.
      rw [hfault, Option.none_or] at h
      obtain ⟨hgood, hnew⟩ := nameFault?_eq_none_iff.1 hfault
      have hsplit : before ++ name :: names = before ++ [name] ++ names := List.append_cons _ _ _
      rw [hsplit] at hproper ⊢
      apply ih hproper _ _ h
      · intro n hn
        rcases List.mem_append.1 hn with hn | hn
        · exact hbefore n hn
        · rw [List.mem_singleton.1 hn, ← hsame]
          exact hgood
      · rw [← List.concat_eq_append]
        exact hnodup.concat hnew

/-! ## Groups -/

/-- The placeholder of a piece, if it is one. -/
def Piece.hole? : Piece → Option Placeholder
  | lit _ => none
  | hole p _ => some p

variable {types : TypeRegistry} {pattern : String} {segs : List Segment} {ps : List Piece}

theorem Reads.filterMap_hole? (h : Reads types segs ps) :
    ps.filterMap Piece.hole? = segs.filterMap Segment.hole? := by
  induction h with
  | nil => rfl
  | char _ _ ih => exact ih
  | escape _ _ ih => exact ih
  | hole _ _ ih => exact congrArg (_ :: ·) ih

theorem filterMap_name?_eq (ps : List Piece) :
    ps.filterMap Piece.name? = (ps.filterMap Piece.hole?).filterMap (·.name) := by
  induction ps with
  | nil => rfl
  | cons piece ps ih =>
    cases piece with
    | lit c => exact ih
    | hole p k =>
      rw [List.filterMap_cons, List.filterMap_cons_some (b := p) (by rfl), List.filterMap_cons, ← ih]
      rfl

/-- Placeholders have one group each, numbered in order. -/
theorem Typed.groups_placed (h : Typed types ps) (i : Nat) :
    (placed Piece.expr i ps).flatMap Expr.groups =
      List.range' (i + 1) (ps.filterMap Piece.hole?).length := by
  induction ps generalizing i with
  | nil => rfl
  | cons piece ps ih =>
    rw [placed, List.flatMap_cons, ih h.tail]
    cases piece with
    | lit c => rfl
    | hole p k =>
      rw [Piece.groups_hole, (h p k List.mem_cons_self).groups_expr]
      rfl

/-- The names with the numbers of their placeholders. -/
theorem entries_eq (ps : List Piece) (i : Nat) : entries i ps =
    ((ps.filterMap Piece.hole?).zipIdx (i + 1)).filterMap fun (p, j) => p.name.map (·, j) := by
  induction ps generalizing i with
  | nil => rfl
  | cons piece ps ih =>
    cases piece with
    | lit c => exact ih i
    | hole p k =>
      have hrest := ih (i + 1)
      have hentries : entries i (.hole p k :: ps) =
          (p.name.map fun name => (name, i + 1)).toList ++ entries (i + 1) ps := rfl
      rw [hentries, hrest, List.filterMap_cons_some (b := p) (by rfl), List.zipIdx_cons,
        List.filterMap_cons]
      dsimp only
      cases p.name <;> rfl

theorem foldl_max_range' (n : Nat) : (List.range' 1 n).foldl max 0 = n := by
  induction n with
  | zero => rfl
  | succ n ih =>
    rw [List.range'_concat, List.foldl_append, ih]
    simp only [List.foldl_cons, List.foldl_nil]
    omega

/-- What an accepted pattern has: a group for each of its placeholders in order, and the names of those that have
one, each for its group. -/
structure CompiledPattern.HasGroups (c : CompiledPattern) (holes : List Placeholder) : Prop where
  groups : c.regex.expr.groups = List.range' 1 holes.length
  groupCount : c.regex.groupCount = holes.length
  names : c.regex.names = (holes.zipIdx 1).filterMap fun (p, j) => p.name.map (·, j)
  paramNames : c.paramNames = holes.filterMap (·.name)

theorem map_fst_entries_eq (ps : List Piece) (i : Nat) :
    (entries i ps).map Prod.fst = ps.filterMap Piece.name? := by
  induction ps generalizing i with
  | nil => rfl
  | cons piece ps ih =>
    have hentries : entries i (piece :: ps) =
        piece.entry i ++ entries (i + piece.captures) ps := rfl
    rw [hentries, List.map_append, ih, List.filterMap_cons, Piece.entry]
    cases piece.name? <;> rfl

theorem Reads.hasGroups (h : Reads types (segments pattern) ps) :
    CompiledPattern.HasGroups ⟨pattern, wholeRegex types pattern ps⟩ (placeholders pattern) := by
  have hholes : ps.filterMap Piece.hole? = placeholders pattern := h.filterMap_hole?
  have hgroups : (wholeExpr ps).groups = List.range' 1 (placeholders pattern).length := by
    rw [groups_wholeExpr, h.typed.groups_placed, hholes]
  refine ⟨hgroups, ?_, ?_, ?_⟩
  · show (wholeExpr ps).groups.foldl max 0 = _
    rw [hgroups, foldl_max_range']
  · show entries 0 ps = _
    rw [entries_eq, hholes]
  · show (entries 0 ps).map Prod.fst = _
    rw [map_fst_entries_eq, filterMap_name?_eq, hholes]

/-! ## Acceptance -/

/-- A pattern of builtin types that is not too big is accepted just when its names are well formed and different.
Then it has a group for each placeholder, and else it is refused with itself and with what is wrong with the
leftmost name at fault. -/
theorem BuiltinPattern.compile_iff_names [Regex.ProgramSize] (h : BuiltinPattern types pattern)
    (hsize : ¬CompiledPattern.isTooBig pattern types)
    (hascii : ∀ p ∈ placeholders pattern, ∀ name ∈ p.name, ∀ c ∈ name.toList, c.toNat < 128) :
    ((∃ c, CompiledPattern.compile pattern types = .ok c) ↔
      (∀ name ∈ (placeholders pattern).filterMap (·.name), isParameterName name.toList) ∧
        ((placeholders pattern).filterMap (·.name)).Nodup) ∧
    (∀ c, CompiledPattern.compile pattern types = .ok c →
      c.HasGroups (placeholders pattern)) ∧
    ∀ e, CompiledPattern.compile pattern types = .error e → ∃ reason,
      e = .invalidPattern pattern reason ∧
        LeftmostFault ((placeholders pattern).filterMap (·.name)) reason := by
  obtain ⟨ps, hreads, -, hangle⟩ := h.exists_reads
  have hnames : ps.filterMap Piece.name? = (placeholders pattern).filterMap (·.name) := by
    rw [filterMap_name?_eq, hreads.filterMap_hole?]
    rfl
  have hproper : ∀ name ∈ (placeholders pattern).filterMap (·.name),
      name.toList ≠ [] ∧ isGroupName name.toList = isParameterName name.toList := by
    intro name hname
    obtain ⟨p, hp, hname⟩ := List.mem_filterMap.1 hname
    obtain ⟨hne, hbracket⟩ := (written_of_mem hp).name_spec hname
    exact ⟨hne, isGroupName_eq (hascii p hp name hname) hbracket⟩
  -- The names decide alone, and the reader stops at the first that is at fault.
  have hcompile := hreads.compile_eq hangle
  rw [hnames, if_neg hsize] at hcompile
  have hfault : namesFault? [] ((placeholders pattern).filterMap (·.name)) = none ↔ _ :=
    Parser.namesFault?_eq_none_iff List.nodup_nil
  cases hnone : namesFault? [] ((placeholders pattern).filterMap (·.name)) with
  | none =>
    rw [hnone] at hcompile
    obtain ⟨hgood, hnodup⟩ := hfault.1 hnone
    refine ⟨⟨fun _ => ⟨fun name hname => ?_, hnodup⟩, fun _ => ⟨_, hcompile⟩⟩, fun c hc => ?_,
      fun e he => ?_⟩
    · rw [← (hproper name hname).2]
      exact hgood name hname
    · rw [hcompile] at hc
      cases hc
      exact hreads.hasGroups
    · rw [hcompile] at he
      cases he
  | some e =>
    rw [hnone] at hcompile
    refine ⟨⟨fun ⟨c, hc⟩ => ?_, fun ⟨hgood, hnodup⟩ => ?_⟩, fun c hc => ?_, fun e' he => ?_⟩
    · rw [hcompile] at hc
      cases hc
    · -- Without a name at fault there would be no error.
      have hok := hfault.2 ⟨fun name hname => (hproper name hname).2.trans (hgood name hname), hnodup⟩
      rw [hnone] at hok
      cases hok
    · rw [hcompile] at hc
      cases hc
    · rw [hcompile] at he
      cases he
      exact ⟨e, rfl, leftmostFault_of_namesFault? hproper (fun _ h => absurd h List.not_mem_nil)
        List.nodup_nil hnone⟩

/-- A name with a hyphen in it comes before one that comes twice. -/
theorem compile_iff_names_hyphen :
    BuiltinPattern .builtin "/[i:id]/[]/[a:user-id].[:id]?" ∧
    ∃ reason, CompiledPattern.compile "/[i:id]/[]/[a:user-id].[:id]?" .builtin =
        .error (.invalidPattern "/[i:id]/[]/[a:user-id].[:id]?" reason) ∧
      LeftmostFault ["id", "user-id", "id"] reason := by
  have h : BuiltinPattern .builtin "/[i:id]/[]/[a:user-id].[:id]?" := by decide +kernel
  have hnames : (placeholders "/[i:id]/[]/[a:user-id].[:id]?").filterMap (·.name) =
      ["id", "user-id", "id"] := by decide +kernel
  have hletters : ∀ name ∈ ["id", "user-id", "id"], ∀ c ∈ name.toList, c.toNat < 128 := by simp
  have hascii : ∀ p ∈ placeholders "/[i:id]/[]/[a:user-id].[:id]?", ∀ name ∈ p.name,
      ∀ c ∈ name.toList, c.toNat < 128 := by
    intro p hp name hname
    have hmem := List.mem_filterMap.2 ⟨p, hp, hname⟩
    rw [hnames] at hmem
    exact hletters name hmem
  have hsize : ¬CompiledPattern.isTooBig "/[i:id]/[]/[a:user-id].[:id]?" .builtin := by decide +kernel
  obtain ⟨haccepted, -, hrefused⟩ := h.compile_iff_names hsize hascii
  rw [hnames] at haccepted hrefused
  cases hc : CompiledPattern.compile "/[i:id]/[]/[a:user-id].[:id]?" .builtin with
  | ok c => exact absurd (haccepted.1 ⟨c, hc⟩) (by decide)
  | error e =>
    obtain ⟨reason, rfl, hfault⟩ := hrefused e hc
    exact ⟨h, reason, rfl, hfault⟩

end RequestRouting
