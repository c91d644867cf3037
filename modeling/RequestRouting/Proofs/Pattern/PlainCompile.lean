import RequestRouting.Proofs.Pattern.PlainReading

/-!
The expression of a plain pattern.

A pattern whose pieces are known, and whose names are different and may be those of groups, is read as the row of
its pieces between the start and the end of the text (`Readable.read`). So it compiles unless it is too big.
-/

namespace RequestRouting

open Regex
open Regex.Parser (Passes Quiet isGroupName isGroupName_of_isIdentifier)

/-- Expressions, given last first, between the start and the end of the text. -/
def Regex.Expr.between (es : List Expr) : Expr := .ofRev (.look .textEnd :: (es ++ [.look .textStart]))

/-- What is read between the two signs around a pattern. -/
theorem parse_translate_of_passes {types : TypeRegistry} {pattern : String} {items : List Syntax}
    {captures : Nat} {names : List (String × Nat)}
    (h : Passes ((segments pattern).flatMap (Segment.expand types))
      { rest := [], items := [.assertion .lineStart] }
      { rest := [], items := items ++ [.assertion .lineStart], captures, names })
    (hquiet : Quiet ((segments pattern).flatMap (Segment.expand types))) :
    Parser.parse (translate pattern types).toList =
      .ok ⟨.ofItemsRev (.assertion .lineEnd :: (items ++ [.assertion .lineStart])), captures, names⟩ := by
  have hend := Passes.lineEnd rfl
    (s := { rest := [], items := items ++ [.assertion .lineStart], captures, names })
  -- The sign at the start, what the pattern stands for, the sign at the end.
  have hall := (Passes.lineStart (s := { rest := [] }) rfl).append
    (h.append hend (Parser.quiet_cons (by decide) _))
    (hquiet.append (Parser.quiet_cons (by decide) _))
  rw [translate, String.toList_ofList]
  exact hall.parse_eq

theorem resolve_between {items : List Syntax} {es : List Expr}
    (h : List.Forall₂ (fun t e => t.resolveBranches {} = .ok ([e], {})) items es) :
    (Syntax.ofItemsRev (.assertion .lineEnd :: (items ++ [.assertion .lineStart]))).resolve =
      .ok (.between es) := by
  have hall := List.rel_append h (.cons (a := .assertion .lineStart) (b := .look .textStart) rfl .nil)
  have hresolve := resolve_ofItemsRev (.cons (a := .assertion .lineEnd) (b := .look .textEnd) rfl hall)
  rw [Syntax.resolve, hresolve]
  rfl

theorem depth_between_le {n : Nat} {items : List Syntax} (h : ∀ s ∈ items, s.depth ≤ n) :
    (Syntax.ofItemsRev (.assertion .lineEnd :: (items ++ [.assertion .lineStart]))).depth ≤ n + 1 := by
  apply Syntax.depth_ofItemsRev_le
  rw [List.forall_mem_cons, List.forall_mem_append, List.forall_mem_singleton]
  exact ⟨Nat.zero_le n, h, Nat.zero_le n⟩

/-- What is read from a pattern is what its tree resolves to. Names are kept for the groups that the expression
has. -/
theorem read_translate {types : TypeRegistry} {pattern : String} {tree : Syntax} {captures : Nat}
    {names : List (String × Nat)} {e : Expr}
    (hparse : Parser.parse (translate pattern types).toList = .ok ⟨tree, captures, names⟩)
    (hdepth : tree.depth ≤ Syntax.nestLimit) (hresolve : tree.resolve = .ok e)
    (hnames : ∀ entry ∈ names, entry.2 ∈ e.groups) :
    Regex.read (translate pattern types) =
      .ok ⟨translate pattern types, e, names, e.groups.foldl max 0⟩ := by
  have hfilter : names.filter (fun entry => e.groups.contains entry.2) = names := by
    rw [List.filter_eq_self]
    intro entry hentry
    rw [List.contains_iff_mem]
    exact hnames entry hentry
  rw [Regex.read_of_parse hparse hdepth hresolve]
  exact congrArg (fun names => Except.ok (Regex.mk (translate pattern types) e names
    (e.groups.foldl max 0))) hfilter

/-- The expression of the pieces between the start and the end of the text. -/
def wholeExpr (ps : List Piece) : Expr :=
  .ofRev (.look .textEnd :: ((placed Piece.expr 0 ps).reverse ++ [.look .textStart]))

theorem groups_marked (e : Expr) (optional : Bool) : (e.marked optional).groups = e.groups := by
  cases optional <;> rfl

theorem Piece.groups_hole (i : Nat) (p : Placeholder) (k : Kind) :
    (expr i (hole p k)).groups = (i + 1) :: k.expr.groups := by
  have hlead : (p.lead.map Expr.letter).reverse.flatMap Expr.groups = [] := by
    rw [List.flatMap_eq_nil_iff]
    intro e he
    obtain ⟨c, -, rfl⟩ := List.mem_map.1 (List.mem_reverse.1 he)
    rfl
  rw [expr, groups_marked, Expr.groups_ofRev, List.reverse_cons, List.flatMap_append, hlead]
  simp [groups_marked, Expr.groups]

theorem groups_wholeExpr (ps : List Piece) :
    (wholeExpr ps).groups = (placed Piece.expr 0 ps).flatMap Expr.groups := by
  rw [wholeExpr, Expr.groups_ofRev]
  simp [Expr.groups]

theorem mem_groups_of_mem_entries {ps : List Piece} {i : Nat} {entry : String × Nat}
    (h : entry ∈ entries i ps) : entry.2 ∈ (placed Piece.expr i ps).flatMap Expr.groups := by
  induction ps generalizing i with
  | nil => cases h
  | cons p ps ih =>
    -- An entry of the first piece has the number of its group, and a later one that of a later piece.
    rw [placed, List.flatMap_cons, List.mem_append]
    rcases List.mem_append.1 h with h | h
    · left
      cases p with
      | lit c => cases h
      | hole p k =>
        obtain ⟨name, -, rfl⟩ := Option.map_eq_some_iff.1 (Option.mem_toList.1 h)
        rw [Piece.groups_hole]
        exact List.mem_cons_self
    · exact Or.inr (ih h)

/-- What is read from a pattern with these pieces. -/
def wholeRegex (types : TypeRegistry) (pattern : String) (ps : List Piece) : Regex where
  source := translate pattern types
  expr := wholeExpr ps
  names := entries 0 ps
  groupCount := (wholeExpr ps).groups.foldl max 0

/-- The tree of these pieces. -/
def wholeTree (ps : List Piece) : Syntax :=
  .ofItemsRev (.assertion .lineEnd :: ((placed Piece.tree 0 ps).reverse ++ [.assertion .lineStart]))

/-- A pattern with its pieces, whose names are different and may be those of groups. -/
structure Readable (types : TypeRegistry) (pattern : String) (ps : List Piece) : Prop where
  reads : Reads types (segments pattern) ps
  names : ∀ name ∈ ps.filterMap Piece.name?, isGroupName name.toList
  nodup : (ps.filterMap Piece.name?).Nodup

namespace Readable

variable {types : TypeRegistry} {pattern : String} {ps : List Piece}

theorem parse_translate (h : Readable types pattern ps) :
    Parser.parse (translate pattern types).toList =
      .ok ⟨wholeTree ps, capturesAfter 0 ps, entries 0 ps⟩ := by
  have hnames : (([] : List String) ++ ps.filterMap Piece.name?).Nodup := h.nodup
  have hbody := h.reads.passes h.names rfl hnames
    (s := { rest := [], items := [.assertion .lineStart] })
  rw [foldl_read] at hbody
  exact parse_translate_of_passes hbody h.reads.quiet

theorem resolve_wholeTree (h : Readable types pattern ps) :
    (wholeTree ps).resolve = .ok (wholeExpr ps) :=
  resolve_between (List.rel_reverse (h.reads.resolve 0))

theorem depth_wholeTree_le (ps : List Piece) : (wholeTree ps).depth ≤ 9 :=
  depth_between_le fun s hs => depth_placed_le 0 ps s (List.mem_reverse.1 hs)

/-- Such a pattern is read. -/
theorem read (h : Readable types pattern ps) :
    Regex.read (translate pattern types) = .ok (wholeRegex types pattern ps) := by
  have hdepth : (wholeTree ps).depth ≤ Syntax.nestLimit :=
    Nat.le_trans (depth_wholeTree_le ps) (by decide)
  apply read_translate h.parse_translate hdepth h.resolve_wholeTree
  intro entry hentry
  rw [groups_wholeExpr]
  exact mem_groups_of_mem_entries hentry

end Readable

namespace Plain

variable {types : TypeRegistry} {pattern : String} {ps : List Piece}

theorem readable (h : Plain types pattern ps) : Readable types pattern ps :=
  ⟨h.reads, fun name hname => isGroupName_of_isIdentifier (h.identifiers name hname), h.nodup⟩

/-- A plain pattern is read. -/
theorem read (h : Plain types pattern ps) :
    Regex.read (translate pattern types) = .ok (wholeRegex types pattern ps) :=
  h.readable.read

end Plain

end RequestRouting
