import RequestRouting.Proofs.Pattern.Limits
import RequestRouting.Proofs.Regex.Opening
import RequestRouting.Proofs.SortedPairs

/-!
The parameters of a compiled pattern.

Whatever a pattern says, its parameters have the names of its groups in the order of their opening parentheses,
but for groups in a part that is repeated at most zero times, and no name comes twice (`ListsGroups`). What a
path gives for them is a part of the path inside the match, and it makes no difference whether it is looked up
in the list or in the map (`Takes`).
-/

namespace RequestRouting

open Regex
open Regex.Parser (Opening openings parse)

/-! ## Look-up by name -/

namespace Params

variable {ps : Params}

theorem get?_eq_lookup (ps : Params) (name : String) : ps.get? name = ps.entries.lookup name := by
  obtain ⟨entries⟩ := ps
  unfold get?
  induction entries with
  | nil => rfl
  | cons p rest ih =>
    obtain ⟨n, v⟩ := p
    rw [List.find?_cons, List.lookup_cons, BEq.comm]
    cases name == n with
    | false => exact ih
    | true => rfl

/-- Where no name comes twice, the map has the same entries as the list. -/
theorem toMap_perm (h : ps.names.Nodup) : ps.toMap.Perm ps.entries := SortedPairs.ofList_perm h

theorem nodup_toMap (h : ps.names.Nodup) : (ps.toMap.map (·.1)).Nodup :=
  ((toMap_perm h).map Prod.fst).nodup_iff.2 h

/-- Where no name comes twice, the last entry under a name is the first one. -/
theorem lookup_toMap (h : ps.names.Nodup) (name : String) : ps.toMap.lookup name = ps.get? name := by
  ext value
  rw [get?_eq_lookup, lookup_eq_some_iff_mem h, lookup_eq_some_iff_mem (nodup_toMap h), (toMap_perm h).mem_iff]

end Params

/-! ## Parts of a text -/

/-- What a span in a text covers stands between what is before it and what is behind it. -/
theorem Regex.Span.Within.split {i j : Nat} {s : Span} {text : List Char} (h : s.Within i j)
    (hj : j ≤ text.length) :
    ∃ before after, text = before ++ s.slice text ++ after ∧
      before.length = s.start ∧ (before ++ s.slice text).length = s.stop := by
  have hle := h.2.1
  have hstop := h.2.2
  refine ⟨text.take s.start, text.drop s.stop, ?_, ?_, ?_⟩
  · rw [Span.slice, List.append_assoc]
    have hrest : text.drop s.stop = (text.drop s.start).drop (s.stop - s.start) := by
      rw [List.drop_drop, Nat.add_sub_cancel' hle]
    rw [hrest, List.take_append_drop, List.take_append_drop]
  · rw [List.length_take]
    omega
  · rw [Span.slice, List.length_append, List.length_take, List.length_take, List.length_drop]
    omega

/-! ## Compiled expressions -/

namespace Regex

variable {r : Regex} {m : Match} {text : String}

/-- What a group holds in a match lies inside the match, and the match inside the text. -/
theorem within_of_find? (h : r.find? text = some m) {i : Nat} {span : Span} (hi : m.group? i = some span) :
    span.Within m.span.start m.span.stop ∧ m.span.stop ≤ text.toList.length := by
  obtain ⟨hwalk, hstart, -⟩ := walk_of_search h
  refine ⟨?_, hwalk.reaches.le_length hstart⟩
  obtain ⟨g, hg, rfl⟩ := Option.map_eq_some_iff.1 hi
  exact (hwalk.within g (List.mem_of_find?_eq_some hg)).resolve_left List.not_mem_nil

/-- The names of what is taken are those of the groups that took part. -/
theorem names_namedTexts (r : Regex) (m : Match) (text : String) : (r.namedTexts m text).map (·.1) =
    (r.names.filter fun entry => (m.group? entry.2).isSome).map (·.1) := by
  unfold namedTexts
  induction r.names with
  | nil => rfl
  | cons entry rest ih =>
    rw [List.filterMap_cons, List.filter_cons]
    cases m.group? entry.2 with
    | none => exact ih
    | some span => exact congrArg (entry.1 :: ·) ih

end Regex

namespace CompiledPattern

variable {c : CompiledPattern} {pattern : String} {types : TypeRegistry}

theorem expression_of_compile [ProgramSize] (h : compile pattern types = .ok c) :
    c.expression = translate pattern types := by
  obtain ⟨parsed, -, -, hsource, -⟩ := Regex.of_read (read_of_compile h)
  exact hsource

/-! ## Names -/

/-- The parentheses of the expression that open a capturing group, from left to right. -/
def openings (c : CompiledPattern) : List Opening := Parser.openings c.expression.toList

/-- How the names of the parameters come from the tree of the expression: the openings are the groups of the tree
in order, and those that are kept give their names. -/
structure ListsGroups (c : CompiledPattern) (tree : Syntax) : Prop where
  increasing : c.openings.Pairwise (·.pos < ·.pos)
  places : ∀ o ∈ c.openings, c.expression.toList[o.pos]? = some '(' ∧ o.StandsIn c.expression.toList
  numbers : tree.groups = List.range' 1 c.openings.length
  kept : c.regex.expr.groups = tree.kept
  names : c.paramNames =
    (c.openings.zipIdx 1).filterMap fun entry => if entry.2 ∈ tree.kept then entry.1.name else none

/-- Where no part is repeated at most zero times, every name is listed. -/
theorem ListsGroups.paramNames_eq {tree : Syntax} (h : c.ListsGroups tree) (hkept : tree.kept = tree.groups) :
    c.paramNames = c.openings.filterMap (·.name) := by
  have hall : ∀ entry ∈ c.openings.zipIdx 1, entry.2 ∈ tree.kept := fun entry hentry => by
    rw [hkept, h.numbers, List.mem_range'_1]
    exact ⟨List.le_snd_of_mem_zipIdx hentry, List.snd_lt_add_of_mem_zipIdx hentry⟩
  calc c.paramNames
    _ = (c.openings.zipIdx 1).filterMap fun entry => entry.1.name := by
      rw [h.names]
      exact List.filterMap_congr fun entry hentry => if_pos (hall entry hentry)
    _ = ((c.openings.zipIdx 1).map Prod.fst).filterMap (·.name) := List.filterMap_map.symm
    _ = c.openings.filterMap (·.name) := by rw [List.zipIdx_map_fst]

/-- The names of a pattern that compiles are read off its openings, and no name comes twice. -/
theorem listsGroups [ProgramSize] {parsed : Parser.Parsed} (h : compile pattern types = .ok c)
    (hparse : parse (translate pattern types).toList = .ok parsed) :
    c.ListsGroups parsed.tree ∧ c.paramNames.Nodup := by
  obtain ⟨parsed', hparse', hresolve, -, hnames⟩ := Regex.of_read (read_of_compile h)
  obtain rfl := Except.ok.inj (hparse'.symm.trans hparse)
  obtain ⟨hgroups, -, hnamed, hnodup⟩ := Parser.tracks_of_parse hparse'
  rw [← expression_of_compile h] at hgroups hnamed
  obtain ⟨hincreasing, hplaces⟩ := Parser.openings_places c.expression.toList
  -- The numbers of the groups in the tree are all different, so the expression has just those that are kept.
  have hkept : c.regex.expr.groups = parsed'.tree.kept :=
    Syntax.groups_of_resolve hresolve (hgroups ▸ List.nodup_range')
  refine ⟨⟨hincreasing, fun o ho => ⟨(hplaces o ho).getElem?, hplaces o ho⟩, hgroups, hkept, ?_⟩, ?_⟩
  · rw [paramNames, hnames, hnamed, Parser.named, List.filter_filterMap, List.map_filterMap, hkept]
    refine List.filterMap_congr fun entry _ => ?_
    cases entry.1.name with
    | none => exact (ite_self none).symm
    | some name =>
      simp only [Option.map_some, Option.filter_some, List.contains_iff_mem]
      split <;> rfl
  · rw [paramNames, hnames]
    exact hnodup.sublist (List.filter_sublist.map Prod.fst)

/-! ## Values -/

/-- What a path gives for the parameters: some of the names in order, each with the part of the path that its
group holds in the match, and as many entries in the map, with the same values. -/
structure Takes (c : CompiledPattern) (path : String) (params : Params) : Prop where
  names : params.names.Sublist c.paramNames
  values : ∀ entry ∈ params.entries, ∃ m i span,
    c.regex.find? path = some m ∧ (entry.1, i) ∈ c.regex.names ∧ m.group? i = some span ∧
    span.Within m.span.start m.span.stop ∧ m.span.stop ≤ path.toList.length ∧
    ∃ before after, path.toList = before ++ entry.2.toList ++ after ∧
      before.length = span.start ∧ (before ++ entry.2.toList).length = span.stop
  size : params.toMap.length = params.size
  nodup : (params.toMap.map (·.1)).Nodup
  lookup : ∀ name, params.toMap.lookup name = params.get? name

/-- Since no name comes twice, it makes no difference that the list gives the first entry under a name and the
map the last. -/
theorem takes {path : String} {params : Params} (hnames : c.paramNames.Nodup)
    (h : c.captures path = some params) : c.Takes path params := by
  obtain ⟨m, hm, rfl⟩ := Option.map_eq_some_iff.1 h
  have hsublist : ((c.regex.namedTexts m path).map (·.1)).Sublist c.paramNames := by
    rw [Regex.names_namedTexts]
    exact List.filter_sublist.map Prod.fst
  have hnodup : (Params.mk (c.regex.namedTexts m path)).names.Nodup := hnames.sublist hsublist
  refine ⟨hsublist, fun entry hentry => ?_, (Params.toMap_perm hnodup).length_eq, Params.nodup_toMap hnodup,
    Params.lookup_toMap hnodup⟩
  obtain ⟨⟨name, i⟩, hname, htext⟩ := List.mem_filterMap.1 hentry
  obtain ⟨span, hspan, rfl⟩ := Option.map_eq_some_iff.1 htext
  obtain ⟨hwithin, hstop⟩ := Regex.within_of_find? hm hspan
  refine ⟨m, i, span, hm, hname, hspan, hwithin, hstop, ?_⟩
  rw [String.toList_ofList]
  exact hwithin.split hstop

/-- The parameters of every pattern that compiles: their names are those of the groups that are kept, in the
order of their opening parentheses and none twice, and a path gives values for some of them just when it
matches. Where no part is repeated at most zero times, they are the names of all groups. -/
theorem compile_parameters [ProgramSize] (h : compile pattern types = .ok c) :
    (∃ parsed, parse (translate pattern types).toList = .ok parsed ∧ c.ListsGroups parsed.tree ∧
        (parsed.tree.kept = parsed.tree.groups → c.paramNames = c.openings.filterMap (·.name))) ∧
      c.paramNames.Nodup ∧
      ∀ path, ((c.captures path).isSome ↔ c.isMatch path) ∧
        ∀ params, c.captures path = some params → c.Takes path params := by
  obtain ⟨parsed, hparse, -⟩ := Regex.of_read (read_of_compile h)
  obtain ⟨hlists, hnodup⟩ := listsGroups h hparse
  refine ⟨⟨parsed, hparse, hlists, hlists.paramNames_eq⟩, hnodup, fun path => ⟨?_, fun params => takes hnodup⟩⟩
  rw [captures, Option.isSome_map, isMatch, Regex.isMatch]

/-- A pattern with groups of its own, one of them in a part that is left out. -/
theorem parameters_of_groups :
    ∃ c, compile "/(?<kind>post|page)(?:x(?P<gone>y)){0}[i:id]?(?P<rest>.*)?" .builtin = .ok c ∧
      c.paramNames = ["kind", "id", "rest"] ∧ c.paramNames.Nodup ∧
      ∃ params, c.captures "/page7/x" = some params ∧ c.Takes "/page7/x" params ∧
        params.entries = [("kind", "page"), ("id", "7"), ("rest", "/x")] := by
  have h : ∃ c, compile "/(?<kind>post|page)(?:x(?P<gone>y)){0}[i:id]?(?P<rest>.*)?" .builtin = .ok c ∧
      c.paramNames = ["kind", "id", "rest"] ∧
      c.captures "/page7/x" = some ⟨[("kind", "page"), ("id", "7"), ("rest", "/x")]⟩ :=
    ⟨_, rfl, by decide +kernel, by decide +kernel⟩
  obtain ⟨c, hc, hnames, hcaptures⟩ := h
  obtain ⟨-, hnodup, hpath⟩ := compile_parameters hc
  exact ⟨c, hc, hnames, hnodup, _, hcaptures, (hpath "/page7/x").2 _ hcaptures, rfl⟩

/-- The name of a group in a part repeated at most zero times is not listed. -/
theorem paramNames_dropped : ∃ c, compile "/[i:n]{0}" .builtin = .ok c ∧
    c.openings.filterMap (·.name) = ["n"] ∧ c.paramNames = [] :=
  ⟨_, rfl, by decide +kernel, by decide +kernel⟩

end CompiledPattern

end RequestRouting
