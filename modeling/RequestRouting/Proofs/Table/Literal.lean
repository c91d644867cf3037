import RequestRouting.Proofs.Path.Repetition
import RequestRouting.Proofs.Pattern.Behind
import RequestRouting.Proofs.Pattern.Joining
import RequestRouting.Proofs.Pattern.PlainMatch
import RequestRouting.Proofs.Table.History

/-!
Which literal routes can be reached.

A pattern of plain text matches itself and no other path, and only the key of a request is matched. So a literal route
answers the requests whose key it is, unless a route before it matches the key, and no request at all if it is not a
key: where it ends with a slash, begins with two, or begins with none (`RouteTable.Builds.literal_reached`). Such a
route is registered without an error.
-/

namespace RequestRouting

open Regex.Parser (isMeta)

variable {types : TypeRegistry}

/-! ## Paths that are no keys -/

/-- Whether a path ends with a slash behind other text, begins with two slashes, or begins with none. -/
def Path.IsMisplaced (path : String) : Prop :=
  (path ≠ "/" ∧ path.toList.getLast? = some '/') ∨ ['/', '/'] <+: path.toList ∨ path.toList.head? ≠ some '/'

theorem Path.IsMisplaced.not_isRootOrKey {path : String} (h : IsMisplaced path) : ¬IsRootOrKey path := by
  rintro (rfl | hkey)
  · rcases h with ⟨hroot, -⟩ | hslashes | hhead
    · exact hroot rfl
    · exact absurd hslashes (by decide)
    · exact hhead rfl
  · rcases h with ⟨-, hlast⟩ | ⟨rest, hslashes⟩ | hhead
    · exact hkey.last hlast
    · exact hkey.second (by rw [← hslashes]; rfl)
    · exact hhead hkey.head

/-! ## Literal patterns -/

theorem fits_lits_iff {cs path : List Char} {vs : List (Option (List Char))} :
    Fits (cs.map .lit) path vs ↔ path = cs ∧ vs = [] := by
  induction cs generalizing path with
  | nil =>
    constructor
    · rintro ⟨⟩
      exact ⟨rfl, rfl⟩
    · rintro ⟨rfl, rfl⟩
      exact .nil
  | cons c cs ih =>
    constructor
    · intro h
      cases h with
      | lit h =>
        obtain ⟨rfl, rfl⟩ := ih.1 h
        exact ⟨rfl, rfl⟩
    · rintro ⟨rfl, rfl⟩
      exact .lit (ih.2 ⟨rfl, rfl⟩)

/-- The pieces of plain text are its characters. -/
theorem plain_of_text {pattern : String} (h : ∀ c ∈ pattern.toList, isMeta c = false) :
    Plain types pattern (pattern.toList.map .lit) := by
  have hopens : ∀ rest, rest <:+ pattern.toList → ¬Placeholder.Opens rest := fun rest hrest hopens =>
    absurd (h '[' (hrest.subset (List.mem_of_head? hopens.head?))) (by decide)
  have hreads : Reads types (segments pattern) (pattern.toList.map .lit) := by
    have hnil : Reads types [] [] := .nil
    have hall := hnil.append_plain h
    rw [List.append_nil, List.append_nil] at hall
    rw [segments, Segment.scan_of_not_opens hopens]
    exact hall
  have hnames : (pattern.toList.map Piece.lit).filterMap Piece.name? = [] := by
    simp [Piece.name?]
  exact ⟨hreads, by simp [hnames], by simp [hnames]⟩

theorem CompiledPattern.isSome_captures (c : CompiledPattern) (path : String) :
    (c.captures path).isSome = c.isMatch path := by
  rw [captures, Option.isSome_map, isMatch, Regex.isMatch]

/-- Plain text matches itself only. -/
theorem isMatch_plain_iff [Regex.ProgramSize] {pattern : String} (h : ∀ c ∈ pattern.toList, isMeta c = false)
    {c : CompiledPattern} (hc : CompiledPattern.compile pattern types = .ok c) (path : String) :
    c.isMatch path ↔ path = pattern := by
  have hplain : Plain types pattern (pattern.toList.map .lit) := plain_of_text h
  rw [← c.isSome_captures, Option.isSome_iff_exists, ← String.toList_inj]
  constructor
  · intro ⟨params, hparams⟩
    obtain ⟨vs, hvs, -⟩ := hplain.fits_of_captures hc hparams
    exact (fits_lits_iff.1 hvs).1
  · intro hpath
    exact hplain.exists_captures hc (fits_lits_iff.2 ⟨hpath, rfl⟩)

namespace RouteTable

section

variable {H : Type} [Regex.ProgramSize] {t : RouteTable H} {log : History H}

/-! ## The entry that answers -/

/-- Whether a request is answered by an entry of a method. -/
def AnswersBy (t : RouteTable H) (m rawPath method : String) (e : RouteEntry H) : Prop :=
  ∃ params, t.dispatch m rawPath = some
    { method := normalizeMethod method, path := Path.normalize rawPath, pattern := e.pattern,
      handler := e.handler, params }

/-- The patterns of a method are different. -/
theorem Keeps.nodup_patterns (h : Keeps types log t) (method : String) :
    ((t.routesOf method).map RouteEntry.pattern).Nodup := by
  have hpatterns := congrArg (List.map Prod.fst) (h.routesOf_eq method)
  rw [List.map_map, List.map_map] at hpatterns
  have heq : (t.routesOf method).map RouteEntry.pattern = History.patterns log (normalizeMethod method) :=
    hpatterns.trans (List.map_id _)
  rw [heq]
  exact nodup_eraseDups _

omit [Regex.ProgramSize] in
theorem routesOf_congr {m method : String} (h : normalizeMethod m = normalizeMethod method) :
    t.routesOf m = t.routesOf method := by
  rw [routesOf, routesOf, entries, entries, h]

/-- An entry answers the requests for its method whose key it matches and no entry before it does. -/
theorem Keeps.answersBy_iff (h : Keeps types log t) {method : String} {before after : List (RouteEntry H)}
    {e : RouteEntry H} (hroutes : t.routesOf method = before ++ e :: after) (m rawPath : String) :
    t.AnswersBy m rawPath method e ↔ normalizeMethod m = normalizeMethod method ∧
      e.shared.compiled.isMatch (Path.normalize rawPath) ∧
      ∀ e' ∈ before, ¬e'.shared.compiled.isMatch (Path.normalize rawPath) := by
  rw [AnswersBy, h.dispatch_eq_findSome?]
  simp only [List.findSome?_eq_some_iff, ← CompiledPattern.isSome_captures]
  constructor
  · intro ⟨params, front, e', back, hsplit, hanswer, hfront⟩
    obtain ⟨params', hcaptures, hanswer⟩ := Option.map_eq_some_iff.1 hanswer
    obtain ⟨hmethod, -, hpattern, -⟩ := RouteMatch.mk.inj hanswer
    -- No other entry of the method has this pattern, so what was found is the entry itself.
    have hnodup := h.nodup_patterns m
    rw [hsplit, List.map_append, List.map_cons, List.nodup_middle, List.nodup_cons, List.mem_append, not_or,
      hpattern] at hnodup
    have hsame : front ++ e' :: back = before ++ e :: after :=
      hsplit.symm.trans ((routesOf_congr hmethod).trans hroutes)
    rw [List.append_cons_inj_of_notMem] at hsame
    · obtain ⟨rfl, rfl, -⟩ := hsame
      refine ⟨hmethod, by rw [hcaptures]; rfl, fun e'' he'' => ?_⟩
      rw [Option.not_isSome_iff_eq_none]
      exact Option.map_eq_none_iff.1 (hfront e'' he'')
    · exact fun hmem => hnodup.1.1 (List.mem_map_of_mem hmem)
    · exact fun hmem => hnodup.1.2 (List.mem_map_of_mem hmem)
  · intro ⟨hmethod, hmatch, hbefore⟩
    obtain ⟨params, hparams⟩ := Option.isSome_iff_exists.1 hmatch
    refine ⟨params, before, e, after, (routesOf_congr hmethod).trans hroutes, ?_, fun e' he' => ?_⟩
    · rw [hparams, hmethod]
      rfl
    · exact Option.map_eq_none_iff.2 (Option.not_isSome_iff_eq_none.1 (hbefore e' he'))

/-- A literal entry answers the requests for its method whose key it is, if no entry before it matches the key. -/
theorem Keeps.literal_answersBy_iff (h : Keeps types log t) {method : String}
    {before after : List (RouteEntry H)} {e : RouteEntry H}
    (hroutes : t.routesOf method = before ++ e :: after) (htext : ∀ c ∈ e.pattern.toList, isMeta c = false)
    (m rawPath : String) :
    t.AnswersBy m rawPath method e ↔ normalizeMethod m = normalizeMethod method ∧
      Path.normalize rawPath = e.pattern ∧ ∀ e' ∈ before, ¬e'.shared.compiled.isMatch e.pattern := by
  have hmem : e ∈ t.routesOf method := by
    rw [hroutes]
    exact List.mem_append_right _ List.mem_cons_self
  rw [h.answersBy_iff hroutes, isMatch_plain_iff htext (h.compile_of_mem_routesOf hmem)]
  constructor
  · intro ⟨hmethod, hkey, hbefore⟩
    exact ⟨hmethod, hkey, hkey ▸ hbefore⟩
  · intro ⟨hmethod, hkey, hbefore⟩
    exact ⟨hmethod, hkey, hkey.symm ▸ hbefore⟩

/-- A literal entry is reached just when its pattern is the root, or begins with one slash and does not end with one,
and no entry before it matches the pattern. It answers the requests then whose key is the pattern. No request reaches a
literal entry whose pattern ends with a slash behind other text, begins with two slashes, or begins with none. -/
theorem Builds.literal_reached (hrun : Builds { types } log t) {method : String}
    {before after : List (RouteEntry H)} {e : RouteEntry H}
    (hroutes : t.routesOf method = before ++ e :: after)
    (htext : ∀ c ∈ e.pattern.toList, isMeta c = false) :
    ((∃ m rawPath, t.AnswersBy m rawPath method e) ↔
      Path.IsRootOrKey e.pattern ∧ ∀ e' ∈ before, ¬e'.shared.compiled.isMatch e.pattern) ∧
    ((∃ m rawPath, t.AnswersBy m rawPath method e) → ∀ m rawPath, t.AnswersBy m rawPath method e ↔
      normalizeMethod m = normalizeMethod method ∧ Path.normalize rawPath = e.pattern) ∧
    (Path.IsMisplaced e.pattern → ∀ m rawPath, ¬t.AnswersBy m rawPath method e) := by
  have hkeeps : Keeps types log t := (Keeps.fresh types).builds hrun
  have hiff := hkeeps.literal_answersBy_iff hroutes htext
  have hreached : (∃ m rawPath, t.AnswersBy m rawPath method e) ↔
      Path.IsRootOrKey e.pattern ∧ ∀ e' ∈ before, ¬e'.shared.compiled.isMatch e.pattern := by
    constructor
    · intro ⟨m, rawPath, h⟩
      obtain ⟨-, hkey, hbefore⟩ := (hiff m rawPath).1 h
      exact ⟨hkey ▸ Path.isRootOrKey_normalize rawPath, hbefore⟩
    · intro ⟨hkey, hbefore⟩
      obtain ⟨raw, hraw⟩ := Path.exists_normalize_eq hkey
      exact ⟨method, raw, (hiff method raw).2 ⟨rfl, hraw, hbefore⟩⟩
  refine ⟨hreached, fun h m rawPath => ?_, fun hmisplaced m rawPath h => ?_⟩
  · rw [hiff]
    exact and_congr_right fun _ => and_iff_left (hreached.1 h).2
  · exact hmisplaced.not_isRootOrKey (hreached.1 ⟨m, rawPath, h⟩).1

end

/-- The root of a mounted block is never reached, and a literal behind it is, whatever is escaped in a request. -/
theorem literal_reached_mounted : ∃ (t : RouteTable Nat) (root page : RouteEntry Nat),
    Builds {} [⟨"GET", "/api/", 1⟩, ⟨"GET", "/api/a b", 2⟩] t ∧
    t.routesOf "GET" = [root, page] ∧ root.pattern = "/api/" ∧ page.pattern = "/api/a b" ∧
    (∀ m rawPath, ¬t.AnswersBy m rawPath "GET" root) ∧ t.AnswersBy "get" "api/%61%20b/?x" "GET" page := by
  have hrun := runProgram_builds
    [.mount "/api" [.register "GET" "/" 1, .register "GET" "/a b" 2]] {}
  have hlog : programHistory [.mount "/api" [.register "GET" "/" 1, .register "GET" "/a b" 2]] {} =
      [⟨"GET", "/api/", 1⟩, ⟨"GET", "/api/a b", 2⟩] := by
    cbv
  rw [hlog] at hrun
  generalize (runProgram [.mount "/api" [.register "GET" "/" 1, .register "GET" "/a b" 2]] {}).1 = t at hrun
  have hkeeps : Keeps TypeRegistry.builtin _ t := (Keeps.fresh _).builds hrun
  have hroutes : (t.routesOf "GET").map (fun e => (e.pattern, some e.handler)) =
      [("/api/", some 1), ("/api/a b", some 2)] := (hkeeps.routesOf_eq "GET").trans (by cbv)
  obtain ⟨root, rest, hentries, hfirst, hrest⟩ := List.map_eq_cons_iff.1 hroutes
  obtain ⟨page, after, rfl, hsecond, hafter⟩ := List.map_eq_cons_iff.1 hrest
  obtain rfl := List.map_eq_nil_iff.1 hafter
  obtain ⟨hroot, -⟩ := Prod.mk.inj hfirst
  obtain ⟨hpage, -⟩ := Prod.mk.inj hsecond
  have hroottext : ∀ c ∈ root.pattern.toList, isMeta c = false := by
    simp [hroot, isMeta]
  have hpagetext : ∀ c ∈ page.pattern.toList, isMeta c = false := by
    simp [hpage, isMeta]
  have hmisplaced : Path.IsMisplaced root.pattern := by
    rw [hroot]
    exact Or.inl ⟨by decide, by decide⟩
  have hatroot : t.routesOf "GET" = [] ++ root :: [page] := hentries
  have hatpage : t.routesOf "GET" = [root] ++ page :: [] := hentries
  obtain ⟨-, -, hnever⟩ := hrun.literal_reached hatroot hroottext
  obtain ⟨hreached, hanswers, -⟩ := hrun.literal_reached hatpage hpagetext
  have hbefore : ∀ e' ∈ [root], ¬e'.shared.compiled.isMatch page.pattern := by
    intro e' he'
    obtain rfl := List.mem_singleton.1 he'
    have hmem : e' ∈ t.routesOf "GET" := by
      rw [hentries]
      exact List.mem_cons_self
    rw [isMatch_plain_iff hroottext (hkeeps.compile_of_mem_routesOf hmem), hpage, hroot]
    decide
  have hkey : Path.IsRootOrKey page.pattern := by
    rw [hpage]
    exact Or.inr ⟨by decide, by decide, by decide, by decide⟩
  have hnormalize : Path.normalize "api/%61%20b/?x" = page.pattern := by
    rw [hpage]
    decide +kernel
  exact ⟨t, root, page, hrun, hentries, hroot, hpage, hnever hmisplaced,
    (hanswers (hreached.2 ⟨hkey, hbefore⟩) _ _).2 ⟨by cbv, hnormalize⟩⟩

end RouteTable

end RequestRouting
