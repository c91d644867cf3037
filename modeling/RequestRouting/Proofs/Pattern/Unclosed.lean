import RequestRouting.Proofs.Pattern.Behind
import RequestRouting.Proofs.Pattern.Joining
import RequestRouting.Proofs.Regex.Move

/-!
Brackets that are not closed.

An opening bracket behind which no closing one stands begins no placeholder, so it is text of the pattern. In the
expression it begins a class of characters, which only a closing bracket can end, whatever else is written in the
class. Such a pattern is refused (`BuiltinPattern.compile_unclosed`).
-/

namespace RequestRouting.Regex.Parser

variable {verbose : Bool} {cs ds : List Char} {found : Syntax × List Char}

/-- A class that is read to its end has a closing bracket in it. -/
theorem mem_bracket_of_setLoop {fuel : Nat} {cur : OpenSet} {outer : List OpenSet}
    (h : setLoop verbose fuel cur outer cs = .ok found) : ']' ∈ cs := by
  -- What is read on is an end of the text, so the bracket that closes the outermost class is found there.
  induction fuel generalizing cur outer cs with
  | zero => cases h
  | succ fuel ih =>
    have hskip := skip_suffix verbose cs
    rw [setLoop] at h
    split at h
    next => cases h
    next r hr => exact hskip.subset (hr ▸ List.mem_cons_self)
    next r hr =>
      have hrest := suffix_of_skip hr
      split at h
      next item rest hnamed => exact ((suffix_of_namedClass? hnamed).trans hrest).subset (ih h)
      next =>
        obtain ⟨⟨inner, rest⟩, hopen, h⟩ := bind_eq_ok_iff.1 h
        exact ((leaves_openSet verbose r _ _ hopen).2.trans hrest).subset (ih h)
    iterate 3
      next r hr => exact ((List.suffix_cons _ r).trans (suffix_of_skip hr)).subset (ih h)
    next =>
      obtain ⟨⟨item, rest⟩, hrange, h⟩ := bind_eq_ok_iff.1 h
      exact ((leaves_setRange verbose _ _ _ hrange).2.trans hskip).subset (ih h)

theorem mem_bracket_of_bracketed (h : bracketed verbose cs = .ok found) : ']' ∈ cs := by
  obtain ⟨⟨cur, rest⟩, hopen, h⟩ := bind_eq_ok_iff.1 h
  exact (leaves_openSet verbose cs _ _ hopen).2.subset (mem_bracket_of_setLoop h)

/-- The step on an opening bracket fails if none behind it is closing. -/
theorem exists_step_eq_error {s : State} (hv : s.verbose = false) (hrest : s.rest = '[' :: ds)
    (hds : ']' ∉ ds) : ∃ e, step s = .error e := by
  have hstep : step s = bracketed s.verbose ds >>= fun found => .ok (s.push found.1 found.2) := by
    rw [step, hrest, hv]
    rfl
  cases hread : bracketed s.verbose ds with
  | ok found => exact absurd (mem_bracket_of_bracketed hread) hds
  | error e =>
    rw [hread] at hstep
    exact ⟨e, hstep⟩

/-- A text that can be read up to an opening bracket is refused if none behind it is closing. -/
theorem Passes.exists_parse_eq_error {s : State} (h : Passes cs { rest := [] } s)
    (hv : s.verbose = false) (hds : ']' ∉ ds) : ∃ e, parse (cs ++ '[' :: ds) = .error e := by
  obtain ⟨n, hn, hrun⟩ := h ('[' :: ds) (quiet_cons (by decide) ds) (cs ++ '[' :: ds).length (by simp)
  obtain ⟨e, hstep⟩ := exists_step_eq_error (s := { s with rest := '[' :: ds }) hv rfl hds
  -- The text in front leaves a step for the bracket.
  cases n with
  | zero =>
    rw [List.length_append, List.length_cons] at hn
    omega
  | succ n =>
    refine ⟨e, ?_⟩
    rw [parse, hrun, run_cons n _ '[' ds rfl, hstep]
    rfl

end RequestRouting.Regex.Parser

namespace RequestRouting

open Regex.Parser (Passes Quiet isMeta namesFault? namesFault?_eq_none_iff)

/-- Behind plain text and placeholders, an opening bracket and what follows it are text of the pattern. -/
theorem Segment.scan_append_unclosed {cs ds : List Char}
    (htext : ∀ c, char c ∈ scan 0 cs → isMeta c = false) (hds : ']' ∉ ds) :
    scan 0 (cs ++ '[' :: ds) = scan 0 cs ++ ('[' :: ds).map char := by
  have hnone : ']' ∉ '[' :: ds := by
    rw [List.mem_cons, not_or]
    exact ⟨by decide, hds⟩
  have hopens : ∀ rest, rest <:+ '[' :: ds → ¬Placeholder.Opens rest :=
    fun rest hrest h => hnone (hrest.subset h.mem_bracket)
  rw [scan_append, scan_of_not_opens hopens]
  · exact fun hmem => absurd (htext '[' hmem) (by decide)
  · exact fun _ => Regex.Parser.quiet_cons (by decide) ds
  · exact fun _ _ => hopens _ List.suffix_rfl

/-- A pattern with builtin types is refused behind which a bracket is opened and not closed, whatever stands behind the
bracket. -/
theorem BuiltinPattern.compile_unclosed [Regex.ProgramSize] {types : TypeRegistry} {pattern : String}
    (h : BuiltinPattern types pattern) {rest : String} (hrest : ']' ∉ rest.toList) :
    ∃ reason, CompiledPattern.compile (pattern ++ "[" ++ rest) types =
      .error (.invalidPattern (pattern ++ "[" ++ rest) reason) := by
  obtain ⟨ps, hreads, -, hangle⟩ := h.exists_reads
  have hexpand : (segments (pattern ++ "[" ++ rest)).flatMap (Segment.expand types) =
      (segments pattern).flatMap (Segment.expand types) ++ '[' :: rest.toList := by
    have htext : (pattern ++ "[" ++ rest).toList = pattern.toList ++ '[' :: rest.toList := by simp
    rw [segments, htext, Segment.scan_append_unclosed h.text hrest, List.flatMap_append, flatMap_expand_char]
    rfl
  have hbracket : Quiet ('[' :: rest.toList) := Regex.Parser.quiet_cons (by decide) _
  -- The names in front are refused, or else they are read, and the class is refused.
  cases hfault : namesFault? [] (ps.filterMap Piece.name?) with
  | some e =>
    have hrefused := (hreads.refuses hangle (s := { rest := [], items := [.assertion .lineStart] })
      rfl hfault).append hbracket
    have hquiet := hreads.quiet.append hbracket
    rw [← hexpand] at hrefused hquiet
    exact ⟨e, compile_of_refuses hrefused hquiet⟩
  | none =>
    obtain ⟨hnames, hnodup⟩ := (namesFault?_eq_none_iff List.nodup_nil).1 hfault
    have hpasses := hreads.passes hnames (s := { rest := [], items := [.assertion .lineStart] }) rfl hnodup
    rw [foldl_read] at hpasses
    have hfront := (Passes.lineStart (s := { rest := [] }) rfl).append hpasses hreads.quiet
    have hends : ']' ∉ rest.toList ++ ['$'] := by
      rw [List.mem_append, not_or]
      exact ⟨hrest, by decide⟩
    obtain ⟨e, he⟩ := hfront.exists_parse_eq_error rfl hends
    refine ⟨e, compile_of_parse_error ?_⟩
    rw [translate, String.toList_ofList, hexpand, ← he]
    simp

/-- A class with a negation, a hyphen, a named class, an escape and an operator is still open. -/
theorem compile_unclosed_class : ∃ reason,
    CompiledPattern.compile ("/users/[i:id]?" ++ "[" ++ "^-a\\d[:alpha:&&[b") .builtin =
      .error (.invalidPattern ("/users/[i:id]?" ++ "[" ++ "^-a\\d[:alpha:&&[b") reason) :=
  BuiltinPattern.compile_unclosed (by decide) (by decide)

end RequestRouting
