import RequestRouting.Pattern.Compiled
import RequestRouting.Proofs.Results

/-!
The limits of an expression.

An expression that is read to its end is refused all the same if its tree is nested too deep, or if its program
is too big. A row of items is nested one deeper than the deepest of them (`Syntax.depth_ofItemsRev_le`). How big
a program is cannot be told from the pattern, so a pattern that is read compiles unless it is too big
(`CompiledPattern.compile_of_read`).
-/

namespace RequestRouting

namespace Regex

/-! ## Nesting -/

namespace Syntax

theorem depth_sequence_le {n : Nat} {first second : Syntax} (hfirst : first.depth ≤ n)
    (hsecond : second.depth ≤ n) : (sequence first second).depth ≤ n + 1 := by
  rw [depth]
  split <;> omega

theorem depth_choice_le {n : Nat} {first second : Syntax} (hfirst : first.depth ≤ n)
    (hsecond : second.depth ≤ n) : (choice first second).depth ≤ n + 1 := by
  rw [depth]
  split <;> omega

theorem depth_ofItemsRev_le {n : Nat} {items : List Syntax} (h : ∀ s ∈ items, s.depth ≤ n) :
    (ofItemsRev items).depth ≤ n + 1 := by
  induction items with
  | nil => exact Nat.zero_le _
  | cons s rest ih =>
    rw [List.forall_mem_cons] at h
    obtain ⟨hs, hrest⟩ := h
    match rest with
    | [] => exact Nat.le_succ_of_le hs
    | [t] => exact depth_sequence_le (hrest t List.mem_cons_self) hs
    | t :: u :: more =>
      -- The items in front are a row already, which takes in one more.
      have hfront : (ofItemsRev (t :: u :: more)).depth ≤ n + 1 := ih hrest
      exact Nat.max_le.2 ⟨hfront, Nat.succ_le_succ hs⟩

theorem checkDepth_eq_ok_iff {s : Syntax} : s.checkDepth = .ok () ↔ s.depth ≤ nestLimit := by
  unfold checkDepth
  split
  next h => exact iff_of_true rfl h
  next h => exact iff_of_false nofun h

end Syntax

/-! ## Reading -/

variable {source : String} {r : Regex}

theorem read_of_parse {parsed : Parser.Parsed} {e : Expr} (hparse : Parser.parse source.toList = .ok parsed)
    (hdepth : parsed.tree.depth ≤ Syntax.nestLimit) (hresolve : parsed.tree.resolve = .ok e) :
    read source = .ok ⟨source, e, parsed.names.filter fun entry => e.groups.contains entry.2,
      e.groups.foldl max 0⟩ := by
  rw [read, hparse]
  -- What is left to do with the tree: check how deep it is, then resolve it.
  change (parsed.tree.checkDepth >>= fun _ => parsed.tree.resolve >>= _) = _
  rw [Syntax.checkDepth_eq_ok_iff.2 hdepth, hresolve]
  rfl

theorem of_read (h : read source = .ok r) :
    ∃ parsed, Parser.parse source.toList = .ok parsed ∧ parsed.tree.resolve = .ok r.expr ∧ r.source = source ∧
      r.names = parsed.names.filter fun entry => r.expr.groups.contains entry.2 := by
  obtain ⟨parsed, hparse, h⟩ := bind_eq_ok_iff.1 h
  obtain ⟨-, -, h⟩ := bind_eq_ok_iff.1 h
  obtain ⟨expr, hresolve, h⟩ := bind_eq_ok_iff.1 h
  cases h
  exact ⟨parsed, hparse, hresolve, rfl, rfl⟩

theorem compile_eq_ok_iff [ProgramSize] : compile source = .ok r ↔ read source = .ok r ∧ ¬r.isTooBig := by
  rw [compile, bind_eq_ok_iff]
  constructor
  · intro ⟨r', hread, h⟩
    -- What was read is given back as it is, or not at all.
    split at h
    next => cases h
    next hsize =>
      cases h
      exact ⟨hread, hsize⟩
  · intro ⟨hread, hsize⟩
    exact ⟨r, hread, if_neg hsize⟩

end Regex

/-! ## Patterns -/

namespace CompiledPattern

variable [Regex.ProgramSize] {pattern : String} {types : TypeRegistry} {c : CompiledPattern} {r : Regex}

/-- Whether the expression of a pattern can be read, and only its program is too big. -/
def isTooBig (pattern : String) (types : TypeRegistry) : Bool :=
  match Regex.read (translate pattern types) with
  | .ok r => r.isTooBig
  | .error _ => false

theorem isTooBig_of_read (h : Regex.read (translate pattern types) = .ok r) :
    isTooBig pattern types = r.isTooBig := by
  rw [isTooBig, h]

/-- A pattern that is read compiles unless it is too big. -/
theorem compile_of_read (h : Regex.read (translate pattern types) = .ok r) : compile pattern types =
    if isTooBig pattern types then .error (.invalidPattern pattern .programTooBig) else .ok ⟨pattern, r⟩ := by
  have hregex : Regex.compile (translate pattern types) =
      if r.isTooBig then .error .programTooBig else .ok r := by
    rw [Regex.compile, h]
    rfl
  rw [compile, hregex, isTooBig_of_read h]
  cases r.isTooBig <;> rfl

theorem compile_of_isTooBig (hsize : isTooBig pattern types) :
    compile pattern types = .error (.invalidPattern pattern .programTooBig) := by
  cases hread : Regex.read (translate pattern types) with
  | ok r => rw [compile_of_read hread, if_pos hsize]
  | error e =>
    rw [isTooBig, hread] at hsize
    cases hsize

theorem compile_of_not_isTooBig (h : Regex.read (translate pattern types) = .ok r)
    (hsize : ¬isTooBig pattern types) : compile pattern types = .ok ⟨pattern, r⟩ := by
  rw [compile_of_read h, if_neg hsize]

theorem read_of_compile (h : compile pattern types = .ok c) :
    Regex.read (translate pattern types) = .ok c.regex := by
  unfold compile at h
  split at h
  next regex hregex =>
    cases h
    exact (Regex.compile_eq_ok_iff.1 hregex).1
  next => cases h

theorem not_isTooBig_of_compile (h : compile pattern types = .ok c) : ¬isTooBig pattern types := by
  intro hsize
  rw [compile_of_read (read_of_compile h), if_pos hsize] at h
  cases h

/-- What a pattern compiles to is what is read from it. -/
theorem eq_of_compile (hread : Regex.read (translate pattern types) = .ok r)
    (h : compile pattern types = .ok c) : c = ⟨pattern, r⟩ := by
  have hsize := not_isTooBig_of_compile h
  rw [compile_of_read hread, if_neg hsize] at h
  cases h
  rfl

end CompiledPattern

end RequestRouting
