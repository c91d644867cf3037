import Mathlib
import RequestRouting.Regex.Parser

/-!
Reading a text piece by piece.

`Passes` says that a piece of text takes the reader from one state to another, whatever stands behind
the piece. Pieces that stand one after the other are read one after the other (`Passes.append`), so what
is read from a whole text is put together from what its pieces give.
-/

namespace RequestRouting.Regex.Parser

/-- Whether a text does not begin with a question mark, which would belong to the sign before it. -/
def Quiet (cs : List Char) : Prop := cs.head? ≠ some '?'

instance (cs : List Char) : Decidable (Quiet cs) := inferInstanceAs (Decidable (_ ≠ _))

/-- Whether reading a piece of text takes the reader from one state to another, if what stands behind
the piece is quiet. The text that is left counts in neither state. -/
def Passes (cs : List Char) (s s' : State) : Prop :=
  ∀ r, Quiet r → ∀ n, cs.length ≤ n →
    ∃ m, n ≤ m + cs.length ∧ run n { s with rest := cs ++ r } = run m { s' with rest := r }

theorem Quiet.append {cs r : List Char} (hcs : Quiet cs) (hr : Quiet r) : Quiet (cs ++ r) := by
  cases cs with
  | nil => exact hr
  | cons c cs => exact hcs

theorem quiet_cons {c : Char} (hc : c ≠ '?') (cs : List Char) : Quiet (c :: cs) :=
  fun h => hc (Option.some.inj h)

theorem run_nil (n : Nat) (s : State) : run n { s with rest := [] } = .ok { s with rest := [] } := by
  cases n <;> rfl

/-- One step, and then the rest of them. -/
theorem run_step {s s' : State} {c : Char} {r : List Char} (hs : s.rest = c :: r)
    (h : step s = .ok s') (n : Nat) : run (n + 1) s = run n s' := by
  rw [run_cons n s c r hs, h]
  rfl

/-! ## Names -/

/-- Letters, digits and underscores, the first one no digit. -/
def isIdentifier : List Char → Bool
  | [] => false
  | c :: cs => (c.isAlpha || c == '_') && cs.all fun d => d.isAlphanum || d == '_'

theorem toNat_lt_of_isAlphanum {c : Char} (h : c.isAlphanum) : c.toNat < 128 := by
  simp only [Char.isAlphanum, Char.isAlpha, Char.isUpper, Char.isLower, Char.isDigit, ge_iff_le,
    UInt32.le_iff_toNat_le, Bool.or_eq_true, Bool.and_eq_true, decide_eq_true_eq] at h
  have hval : c.toNat = c.val.toNat := rfl
  simp at h
  omega

theorem isNameChar_of_isAlphanum {c : Char} (h : c.isAlphanum || c == '_') :
    isNameChar false c := by
  rw [Bool.or_eq_true] at h
  rcases h with h | h
  · have hname : Unicode.isAlphanumeric c := by
      rw [Unicode.isAlphanumeric, if_pos (toNat_lt_of_isAlphanum h)]
      exact h
    rw [isNameChar, if_neg Bool.false_ne_true, hname, Bool.or_true]
  · rw [beq_iff_eq.1 h]
    rfl

theorem isNameChar_of_isAlpha {c : Char} (h : c.isAlpha || c == '_') : isNameChar true c := by
  rw [Bool.or_eq_true] at h
  rcases h with h | h
  · have halnum : c.isAlphanum := by
      rw [Char.isAlphanum, h, Bool.true_or]
    have hname : Unicode.isAlphabetic c := by
      rw [Unicode.isAlphabetic, if_pos (toNat_lt_of_isAlphanum halnum)]
      exact h
    rw [isNameChar, if_pos rfl, hname, Bool.or_true]
  · rw [beq_iff_eq.1 h]
    rfl

theorem captureName_cons {taken : List Char} {c : Char} (hc : isNameChar taken.isEmpty c)
    (hne : c ≠ '>') (r : List Char) : captureName taken (c :: r) = captureName (c :: taken) r := by
  rw [captureName, if_pos hc]
  exact fun h => hne h

/-- Whether a group may have the name. -/
def isGroupName : List Char → Bool
  | [] => false
  | c :: cs => isNameChar true c && cs.all (isNameChar false)

theorem isGroupName_of_isIdentifier {name : List Char} (h : isIdentifier name) :
    isGroupName name := by
  cases name with
  | nil => cases h
  | cons c cs =>
    rw [isIdentifier, Bool.and_eq_true, List.all_eq_true] at h
    rw [isGroupName, Bool.and_eq_true, List.all_eq_true]
    exact ⟨isNameChar_of_isAlpha h.1, fun d hd => isNameChar_of_isAlphanum (h.2 d hd)⟩

theorem isNameChar_angle (first : Bool) : isNameChar first '>' = false := by
  cases first <;> decide

theorem ne_angle_of_isNameChar {first : Bool} {c : Char} (h : isNameChar first c) : c ≠ '>' := by
  rintro rfl
  rw [isNameChar_angle] at h
  cases h

/-- A name is read up to its closing angle. -/
theorem captureName_append {taken cs : List Char} (ht : taken ≠ [])
    (hcs : ∀ c ∈ cs, isNameChar false c) (r : List Char) :
    captureName taken (cs ++ '>' :: r) = .ok (String.ofList (taken.reverse ++ cs), r) := by
  induction cs generalizing taken with
  | nil =>
    cases taken with
    | nil => exact absurd rfl ht
    | cons d taken => rw [List.append_nil]; rfl
  | cons c cs ih =>
    have hc := hcs c List.mem_cons_self
    have hname : isNameChar taken.isEmpty c := by
      rw [List.isEmpty_eq_false_iff.2 ht]
      exact hc
    rw [List.cons_append, captureName_cons hname (ne_angle_of_isNameChar hc),
      ih (List.cons_ne_nil c taken) fun d hd => hcs d (List.mem_cons_of_mem c hd)]
    simp

theorem captureName_groupName {name : List Char} (h : isGroupName name) (r : List Char) :
    captureName [] (name ++ '>' :: r) = .ok (String.ofList name, r) := by
  cases name with
  | nil => cases h
  | cons c cs =>
    rw [isGroupName, Bool.and_eq_true, List.all_eq_true] at h
    have hc : isNameChar ([] : List Char).isEmpty c := h.1
    rw [List.cons_append, captureName_cons hc (ne_angle_of_isNameChar h.1),
      captureName_append (List.cons_ne_nil c []) h.2]
    rfl

namespace Passes

variable {cs ds : List Char} {s s' s'' : State}

theorem refl (s : State) : Passes [] s s := fun _ _ n _ => ⟨n, Nat.le_refl n, rfl⟩

theorem append (h : Passes cs s s') (h' : Passes ds s' s'') (hds : Quiet ds) :
    Passes (cs ++ ds) s s'' := by
  intro r hr n hn
  rw [List.length_append] at hn
  -- The second piece is what stands behind the first.
  obtain ⟨m, hm, hrun⟩ := h (ds ++ r) (hds.append hr) n (by omega)
  obtain ⟨m', hm', hrun'⟩ := h' r hr m (by omega)
  refine ⟨m', by rw [List.length_append]; omega, ?_⟩
  rw [List.append_assoc, hrun, hrun']

/-- A piece that is read in one step. -/
theorem of_step {c : Char}
    (h : ∀ r, Quiet r → step { s with rest := c :: cs ++ r } = .ok { s' with rest := r }) :
    Passes (c :: cs) s s' := by
  intro r hr n hn
  cases n with
  | zero => exact absurd hn (Nat.not_succ_le_zero _)
  | succ n =>
    refine ⟨n, by rw [List.length_cons]; omega, ?_⟩
    exact run_step rfl (h r hr) n

theorem parse_eq (h : Passes cs { rest := [] } s') : parse cs = finish { s' with rest := [] } := by
  obtain ⟨m, -, hrun⟩ := h [] nofun cs.length (Nat.le_refl _)
  rw [List.append_nil, run_nil] at hrun
  rw [parse, hrun]
  rfl

/-! ## Characters -/

/-- Plain characters, one after the other. -/
theorem literals (hcs : ∀ c ∈ cs, isMeta c = false) (hv : s.verbose = false) :
    Passes cs s { s with items := cs.reverse.map (fun c => .literal ⟨c, false⟩) ++ s.items } := by
  intro r _ n hn
  obtain ⟨m, rfl⟩ := Nat.exists_eq_add_of_le hn
  exact ⟨m, by omega, run_plain cs r m { s with rest := cs ++ r } hcs rfl hv⟩

theorem literal {c : Char} (hc : isMeta c = false) (hv : s.verbose = false) :
    Passes [c] s { s with items := .literal ⟨c, false⟩ :: s.items } :=
  literals (fun _ hd => List.mem_singleton.1 hd ▸ hc) hv

/-- A character that a backslash makes stand for itself. -/
theorem escaped {c : Char} (hc : isEscapable c) (hv : s.verbose = false) :
    Passes ['\\', c] s { s with items := .literal ⟨c, false⟩ :: s.items } := by
  refine of_step fun r _ => ?_
  have hescape : escape false (c :: r) = .ok (.literal ⟨c, false⟩, r) := if_pos hc
  obtain ⟨rest, v⟩ := s
  subst hv
  change (escape false (c :: r)).bind _ = _
  rw [hescape]
  rfl

/-- The sign between two alternatives. -/
theorem bar (hv : s.verbose = false) :
    Passes ['|'] s { s with branches := Syntax.ofItemsRev s.items :: s.branches, items := [] } := by
  refine of_step fun r _ => ?_
  obtain ⟨rest, v⟩ := s
  subst hv
  rfl

theorem lineStart (hv : s.verbose = false) :
    Passes ['^'] s { s with items := .assertion .lineStart :: s.items } := by
  refine of_step fun r _ => ?_
  obtain ⟨rest, v⟩ := s
  subst hv
  rfl

theorem lineEnd (hv : s.verbose = false) :
    Passes ['$'] s { s with items := .assertion .lineEnd :: s.items } := by
  refine of_step fun r _ => ?_
  obtain ⟨rest, v⟩ := s
  subst hv
  rfl

/-! ## Groups -/

theorem openPlain (hv : s.verbose = false) :
    Passes ['(', '?', ':'] s (s.enter (.plain {}) false []) := by
  refine of_step fun r _ => ?_
  obtain ⟨rest, v⟩ := s
  subst hv
  rfl

theorem openCapture (hv : s.verbose = false) : Passes ['('] s (s.enterCapture []) := by
  refine of_step fun r hr => ?_
  -- Every other kind of group has a question mark behind the parenthesis.
  have hlook : isLookAround r = false := by
    unfold isLookAround
    split <;> first | rfl | exact (hr rfl).elim
  have hopen : s.openGroup r = .ok (s.enterCapture r) := by
    simp only [State.openGroup, skip, hv, hlook, Bool.false_eq_true, if_false]
    split <;> first | rfl | exact (hr rfl).elim
  obtain ⟨rest, v⟩ := s
  subst hv
  exact hopen

/-- A group whose name is new. -/
theorem openNamed {name : List Char} (hv : s.verbose = false) (hname : isGroupName name)
    (hnew : String.ofList name ∉ s.names.map Prod.fst) :
    Passes ('(' :: '?' :: 'P' :: '<' :: (name ++ ['>'])) s
      { s.enterCapture [] with names := s.names ++ [(String.ofList name, s.captures + 1)] } := by
  refine of_step fun r _ => ?_
  have hread : captureName [] (name ++ '>' :: r) = .ok (String.ofList name, r) :=
    captureName_groupName hname r
  have hcontains : (s.names.map Prod.fst).contains (String.ofList name) = false := by
    rw [← Bool.not_eq_true, List.contains_iff_mem]
    exact hnew
  have hopen : s.enterNamed (name ++ '>' :: r) =
      .ok { s.enterCapture r with names := s.names ++ [(String.ofList name, s.captures + 1)] } := by
    rw [State.enterNamed, hread]
    change (if (s.names.map Prod.fst).contains (String.ofList name) then _ else _) = _
    rw [hcontains]
    rfl
  obtain ⟨rest, v⟩ := s
  subst hv
  change State.enterNamed _ (name ++ ['>'] ++ r) = _
  rw [List.append_assoc]
  exact hopen

/-- A sign that makes the item before it optional, or none. -/
def mark (optional : Bool) : List Char := if optional then ['?'] else []

/-- What a tree becomes behind such a sign. -/
def marked (optional : Bool) (t : Syntax) : Syntax :=
  if optional then .repeated 0 (some 1) true t else t

/-- A sign of repetition applies to the item before it, and is greedy where a quiet text follows. -/
theorem repeatLast_quiet {item : Syntax} {items : List Syntax} (hs : s.items = item :: items)
    (hempty : item ≠ .empty) (hflags : ∀ ch, item ≠ .flags ch) (least : Nat) (most : Option Nat)
    {r : List Char} (hr : Quiet r) : s.repeatLast least most r =
      .ok { s with rest := r, items := .repeated least most true item :: items } := by
  have hgreedy : ∀ r', ¬r = '?' :: r' := fun r' h => hr (congrArg List.head? h)
  rw [State.repeatLast, hs]
  · simp
  · exact hgreedy

/-- The end of a group, with its mark. -/
theorem close {g : OpenGroup} {gs : List OpenGroup} (hv : s.verbose = false)
    (hs : s.opened = g :: gs) (hg : g.verbose = false) (optional : Bool) :
    Passes (')' :: mark optional) s
      { s with
        verbose := false, branches := g.branches
        items := marked optional (.group g.kind s.inner) :: g.items, opened := gs } := by
  have hclose : ∀ r, step { s with rest := ')' :: r } =
      .ok { s with
        rest := r, verbose := false, branches := g.branches
        items := .group g.kind s.inner :: g.items, opened := gs } := by
    intro r
    obtain ⟨kind, v', branches, items⟩ := g
    obtain ⟨rest, v⟩ := s
    subst hv hs hg
    rfl
  cases optional with
  | false => exact of_step fun r _ => hclose r
  | true =>
    intro r hr n hn
    match n, hn with
    | n + 2, _ =>
      -- One step for the parenthesis, and one for the mark.
      refine ⟨n, Nat.le_refl _, ?_⟩
      refine (run_step rfl (hclose ('?' :: r)) (n + 1)).trans (run_step rfl ?_ n)
      exact repeatLast_quiet (s := { s with
        rest := '?' :: r, verbose := false, branches := g.branches
        items := .group g.kind s.inner :: g.items, opened := gs }) rfl nofun nofun 0 (some 1) hr

/-- Whether a text is read as a tree where it is all that stands in a group. -/
def Inside (cs : List Char) (t : Syntax) : Prop :=
  ∀ s : State, s.verbose = false → s.branches = [] → s.items = [] → ∃ branches items,
    Passes cs s { s with branches, items } ∧
      Syntax.ofBranchesRev (Syntax.ofItemsRev items) branches = t

/-- What stands before the content of a capturing group: its name, if it has one. -/
def nameText : Option (List Char) → List Char
  | none => []
  | some name => '?' :: 'P' :: '<' :: (name ++ ['>'])

/-- The names of the groups after one more group. -/
def namesWith (s : State) : Option (List Char) → List (String × Nat)
  | none => s.names
  | some name => s.names ++ [(String.ofList name, s.captures + 1)]

/-- A capturing group with its content and its mark. -/
theorem capture {n : Option (List Char)} {t : Syntax} (hcs : Inside cs t) (hquiet : Quiet cs)
    (hv : s.verbose = false) (hname : ∀ name, n = some name → isGroupName name)
    (hnew : ∀ name, n = some name → String.ofList name ∉ s.names.map Prod.fst) (optional : Bool) :
    Passes (('(' :: nameText n) ++ cs ++ ')' :: mark optional) s
      { s with
        items := marked optional (.group (.capture (s.captures + 1)) t) :: s.items
        captures := s.captures + 1, names := namesWith s n } := by
  have hopen : Passes ('(' :: nameText n) s
      { s.enterCapture [] with names := namesWith s n } := by
    cases n with
    | none => exact openCapture hv
    | some name => exact openNamed hv (hname name rfl) (hnew name rfl)
  obtain ⟨branches, items, hinner, ht⟩ :=
    hcs { s.enterCapture [] with names := namesWith s n } hv rfl rfl
  have hclose := close (s := { { s.enterCapture [] with names := namesWith s n } with branches, items })
    hv rfl hv optional
  have hall := (hopen.append hinner hquiet).append hclose (quiet_cons (by decide) _)
  obtain ⟨rest, v⟩ := s
  subst hv
  rw [← ht]
  exact hall

/-- A group that does not capture, with its content and its mark. -/
theorem plainGroup {items : List Syntax} {captures : Nat} {names : List (String × Nat)}
    (hv : s.verbose = false)
    (h : Passes cs (s.enter (.plain {}) false [])
      { s.enter (.plain {}) false [] with items, captures, names }) (hquiet : Quiet cs)
    (optional : Bool) :
    Passes ('(' :: '?' :: ':' :: (cs ++ ')' :: mark optional)) s
      { s with
        items := marked optional (.group (.plain {}) (Syntax.ofItemsRev items)) :: s.items
        captures, names } := by
  have hclose := close (s := { s.enter (.plain {}) false [] with items, captures, names }) rfl rfl hv
    optional
  have hall := ((openPlain hv).append h hquiet).append hclose (quiet_cons (by decide) _)
  obtain ⟨rest, v⟩ := s
  subst hv
  rw [List.append_assoc] at hall
  exact hall

end Passes

end RequestRouting.Regex.Parser
