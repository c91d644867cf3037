import RequestRouting.Proofs.Pattern.Limits
import RequestRouting.Proofs.Pattern.Plain
import RequestRouting.Proofs.Regex.Spelling

/-!
The pieces of a plain pattern.

Each piece is read by itself, is nested no deeper than a few groups, and resolves to an expression of its own.
-/

namespace RequestRouting

open Regex
open Regex.Parser (State Passes Quiet isGroupName isGroupName_of_isIdentifier)

/-! ## Runs -/

namespace Run

/-- What stands before the sign of repetition. -/
def item : Run → Syntax
  | digits => .set false (.range ⟨'0', false⟩ ⟨'9', false⟩)
  | alphanumeric => .set false (.union (.union (.range ⟨'0', false⟩ ⟨'9', false⟩)
      (.range ⟨'A', false⟩ ⟨'Z', false⟩)) (.range ⟨'a', false⟩ ⟨'z', false⟩))
  | hexadecimal => .set false (.union (.union (.range ⟨'0', false⟩ ⟨'9', false⟩)
      (.range ⟨'A', false⟩ ⟨'F', false⟩)) (.range ⟨'a', false⟩ ⟨'f', false⟩))
  | shortest => .anyChar
  | longest => .anyChar
  | part => .set true (.union (.literal ⟨'/', false⟩) (.literal ⟨'.', false⟩))

def itemText : Run → List Char
  | digits => "[0-9]".toList
  | alphanumeric => "[0-9A-Za-z]".toList
  | hexadecimal => "[0-9A-Fa-f]".toList
  | shortest => ['.']
  | longest => ['.']
  | part => "[^/\\.]".toList

def greedy (r : Run) : Bool := r != shortest

def sign (r : Run) : List Char := if r.greedy then ['+'] else ['+', '?']

/-- The characters of the run. -/
def set : Run → CharSet
  | digits => ⟨[(48, 57)]⟩
  | alphanumeric => ⟨[(48, 57), (65, 90), (97, 122)]⟩
  | hexadecimal => ⟨[(48, 57), (65, 70), (97, 102)]⟩
  | shortest => ⟨[(0, 9), (11, CharSet.top)]⟩
  | longest => ⟨[(0, 9), (11, CharSet.top)]⟩
  | part => ⟨[(0, 45), (48, CharSet.top)]⟩

theorem toList_fragment (r : Run) : r.fragment.toList = r.itemText ++ r.sign := by
  cases r <;> decide

theorem contains_set (r : Run) (c : Char) : r.set.contains c = r.takes c := by
  have htop : c.toNat ≤ CharSet.top := by
    have h : c.val.toNat < 0xD800 ∨ (0xDFFF < c.val.toNat ∧ c.val.toNat < 0x110000) := c.valid
    change c.val.toNat ≤ 0x10FFFF
    omega
  have hval : c.val.toNat = c.toNat := rfl
  have heq : ∀ d : Char, c = d ↔ c.toNat = d.toNat := fun d => Char.toNat_inj.symm
  rw [Bool.eq_iff_iff]
  cases r <;>
    simp [set, takes, CharSet.contains, CharSet.has, Char.isDigit, Char.isAlphanum, Char.isAlpha,
      Char.isUpper, Char.isLower, Char.le_def, UInt32.le_iff_toNat_le, hval, heq] <;>
    omega

theorem passes_item (r : Run) {s : State} (hv : s.verbose = false) :
    Passes r.itemText s { s with items := r.item :: s.items } := by
  obtain ⟨rest, v⟩ := s
  subst hv
  cases r <;> exact Passes.of_step fun r _ => rfl

theorem passes_sign (r : Run) {s : State} (hv : s.verbose = false) {items : List Syntax}
    (hs : s.items = r.item :: items) :
    Passes r.sign s { s with items := .repeated 1 none r.greedy r.item :: items } := by
  have hempty : r.item ≠ .empty := by cases r <;> exact nofun
  have hflags : ∀ ch, r.item ≠ .flags ch := by cases r <;> exact fun _ => nofun
  rcases hg : r.greedy with _ | _
  · -- Only the shortest run brings its own question mark.
    rw [sign, hg]
    refine Passes.of_step fun rest _ => ?_
    obtain rfl : r = shortest := by revert hg; cases r <;> decide
    obtain ⟨_, v, _, is⟩ := s
    subst hv hs
    rfl
  · rw [sign, hg]
    refine Passes.of_step fun rest hrest => ?_
    have hlast := Passes.repeatLast_quiet (s := { s with rest := '+' :: rest }) hs hempty hflags 1
      none hrest
    obtain ⟨_, v⟩ := s
    subst hv
    exact hlast

/-- What is read from the fragment of a builtin type. -/
def tree (r : Run) : Syntax := .repeated 1 none r.greedy r.item

theorem depth_tree_le (r : Run) : r.tree.depth ≤ 3 := by
  cases r <;> decide

theorem passes_fragment (r : Run) {s : State} (hv : s.verbose = false) :
    Passes r.fragment.toList s { s with items := r.tree :: s.items } := by
  have hsign := r.passes_sign (s := { s with items := r.item :: s.items }) hv rfl
  have hquiet : Quiet r.sign := by cases r <;> decide
  rw [r.toList_fragment]
  exact (r.passes_item hv).append hsign hquiet

theorem inside (r : Run) : Passes.Inside r.fragment.toList r.tree := by
  intro s hv hbranches hitems
  refine ⟨s.branches, r.tree :: s.items, r.passes_fragment hv, ?_⟩
  rw [hbranches, hitems]
  rfl

theorem quiet_fragment (r : Run) : Quiet r.fragment.toList := by
  cases r <;> decide

theorem resolve_tree (r : Run) : r.tree.resolveBranches {} =
    .ok ([.rep 1 none r.greedy (.char r.set)], {}) := by
  cases r <;> rfl

end Run

/-! ## Words -/

/-- What is read from a word. -/
def wordTree (w : List Char) : Syntax := .ofItemsRev (w.reverse.map fun c => .literal ⟨c, false⟩)

/-- What is read from words with signs of alternation between them. -/
def wordsTree : List (List Char) → Syntax
  | [] => .empty
  | [w] => wordTree w
  | w :: ws => .choice (wordTree w) (wordsTree ws)

theorem depth_literals_le {cs : List Char} : ∀ s ∈ cs.map fun c => Syntax.literal ⟨c, false⟩, s.depth ≤ 0 := by
  intro s hs
  obtain ⟨c, -, rfl⟩ := List.mem_map.1 hs
  exact Nat.le_refl 0

theorem depth_wordTree_le (w : List Char) : (wordTree w).depth ≤ 1 :=
  Syntax.depth_ofItemsRev_le depth_literals_le

theorem depth_wordsTree_le (ws : List (List Char)) : (wordsTree ws).depth ≤ 2 := by
  induction ws with
  | nil => exact Nat.zero_le 2
  | cons w ws ih =>
    have hw := depth_wordTree_le w
    match ws with
    | [] => exact Nat.le_succ_of_le hw
    | [w'] => exact Syntax.depth_choice_le hw (depth_wordTree_le w')
    | w' :: w'' :: ws =>
      -- The words behind are alternatives already.
      exact Nat.max_le.2 ⟨Nat.succ_le_succ hw, ih⟩

theorem isMeta_of_isAlphanum {c : Char} (h : c.isAlphanum) : Parser.isMeta c = false := by
  rw [← Bool.not_eq_true, Parser.isMeta, List.contains_iff_mem]
  intro hc
  have hall : "\\.+*?()|[]\x7b\x7d^$".toList.all (fun d => !d.isAlphanum) := by decide
  have hnot : !c.isAlphanum := List.all_eq_true.1 hall c hc
  rw [h] at hnot
  cases hnot

theorem quiet_of_isAlphanum {w cs : List Char} (hw : w ≠ []) (h : ∀ c ∈ w, c.isAlphanum) :
    Quiet (w ++ cs) := by
  cases w with
  | nil => exact absurd rfl hw
  | cons c w =>
    refine Parser.quiet_cons ?_ _
    rintro rfl
    exact absurd (h '?' List.mem_cons_self) (by decide)

theorem quiet_intercalate {ws : List (List Char)} (hne : ws ≠ [])
    (hws : ∀ w ∈ ws, w ≠ [] ∧ ∀ c ∈ w, c.isAlphanum) : Quiet (['|'].intercalate ws) := by
  cases ws with
  | nil => exact absurd rfl hne
  | cons w ws =>
    obtain ⟨hw, halnum⟩ := hws w List.mem_cons_self
    cases ws with
    | nil => exact quiet_of_isAlphanum hw halnum
    | cons w' ws => exact quiet_of_isAlphanum hw halnum

/-- Words that are read into a state add their alternatives to those that it has. -/
theorem passes_words {ws : List (List Char)} (hne : ws ≠ [])
    (hws : ∀ w ∈ ws, w ≠ [] ∧ ∀ c ∈ w, c.isAlphanum) {s : State} (hv : s.verbose = false)
    (hs : s.items = []) : ∃ branches items,
      Passes (['|'].intercalate ws) s { s with branches, items } ∧
        Syntax.ofBranchesRev (Syntax.ofItemsRev items) branches =
          Syntax.ofBranchesRev (wordsTree ws) s.branches := by
  induction ws generalizing s with
  | nil => exact absurd rfl hne
  | cons w ws ih =>
    obtain ⟨hw, halnum⟩ := hws w List.mem_cons_self
    have hword := Passes.literals (s := s) (fun c hc => isMeta_of_isAlphanum (halnum c hc)) hv
    rw [hs, List.append_nil] at hword
    -- The last word stays among the items; a sign of alternation moves a word to the branches.
    cases ws with
    | nil =>
      refine ⟨s.branches, _, ?_, rfl⟩
      have hone : ['|'].intercalate [w] = w := List.append_nil w
      rw [hone]
      exact hword
    | cons w' ws =>
      obtain ⟨branches, items, hrest, htree⟩ := ih (List.cons_ne_nil w' ws)
        (fun v hv => hws v (List.mem_cons_of_mem w hv))
        (s := { s with branches := wordTree w :: s.branches, items := [] }) hv rfl
      refine ⟨branches, items, ?_, htree⟩
      have hmore : ['|'].intercalate (w :: w' :: ws) = w ++ (['|'] ++ ['|'].intercalate (w' :: ws)) :=
        rfl
      have hbar := Passes.bar (s := { s with items := w.reverse.map fun c => .literal ⟨c, false⟩ }) hv
      have hquiet := quiet_intercalate (List.cons_ne_nil w' ws) fun v hv =>
        hws v (List.mem_cons_of_mem w hv)
      rw [hmore]
      exact hword.append (hbar.append hrest hquiet) (Parser.quiet_cons (by decide) _)

/-- What the resolved items of a sequence give. -/
theorem resolve_ofItemsRev {f : Flags} {items : List Syntax} {es : List Expr}
    (h : List.Forall₂ (fun t e => t.resolveBranches f = .ok ([e], f)) items es) :
    (Syntax.ofItemsRev items).resolveBranches f = .ok ([Expr.ofRev es], f) := by
  induction h with
  | nil => rfl
  | @cons t e items es hte hrest ih =>
    cases hrest with
    | nil => exact hte
    | cons _ _ =>
      rw [Syntax.ofItemsRev, Syntax.resolveBranches, ih]
      · change (t.resolveBranches f >>= _) = _
        rw [hte]
        rfl
      · exact nofun

theorem resolve_literal (c : Char) :
    (Syntax.literal ⟨c, false⟩).resolveBranches {} = .ok ([.letter c], {}) := rfl

theorem resolve_literals (cs : List Char) :
    List.Forall₂ (fun (t : Syntax) e => t.resolveBranches {} = .ok ([e], {}))
      (cs.map fun c => .literal ⟨c, false⟩) (cs.map .letter) := by
  rw [List.forall₂_map_left_iff, List.forall₂_map_right_iff]
  exact List.forall₂_same.2 fun c _ => resolve_literal c

theorem resolve_wordTree (w : List Char) :
    (wordTree w).resolveBranches {} = .ok ([.word w], {}) :=
  resolve_ofItemsRev (resolve_literals w.reverse)

theorem resolve_wordsTree {ws : List (List Char)} (hne : ws ≠ []) :
    (wordsTree ws).resolveBranches {} = .ok (ws.map .word, {}) := by
  induction ws with
  | nil => exact absurd rfl hne
  | cons w ws ih =>
    cases ws with
    | nil => exact resolve_wordTree w
    | cons w' ws =>
      rw [wordsTree, Syntax.resolveBranches, resolve_wordTree]
      · change ((wordsTree (w' :: ws)).resolveBranches {} >>= _) = _
        rw [ih (List.cons_ne_nil w' ws)]
        rfl
      · exact nofun

/-! ## Kinds -/

namespace Kind

variable {types : TypeRegistry} {tag : String} {k : Kind} {text : List Char}

/-- What is read from the fragment of the kind. -/
def tree : Kind → Syntax
  | run r => r.tree
  | words ws => wordsTree ws

/-- What it resolves to. -/
def expr : Kind → Expr
  | run r => .rep 1 none r.greedy (.char r.set)
  | words ws => Syntax.unite (ws.map .word)

theorem depth_tree_le (k : Kind) : k.tree.depth ≤ 3 := by
  cases k with
  | run r => exact r.depth_tree_le
  | words ws => exact Nat.le_succ_of_le (depth_wordsTree_le ws)

theorem Of.inside (h : k.Of types tag) : Passes.Inside (types.resolve tag).toList k.tree := by
  cases k with
  | run r =>
    rw [h.2]
    exact r.inside
  | words ws =>
    obtain ⟨hne, hws, hres⟩ := h
    rw [hres, String.toList_ofList]
    intro s hv hbranches hitems
    obtain ⟨branches, items, hpasses, htree⟩ := passes_words hne hws hv hitems
    rw [hbranches] at htree
    exact ⟨branches, items, hpasses, htree⟩

theorem Of.quiet (h : k.Of types tag) : Quiet (types.resolve tag).toList := by
  cases k with
  | run r =>
    rw [h.2]
    exact r.quiet_fragment
  | words ws =>
    obtain ⟨hne, hws, hres⟩ := h
    rw [hres, String.toList_ofList]
    exact quiet_intercalate hne hws

theorem Of.resolve_tree (h : k.Of types tag) :
    ∃ es, k.tree.resolveBranches {} = .ok (es, {}) ∧ Syntax.unite es = k.expr := by
  cases k with
  | run r => exact ⟨_, r.resolve_tree, rfl⟩
  | words ws => exact ⟨_, resolve_wordsTree h.1, rfl⟩

theorem expr_words {ws : List (List Char)} (h : (words ws).Of types tag) :
    (words ws).expr = Expr.choice (ws.map .word) := by
  obtain ⟨-, hws, -⟩ := h
  have hchoice := Expr.choice_words fun w hw => (hws w hw).1
  change Syntax.unite (ws.map .word) = _
  unfold Syntax.unite
  split
  next e heq => rw [hchoice, heq, Expr.oneOf]
  next => rfl

theorem Of.groups_expr (h : k.Of types tag) : k.expr.groups = [] := by
  cases k with
  | run r => rfl
  | words ws =>
    rw [expr_words h]
    exact Expr.groups_words fun w hw => (h.2.1 w hw).1

theorem Of.spells (h : k.Of types tag) : k.expr.Spells text k.Takes := by
  cases k with
  | run r =>
    refine (Expr.Spells.many r.set r.greedy).congr fun w => ?_
    simp only [r.contains_set]
    rfl
  | words ws =>
    rw [expr_words h]
    exact Expr.Spells.words fun w hw => (h.2.1 w hw).1

end Kind

/-! ## Pieces -/

/-- An expression behind which an optional part has its mark. -/
def Regex.Expr.marked (optional : Bool) (e : Expr) : Expr :=
  if optional then .rep 0 (some 1) true e else e

namespace Piece

/-- How many groups the piece has that capture. -/
def captures : Piece → Nat
  | lit _ => 0
  | hole _ _ => 1

/-- What is read from the piece behind so many groups. -/
def tree (i : Nat) : Piece → Syntax
  | lit c => .literal ⟨c, false⟩
  | hole p k => Passes.marked p.optional (.group (.plain {}) (Syntax.ofItemsRev
      (Passes.marked p.optional (.group (.capture (i + 1)) k.tree) ::
        p.lead.map fun c => .literal ⟨c, false⟩)))

/-- What it resolves to. -/
def expr (i : Nat) : Piece → Expr
  | lit c => .letter c
  | hole p k => .marked p.optional (.ofRev
      (.marked p.optional (.group (i + 1) k.expr) :: p.lead.map .letter))

/-- The name with the number of the group that has it. -/
def entry (i : Nat) (p : Piece) : List (String × Nat) := (p.name?.map fun name => (name, i + 1)).toList

theorem depth_marked_le (optional : Bool) (t : Syntax) : (Passes.marked optional t).depth ≤ t.depth + 1 := by
  cases optional with
  | false => exact Nat.le_succ t.depth
  | true => exact Nat.le_refl (t.depth + 1)

theorem depth_tree_le (i : Nat) (p : Piece) : (p.tree i).depth ≤ 8 := by
  cases p with
  | lit c => exact Nat.zero_le 8
  | hole p k =>
    have hcapture := depth_marked_le p.optional (.group (.capture (i + 1)) k.tree)
    have hkind : (Syntax.group (.capture (i + 1)) k.tree).depth ≤ 4 := Nat.succ_le_succ k.depth_tree_le
    have hitems : ∀ s ∈ Passes.marked p.optional (.group (.capture (i + 1)) k.tree) ::
        p.lead.map fun c => .literal ⟨c, false⟩, s.depth ≤ 5 := by
      rw [List.forall_mem_cons]
      exact ⟨by omega, fun s hs => Nat.le_trans (depth_literals_le s hs) (Nat.zero_le 5)⟩
    have hinner := Syntax.depth_ofItemsRev_le hitems
    exact Nat.le_trans (depth_marked_le p.optional _) (Nat.succ_le_succ (Nat.succ_le_succ hinner))

/-- The state behind the piece. -/
def read (s : State) (p : Piece) : State :=
  { s with
    items := p.tree s.captures :: s.items
    captures := s.captures + p.captures, names := s.names ++ p.entry s.captures }

theorem read_lit (s : State) (c : Char) :
    read s (lit c) = { s with items := .literal ⟨c, false⟩ :: s.items } := by
  have hnames : s.names ++ entry s.captures (lit c) = s.names := List.append_nil _
  rw [read, hnames]
  rfl

theorem names_read (s : State) (p : Piece) :
    (read s p).names.map Prod.fst = s.names.map Prod.fst ++ p.name?.toList := by
  rw [read, List.map_append, entry]
  cases p.name? <;> rfl

end Piece

/-- What pieces give one after the other; each is told how many groups stand before it. -/
def placed {α : Type} (f : Nat → Piece → α) : Nat → List Piece → List α
  | _, [] => []
  | i, p :: ps => f i p :: placed f (i + p.captures) ps

theorem depth_placed_le (i : Nat) (ps : List Piece) : ∀ s ∈ placed Piece.tree i ps, s.depth ≤ 8 := by
  induction ps generalizing i with
  | nil => exact nofun
  | cons p ps ih =>
    rw [placed, List.forall_mem_cons]
    exact ⟨p.depth_tree_le i, ih _⟩

/-- The number of groups behind some pieces. -/
def capturesAfter (i : Nat) (ps : List Piece) : Nat := ps.foldl (fun i p => i + p.captures) i

/-- The names of the groups of some pieces, with their numbers. -/
def entries (i : Nat) (ps : List Piece) : List (String × Nat) := (placed Piece.entry i ps).flatten

/-- The text of the separator of a placeholder. -/
def Placeholder.leadText (p : Placeholder) : List Char :=
  (p.separator.elim "" Separator.fragment).toList

theorem Placeholder.toList_group (p : Placeholder) (types : TypeRegistry) :
    (p.group types).toList = '(' :: '?' :: ':' :: ((p.leadText ++
      (('(' :: Passes.nameText (p.name.map String.toList)) ++ (types.resolve p.tag).toList ++
        ')' :: Passes.mark p.optional)) ++ ')' :: Passes.mark p.optional) := by
  have hmark : (if p.optional then "?" else "").toList = Passes.mark p.optional := by
    cases p.optional <;> rfl
  have hname : (p.name.elim "" fun name => "?P<" ++ name ++ ">").toList =
      Passes.nameText (p.name.map String.toList) := by
    cases p.name with
    | none => rfl
    | some name => simp [Passes.nameText]
  simp only [group, String.toList_append, hmark, hname, leadText]
  simp

theorem Placeholder.passes_leadText (p : Placeholder) {s : State} (hv : s.verbose = false)
    (hs : s.items = []) : Passes p.leadText s
      { s with items := p.lead.map fun c => .literal ⟨c, false⟩ } := by
  unfold leadText lead
  rcases p.separator with _ | _ | _
  · obtain ⟨_, _, _, items⟩ := s
    subst hs
    exact Passes.refl _
  · have hslash := Passes.literal (s := s) (c := '/') (by decide) hv
    rw [hs] at hslash
    exact hslash
  · have hdot := Passes.escaped (s := s) (c := '.') (by decide) hv
    rw [hs] at hdot
    exact hdot

theorem Placeholder.quiet_leadText (p : Placeholder) : Quiet p.leadText := by
  unfold leadText
  rcases p.separator with _ | _ | _ <;> decide

/-- A placeholder is read as one item, and its group is counted. -/
theorem Piece.passes_hole {types : TypeRegistry} {p : Placeholder} {k : Kind}
    (hk : k.Of types p.tag) {s : State} (hv : s.verbose = false)
    (hname : ∀ name, p.name = some name → isGroupName name.toList)
    (hnew : ∀ name, p.name = some name → name ∉ s.names.map Prod.fst) :
    Passes (p.group types).toList s (read s (hole p k)) := by
  have hlead := p.passes_leadText (s := s.enter (.plain {}) false []) rfl rfl
  have hnames : Passes.namesWith s (p.name.map String.toList) =
      s.names ++ entry s.captures (hole p k) := by
    change _ = s.names ++ (p.name.map fun name => (name, s.captures + 1)).toList
    cases p.name with
    | none => exact (List.append_nil _).symm
    | some name => simp [Passes.namesWith]
  have hcapture := Passes.capture (n := p.name.map String.toList)
    (s := { s.enter (.plain {}) false [] with items := p.lead.map fun c => .literal ⟨c, false⟩ })
    hk.inside hk.quiet rfl ?_ ?_ p.optional
  · have hinner := hlead.append hcapture (Parser.quiet_cons (by decide) _)
    have hquiet : Quiet (p.leadText ++ (('(' :: Passes.nameText (p.name.map String.toList)) ++
        (types.resolve p.tag).toList ++ ')' :: Passes.mark p.optional)) :=
      p.quiet_leadText.append (Parser.quiet_cons (by decide) _)
    have hgroup := Passes.plainGroup hv hinner hquiet p.optional
    rw [p.toList_group, read, ← hnames]
    exact hgroup
  · intro n hn
    obtain ⟨name, hname', rfl⟩ := Option.map_eq_some_iff.1 hn
    exact hname name hname'
  · intro n hn
    obtain ⟨name, hname', rfl⟩ := Option.map_eq_some_iff.1 hn
    rw [String.ofList_toList]
    exact hnew name hname'

theorem isEscapable_of_isEscapedSign {c : Char} (h : isEscapedSign c) : Parser.isEscapable c := by
  rw [isEscapedSign, List.contains_iff_mem] at h
  have hall : "\\.+*?()|\x7b\x7d^$".toList.all Parser.isEscapable := by decide
  exact List.all_eq_true.1 hall c h

theorem Reads.quiet {types : TypeRegistry} {segs : List Segment} {ps : List Piece}
    (h : Reads types segs ps) : Quiet (segs.flatMap (Segment.expand types)) := by
  cases h with
  | nil => exact nofun
  | @char c segs ps hc _ =>
    refine Parser.quiet_cons ?_ _
    rintro rfl
    exact absurd hc (by decide)
  | escape _ _ => exact Parser.quiet_cons (by decide) _
  | @hole p k segs ps _ _ =>
    rw [List.flatMap_cons, Segment.expand, p.toList_group]
    exact Parser.quiet_cons (by decide) _

/-- The segments of a plain pattern are read as its pieces. -/
theorem Reads.passes {types : TypeRegistry} {segs : List Segment} {ps : List Piece}
    (h : Reads types segs ps)
    (hname : ∀ name ∈ ps.filterMap Piece.name?, isGroupName name.toList) {s : State}
    (hv : s.verbose = false) (hnew : (s.names.map Prod.fst ++ ps.filterMap Piece.name?).Nodup) :
    Passes (segs.flatMap (Segment.expand types)) s (ps.foldl Piece.read s) := by
  induction h generalizing s with
  | nil => exact Passes.refl s
  | @char c segs ps hc hrest ih =>
    have hlit := Passes.literal (s := s) hc hv
    rw [← Piece.read_lit] at hlit
    have htail := ih hname (s := Piece.read s (.lit c)) hv (by rwa [Piece.read_lit])
    exact hlit.append htail hrest.quiet
  | @escape c segs ps hc hrest ih =>
    have hlit := Passes.escaped (s := s) (isEscapable_of_isEscapedSign hc) hv
    rw [← Piece.read_lit] at hlit
    have htail := ih hname (s := Piece.read s (.lit c)) hv (by rwa [Piece.read_lit])
    exact hlit.append htail hrest.quiet
  | @hole p k segs ps hk hrest ih =>
    -- The name of the placeholder is new now, and is one of those that later names differ from.
    have hfilter : (Piece.hole p k :: ps).filterMap Piece.name? =
        p.name.toList ++ ps.filterMap Piece.name? := by
      rw [List.filterMap_cons, Piece.name?]
      cases p.name <;> rfl
    rw [hfilter] at hname hnew
    have hentry : (Piece.read s (.hole p k)).names.map Prod.fst =
        s.names.map Prod.fst ++ p.name.toList := Piece.names_read s (.hole p k)
    have hhole := Piece.passes_hole hk hv
      (fun name h => hname name (List.mem_append_left _ (Option.mem_toList.2 h)))
      fun name h hmem => List.disjoint_of_nodup_append hnew hmem
        (List.mem_append_left _ (Option.mem_toList.2 h))
    have htail := ih (fun name h => hname name (List.mem_append_right _ h))
      (s := Piece.read s (.hole p k)) hv (by rwa [hentry, List.append_assoc])
    exact hhole.append htail hrest.quiet

theorem foldl_read (ps : List Piece) (s : State) : ps.foldl Piece.read s =
    { s with
      items := (placed Piece.tree s.captures ps).reverse ++ s.items
      captures := capturesAfter s.captures ps, names := s.names ++ entries s.captures ps } := by
  induction ps generalizing s with
  | nil =>
    have hnames : s.names ++ entries s.captures [] = s.names := List.append_nil _
    rw [hnames]
    rfl
  | cons p ps ih =>
    rw [List.foldl_cons, ih]
    simp [Piece.read, placed, entries, capturesAfter]

/-! ## Expressions -/

theorem resolve_marked {t : Syntax} {e : Expr} (h : t.resolveBranches {} = .ok ([e], {}))
    (optional : Bool) :
    (Passes.marked optional t).resolveBranches {} = .ok ([e.marked optional], {}) := by
  cases optional with
  | false => exact h
  | true =>
    have hrepeated : Expr.repeated 0 (some 1) true e = .rep 0 (some 1) true e := by
      unfold Expr.repeated
      cases e.isEmptyOnly <;> rfl
    rw [Expr.marked, if_pos rfl, ← hrepeated]
    change (t.resolveBranches {} >>= _) = _
    rw [h]
    rfl

theorem resolve_capture {t : Syntax} {es : List Expr} (h : t.resolveBranches {} = .ok (es, {}))
    (i : Nat) : (Syntax.group (.capture i) t).resolveBranches {} =
      .ok ([.group i (Syntax.unite es)], {}) := by
  change (t.resolveBranches {} >>= _) = _
  rw [h]
  rfl

theorem Piece.resolve_tree_hole {types : TypeRegistry} {p : Placeholder} {k : Kind}
    (hk : k.Of types p.tag) (i : Nat) :
    (tree i (hole p k)).resolveBranches {} = .ok ([expr i (hole p k)], {}) := by
  obtain ⟨es, hes, hunite⟩ := hk.resolve_tree
  have hcapture := resolve_capture hes (i + 1)
  rw [hunite] at hcapture
  have hinner := resolve_ofItemsRev (.cons (resolve_marked hcapture p.optional) (resolve_literals p.lead))
  refine resolve_marked ?_ p.optional
  change (Syntax.resolveBranches _ _ >>= _) = _
  have hchange : Flags.change {} {} = {} := rfl
  rw [hchange, hinner]
  rfl

theorem Reads.resolve {types : TypeRegistry} {segs : List Segment} {ps : List Piece}
    (h : Reads types segs ps) (i : Nat) :
    List.Forall₂ (fun (t : Syntax) e => t.resolveBranches {} = .ok ([e], {}))
      (placed Piece.tree i ps) (placed Piece.expr i ps) := by
  induction h generalizing i with
  | nil => exact .nil
  | char _ _ ih => exact .cons (resolve_literal _) (ih _)
  | escape _ _ ih => exact .cons (resolve_literal _) (ih _)
  | hole hk _ ih => exact .cons (Piece.resolve_tree_hole hk i) (ih _)

end RequestRouting
