import RequestRouting.Proofs.Pattern.PlainCompile

/-!
Names that are refused.

A pattern that is read piece by piece can fail by its names only: by the first one that may not be the name of a
group, or that was there before (`namesFault?`). `Reads.compile_eq` says what comes of such a pattern in
either case.
-/

namespace RequestRouting.Regex.Parser

/-! ## Refusals -/

/-- Whether reading a piece of text fails, whatever stands behind the piece, if that is quiet. -/
def Refuses (cs : List Char) (s : State) (e : Error) : Prop :=
  ∀ r, Quiet r → ∀ n, cs.length ≤ n → run n { s with rest := cs ++ r } = .error e

variable {cs ds : List Char} {s s' : State} {e : Error}

theorem Refuses.append (h : Refuses cs s e) (hds : Quiet ds) : Refuses (cs ++ ds) s e := by
  intro r hr n hn
  rw [List.length_append] at hn
  rw [List.append_assoc]
  exact h (ds ++ r) (hds.append hr) n (by omega)

theorem Passes.refuses (h : Passes cs s s') (h' : Refuses ds s' e) (hds : Quiet ds) :
    Refuses (cs ++ ds) s e := by
  intro r hr n hn
  rw [List.length_append] at hn
  obtain ⟨m, hm, hrun⟩ := h (ds ++ r) (hds.append hr) n (by omega)
  rw [List.append_assoc, hrun]
  exact h' r hr m (by omega)

theorem Refuses.of_step {c : Char} (h : ∀ r, step { s with rest := c :: cs ++ r } = .error e) :
    Refuses (c :: cs) s e := by
  intro r _ n hn
  cases n with
  | zero => exact absurd hn (Nat.not_succ_le_zero _)
  | succ n =>
    rw [run_cons n _ c (cs ++ r) rfl]
    show (step { s with rest := c :: cs ++ r }).bind _ = _
    rw [h r]
    rfl

theorem Refuses.parse_eq (h : Refuses cs { rest := [] } e) : parse cs = .error e := by
  have hrun := h [] nofun cs.length (Nat.le_refl _)
  rw [List.append_nil] at hrun
  rw [parse, hrun]
  rfl

/-! ## Names -/

theorem captureName_of_not_name {taken : List Char} {c : Char}
    (hc : isNameChar taken.isEmpty c = false) (hne : c ≠ '>') (r : List Char) :
    captureName taken (c :: r) = .error .captureNameInvalid := by
  rw [captureName, hc]
  · rfl
  · exact fun h => hne h

theorem captureName_of_mem {taken : List Char} (ht : taken ≠ []) (hangle : '>' ∉ cs)
    (hbad : ∃ c ∈ cs, isNameChar false c = false) (r : List Char) :
    captureName taken (cs ++ r) = .error .captureNameInvalid := by
  -- Behind its first character a name is read by one rule, whatever has been taken.
  induction cs generalizing taken with
  | nil =>
    obtain ⟨c, hc, -⟩ := hbad
    cases hc
  | cons c cs ih =>
    have hempty : taken.isEmpty = false := List.isEmpty_eq_false_iff.2 ht
    have hne : c ≠ '>' := fun h => hangle (h ▸ List.mem_cons_self)
    cases hc : isNameChar false c with
    | false => exact captureName_of_not_name (hempty ▸ hc) hne (cs ++ r)
    | true =>
      obtain ⟨d, hd, hbad⟩ := hbad
      have hrest : d ∈ cs := by
        rcases List.mem_cons.1 hd with rfl | hd
        · rw [hc] at hbad
          cases hbad
        · exact hd
      rw [List.cons_append, captureName_cons (hempty ▸ hc) hne]
      exact ih (List.cons_ne_nil c taken) (fun h => hangle (List.mem_cons_of_mem c h))
        ⟨d, hrest, hbad⟩

/-- A name that no group may have is refused at its first character that is out of place. -/
theorem captureName_eq_error {name : List Char} (hne : name ≠ []) (hangle : '>' ∉ name)
    (h : isGroupName name = false) (r : List Char) :
    captureName [] (name ++ r) = .error .captureNameInvalid := by
  cases name with
  | nil => exact absurd rfl hne
  | cons c cs =>
    have hc : c ≠ '>' := fun h => hangle (h ▸ List.mem_cons_self)
    rw [isGroupName, Bool.and_eq_false_iff] at h
    cases hfirst : isNameChar ([] : List Char).isEmpty c with
    | false => exact captureName_of_not_name hfirst hc (cs ++ r)
    | true =>
      have hrest := h.resolve_left fun hnot => Bool.noConfusion (hfirst.symm.trans hnot)
      rw [List.all_eq_false] at hrest
      obtain ⟨d, hd, hbad⟩ := hrest
      rw [List.cons_append, captureName_cons hfirst hc]
      exact captureName_of_mem (List.cons_ne_nil c []) (fun h => hangle (List.mem_cons_of_mem c h))
        ⟨d, hd, Bool.not_eq_true _ ▸ hbad⟩ r

/-- What is wrong with the name of a group behind groups with other names. -/
def nameFault? (before : List String) (name : String) : Option Error :=
  if name.toList = [] then some .captureNameEmpty
  else if isGroupName name.toList = false then some .captureNameInvalid
  else if name ∈ before then some .captureNameDuplicate
  else none

/-- What is wrong with the first name that is refused. -/
def namesFault? : List String → List String → Option Error
  | _, [] => none
  | before, name :: names => (nameFault? before name).or (namesFault? (before ++ [name]) names)

theorem nameFault?_eq_none_iff {before : List String} {name : String} :
    nameFault? before name = none ↔ isGroupName name.toList ∧ name ∉ before := by
  unfold nameFault?
  by_cases hnil : name.toList = []
  · rw [if_pos hnil, hnil]
    exact ⟨nofun, nofun⟩
  rw [if_neg hnil]
  cases hname : isGroupName name.toList with
  | false => simp
  | true => by_cases hbefore : name ∈ before <;> simp [hbefore]

theorem namesFault?_eq_none_iff {before names : List String} (hbefore : before.Nodup) :
    namesFault? before names = none ↔
      (∀ name ∈ names, isGroupName name.toList) ∧ (before ++ names).Nodup := by
  induction names generalizing before with
  | nil => simpa [namesFault?] using hbefore
  | cons name names ih =>
    have hsplit : before ++ name :: names = before ++ [name] ++ names := List.append_cons _ _ _
    rw [namesFault?, Option.or_eq_none_iff, nameFault?_eq_none_iff, List.forall_mem_cons, hsplit]
    constructor
    · intro ⟨⟨hname, hnew⟩, hrest⟩
      have hmore : (before ++ [name]).Nodup := List.concat_eq_append ▸ hbefore.concat hnew
      obtain ⟨hnames, hall⟩ := (ih hmore).1 hrest
      exact ⟨⟨hname, hnames⟩, hall⟩
    · intro ⟨⟨hname, hnames⟩, hall⟩
      have hmore := hall.of_append_left
      have hnew : name ∉ before := fun hmem =>
        List.disjoint_of_nodup_append hmore hmem (List.mem_singleton_self name)
      exact ⟨⟨hname, hnew⟩, (ih hmore).2 ⟨hnames, hall⟩⟩

/-- A group whose name is at fault is refused. -/
theorem refuses_openNamed {name : String} (hv : s.verbose = false) (hangle : '>' ∉ name.toList)
    (h : nameFault? (s.names.map Prod.fst) name = some e) :
    Refuses ('(' :: '?' :: 'P' :: '<' :: (name.toList ++ ['>'])) s e := by
  have hopen : ∀ r, s.enterNamed (name.toList ++ '>' :: r) = .error e := by
    intro r
    rw [State.enterNamed]
    unfold nameFault? at h
    by_cases hnil : name.toList = []
    · rw [if_pos hnil, Option.some.injEq] at h
      rw [hnil, ← h]
      rfl
    rw [if_neg hnil] at h
    cases hname : isGroupName name.toList with
    | false =>
      rw [if_pos hname, Option.some.injEq] at h
      rw [captureName_eq_error hnil hangle hname, ← h]
      rfl
    | true =>
      rw [hname, if_neg Bool.noConfusion, Option.ite_none_right_eq_some, Option.some.injEq] at h
      have hcontains : (s.names.map Prod.fst).contains name := List.contains_iff_mem.2 h.1
      rw [captureName_groupName hname, String.ofList_toList, ← h.2]
      show (if (s.names.map Prod.fst).contains name then _ else _) = _
      rw [if_pos hcontains]
      rfl
  refine Refuses.of_step fun r => ?_
  have hopen' := hopen r
  obtain ⟨rest, v⟩ := s
  subst hv
  show State.enterNamed _ (name.toList ++ ['>'] ++ r) = _
  rw [List.append_assoc]
  exact hopen'

end RequestRouting.Regex.Parser

namespace RequestRouting

open Regex
open Regex.Parser

variable {types : TypeRegistry}

/-! ## Pieces -/

/-- A placeholder is refused if its name is. -/
theorem Piece.refuses_hole {p : Placeholder} {k : Kind} (hk : k.Of types p.tag) {s : State}
    (hv : s.verbose = false) {name : String} (hname : p.name = some name)
    (hangle : '>' ∉ name.toList) {e : Regex.Error}
    (h : nameFault? (s.names.map Prod.fst) name = some e) :
    Refuses (p.group types).toList s e := by
  have hlead := p.passes_leadText (s := s.enter (.plain {}) false []) rfl rfl
  have hopen := refuses_openNamed
    (s := { s.enter (.plain {}) false [] with items := p.lead.map fun c => .literal ⟨c, false⟩ })
    rfl hangle h
  have hnamed : Passes.nameText (p.name.map String.toList) =
      '?' :: 'P' :: '<' :: (name.toList ++ ['>']) := by
    rw [hname]
    rfl
  have hcapture := (hopen.append hk.quiet).append
    (Parser.quiet_cons (c := ')') (by decide) (Passes.mark p.optional))
  -- The name is at fault two groups deep, with the separator passed.
  have hinner := (hlead.refuses hcapture (Parser.quiet_cons (by decide) _)).append
    (Parser.quiet_cons (c := ')') (by decide) (Passes.mark p.optional))
  have hgroup := (Passes.openPlain hv).refuses hinner
    ((p.quiet_leadText.append (Parser.quiet_cons (by decide) _)).append
      (Parser.quiet_cons (by decide) _))
  rw [p.toList_group, hnamed]
  exact hgroup

/-- Pieces are refused with the first of their names that is. -/
theorem Reads.refuses {segs : List Segment} {ps : List Piece} (h : Reads types segs ps)
    (hangle : ∀ name ∈ ps.filterMap Piece.name?, '>' ∉ name.toList) {s : State}
    (hv : s.verbose = false) {e : Regex.Error}
    (hfault : namesFault? (s.names.map Prod.fst) (ps.filterMap Piece.name?) = some e) :
    Refuses (segs.flatMap (Segment.expand types)) s e := by
  induction h generalizing s with
  | nil => cases hfault
  | @char c segs ps hc hrest ih =>
    have hlit := Passes.literal (s := s) hc hv
    exact hlit.refuses (ih hangle hv hfault) hrest.quiet
  | @escape c segs ps hc hrest ih =>
    have hlit := Passes.escaped (s := s) (isEscapable_of_isEscapedSign hc) hv
    exact hlit.refuses (ih hangle hv hfault) hrest.quiet
  | @hole p k segs ps hk hrest ih =>
    rw [List.flatMap_cons]
    rw [List.filterMap_cons, Piece.name?] at hangle hfault
    have hentry := Piece.names_read s (.hole p k)
    rw [Piece.name?] at hentry
    cases hname : p.name with
    | none =>
      rw [hname] at hangle hfault hentry
      have hunnamed : ∀ n, p.name ≠ some n := fun n h =>
        Option.some_ne_none n (h.symm.trans hname)
      have hhole := Piece.passes_hole hk hv (fun n h => absurd h (hunnamed n))
        fun n h => absurd h (hunnamed n)
      refine hhole.refuses (ih hangle (s := Piece.read s (.hole p k)) hv ?_) hrest.quiet
      rw [hentry, Option.toList_none, List.append_nil]
      exact hfault
    | some name =>
      rw [hname] at hangle hfault hentry
      have hrestangle : ∀ name ∈ ps.filterMap Piece.name?, '>' ∉ name.toList :=
        fun name h => hangle name (List.mem_cons_of_mem _ h)
      cases hown : nameFault? (s.names.map Prod.fst) name with
      | some e' =>
        rw [namesFault?, hown, Option.some_or, Option.some.injEq] at hfault
        have hrefused := Piece.refuses_hole hk hv hname (hangle name List.mem_cons_self) hown
        rw [← hfault]
        exact hrefused.append hrest.quiet
      | none =>
        rw [namesFault?, hown, Option.none_or] at hfault
        obtain ⟨hgood, hnew⟩ := nameFault?_eq_none_iff.1 hown
        have hhole := Piece.passes_hole hk hv
          (fun n h => Option.some.inj (hname.symm.trans h) ▸ hgood)
          fun n h => Option.some.inj (hname.symm.trans h) ▸ hnew
        refine hhole.refuses (ih hrestangle (s := Piece.read s (.hole p k)) hv ?_) hrest.quiet
        rw [hentry, Option.toList_some]
        exact hfault

variable [Regex.ProgramSize]

/-- A pattern does not compile if its expression is not read. -/
theorem compile_of_parse_error {pattern : String} {e : Regex.Error}
    (h : Parser.parse (translate pattern types).toList = .error e) :
    CompiledPattern.compile pattern types = .error (.invalidPattern pattern e) := by
  rw [CompiledPattern.compile, Regex.compile, Regex.read, h]
  rfl

/-- A pattern whose expression is refused between the two signs does not compile. -/
theorem compile_of_refuses {pattern : String} {e : Regex.Error}
    (h : Refuses ((segments pattern).flatMap (Segment.expand types))
      { rest := [], items := [.assertion .lineStart] } e)
    (hquiet : Quiet ((segments pattern).flatMap (Segment.expand types))) :
    CompiledPattern.compile pattern types = .error (.invalidPattern pattern e) := by
  have hall := ((Passes.lineStart (s := { rest := [] }) rfl).refuses h hquiet).append
    (Parser.quiet_cons (c := '$') (by decide) [])
  apply compile_of_parse_error
  rw [translate, String.toList_ofList]
  exact hall.parse_eq

/-- A pattern with these pieces compiles unless one of its names is refused or it is too big. -/
theorem Reads.compile_eq {pattern : String} {ps : List Piece} (h : Reads types (segments pattern) ps)
    (hangle : ∀ name ∈ ps.filterMap Piece.name?, '>' ∉ name.toList) :
    CompiledPattern.compile pattern types =
      match namesFault? [] (ps.filterMap Piece.name?) with
      | none =>
        if CompiledPattern.isTooBig pattern types then .error (.invalidPattern pattern .programTooBig)
        else .ok ⟨pattern, wholeRegex types pattern ps⟩
      | some e => .error (.invalidPattern pattern e) := by
  cases hfault : namesFault? [] (ps.filterMap Piece.name?) with
  | none =>
    obtain ⟨hnames, hnodup⟩ := (namesFault?_eq_none_iff List.nodup_nil).1 hfault
    exact CompiledPattern.compile_of_read (Readable.mk h hnames hnodup).read
  | some e =>
    exact compile_of_refuses (h.refuses hangle rfl hfault) h.quiet

end RequestRouting
