import RequestRouting.Proofs.Regex.Move

/-!
The capturing groups of a text, in the order of their opening parentheses.

`openings` lists the parentheses at which the reader opens a capturing group, with their positions and the
names of the groups. They stand in the text from left to right (`openings_places`). The tree that is read has
one group for each of them, with the numbers from one on, and the names that are read are theirs, no name
twice (`tracks_of_parse`).
-/

namespace RequestRouting.Regex.Parser

/-- A parenthesis that opens a capturing group: where it stands, and the name of the group if it has one. -/
structure Opening where
  pos : Nat
  name : Option String
deriving DecidableEq, Repr

/-- What the next step opens. The position is counted in the whole text, which has so many characters. -/
def State.opening? (length : Nat) (s : State) : Option Opening :=
  let cs := skip s.verbose s.rest
  (Parser.opening? s.verbose cs).map fun name => ⟨length - cs.length, name⟩

/-- What the steps of a run open. -/
def openingsFrom (length : Nat) : Nat → State → List Opening
  | 0, _ => []
  | fuel + 1, s =>
    if s.rest = [] then []
    else match step s with
      | .error _ => []
      | .ok s' => (s.opening? length).toList ++ openingsFrom length fuel s'

/-- The parentheses of a text that open a capturing group, from left to right. -/
def openings (cs : List Char) : List Opening := openingsFrom cs.length cs.length { rest := cs }

/-- The names of the openings that have one, each with the number of its group. -/
def named (os : List Opening) : List (String × Nat) :=
  (os.zipIdx 1).filterMap fun entry => entry.1.name.map (·, entry.2)

theorem named_append (os : List Opening) (o : Option Opening) : named (os ++ o.toList) =
    named os ++ ((o.bind Opening.name).map (·, os.length + 1)).toList := by
  rw [named, List.zipIdx_append, List.filterMap_append, ← named, Nat.add_comm os.length 1]
  rcases o with _ | ⟨pos, _ | name⟩ <;> rfl

/-! ## Groups on the way -/

/-- The groups of alternatives and items that are kept last first. -/
def groupsIn (branches items : List Syntax) : List Nat :=
  branches.reverse.flatMap Syntax.groups ++ items.reverse.flatMap Syntax.groups

theorem groupsIn_cons (branches items : List Syntax) (i : Syntax) :
    groupsIn branches (i :: items) = groupsIn branches items ++ i.groups := by
  rw [groupsIn, List.reverse_cons, List.flatMap_append, List.flatMap_singleton, ← List.append_assoc,
    ← groupsIn]

/-- The groups that were read so far, from left to right. -/
def State.groups (s : State) : List Nat :=
  (s.opened.reverse.flatMap fun g => groupsIn g.branches g.items ++ g.kind.groups) ++
    groupsIn s.branches s.items

theorem State.groups_inner (s : State) : s.inner.groups = groupsIn s.branches s.items := by
  rw [inner, Syntax.groups_ofBranchesRev, Syntax.groups_ofItemsRev, groupsIn]

theorem State.groups_kept {s s' : State} (hopened : s'.opened = s.opened)
    (hin : groupsIn s'.branches s'.items = groupsIn s.branches s.items) : s'.groups = s.groups ++ [] := by
  rw [groups, hopened, hin, ← groups, List.append_nil]

theorem State.groups_enter (s : State) (kind : GroupKind) (verbose : Bool) (rest : List Char) :
    (s.enter kind verbose rest).groups = s.groups ++ kind.groups := by
  simp only [groups, enter, groupsIn, List.reverse_cons, List.reverse_nil, List.flatMap_append,
    List.flatMap_singleton, List.flatMap_nil, List.append_nil, List.append_assoc]

namespace Move

variable {s s' : State} {r : List Char} {opened : Option (Option String)}

theorem rest_suffix (h : Move s r opened s') : s'.rest <:+ r := by
  cases h with
  | bar | close => exact List.suffix_rfl
  | item _ _ hrest | plain _ _ hrest | capture hrest | named hrest _ | repeated _ _ _ _ hrest => exact hrest

/-- A step adds the group that it opens, if it opens one, under the next number. -/
theorem groups_eq (h : Move s r opened s') :
    s'.groups = s.groups ++ List.range' (s.captures + 1) opened.toList.length := by
  cases h with
  | item verbose hi hrest =>
    refine State.groups_kept rfl ?_
    exact (groupsIn_cons ..).trans (hi ▸ List.append_nil _)
  | bar =>
    -- The items become the last of the alternatives.
    refine State.groups_kept rfl ?_
    rw [groupsIn, List.reverse_cons, List.flatMap_append, List.flatMap_singleton, Syntax.groups_ofItemsRev]
    exact List.append_nil _
  | plain ch verbose hrest => exact s.groups_enter (.plain ch) verbose _
  | @capture rest hrest => exact s.groups_enter (.capture (s.captures + 1)) s.verbose rest
  | @named rest name hrest hnew => exact s.groups_enter (.capture (s.captures + 1)) s.verbose rest
  | close hopened =>
    -- The group takes the place of what was read since it was opened.
    rw [State.groups, State.groups, groupsIn_cons, Syntax.groups, State.groups_inner, hopened, List.reverse_cons,
      List.flatMap_append, List.flatMap_singleton]
    simp only [List.append_assoc, Option.toList_none, List.length_nil, List.range'_zero, List.append_nil]
  | repeated least most greedy hitems hrest =>
    refine State.groups_kept rfl ?_
    rw [groupsIn_cons, hitems, groupsIn_cons, Syntax.groups]

theorem captures_eq (h : Move s r opened s') : s'.captures = s.captures + opened.toList.length := by
  cases h <;> rfl

theorem names_eq (h : Move s r opened s') :
    s'.names = s.names ++ (opened.join.map (·, s.captures + 1)).toList := by
  cases h with
  | named => rfl
  | _ => exact (List.append_nil _).symm

theorem nodup_names (h : Move s r opened s') (hs : (s.names.map Prod.fst).Nodup) :
    (s'.names.map Prod.fst).Nodup := by
  cases h with
  | named hrest hnew =>
    rw [List.map_append]
    exact List.nodup_append_comm.1 (List.nodup_cons.2 ⟨hnew, hs⟩)
  | _ => exact hs

end Move

/-! ## Runs -/

/-- What the reader knows once some groups are opened: their numbers are those in the tree so far, and the
names are theirs. -/
structure Tracks (os : List Opening) (s : State) : Prop where
  groups : s.groups = List.range' 1 os.length
  captures : s.captures = os.length
  names : s.names = named os
  nodup : (s.names.map Prod.fst).Nodup

namespace Tracks

variable {os : List Opening} {s s' : State}

theorem start (cs : List Char) : Tracks [] { rest := cs } := ⟨rfl, rfl, rfl, List.nodup_nil⟩

theorem step (hs : Tracks os s) (h : step s = .ok s') (length : Nat) :
    Tracks (os ++ (s.opening? length).toList) s' := by
  cases hskip : skip s.verbose s.rest with
  | nil =>
    -- Only blanks and comments were left, and nothing is opened.
    rw [Parser.step, hskip] at h
    cases h
    rw [State.opening?, hskip]
    exact (List.append_nil os).symm ▸ ⟨hs.groups, hs.captures, hs.names, hs.nodup⟩
  | cons c r =>
    have hmove := move_of_step hskip h
    have hlength : (s.opening? length).toList.length = (Parser.opening? s.verbose (c :: r)).toList.length := by
      rw [State.opening?, hskip]
      cases Parser.opening? s.verbose (c :: r) <;> rfl
    have hname : (s.opening? length).bind Opening.name = (Parser.opening? s.verbose (c :: r)).join := by
      rw [State.opening?, hskip]
      cases Parser.opening? s.verbose (c :: r) <;> rfl
    refine ⟨?_, ?_, ?_, hmove.nodup_names hs.nodup⟩
    · rw [hmove.groups_eq, hs.groups, hs.captures, List.length_append, hlength, Nat.add_comm os.length 1,
        List.range'_append_1]
    · rw [hmove.captures_eq, hs.captures, List.length_append, hlength]
    · rw [hmove.names_eq, hs.names, hs.captures, named_append, hname]

theorem run {n : Nat} (hs : Tracks os s) (h : run n s = .ok s') (length : Nat) :
    Tracks (os ++ openingsFrom length n s) s' := by
  induction n generalizing os s with
  | zero =>
    cases h
    rwa [openingsFrom, List.append_nil]
  | succ n ih =>
    rw [Parser.run] at h
    rw [openingsFrom]
    split at h
    next hnil =>
      cases h
      rwa [if_pos hnil, List.append_nil]
    next hne =>
      obtain ⟨s₁, hstep, h⟩ := bind_eq_ok_iff.1 h
      rw [if_neg hne, hstep, ← List.append_assoc]
      exact ih (hs.step hstep length) h

end Tracks

/-- Reading a whole text gives what is known at its end. -/
theorem tracks_of_parse {cs : List Char} {p : Parsed} (h : parse cs = .ok p) :
    p.tree.groups = List.range' 1 (openings cs).length ∧ p.captures = (openings cs).length ∧
      p.names = named (openings cs) ∧ (p.names.map Prod.fst).Nodup := by
  obtain ⟨s, hrun, h⟩ := bind_eq_ok_iff.1 h
  have hs : Tracks (openings cs) s := (Tracks.start cs).run hrun cs.length
  unfold finish at h
  split at h
  next hopened =>
    cases h
    have hgroups : s.inner.groups = s.groups := by
      rw [State.groups, List.isEmpty_iff.1 hopened, State.groups_inner]
      rfl
    exact ⟨hgroups.trans hs.groups, hs.captures, hs.names, hs.nodup⟩
  next => cases h

/-! ## Places -/

/-- Whether what stands at the place of an opening opens a group of that name. -/
def Opening.StandsIn (text : List Char) (o : Opening) : Prop :=
  ∃ verbose, opening? verbose (text.drop o.pos) = some o.name

theorem Opening.StandsIn.getElem? {text : List Char} {o : Opening} (h : o.StandsIn text) :
    text[o.pos]? = some '(' := by
  obtain ⟨verbose, h⟩ := h
  unfold Parser.opening? at h
  split at h
  next r hr => rw [← List.head?_drop, hr, List.head?_cons]
  next => cases h

theorem place_of_opening {text : List Char} {s : State} {o : Opening} (hs : s.rest <:+ text)
    (h : s.opening? text.length = some o) :
    o.pos + (skip s.verbose s.rest).length = text.length ∧ skip s.verbose s.rest ≠ [] ∧ o.StandsIn text := by
  have hskip := (skip_suffix s.verbose s.rest).trans hs
  obtain ⟨name, hname, rfl⟩ := Option.map_eq_some_iff.1 h
  refine ⟨Nat.sub_add_cancel hskip.length_le, ?_, s.verbose, ?_⟩
  · intro hnil
    rw [hnil] at hname
    cases hname
  · rw [← List.suffix_iff_eq_drop.1 hskip]
    exact hname

theorem rest_of_step {s s' : State} (h : step s = .ok s') : s'.rest <:+ (skip s.verbose s.rest).tail := by
  cases hskip : skip s.verbose s.rest with
  | nil =>
    rw [step, hskip] at h
    cases h
    exact List.suffix_rfl
  | cons c r => exact (move_of_step hskip h).rest_suffix

/-- What a run opens stands in the text that was left, and each opening stands before the next. -/
theorem openingsFrom_places {text : List Char} {n : Nat} {s : State} (hs : s.rest <:+ text) :
    (openingsFrom text.length n s).Pairwise (·.pos < ·.pos) ∧
      ∀ o ∈ openingsFrom text.length n s, text.length ≤ o.pos + s.rest.length ∧ o.StandsIn text := by
  induction n generalizing s with
  | zero => exact ⟨.nil, nofun⟩
  | succ n ih =>
    rw [openingsFrom]
    split
    next => exact ⟨.nil, nofun⟩
    next =>
      split
      next => exact ⟨.nil, nofun⟩
      next s' hstep =>
        have hskip := (skip_suffix s.verbose s.rest).trans hs
        have hrest := rest_of_step hstep
        obtain ⟨hincreasing, hplaces⟩ := ih (hrest.trans ((List.tail_suffix _).trans hskip))
        have hle := (skip_suffix s.verbose s.rest).length_le
        -- What is opened later stands behind the first character that counts.
        have hlater : ∀ o ∈ openingsFrom text.length n s',
            text.length ≤ o.pos + ((skip s.verbose s.rest).length - 1) := fun o ho => by
          have htail := hrest.length_le
          rw [List.length_tail] at htail
          exact (hplaces o ho).1.trans (Nat.add_le_add_left htail _)
        have hall : ∀ o ∈ openingsFrom text.length n s',
            text.length ≤ o.pos + s.rest.length ∧ o.StandsIn text := fun o ho =>
          ⟨(hlater o ho).trans (by omega), (hplaces o ho).2⟩
        cases hopening : s.opening? text.length with
        | none => exact ⟨hincreasing, hall⟩
        | some o =>
          obtain ⟨hpos, hne, hstands⟩ := place_of_opening hs hopening
          have hlength := List.length_pos_of_ne_nil hne
          have hfirst : ∀ o' ∈ openingsFrom text.length n s', o.pos < o'.pos := fun o' ho' => by
            have hplace := hlater o' ho'
            omega
          have hplace : text.length ≤ o.pos + s.rest.length := by omega
          exact ⟨List.pairwise_cons.2 ⟨hfirst, hincreasing⟩,
            List.forall_mem_cons.2 ⟨⟨hplace, hstands⟩, hall⟩⟩

/-- The openings of a text stand in it from left to right. -/
theorem openings_places (cs : List Char) :
    (openings cs).Pairwise (·.pos < ·.pos) ∧ ∀ o ∈ openings cs, o.StandsIn cs := by
  have hwhole : ({ rest := cs } : State).rest <:+ cs := List.suffix_rfl
  obtain ⟨hincreasing, hplaces⟩ := openingsFrom_places (n := cs.length) hwhole
  exact ⟨hincreasing, fun o ho => (hplaces o ho).2⟩

-- Neither an escaped parenthesis nor one in a class opens a group.
example : openings "\\((?:a)(?P<n>[(])(b)".toList = [⟨7, some "n"⟩, ⟨17, none⟩] := by decide

end RequestRouting.Regex.Parser
