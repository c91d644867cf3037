import Mathlib
import RequestRouting.Proofs.Regex.Spelling
import RequestRouting.Proofs.Results
import RequestRouting.Regex.Resolve

/-!
The groups of an expression, as it is written and as it is matched.

From a tree to the expression that is matched, the groups stay as they are and where they are, but for those in a
part that is repeated at most zero times (`groups_of_resolve`). An alternation whose alternatives begin alike loses
no group: what they share has none, since no two groups have one number.
-/

namespace RequestRouting.Regex

/-! ## Trees -/

/-- The numbers of the capturing groups, from left to right. -/
def GroupKind.groups : GroupKind → List Nat
  | capture i => [i]
  | plain _ => []

namespace Syntax

/-- The numbers of the capturing groups, each before those inside it. -/
def groups : Syntax → List Nat
  | repeated _ _ _ s => s.groups
  | group kind s => kind.groups ++ s.groups
  | sequence a b => a.groups ++ b.groups
  | choice a b => a.groups ++ b.groups
  | _ => []

/-- The numbers of the capturing groups that do not stand in a part repeated at most zero times. -/
def kept : Syntax → List Nat
  | repeated least most _ s => if least = 0 ∧ most = some 0 then [] else s.kept
  | group kind s => kind.groups ++ s.kept
  | sequence a b => a.kept ++ b.kept
  | choice a b => a.kept ++ b.kept
  | _ => []

theorem kept_sublist (s : Syntax) : s.kept.Sublist s.groups := by
  induction s with
  | repeated least most greedy s ih =>
    rw [kept]
    split
    · exact List.nil_sublist _
    · exact ih
  | group kind s ih => exact (List.Sublist.refl _).append ih
  | sequence a b iha ihb => exact iha.append ihb
  | choice a b iha ihb => exact iha.append ihb
  | _ => exact List.Sublist.refl _

theorem groups_ofItemsRev (items : List Syntax) :
    (ofItemsRev items).groups = items.reverse.flatMap groups := by
  induction items with
  | nil => rfl
  | cons s rest ih =>
    cases rest with
    | nil => exact (List.append_nil _).symm
    | cons t rest =>
      rw [List.reverse_cons (a := s), List.flatMap_append, ← ih]
      exact congrArg (_ ++ ·) (List.append_nil _).symm

theorem groups_ofBranchesRev (last : Syntax) (branches : List Syntax) :
    (ofBranchesRev last branches).groups = branches.reverse.flatMap groups ++ last.groups := by
  induction branches generalizing last with
  | nil => rfl
  | cons s rest ih =>
    rw [ofBranchesRev, ih, List.reverse_cons, List.flatMap_append, List.append_assoc]
    exact congrArg (_ ++ ·) (congrArg (· ++ last.groups) (List.append_nil _).symm)

end Syntax

/-! ## Ways of building an expression -/

namespace Expr

theorem groups_repeated (least : Nat) (most : Option Nat) (greedy : Bool) (e : Expr) :
    (repeated least most greedy e).groups = if least = 0 ∧ most = some 0 then [] else e.groups := by
  have hcounted (least : Nat) (most : Option Nat) :
      (counted least most greedy e).groups = if least = 0 ∧ most = some 0 then [] else e.groups := by
    unfold counted
    simp only [Bool.and_eq_true, beq_iff_eq]
    split
    · rfl
    split <;> rfl
  unfold repeated
  split
  · rw [hcounted]
    congr 1
    cases most with
    | none => simp
    | some most =>
      simp only [Option.getD_some, Option.some.injEq, eq_iff_iff]
      omega
  · exact hcounted least most

theorem groups_parts (e : Expr) : e.parts.flatMap groups = e.groups := by
  induction e with
  | seq a b iha ihb => rw [parts, List.flatMap_append, iha, ihb, groups]
  | empty => rfl
  | _ => exact List.append_nil _

theorem groups_alternatives (e : Expr) : e.alternatives.flatMap groups = e.groups := by
  induction e with
  | alt a b iha ihb => rw [alternatives, List.flatMap_append, iha, ihb, groups]
  | _ => exact List.append_nil _

theorem groups_sequence (es : List Expr) : (sequence es).groups = es.flatMap groups := by
  cases es with
  | nil => rfl
  | cons e rest =>
    rw [sequence, List.flatMap_cons]
    induction rest generalizing e with
    | nil => exact (List.append_nil _).symm
    | cons f rest ih => rw [List.foldl_cons, ih, groups, List.flatMap_cons, List.append_assoc]

theorem flatten_clusters (es : List Expr) : (clusters es).flatten = es := by
  induction es with
  | nil => rfl
  | cons e rest ih =>
    rw [clusters]
    split
    next f c cs hclusters =>
      rw [hclusters] at ih
      split <;> rw [← ih] <;> rfl
    next => rw [List.flatten_cons, ih, List.singleton_append]

theorem commonStart_begins {α : Type} [DecidableEq α] (as bs : List α) :
    commonStart as bs <+: as ∧ commonStart as bs <+: bs := by
  induction as generalizing bs with
  | nil => exact ⟨List.nil_prefix, List.nil_prefix⟩
  | cons a as ih =>
    cases bs with
    | nil => exact ⟨List.nil_prefix, List.nil_prefix⟩
    | cons b bs =>
      rw [commonStart]
      split
      next hab =>
        subst hab
        exact ⟨List.cons_prefix_cons.2 ⟨rfl, (ih bs).1⟩, List.cons_prefix_cons.2 ⟨rfl, (ih bs).2⟩⟩
      next => exact ⟨List.nil_prefix, List.nil_prefix⟩

/-- What is shared by at least two alternatives, and begins each of them. -/
theorem sharedStart_cases (split : List (List (List Expr))) : sharedStart split = [] ∨
    2 ≤ split.length ∧ ∀ cs ∈ split, sharedStart split <+: cs := by
  unfold sharedStart
  split
  next =>
    split
    next first second rest _ =>
      refine .inr ⟨by simp, ?_⟩
      have hfold : ∀ (css : List (List (List Expr))) (start : List (List Expr)),
          css.foldl commonStart start <+: start ∧ ∀ cs ∈ css, css.foldl commonStart start <+: cs := by
        intro css
        induction css with
        | nil => exact fun start => ⟨List.prefix_rfl, nofun⟩
        | cons cs css ih =>
          intro start
          obtain ⟨hstart, hcss⟩ := ih (commonStart start cs)
          refine ⟨hstart.trans (commonStart_begins start cs).1, List.forall_mem_cons.2 ⟨?_, hcss⟩⟩
          exact hstart.trans (commonStart_begins start cs).2
      exact List.forall_mem_cons.2 (hfold _ first)
    next => exact .inl rfl
  next => exact .inl rfl

/-- An alternation has the groups of its alternatives, if no two of them have one number. -/
theorem groups_choice {es : List Expr} (hes : (es.flatMap groups).Nodup) :
    (choice es).groups = es.flatMap groups := by
  have hall : (es.flatMap alternatives).flatMap groups = es.flatMap groups := by
    rw [List.flatMap_assoc]
    exact List.flatMap_congr fun e _ => groups_alternatives e
  unfold choice
  rw [← hall] at hes ⊢
  generalize es.flatMap alternatives = es at hes ⊢
  have hsplit (e : Expr) : (clusters e.parts).flatten.flatMap groups = e.groups := by
    rw [flatten_clusters, groups_parts]
  dsimp only
  split
  next => exact groups_oneOf es
  next hnil =>
    generalize hstart : sharedStart (es.map fun e => clusters e.parts) = start at hnil ⊢
    rcases sharedStart_cases (es.map fun e => clusters e.parts) with h | ⟨hlength, hbegins⟩
    · exact absurd (hstart.symm.trans h) hnil
    rw [hstart] at hbegins
    have hdrop {e : Expr} (he : e ∈ es) : e.groups =
        start.flatten.flatMap groups ++ ((clusters e.parts).drop start.length).flatten.flatMap groups := by
      obtain ⟨rest, hrest⟩ := hbegins _ (List.mem_map_of_mem he)
      rw [← hsplit e, ← hrest, List.drop_left, List.flatten_append, List.flatMap_append]
    -- A group in what is shared would have its number in two alternatives.
    have hshared : start.flatten.flatMap groups = [] := by
      match es, hlength with
      | e :: f :: rest, _ =>
        rw [List.flatMap_cons, List.flatMap_cons] at hes
        refine List.eq_nil_iff_forall_not_mem.2 fun i hi => ?_
        have hdisjoint := (List.nodup_append.1 hes).2.2 i
        refine hdisjoint ?_ i ?_ rfl
        · rw [hdrop List.mem_cons_self]
          exact List.mem_append_left _ hi
        · refine List.mem_append_left _ ?_
          rw [hdrop (List.mem_cons_of_mem e List.mem_cons_self)]
          exact List.mem_append_left _ hi
    rw [groups, groups_sequence, hshared, List.nil_append, groups_oneOf, List.flatMap_assoc, List.map_map,
      List.flatMap_map]
    refine List.flatMap_congr fun e he => ?_
    rw [groups_alternatives, Function.comp_apply, groups_sequence, hdrop he, hshared, List.nil_append]

end Expr

namespace Syntax

theorem groups_unite {es : List Expr} (hes : (es.flatMap Expr.groups).Nodup) :
    (unite es).groups = es.flatMap Expr.groups := by
  unfold unite
  split
  · exact (List.append_nil _).symm
  · exact Expr.groups_choice hes

/-- The groups of the alternatives to match are those of the tree that are kept. -/
theorem groups_of_resolveBranches {s : Syntax} {f f' : Flags} {es : List Expr}
    (h : s.resolveBranches f = .ok (es, f')) (hs : s.groups.Nodup) :
    es.flatMap Expr.groups = s.kept := by
  have hunite {s : Syntax} {es : List Expr} (hs : s.groups.Nodup) (hes : es.flatMap Expr.groups = s.kept) :
      (unite es).groups = s.kept := by
    rw [groups_unite (hes ▸ hs.sublist s.kept_sublist), hes]
  induction s generalizing f f' es with
  | empty | flags | assertion =>
    cases h
    rfl
  | literal | anyChar | short | property =>
    obtain ⟨set, -, h⟩ := bind_eq_ok_iff.1 h
    cases h
    rfl
  | set negated inner =>
    obtain ⟨set, -, h⟩ := bind_eq_ok_iff.1 h
    obtain ⟨checked, -, h⟩ := bind_eq_ok_iff.1 h
    cases h
    rfl
  | repeated least most greedy s ih =>
    obtain ⟨⟨as, g⟩, ha, h⟩ := bind_eq_ok_iff.1 h
    cases h
    have hs' : s.groups.Nodup := hs
    rw [List.flatMap_singleton, Expr.groups_repeated, hunite hs' (ih ha hs'), kept]
  | group kind s ih =>
    have hs' : s.groups.Nodup := (List.nodup_append.1 hs).2.1
    cases kind with
    | capture i =>
      obtain ⟨⟨as, g⟩, ha, h⟩ := bind_eq_ok_iff.1 h
      cases h
      rw [List.flatMap_singleton, Expr.groups, hunite hs' (ih ha hs')]
      rfl
    | plain ch =>
      obtain ⟨⟨as, g⟩, ha, h⟩ := bind_eq_ok_iff.1 h
      cases h
      rw [List.flatMap_singleton, hunite hs' (ih ha hs')]
      rfl
  | sequence a b iha ihb =>
    obtain ⟨⟨as, g⟩, ha, h⟩ := bind_eq_ok_iff.1 h
    obtain ⟨⟨bs, g'⟩, hb, h⟩ := bind_eq_ok_iff.1 h
    cases h
    have ha' : a.groups.Nodup := (List.nodup_append.1 hs).1
    have hb' : b.groups.Nodup := (List.nodup_append.1 hs).2.1
    rw [List.flatMap_singleton, Expr.groups, hunite ha' (iha ha ha'), hunite hb' (ihb hb hb'), kept]
  | choice a b iha ihb =>
    obtain ⟨⟨as, g⟩, ha, h⟩ := bind_eq_ok_iff.1 h
    obtain ⟨⟨bs, g'⟩, hb, h⟩ := bind_eq_ok_iff.1 h
    cases h
    have ha' : a.groups.Nodup := (List.nodup_append.1 hs).1
    have hb' : b.groups.Nodup := (List.nodup_append.1 hs).2.1
    rw [List.flatMap_cons, hunite ha' (iha ha ha'), ihb hb hb', kept]

/-- The groups of an expression that is matched are those of the tree that are kept. -/
theorem groups_of_resolve {s : Syntax} {e : Expr} (h : s.resolve = .ok e) (hs : s.groups.Nodup) :
    e.groups = s.kept := by
  obtain ⟨⟨es, f⟩, hes, he⟩ := bind_eq_ok_iff.1 h
  cases he
  have hgroups := groups_of_resolveBranches hes hs
  rw [groups_unite (hgroups ▸ hs.sublist s.kept_sublist), hgroups]

end Syntax

end RequestRouting.Regex
