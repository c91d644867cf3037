import Mathlib.Data.List.Sort
import Mathlib.Data.String.Basic
import RequestRouting.SortedPairs

/-!
Pairs sorted by name.

Where no name comes twice, sorting pairs by name only changes their order (`ofList_perm`), so sorted pairs come
back from any order that they were put in (`Sorted.ofList_eq_of_perm`).
-/

namespace RequestRouting

/-- Where no name comes twice, what is found under a name is what stands with it. -/
theorem lookup_eq_some_iff_mem {ν : Type} {pairs : List (String × ν)} (h : (pairs.map (·.1)).Nodup)
    {name : String} {value : ν} : pairs.lookup name = some value ↔ (name, value) ∈ pairs := by
  induction pairs with
  | nil => exact ⟨nofun, nofun⟩
  | cons p rest ih =>
    obtain ⟨n, v⟩ := p
    rw [List.map_cons, List.nodup_cons] at h
    by_cases hname : name = n
    · subst hname
      rw [List.lookup_cons_self, Option.some.injEq, List.mem_cons, Prod.mk.injEq]
      constructor
      · exact fun hv => .inl ⟨rfl, hv.symm⟩
      · rintro (⟨-, hv⟩ | hmem)
        · exact hv.symm
        · exact absurd (List.mem_map_of_mem hmem) h.1
    · have hne : (name == n) = false := beq_false_of_ne hname
      rw [List.lookup_cons, hne, ih h.2, List.mem_cons, Prod.mk.injEq]
      exact ⟨.inr, fun hmem => hmem.resolve_left fun heq => hname heq.1⟩

namespace SortedPairs

variable {ν : Type}

theorem insert_perm {name : String} {m : List (String × ν)} (h : name ∉ m.map (·.1)) (value : ν) :
    (insert name value m).Perm ((name, value) :: m) := by
  induction m with
  | nil => exact .refl _
  | cons p rest ih =>
    obtain ⟨n, v⟩ := p
    rw [List.map_cons, List.mem_cons, not_or] at h
    rw [insert]
    split
    · exact .refl _
    · rw [if_neg h.1]
      exact ((ih h.2).cons (n, v)).trans (.swap ..)

/-- Where no name comes twice, sorting by name only changes the order. -/
theorem ofList_perm {pairs : List (String × ν)} (h : (pairs.map (·.1)).Nodup) : (ofList pairs).Perm pairs := by
  suffices hfold : ∀ m : List (String × ν), ((m ++ pairs).map (·.1)).Nodup →
      (pairs.foldl (fun m p => insert p.1 p.2 m) m).Perm (m ++ pairs) from hfold [] h
  clear h
  induction pairs with
  | nil => exact fun m _ => (List.append_nil m).symm ▸ .refl _
  | cons p rest ih =>
    intro m hm
    -- The pair is put among those before it instead of behind them.
    have hmiddle : (m ++ p :: rest).Perm (p :: m ++ rest) := List.perm_middle
    have hnew : p.1 ∉ m.map (·.1) := by
      have hnodup := (hmiddle.map Prod.fst).nodup_iff.1 hm
      rw [List.cons_append, List.map_cons, List.nodup_cons, List.map_append, List.mem_append, not_or] at hnodup
      exact hnodup.1.1
    have hinsert := (insert_perm hnew p.2).append_right rest
    refine (ih _ ?_).trans (hinsert.trans hmiddle.symm)
    exact ((hinsert.trans hmiddle.symm).map Prod.fst).nodup_iff.2 hm

/-! ## Sorted pairs -/

/-- Pairs in the order of their names, each name once. -/
def Sorted (m : List (String × ν)) : Prop := m.Pairwise fun p q => p.1 < q.1

instance (m : List (String × ν)) : Decidable (Sorted m) := inferInstanceAs (Decidable (List.Pairwise _ _))

theorem Sorted.nodup {m : List (String × ν)} (h : Sorted m) : (m.map (·.1)).Nodup :=
  List.pairwise_map.2 (h.imp fun hlt => ne_of_lt hlt)

theorem mem_insert {name : String} {value : ν} {m : List (String × ν)} {p : String × ν}
    (h : p ∈ insert name value m) : p = (name, value) ∨ p ∈ m := by
  induction m with
  | nil => exact .inl (List.mem_singleton.1 h)
  | cons q rest ih =>
    obtain ⟨n, v⟩ := q
    rw [insert] at h
    split at h
    · exact List.mem_cons.1 h
    · split at h
      · exact (List.mem_cons.1 h).imp_right (List.mem_cons_of_mem _)
      · rcases List.mem_cons.1 h with rfl | h
        · exact .inr List.mem_cons_self
        · exact (ih h).imp_right (List.mem_cons_of_mem _)

theorem Sorted.insert {m : List (String × ν)} (h : Sorted m) (name : String) (value : ν) :
    Sorted (insert name value m) := by
  induction m with
  | nil => exact List.pairwise_singleton _ _
  | cons q rest ih =>
    obtain ⟨n, v⟩ := q
    obtain ⟨hfirst, hrest⟩ := List.pairwise_cons.1 h
    rw [SortedPairs.insert]
    split
    · rename_i hlt
      refine List.pairwise_cons.2 ⟨fun p hp => ?_, h⟩
      rcases List.mem_cons.1 hp with rfl | hp
      · exact hlt
      · exact lt_trans hlt (hfirst p hp)
    · rename_i hlt
      split
      · rename_i heq
        subst heq
        exact List.pairwise_cons.2 ⟨hfirst, hrest⟩
      · rename_i hne
        refine List.pairwise_cons.2 ⟨fun p hp => ?_, ih hrest⟩
        rcases mem_insert hp with rfl | hp
        · exact lt_of_le_of_ne (not_lt.1 hlt) (Ne.symm hne)
        · exact hfirst p hp

theorem sorted_ofList (pairs : List (String × ν)) : Sorted (ofList pairs) := by
  suffices hfold : ∀ m : List (String × ν), Sorted m →
      Sorted (pairs.foldl (fun m p => insert p.1 p.2 m) m) from hfold [] .nil
  induction pairs with
  | nil => exact fun m hm => hm
  | cons p rest ih => exact fun m hm => ih _ (hm.insert p.1 p.2)

/-- Sorted pairs come back from whatever order they were put in. -/
theorem Sorted.ofList_eq_of_perm {m pairs : List (String × ν)} (h : Sorted m) (hperm : pairs.Perm m) :
    ofList pairs = m := by
  have hnodup : (pairs.map (·.1)).Nodup := (hperm.map Prod.fst).nodup_iff.2 h.nodup
  refine ((ofList_perm hnodup).trans hperm).eq_of_pairwise ?_ (sorted_ofList pairs) h
  exact fun p q _ _ hpq hqp => absurd hpq (lt_asymm hqp)

end SortedPairs

end RequestRouting
