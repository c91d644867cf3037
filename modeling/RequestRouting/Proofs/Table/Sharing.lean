import RequestRouting.Proofs.Pattern.Parameters
import RequestRouting.Proofs.Table.History

/-!
Methods, patterns and compilations of a table fit together.

Each compilation has a number of its own, the count of those before it. A table keeps one compilation for each
pattern text that some route has, and every route with that text uses it. `Sharing` is the invariant that carries
this through a run, since a registration that fails leaves no compilation behind; `Coherent` is what a table
shows of it.
-/

namespace RequestRouting

/-! ## Methods in capital letters -/

theorem toUpper_toUpper (c : Char) : c.toUpper.toUpper = c.toUpper := by
  by_cases h : 'a'.val ≤ c.val ∧ c.val ≤ 'z'.val
  · have hval : c.toUpper.val = c.val + ('A'.val - 'a'.val) := by
      rw [Char.toUpper, dif_pos h]
    have hnot : ¬('a'.val ≤ c.toUpper.val ∧ c.toUpper.val ≤ 'z'.val) := by
      rw [hval]
      simp only [UInt32.le_iff_toNat_le, UInt32.toNat_add, UInt32.toNat_sub] at h ⊢
      simp only [UInt32.reduceToNat, Char.reduceVal] at h ⊢
      omega
    generalize c.toUpper = d at hnot
    rw [Char.toUpper, dif_neg hnot]
  · have hc : c.toUpper = c := by rw [Char.toUpper, dif_neg h]
    rw [hc, hc]

@[simp]
theorem normalizeMethod_normalizeMethod (method : String) :
    normalizeMethod (normalizeMethod method) = normalizeMethod method := by
  rw [normalizeMethod, normalizeMethod, String.map_map]
  congr 1
  exact funext toUpper_toUpper

/-! ## Ordered maps -/

namespace OrderedMap

variable {κ ν : Type} [DecidableEq κ] {m : OrderedMap κ ν} {k : κ} {v : ν}

theorem mem_of_get? (h : m.get? k = some v) : (k, v) ∈ m.toList := by
  obtain ⟨p, hp, rfl⟩ := Option.map_eq_some_iff.1 h
  have hk : p.1 = k := by simpa using List.find?_some hp
  exact hk ▸ List.mem_of_find?_eq_some hp

theorem not_mem_keys (h : m.get? k = none) : k ∉ m.keys := by
  intro hk
  obtain ⟨p, hp, hpk⟩ := List.mem_map.1 hk
  rw [get?, Option.map_eq_none_iff, List.find?_eq_none] at h
  exact h p hp (decide_eq_true hpk)

theorem nodup_keys_insert (hm : m.keys.Nodup) (k : κ) (v : ν) : (m.insert k v).keys.Nodup := by
  rw [keys_insert]
  by_cases h : k ∈ m.keys
  · rwa [if_pos h]
  · rw [if_neg h]
    exact List.concat_eq_append ▸ hm.concat h

/-- A key that is new comes last. -/
theorem values_insert_of_new (h : m.get? k = none) (v : ν) :
    (m.insert k v).values = m.values ++ [v] := by
  have hk := not_mem_keys h
  obtain ⟨l⟩ := m
  simp only [keys, values, insert] at hk ⊢
  induction l with
  | nil => rfl
  | cons p l ih =>
    obtain ⟨hne, hl⟩ := not_or.1 (mt List.mem_cons.2 hk)
    have h' : get? ⟨l⟩ k = none := by
      simpa [get?, List.find?_cons, Ne.symm hne] using h
    rw [insertList, if_neg (Ne.symm hne), List.map_cons, List.map_cons, ih h' hl]
    rfl

theorem mem_insert_self (m : OrderedMap κ ν) (k : κ) (v : ν) : (k, v) ∈ (m.insert k v).toList :=
  mem_of_get? (by rw [get?_insert, if_pos rfl])

theorem eq_or_mem_of_mem_insert {k' : κ} {v' : ν} (h : (k', v') ∈ (m.insert k v).toList) :
    (k' = k ∧ v' = v) ∨ (k', v') ∈ m.toList := by
  obtain ⟨l⟩ := m
  simp only [insert] at h ⊢
  induction l with
  | nil => exact Or.inl (Prod.mk.inj (List.mem_singleton.1 h))
  | cons p l ih =>
    by_cases hp : p.1 = k
    · rw [insertList, if_pos hp, List.mem_cons] at h
      exact h.imp Prod.mk.inj (List.mem_cons_of_mem p)
    · rw [insertList, if_neg hp, List.mem_cons] at h
      rcases h with h | h
      · exact Or.inr (h ▸ List.mem_cons_self)
      · exact (ih h).imp_right (List.mem_cons_of_mem p)

end OrderedMap

namespace RouteTable

variable {H : Type} {t : RouteTable H}

/-- What is shared is in the cache already, or is compiled under the next number and put there. -/
theorem share_cases [Regex.ProgramSize] {pattern : String} {shared : SharedPattern}
    {cache : OrderedMap String SharedPattern} (h : t.share pattern = .ok (shared, cache)) :
    (t.cache.get? pattern = some shared ∧ cache = t.cache) ∨
    (t.cache.get? pattern = none ∧ shared.serial = t.cache.size ∧
      cache = t.cache.insert pattern shared) := by
  unfold share at h
  cases hget : t.cache.get? pattern with
  | some found =>
    simp only [hget, Except.ok.injEq, Prod.mk.injEq] at h
    obtain ⟨rfl, rfl⟩ := h
    exact Or.inl ⟨rfl, rfl⟩
  | none =>
    cases hcompile : CompiledPattern.compile pattern t.types with
    | error e => simp [hget, hcompile] at h
    | ok compiled =>
      simp only [hget, hcompile, Except.ok.injEq, Prod.mk.injEq] at h
      obtain ⟨rfl, rfl⟩ := h
      exact Or.inr ⟨rfl, rfl, rfl⟩

/-- What was in the cache stays there, and at most the pattern that is shared comes to it. -/
theorem get?_of_share [Regex.ProgramSize] {pattern : String} {shared : SharedPattern}
    {cache : OrderedMap String SharedPattern} (h : t.share pattern = .ok (shared, cache)) :
    cache.get? pattern = some shared ∧
    (∀ p s, t.cache.get? p = some s → cache.get? p = some s) ∧
    ∀ p s, cache.get? p = some s → p = pattern ∨ t.cache.get? p = some s := by
  rcases share_cases h with ⟨hfound, rfl⟩ | ⟨hnew, -, rfl⟩
  · exact ⟨hfound, fun p s hs => hs, fun p s hs => Or.inr hs⟩
  · refine ⟨by rw [OrderedMap.get?_insert, if_pos rfl], fun p s hs => ?_, fun p s hs => ?_⟩
    · have hne : p ≠ pattern := by
        rintro rfl
        rw [hnew] at hs
        cases hs
      rwa [OrderedMap.get?_insert, if_neg hne]
    · by_cases hp : p = pattern
      · exact Or.inl hp
      · rw [OrderedMap.get?_insert, if_neg hp] at hs
        exact Or.inr hs

/-- Whether compilations have the numbers from zero on, in the order of the cache. -/
structure Numbered (cache : OrderedMap String SharedPattern) : Prop where
  nodup : cache.keys.Nodup
  serials : cache.values.map (·.serial) = List.range cache.size

theorem Numbered.insert {cache : OrderedMap String SharedPattern} (h : Numbered cache)
    {pattern : String} (hnew : cache.get? pattern = none) {shared : SharedPattern}
    (hserial : shared.serial = cache.size) : Numbered (cache.insert pattern shared) where
  nodup := OrderedMap.nodup_keys_insert h.nodup _ _
  serials := by
    have hsize : (cache.insert pattern shared).size = cache.size + 1 := by
      rw [OrderedMap.size_eq_length_keys, OrderedMap.keys_insert,
        if_neg (OrderedMap.not_mem_keys hnew), List.length_append, ← OrderedMap.size_eq_length_keys,
        List.length_singleton]
    rw [OrderedMap.values_insert_of_new hnew, List.map_append, h.serials, hsize, List.range_succ,
      List.map_singleton, hserial]

theorem Numbered.share [Regex.ProgramSize] (hcache : Numbered t.cache) {pattern : String}
    {shared : SharedPattern} {cache : OrderedMap String SharedPattern} (h : t.share pattern = .ok (shared, cache)) :
    Numbered cache := by
  rcases share_cases h with ⟨-, rfl⟩ | ⟨hnew, hserial, rfl⟩
  · exact hcache
  · exact hcache.insert hnew hserial

/-- A number belongs to one pattern. -/
theorem Numbered.eq_of_serial {cache : OrderedMap String SharedPattern} (h : Numbered cache)
    {p p' : String} {s s' : SharedPattern} (hs : cache.get? p = some s)
    (hs' : cache.get? p' = some s') (hserial : s.serial = s'.serial) : p = p' := by
  have hnodup : (cache.values.map (·.serial)).Nodup := h.serials ▸ List.nodup_range
  rw [OrderedMap.values, List.map_map] at hnodup
  have hsame := List.inj_on_of_nodup_map hnodup (OrderedMap.mem_of_get? hs)
    (OrderedMap.mem_of_get? hs') hserial
  exact (Prod.mk.inj hsame).1

/-! ## What a run keeps -/

/-- A table whose methods are in capital letters and have entries, and whose cache holds just the compilations
of its entries. -/
structure Sharing (t : RouteTable H) : Prop where
  numbered : Numbered t.cache
  capital : ∀ m ∈ t.routes.keys, normalizeMethod m = m
  nonempty : ∀ m es, (m, es) ∈ t.routes.toList → es.toList ≠ []
  shared : ∀ m p e, (t.under m).get? p = some e → t.cache.get? p = some e.shared
  used : ∀ p s, t.cache.get? p = some s → ∃ m e, (t.under m).get? p = some e

namespace Sharing

theorem fresh (types : TypeRegistry) : Sharing ({ types } : RouteTable H) where
  numbered := ⟨List.nodup_nil, rfl⟩
  capital := nofun
  nonempty := nofun
  shared := nofun
  used := nofun

theorem setBasePath (h : Sharing t) (basePath : String) : Sharing (t.setBasePath basePath) :=
  ⟨h.numbered, h.capital, h.nonempty, h.shared, h.used⟩

theorem withEntry [Regex.ProgramSize] (h : Sharing t) (method : String) {pattern : String}
    {shared : SharedPattern} {cache : OrderedMap String SharedPattern}
    (hshare : t.share pattern = .ok (shared, cache)) (handler : H) :
    Sharing (t.withEntry (normalizeMethod method) pattern ⟨shared, handler⟩ cache) := by
  obtain ⟨hself, hkept, honly⟩ := get?_of_share hshare
  refine ⟨h.numbered.share hshare, fun m hm => ?_, fun m es hmem => ?_, fun m p e he => ?_,
    fun p s hs => ?_⟩
  · change m ∈ (t.routes.insert _ _).keys at hm
    obtain ⟨⟨m, es⟩, hmem, rfl⟩ := List.mem_map.1 hm
    rcases OrderedMap.eq_or_mem_of_mem_insert hmem with ⟨rfl, -⟩ | hold
    · exact normalizeMethod_normalizeMethod method
    · exact h.capital m (List.mem_map_of_mem hold)
  · rcases OrderedMap.eq_or_mem_of_mem_insert hmem with ⟨-, rfl⟩ | hold
    · exact List.ne_nil_of_mem (OrderedMap.mem_insert_self _ _ _)
    · exact h.nonempty m es hold
  · rw [under_withEntry] at he
    show cache.get? p = some e.shared
    by_cases hm : m = normalizeMethod method
    · rw [if_pos hm, OrderedMap.get?_insert] at he
      by_cases hp : p = pattern
      · rw [if_pos hp, Option.some.injEq] at he
        rw [hp, hself, ← he]
      · rw [if_neg hp] at he
        exact hkept p _ (h.shared _ p e he)
    · rw [if_neg hm] at he
      exact hkept p _ (h.shared _ p e he)
  · by_cases hp : p = pattern
    · refine ⟨normalizeMethod method, ⟨shared, handler⟩, ?_⟩
      rw [under_withEntry, if_pos rfl, OrderedMap.get?_insert, if_pos hp]
    · obtain ⟨m, e, he⟩ := h.used p s ((honly p s hs).resolve_left hp)
      refine ⟨m, e, ?_⟩
      rw [under_withEntry]
      by_cases hm : m = normalizeMethod method
      · rw [if_pos hm, OrderedMap.get?_insert, if_neg hp, ← hm]
        exact he
      · rw [if_neg hm]
        exact he

theorem register [Regex.ProgramSize] (h : Sharing t) (method pattern : String) (handler : H) :
    Sharing (t.register method pattern handler).1 := by
  rcases t.register_cases method pattern handler with ⟨htable, -⟩ | hfound
  · rw [htable]
    exact h
  · obtain ⟨shared, cache, hshare, htable, -⟩ := hfound
    rw [htable]
    exact h.withEntry method hshare handler

theorem registerEach [Regex.ProgramSize] (h : Sharing t) (methods : List String) (pattern : String)
    (handler : H) : Sharing (RouteTable.registerEach pattern handler methods t).1 := by
  induction methods generalizing t with
  | nil => exact h
  | cons m ms ih =>
    have hstep := h.register m pattern handler
    rw [RouteTable.registerEach]
    cases hr : t.register m pattern handler with
    | mk next outcome =>
      rw [hr] at hstep
      cases outcome with
      | ok u => exact ih hstep
      | error e => exact hstep

theorem builds [Regex.ProgramSize] {t' : RouteTable H} {log : History H} (h : Sharing t)
    (hrun : Builds t log t') : Sharing t' := by
  induction hrun with
  | refl t => exact h
  | register t method pattern handler => exact h.register method pattern handler
  | registerEach t methods pattern handler => exact h.registerEach methods pattern handler
  | setBasePath t basePath => exact h.setBasePath basePath
  | mount _ ih => exact (ih (h.setBasePath _)).setBasePath _
  | trans _ _ ih ih' => exact ih' (ih h)

end Sharing

/-! ## What a table shows -/

/-- Whether a table keeps an entry for a method under a pattern. -/
def HasEntry (t : RouteTable H) (method pattern : String) (e : RouteEntry H) : Prop :=
  ∃ entries, (method, entries) ∈ t.routes.toList ∧ (pattern, e) ∈ entries.toList

/-- Whether methods, patterns and compilations fit together. -/
structure Coherent [Regex.ProgramSize] (t : RouteTable H) : Prop where
  /-- A method is kept in capital letters, and has an entry. -/
  methods : ∀ m entries, (m, entries) ∈ t.routes.toList →
    normalizeMethod m = m ∧ entries.toList ≠ []
  /-- An entry is what its pattern is compiled to. -/
  entries : ∀ m p e, t.HasEntry m p e → e.pattern = p ∧ e.expression = translate p t.types ∧
    ∃ c, CompiledPattern.compile p t.types = .ok c ∧ e.shared.compiled.paramNames = c.paramNames
  /-- What is in the cache is compiled from its own pattern, and some route uses it. -/
  cache : ∀ p s, (p, s) ∈ t.cache.toList → s.compiled.pattern = p ∧
    CompiledPattern.compile p t.types = .ok s.compiled ∧ ∃ m e, t.HasEntry m p e ∧ e.shared = s
  /-- An entry uses the compilation in the cache. -/
  cached : ∀ m p e, t.HasEntry m p e → t.cache.get? p = some e.shared
  /-- Entries use one compilation just when their patterns are the same text. -/
  shared : ∀ m p e m' p' e', t.HasEntry m p e → t.HasEntry m' p' e' →
    (e.shared.serial = e'.shared.serial ↔ p = p')

variable {types : TypeRegistry} {log : History H}

theorem Keeps.get?_of_hasEntry [Regex.ProgramSize] (h : Keeps types log t) {m p : String} {e : RouteEntry H}
    (he : t.HasEntry m p e) : (t.under m).get? p = some e := by
  obtain ⟨entries, hm, hp⟩ := he
  have hget : t.routes.get? m = some entries :=
    OrderedMap.get?_of_mem (h.methods ▸ nodup_eraseDups _) hm
  have hunder : t.under m = entries := by rw [under, hget, Option.getD_some]
  rw [← hunder] at hp
  exact h.get?_of_mem hp

theorem hasEntry_of_get? {m p : String} {e : RouteEntry H} (h : (t.under m).get? p = some e) :
    t.HasEntry m p e := by
  rw [under] at h
  cases hm : t.routes.get? m with
  | none =>
    rw [hm] at h
    cases h
  | some entries =>
    rw [hm] at h
    exact ⟨entries, OrderedMap.mem_of_get? hm, OrderedMap.mem_of_get? h⟩

/-- Methods, patterns and compilations fit together after every run, whatever failed in it. -/
theorem Builds.coherent [Regex.ProgramSize] (h : Builds { types } log t) : t.types = types ∧ t.Coherent := by
  have hkeeps : Keeps types log t := (Keeps.fresh types).builds h
  have hsharing : Sharing t := (Sharing.fresh types).builds h
  refine ⟨hkeeps.types_eq, fun m es hm => ?_, fun m p e he => ?_, fun p s hs => ?_, fun m p e he => ?_,
    fun m p e m' p' e' he he' => ?_⟩
  · exact ⟨hsharing.capital m (List.mem_map_of_mem hm), hsharing.nonempty m es hm⟩
  · have hcompile := hkeeps.compiled m p e (hkeeps.get?_of_hasEntry he)
    rw [hkeeps.types_eq]
    exact ⟨CompiledPattern.pattern_of_compile hcompile,
      CompiledPattern.expression_of_compile hcompile, _, hcompile, rfl⟩
  · have hget : t.cache.get? p = some s := OrderedMap.get?_of_mem hsharing.numbered.nodup hs
    have hcompile := hkeeps.cache p s hget
    obtain ⟨m, e, he⟩ := hsharing.used p s hget
    rw [hkeeps.types_eq]
    refine ⟨CompiledPattern.pattern_of_compile hcompile, hcompile, m, e, hasEntry_of_get? he, ?_⟩
    exact Option.some.inj ((hsharing.shared m p e he).symm.trans hget)
  · exact hsharing.shared m p e (hkeeps.get?_of_hasEntry he)
  · have hs := hsharing.shared m p e (hkeeps.get?_of_hasEntry he)
    have hs' := hsharing.shared m' p' e' (hkeeps.get?_of_hasEntry he')
    refine ⟨hsharing.numbered.eq_of_serial hs hs', fun hp => ?_⟩
    rw [hp, hs'] at hs
    rw [Option.some.inj hs]

/-- A handler that is replaced and a block that fails in the middle leave one compilation for one text. -/
theorem coherent_failed_block : ∃ t : RouteTable Nat,
    Builds {} [⟨"GET", "/[i:id]", 1⟩, ⟨"PUT", "/[i:id]", 2⟩, ⟨"GET", "/[i:id]", 4⟩] t ∧
    t.Coherent ∧ t.cache.keys = ["/[i:id]"] ∧
    t.shared? "get" "/[i:id]" "put" "/[i:id]" = some true := by
  have hrun := runProgram_builds
    [.register "get" "/[i:id]" 1,
      .mount "/[i" [.register "put" ":id]" 2, .registerEach ["put", "get"] ":id" 3],
      .register "Get" "/[i:id]" 4] {}
  have hlog : programHistory
      [.register "get" "/[i:id]" 1,
        .mount "/[i" [.register "put" ":id]" 2, .registerEach ["put", "get"] ":id" 3],
        .register "Get" "/[i:id]" 4] {} =
      [⟨"GET", "/[i:id]", 1⟩, ⟨"PUT", "/[i:id]", 2⟩, ⟨"GET", "/[i:id]", 4⟩] := by
    cbv
  rw [hlog] at hrun
  exact ⟨_, hrun, (Builds.coherent hrun).2, by cbv, by cbv⟩

end RouteTable

end RequestRouting
