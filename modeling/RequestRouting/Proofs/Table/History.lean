import Mathlib
import RequestRouting.Table.Command

/-!
What a route table holds, told from its history alone.

A history lists the registrations that succeeded, each with its method in capital letters and its whole
pattern. `Builds` says what history takes one table to another: single registrations, series of them, base
paths and mounted blocks, which may fail at any place. The table keeps nothing else: methods and patterns
stand in the order in which they came first, handlers are the ones that came last, and a request is answered
as if the patterns were compiled anew. `Keeps` is the invariant that carries this through a run.
-/

namespace RequestRouting

/-! ## First occurrences -/

section

variable {α : Type} [BEq α] [LawfulBEq α]

theorem eraseDups_concat (l : List α) (a : α) :
    (l ++ [a]).eraseDups = if a ∈ l.eraseDups then l.eraseDups else l.eraseDups ++ [a] := by
  rw [List.eraseDups_append]
  by_cases h : a ∈ l
  · rw [if_pos (List.mem_eraseDups.2 h)]
    simp [List.removeAll, h]
  · rw [if_neg (fun hmem => h (List.mem_eraseDups.1 hmem))]
    simp [List.removeAll, h, List.eraseDups_cons]

theorem nodup_eraseDups (l : List α) : l.eraseDups.Nodup := by
  induction l using List.reverseRecOn with
  | nil => exact List.nodup_nil
  | append_singleton l a ih =>
    rw [eraseDups_concat]
    by_cases h : a ∈ l.eraseDups
    · rw [if_pos h]
      exact ih
    · rw [if_neg h]
      simpa [List.nodup_append, ih] using fun b hb (hab : b = a) => h (hab ▸ hb)

end

theorem findSome?_congr {α β : Type} {f g : α → Option β} {l : List α}
    (h : ∀ a ∈ l, f a = g a) : l.findSome? f = l.findSome? g := by
  have hmap : l.map f = l.map g := List.map_congr_left h
  have hid : (l.map f).findSome? id = (l.map g).findSome? id := by rw [hmap]
  rwa [List.findSome?_map, List.findSome?_map] at hid

/-! ## Ordered maps -/

namespace OrderedMap

variable {κ ν : Type} [DecidableEq κ]

omit [DecidableEq κ] in
theorem size_eq_length_keys (m : OrderedMap κ ν) : m.size = m.keys.length := by
  simp [size, keys]

-- Without repeated keys, the first pair under a key is the only one.
theorem get?_of_mem {m : OrderedMap κ ν} (hm : m.keys.Nodup) {k : κ} {v : ν}
    (h : (k, v) ∈ m.toList) : m.get? k = some v := by
  obtain ⟨l⟩ := m
  simp only [keys, get?] at hm ⊢
  induction l with
  | nil => simp at h
  | cons p rest ih =>
    rw [List.map_cons, List.nodup_cons] at hm
    by_cases hp : p.1 = k
    · have hsame : p = (k, v) := by
        rcases List.mem_cons.1 h with h | h
        · exact h.symm
        · exact absurd (List.mem_map_of_mem (f := Prod.fst) h) (hp ▸ hm.1)
      simp [hsame]
    · have hrest : (k, v) ∈ rest := by
        rcases List.mem_cons.1 h with h | h
        · exact absurd (h ▸ rfl) hp
        · exact h
      simpa [hp] using ih hm.2 hrest

/-- The total of what the values of a map count for. -/
def total (f : ν → Nat) (m : OrderedMap κ ν) : Nat := (m.values.map f).sum

theorem total_insert (f : ν → Nat) (m : OrderedMap κ ν) (k : κ) (v : ν) :
    (m.insert k v).total f + ((m.get? k).map f).getD 0 = m.total f + f v := by
  obtain ⟨l⟩ := m
  simp only [total, insert, values, get?]
  induction l with
  | nil => simp [insertList]
  | cons p rest ih =>
    obtain ⟨k', v'⟩ := p
    by_cases h : k' = k
    · simp [insertList, h]
      omega
    · simp [insertList, h] at ih ⊢
      omega

end OrderedMap

/-! ## Histories -/

/-- A registration that succeeded, with its method in capital letters and its whole pattern. -/
structure Registration (H : Type) where
  method : String
  pattern : String
  handler : H
deriving DecidableEq, Repr

/-- The registrations that succeeded, in the order of execution. -/
abbrev History (H : Type) := List (Registration H)

namespace History

variable {H : Type}

/-- The methods, each where it came first. -/
def methods (log : History H) : List String := (log.map (·.method)).eraseDups

/-- The patterns of a method, each where it came first. -/
def patterns (log : History H) (method : String) : List String :=
  ((log.filter (·.method = method)).map (·.pattern)).eraseDups

/-- The different methods with a pattern. -/
def pairs (log : History H) : List (String × String) :=
  (log.map fun r => (r.method, r.pattern)).eraseDups

/-- The handler that came last for a method and a pattern. -/
def handler? (log : History H) (method pattern : String) : Option H :=
  (log.filter fun r => r.method = method ∧ r.pattern = pattern).getLast?.map (·.handler)

/-- The answer to a request: the first pattern of the method that takes parameters from the path when it is
compiled with the given types. -/
def dispatch [Regex.ProgramSize] (types : TypeRegistry) (log : History H) (method rawPath : String) :
    Option (RouteMatch H) :=
  let path := Path.normalize rawPath
  let method := normalizeMethod method
  (patterns log method).findSome? fun pattern => do
    let compiled ← (CompiledPattern.compile pattern types).toOption
    let params ← compiled.captures path
    let handler ← handler? log method pattern
    return { method, path, pattern, handler, params }

variable (log : History H) (r : Registration H) (m p : String)

theorem methods_concat : methods (log ++ [r]) =
    if r.method ∈ methods log then methods log else methods log ++ [r.method] := by
  rw [methods, List.map_append, List.map_singleton, eraseDups_concat]
  rfl

theorem pairs_concat : pairs (log ++ [r]) =
    if (r.method, r.pattern) ∈ pairs log then pairs log
    else pairs log ++ [(r.method, r.pattern)] := by
  rw [pairs, List.map_append, List.map_singleton, eraseDups_concat]
  rfl

theorem patterns_concat_self : patterns (log ++ [r]) r.method =
    if r.pattern ∈ patterns log r.method then patterns log r.method
    else patterns log r.method ++ [r.pattern] := by
  have hlast : [r].filter (·.method = r.method) = [r] := by simp
  rw [patterns, List.filter_append, hlast, List.map_append, List.map_singleton, eraseDups_concat]
  rfl

theorem patterns_concat_of_ne (h : m ≠ r.method) : patterns (log ++ [r]) m = patterns log m := by
  have hnone : [r].filter (·.method = m) = [] := by simp [h.symm]
  rw [patterns, List.filter_append, hnone, List.append_nil]
  rfl

theorem handler?_concat : handler? (log ++ [r]) m p =
    if m = r.method ∧ p = r.pattern then some r.handler else handler? log m p := by
  unfold handler?
  by_cases h : m = r.method ∧ p = r.pattern
  · obtain ⟨rfl, rfl⟩ := h
    rw [if_pos ⟨rfl, rfl⟩, List.filter_append]
    simp
  · have hnot : ¬(r.method = m ∧ r.pattern = p) := fun hr => h ⟨hr.1.symm, hr.2.symm⟩
    have hnone : [r].filter (fun r => r.method = m ∧ r.pattern = p) = [] :=
      List.filter_cons_of_neg (by simpa using hnot)
    rw [if_neg h, List.filter_append, hnone, List.append_nil]

theorem mem_pairs : (m, p) ∈ pairs log ↔ p ∈ patterns log m := by
  simp only [pairs, patterns, List.mem_eraseDups, List.mem_map, List.mem_filter]
  constructor
  · intro ⟨r, hr, hpair⟩
    cases hpair
    exact ⟨r, ⟨hr, by simp⟩, rfl⟩
  · intro ⟨r, ⟨hr, hmethod⟩, hpattern⟩
    exact ⟨r, hr, by simp_all⟩

end History

/-! ## Runs -/

theorem CompiledPattern.pattern_of_compile [Regex.ProgramSize] {pattern : String} {types : TypeRegistry}
    {c : CompiledPattern} (h : compile pattern types = .ok c) : c.pattern = pattern := by
  unfold compile at h
  cases hregex : Regex.compile (translate pattern types) with
  | ok regex =>
    simp only [hregex, Except.ok.injEq] at h
    rw [← h]
  | error reason => simp [hregex] at h

namespace RouteTable

section

variable {H : Type} [Regex.ProgramSize]

/-- What a registration adds to the history. -/
def logged (t : RouteTable H) (method pattern : String) (handler : H) : History H :=
  match (t.register method pattern handler).2 with
  | .ok () => [⟨normalizeMethod method, t.basePath ++ pattern, handler⟩]
  | .error _ => []

/-- What a series of registrations adds to the history: those before the first that fails. -/
def loggedEach (pattern : String) (handler : H) : List String → RouteTable H → History H
  | [], _ => []
  | m :: ms, t =>
    match t.register m pattern handler with
    | (next, .ok ()) => t.logged m pattern handler ++ loggedEach pattern handler ms next
    | (_, .error _) => []

/-- Whether operations with this history may take one table to the other. What a mounted block does is up to
it, also whether it goes on after a failure. -/
inductive Builds : RouteTable H → History H → RouteTable H → Prop
  | refl (t : RouteTable H) : Builds t [] t
  | register (t : RouteTable H) (method pattern : String) (handler : H) :
    Builds t (t.logged method pattern handler) (t.register method pattern handler).1
  | registerEach (t : RouteTable H) (methods : List String) (pattern : String) (handler : H) :
    Builds t (loggedEach pattern handler methods t)
      (RouteTable.registerEach pattern handler methods t).1
  | setBasePath (t : RouteTable H) (basePath : String) : Builds t [] (t.setBasePath basePath)
  | mount {t : RouteTable H} {segment : String} {α : Type} {log : History H}
    {changes : RouteTable H → RouteTable H × α}
    (h : Builds (t.setBasePath (t.basePath ++ segment)) log
      (changes (t.setBasePath (t.basePath ++ segment))).1) :
    Builds t log (t.mount segment changes).1
  | trans {t t' t'' : RouteTable H} {log log' : History H} (h : Builds t log t')
    (h' : Builds t' log' t'') : Builds t (log ++ log') t''

/-! ### Programs -/

mutual

/-- What an operation adds to the history. -/
def Command.history : Command H → RouteTable H → History H
  | .register method pattern handler, t => t.logged method pattern handler
  | .registerEach methods pattern handler, t => loggedEach pattern handler methods t
  | .mount segment block, t => blockHistory block (t.setBasePath (t.basePath ++ segment))
  | .setBasePath _, _ => []
  | .query _, _ => []

/-- What a block adds to the history. -/
def blockHistory : List (Command H) → RouteTable H → History H
  | [], _ => []
  | c :: cs, t =>
    c.history t ++
      match (c.run t).2.outcome with
      | .ok () => blockHistory cs (c.run t).1
      | .error _ => []

end

/-- What a program adds to the history. -/
def programHistory : List (Command H) → RouteTable H → History H
  | [], _ => []
  | c :: cs, t => c.history t ++ programHistory cs (c.run t).1

mutual

theorem Command.run_builds (c : Command H) (t : RouteTable H) :
    Builds t (c.history t) (c.run t).1 := by
  cases c with
  | register method pattern handler =>
    rw [Command.history, Command.run]
    exact .register t method pattern handler
  | registerEach methods pattern handler =>
    rw [Command.history, Command.run]
    exact .registerEach t methods pattern handler
  | setBasePath basePath =>
    rw [Command.history, Command.run]
    exact .setBasePath t basePath
  | mount segment block =>
    rw [Command.history, Command.run]
    show Builds t _ (t.mount segment (runBlock block)).1
    exact .mount (runBlock_builds block _)
  | query q =>
    rw [Command.history, Command.run]
    exact .refl t

theorem runBlock_builds (block : List (Command H)) (t : RouteTable H) :
    Builds t (blockHistory block t) (runBlock block t).1 := by
  cases block with
  | nil =>
    rw [blockHistory, runBlock]
    exact .refl t
  | cons c cs =>
    rw [blockHistory, runBlock]
    cases houtcome : (c.run t).2.outcome with
    | error e =>
      simp only [houtcome]
      exact (c.run_builds t).trans (.refl _)
    | ok u =>
      simp only [houtcome]
      exact (c.run_builds t).trans (runBlock_builds cs _)

end

theorem runProgram_builds (program : List (Command H)) (t : RouteTable H) :
    Builds t (programHistory program t) (runProgram program t).1 := by
  induction program generalizing t with
  | nil => exact .refl t
  | cons c cs ih => exact (c.run_builds t).trans (ih (c.run t).1)

/-! ### What a registration does -/

/-- The entries under a method as it is kept. -/
def under (t : RouteTable H) (method : String) : OrderedMap String (RouteEntry H) :=
  (t.routes.get? method).getD {}

omit [Regex.ProgramSize] in
theorem entries_eq_under (t : RouteTable H) (method : String) :
    t.entries method = t.under (normalizeMethod method) := rfl

/-- The table with a new entry, and with what is compiled then. -/
def withEntry (t : RouteTable H) (method pattern : String) (e : RouteEntry H)
    (cache : OrderedMap String SharedPattern) : RouteTable H :=
  { t with routes := t.routes.insert method ((t.under method).insert pattern e), cache }

omit [Regex.ProgramSize] in
theorem under_withEntry (t : RouteTable H) (method pattern : String) (e : RouteEntry H)
    (cache : OrderedMap String SharedPattern) (m : String) :
    (t.withEntry method pattern e cache).under m =
      if m = method then (t.under method).insert pattern e else t.under m := by
  show ((t.routes.insert method ((t.under method).insert pattern e)).get? m).getD {} = _
  rw [OrderedMap.get?_insert]
  by_cases h : m = method
  · rw [if_pos h, if_pos h]
    rfl
  · rw [if_neg h, if_neg h]
    rfl

-- Either nothing happens, or there is one more entry and one more line of history.
theorem register_cases (t : RouteTable H) (method pattern : String) (handler : H) :
    ((t.register method pattern handler).1 = t ∧ t.logged method pattern handler = []) ∨
    ∃ shared cache, t.share (t.basePath ++ pattern) = .ok (shared, cache) ∧
      (t.register method pattern handler).1 =
        t.withEntry (normalizeMethod method) (t.basePath ++ pattern) ⟨shared, handler⟩ cache ∧
      t.logged method pattern handler =
        [⟨normalizeMethod method, t.basePath ++ pattern, handler⟩] := by
  unfold logged
  cases hshare : t.share (t.basePath ++ pattern) with
  | error e =>
    rw [register_of_error hshare]
    exact Or.inl ⟨rfl, rfl⟩
  | ok found =>
    obtain ⟨shared, cache⟩ := found
    refine Or.inr ⟨shared, cache, rfl, ?_, ?_⟩
    · simp only [register, hshare]
      rfl
    · simp only [register, hshare]

/-- Whether what was compiled so far is what the types give. -/
def Compiled (types : TypeRegistry) (cache : OrderedMap String SharedPattern) : Prop :=
  ∀ pattern shared, cache.get? pattern = some shared →
    CompiledPattern.compile pattern types = .ok shared.compiled

theorem Compiled.share {t : RouteTable H} (h : Compiled t.types t.cache) {pattern : String}
    {shared : SharedPattern} {cache : OrderedMap String SharedPattern}
    (hshare : t.share pattern = .ok (shared, cache)) :
    CompiledPattern.compile pattern t.types = .ok shared.compiled ∧ Compiled t.types cache := by
  unfold RouteTable.share at hshare
  cases hget : t.cache.get? pattern with
  | some found =>
    simp only [hget, Except.ok.injEq, Prod.mk.injEq] at hshare
    obtain ⟨rfl, rfl⟩ := hshare
    exact ⟨h pattern found hget, h⟩
  | none =>
    cases hcompile : CompiledPattern.compile pattern t.types with
    | error e => simp [hget, hcompile] at hshare
    | ok compiled =>
      simp only [hget, hcompile, Except.ok.injEq, Prod.mk.injEq] at hshare
      obtain ⟨rfl, rfl⟩ := hshare
      refine ⟨rfl, fun p s hp => ?_⟩
      rw [OrderedMap.get?_insert] at hp
      by_cases hsame : p = pattern
      · rw [if_pos hsame, Option.some.injEq] at hp
        rw [hsame, hcompile, ← hp]
      · rw [if_neg hsame] at hp
        exact h p s hp

/-! ### What a table keeps of its history -/

/-- A table that keeps the last handlers of its history under the first occurrences of its methods and
patterns, each pattern compiled with the types of the table. -/
structure Keeps (types : TypeRegistry) (log : History H) (t : RouteTable H) : Prop where
  types_eq : t.types = types
  cache : Compiled types t.cache
  methods : t.routes.keys = History.methods log
  patterns : ∀ m, (t.under m).keys = History.patterns log m
  compiled : ∀ m p e, (t.under m).get? p = some e →
    CompiledPattern.compile p types = .ok e.shared.compiled
  handlers : ∀ m p, ((t.under m).get? p).map (·.handler) = History.handler? log m p
  size : t.size = (History.pairs log).length

namespace Keeps

variable {types : TypeRegistry} {log : History H} {t : RouteTable H}

theorem fresh (types : TypeRegistry) : Keeps types [] ({ types } : RouteTable H) where
  types_eq := rfl
  cache := nofun
  methods := rfl
  patterns _ := rfl
  compiled := nofun
  handlers _ _ := rfl
  size := rfl

theorem setBasePath (h : Keeps types log t) (basePath : String) :
    Keeps types log (t.setBasePath basePath) :=
  ⟨h.types_eq, h.cache, h.methods, h.patterns, h.compiled, h.handlers, h.size⟩

omit [Regex.ProgramSize] in
theorem size_eq_total (t : RouteTable H) : t.size = t.routes.total OrderedMap.size := by
  simp [RouteTable.size, OrderedMap.total, List.sum, List.foldr_map]

omit [Regex.ProgramSize] in
/-- A new entry is counted unless its method has the pattern already. -/
theorem size_withEntry (t : RouteTable H) (method pattern : String) (e : RouteEntry H)
    (cache : OrderedMap String SharedPattern) :
    (t.withEntry method pattern e cache).size =
      if pattern ∈ (t.under method).keys then t.size else t.size + 1 := by
  have htotal := OrderedMap.total_insert OrderedMap.size t.routes method
    ((t.under method).insert pattern e)
  have hold : ((t.routes.get? method).map OrderedMap.size).getD 0 = (t.under method).size := by
    unfold under
    cases t.routes.get? method <;> rfl
  have hnew : ((t.under method).insert pattern e).size =
      if pattern ∈ (t.under method).keys then (t.under method).size
      else (t.under method).size + 1 := by
    rw [OrderedMap.size_eq_length_keys, OrderedMap.keys_insert, OrderedMap.size_eq_length_keys]
    by_cases hp : pattern ∈ (t.under method).keys
    · rw [if_pos hp, if_pos hp]
    · rw [if_neg hp, if_neg hp, List.length_append, List.length_singleton]
  rw [hold, hnew] at htotal
  -- Both sides of the total count what the method had before, so only the new pattern is left.
  rw [size_eq_total, size_eq_total]
  show (t.routes.insert method _).total OrderedMap.size = _
  by_cases hp : pattern ∈ (t.under method).keys
  · rw [if_pos hp] at htotal ⊢
    omega
  · rw [if_neg hp] at htotal ⊢
    omega

theorem withEntry (h : Keeps types log t) (method : String) {pattern : String}
    {shared : SharedPattern} {cache : OrderedMap String SharedPattern} (handler : H)
    (hcompile : CompiledPattern.compile pattern types = .ok shared.compiled)
    (hcache : Compiled types cache) :
    Keeps types (log ++ [⟨method, pattern, handler⟩])
      (t.withEntry method pattern ⟨shared, handler⟩ cache) where
  types_eq := h.types_eq
  cache := hcache
  methods := by
    show (t.routes.insert method _).keys = _
    rw [OrderedMap.keys_insert, h.methods, History.methods_concat]
  patterns m := by
    rw [under_withEntry]
    by_cases hm : m = method
    · subst hm
      rw [if_pos rfl, OrderedMap.keys_insert, h.patterns, History.patterns_concat_self]
    · rw [if_neg hm, h.patterns, History.patterns_concat_of_ne _ _ _ hm]
  compiled m p e hget := by
    rw [under_withEntry] at hget
    by_cases hm : m = method
    · rw [if_pos hm, OrderedMap.get?_insert] at hget
      by_cases hp : p = pattern
      · rw [if_pos hp, Option.some.injEq] at hget
        rw [hp, ← hget]
        exact hcompile
      · rw [if_neg hp] at hget
        exact h.compiled _ _ _ hget
    · rw [if_neg hm] at hget
      exact h.compiled _ _ _ hget
  handlers m p := by
    rw [under_withEntry, History.handler?_concat, ← h.handlers m p]
    by_cases hm : m = method
    · subst hm
      rw [if_pos rfl, OrderedMap.get?_insert]
      by_cases hp : p = pattern
      · rw [if_pos hp, if_pos ⟨rfl, hp⟩]
        rfl
      · rw [if_neg hp, if_neg (fun hboth => hp hboth.2)]
    · rw [if_neg hm, if_neg (fun hboth => hm hboth.1)]
  size := by
    rw [size_withEntry, h.patterns, History.pairs_concat, h.size]
    -- A method has a pattern just when the two are among the pairs.
    by_cases hp : pattern ∈ History.patterns log method
    · rw [if_pos hp, if_pos ((History.mem_pairs log method pattern).2 hp)]
    · rw [if_neg hp, if_neg (fun hpair => hp ((History.mem_pairs log method pattern).1 hpair)),
        List.length_append, List.length_singleton]

theorem register (h : Keeps types log t) (method pattern : String) (handler : H) :
    Keeps types (log ++ t.logged method pattern handler)
      (t.register method pattern handler).1 := by
  rcases t.register_cases method pattern handler with ⟨htable, hlog⟩ | hfound
  · rw [htable, hlog, List.append_nil]
    exact h
  · obtain ⟨shared, cache, hshare, htable, hlog⟩ := hfound
    have hcache : Compiled t.types t.cache := h.types_eq ▸ h.cache
    have hboth := hcache.share hshare
    rw [h.types_eq] at hboth
    rw [htable, hlog]
    exact h.withEntry (normalizeMethod method) handler hboth.1 hboth.2

theorem registerEach (h : Keeps types log t) (methods : List String) (pattern : String)
    (handler : H) :
    Keeps types (log ++ loggedEach pattern handler methods t)
      (RouteTable.registerEach pattern handler methods t).1 := by
  induction methods generalizing log t with
  | nil =>
    rw [loggedEach, RouteTable.registerEach, List.append_nil]
    exact h
  | cons m ms ih =>
    have hstep := h.register m pattern handler
    rw [loggedEach, RouteTable.registerEach]
    cases hr : t.register m pattern handler with
    | mk next outcome =>
      cases outcome with
      | ok u =>
        rw [hr] at hstep
        simp only [← List.append_assoc]
        exact ih hstep
      | error e =>
        -- The series ends here, and what failed is not in the history.
        have hlog : t.logged m pattern handler = [] := by simp only [logged, hr]
        rw [hr, hlog] at hstep
        exact hstep

/-- A run adds its history to what a table keeps. -/
theorem builds {t' : RouteTable H} {added : History H} (h : Keeps types log t)
    (hrun : Builds t added t') : Keeps types (log ++ added) t' := by
  -- The base path changes on the way, but nothing that a table keeps depends on it.
  induction hrun generalizing log with
  | refl t =>
    rw [List.append_nil]
    exact h
  | register t method pattern handler => exact h.register method pattern handler
  | registerEach t methods pattern handler => exact h.registerEach methods pattern handler
  | setBasePath t basePath =>
    rw [List.append_nil]
    exact h.setBasePath basePath
  | mount _ ih => exact (ih (h.setBasePath _)).setBasePath _
  | trans _ _ ih ih' =>
    rw [← List.append_assoc]
    exact ih' (ih h)

theorem get?_of_mem (h : Keeps types log t) {m p : String} {e : RouteEntry H}
    (hmem : (p, e) ∈ (t.under m).toList) : (t.under m).get? p = some e := by
  apply OrderedMap.get?_of_mem _ hmem
  rw [h.patterns]
  exact nodup_eraseDups _

theorem compile_of_mem (h : Keeps types log t) {m p : String} {e : RouteEntry H}
    (hmem : (p, e) ∈ (t.under m).toList) :
    CompiledPattern.compile p types = .ok e.shared.compiled :=
  h.compiled m p e (h.get?_of_mem hmem)

theorem handler_of_mem (h : Keeps types log t) {m p : String} {e : RouteEntry H}
    (hmem : (p, e) ∈ (t.under m).toList) : History.handler? log m p = some e.handler := by
  rw [← h.handlers, h.get?_of_mem hmem]
  rfl

theorem pattern_of_mem (h : Keeps types log t) {m p : String} {e : RouteEntry H}
    (hmem : (p, e) ∈ (t.under m).toList) : e.pattern = p :=
  CompiledPattern.pattern_of_compile (h.compile_of_mem hmem)

theorem routesOf_eq (h : Keeps types log t) (method : String) :
    (t.routesOf method).map (fun e => (e.pattern, some e.handler)) =
      (History.patterns log (normalizeMethod method)).map fun p =>
        (p, History.handler? log (normalizeMethod method) p) := by
  rw [← h.patterns, routesOf, entries_eq_under, OrderedMap.values, OrderedMap.keys, List.map_map,
    List.map_map]
  apply List.map_congr_left
  intro (p, e) hmem
  show (e.pattern, some e.handler) = (p, History.handler? log (normalizeMethod method) p)
  rw [h.pattern_of_mem hmem, h.handler_of_mem hmem]

/-- Each entry is compiled from its pattern. -/
theorem compile_of_mem_routesOf (h : Keeps types log t) {method : String} {e : RouteEntry H}
    (he : e ∈ t.routesOf method) :
    CompiledPattern.compile e.pattern types = .ok e.shared.compiled := by
  obtain ⟨⟨p, e⟩, hmem, rfl⟩ := List.mem_map.1 he
  show CompiledPattern.compile e.pattern types = .ok e.shared.compiled
  rw [h.pattern_of_mem hmem]
  exact h.compile_of_mem hmem

/-- A request goes to the first entry of its method that takes parameters from its path. -/
theorem dispatch_eq_findSome? (h : Keeps types log t) (method rawPath : String) :
    t.dispatch method rawPath = (t.routesOf method).findSome? fun e =>
      (e.shared.compiled.captures (Path.normalize rawPath)).map fun params =>
        { method := normalizeMethod method, path := Path.normalize rawPath, pattern := e.pattern,
          handler := e.handler, params } := by
  rw [dispatch, routesOf, entries_eq_under, OrderedMap.values, List.findSome?_map]
  apply findSome?_congr
  intro (p, e) hmem
  simp only [Function.comp_apply, h.pattern_of_mem hmem]

theorem dispatch_eq (h : Keeps types log t) (method rawPath : String) :
    t.dispatch method rawPath = History.dispatch types log method rawPath := by
  rw [dispatch, History.dispatch, ← h.patterns, entries_eq_under, OrderedMap.keys,
    List.findSome?_map]
  apply findSome?_congr
  intro (p, e) hmem
  have hcompile : (CompiledPattern.compile p types).toOption = some e.shared.compiled := by
    rw [h.compile_of_mem hmem]
    rfl
  simp only [Function.comp_apply, hcompile, h.handler_of_mem hmem, Option.bind_eq_bind,
    Option.bind_some]
  cases e.shared.compiled.captures (Path.normalize rawPath) with
  | none => rfl
  | some params => rfl

end Keeps

variable {types : TypeRegistry} {log : History H} {t : RouteTable H}

/-- A table shows what its history says: the methods and patterns in the order in which they came first, the
handlers that came last, how many different methods with a pattern there are, and for a request the first
pattern that takes parameters from its path. -/
theorem Builds.shows_history (h : Builds { types } log t) :
    t.methods = History.methods log ∧
    (∀ method, (t.routesOf method).map (fun e => (e.pattern, some e.handler)) =
      (History.patterns log (normalizeMethod method)).map fun p =>
        (p, History.handler? log (normalizeMethod method) p)) ∧
    t.size = (History.pairs log).length ∧
    ∀ method rawPath, t.dispatch method rawPath = History.dispatch types log method rawPath := by
  have hkeeps : Keeps types log t := (Keeps.fresh types).builds h
  exact ⟨hkeeps.methods, hkeeps.routesOf_eq, hkeeps.size, hkeeps.dispatch_eq⟩

end

/-- A block that fails keeps what it registered before, and the first pattern is not moved by the handler
that it gets at last. -/
theorem shows_failed_block : ∃ t : RouteTable Nat,
    Builds {} [⟨"GET", "/[i:id]", 1⟩, ⟨"GET", "/7", 2⟩, ⟨"GET", "/[i:id]", 5⟩] t ∧
    t.methods = ["GET"] ∧ t.size = 2 ∧
    t.dispatch "get" "/7/" =
      some ⟨"GET", "/7", "/[i:id]", 5, ⟨[("id", "7")]⟩⟩ := by
  have hrun := runProgram_builds
    [.register "get" "/[i:id]" 1,
      .mount "/7" [.register "GET" "" 2, .register "GET" "/[" 3, .register "GET" "/b" 4],
      .register "Get" "/[i:id]" 5] {}
  have hlog : programHistory
      [.register "get" "/[i:id]" 1,
        .mount "/7" [.register "GET" "" 2, .register "GET" "/[" 3, .register "GET" "/b" 4],
        .register "Get" "/[i:id]" 5] {} =
      [⟨"GET", "/[i:id]", 1⟩, ⟨"GET", "/7", 2⟩, ⟨"GET", "/[i:id]", 5⟩] := by
    cbv
  rw [hlog] at hrun
  obtain ⟨hmethods, -, hsize, hdispatch⟩ := Builds.shows_history hrun
  refine ⟨_, hrun, hmethods.trans (by decide), hsize.trans (by decide), ?_⟩
  exact (hdispatch "get" "/7/").trans (by cbv)

end RouteTable

end RequestRouting
