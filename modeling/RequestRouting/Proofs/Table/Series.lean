import RequestRouting.Proofs.Table.Conservation
import RequestRouting.Proofs.Table.Sharing

/-!
Series of registrations: one handler and one pattern for several methods.

A series is done as a whole or not at all. Its methods share one pattern, and whether a pattern is accepted
depends on the types of the table alone; so a series is refused at its first method, before anything is
changed, or at none (`registerEach_of_share`). `Adds` says what a series changes that is not refused.
-/

namespace RequestRouting

theorem eraseDups_eraseDups {α : Type} [BEq α] [LawfulBEq α] (l : List α) :
    l.eraseDups.eraseDups = l.eraseDups := by
  induction l using List.reverseRecOn with
  | nil => rfl
  | append_singleton l a ih =>
    rw [eraseDups_concat]
    by_cases h : a ∈ l.eraseDups
    · rw [if_pos h]
      exact ih
    · rw [if_neg h, eraseDups_concat, ih, if_neg h]

theorem eraseDups_eraseDups_append {α : Type} [BEq α] [LawfulBEq α] (l l' : List α) :
    (l.eraseDups ++ l').eraseDups = (l ++ l').eraseDups := by
  induction l' using List.reverseRecOn with
  | nil => rw [List.append_nil, List.append_nil, eraseDups_eraseDups]
  | append_singleton l' a ih =>
    rw [← List.append_assoc, ← List.append_assoc, eraseDups_concat, eraseDups_concat, ih]

namespace RouteTable

variable {H : Type}

/-! ## Entries for several methods -/

@[simp]
theorem withEntry_basePath (t : RouteTable H) (method pattern : String) (e : RouteEntry H)
    (cache : OrderedMap String SharedPattern) :
    (t.withEntry method pattern e cache).basePath = t.basePath := rfl

/-- The table with one entry for each of some methods. -/
def withEntries (t : RouteTable H) (methods : List String) (pattern : String) (e : RouteEntry H)
    (cache : OrderedMap String SharedPattern) : RouteTable H :=
  methods.foldl (fun t m => t.withEntry (normalizeMethod m) pattern e cache) t

theorem get?_withEntries (t : RouteTable H) (methods : List String) (pattern : String)
    (e : RouteEntry H) (cache : OrderedMap String SharedPattern) (m p : String) :
    ((t.withEntries methods pattern e cache).under m).get? p =
      if m ∈ methods.map normalizeMethod ∧ p = pattern then some e else (t.under m).get? p := by
  induction methods generalizing t with
  | nil => simp [withEntries]
  | cons n ms ih =>
    show ((withEntries _ ms pattern e cache).under m).get? p = _
    rw [ih, under_withEntry]
    by_cases hm : m = normalizeMethod n
    · subst hm
      by_cases hp : p = pattern <;> simp [hp]
    · simp [hm]

/-- A pattern that a method has keeps its place, and one that is new comes last. -/
theorem keys_withEntries (t : RouteTable H) (methods : List String) (pattern : String)
    (e : RouteEntry H) (cache : OrderedMap String SharedPattern) (m : String) :
    ((t.withEntries methods pattern e cache).under m).keys =
      if m ∈ methods.map normalizeMethod ∧ pattern ∉ (t.under m).keys then
        (t.under m).keys ++ [pattern]
      else (t.under m).keys := by
  induction methods generalizing t with
  | nil => simp [withEntries]
  | cons n ms ih =>
    show ((withEntries _ ms pattern e cache).under m).keys = _
    rw [ih, under_withEntry]
    by_cases hm : m = normalizeMethod n
    · subst hm
      by_cases hp : pattern ∈ (t.under (normalizeMethod n)).keys <;> simp [hp]
    · simp [hm]

theorem withEntries_basePath (t : RouteTable H) (methods : List String) (pattern : String)
    (e : RouteEntry H) (cache : OrderedMap String SharedPattern) :
    (t.withEntries methods pattern e cache).basePath = t.basePath := by
  induction methods generalizing t with
  | nil => rfl
  | cons n ms ih => exact ih _

theorem withEntries_types (t : RouteTable H) (methods : List String) (pattern : String)
    (e : RouteEntry H) (cache : OrderedMap String SharedPattern) :
    (t.withEntries methods pattern e cache).types = t.types := by
  induction methods generalizing t with
  | nil => rfl
  | cons n ms ih => exact ih _

section

variable [Regex.ProgramSize] {types : TypeRegistry} {log : History H} {t : RouteTable H}
  {pattern : String} {shared : SharedPattern} {cache : OrderedMap String SharedPattern}

/-! ## One registration -/

theorem share_of_get? (h : t.cache.get? pattern = some shared) :
    t.share pattern = .ok (shared, t.cache) := by
  simp [share, h]

/-- A pattern is refused just when it does not compile, also if it is asked for again. -/
theorem share_eq_error_iff (h : Compiled t.types t.cache) {e : Error} :
    t.share pattern = .error e ↔ CompiledPattern.compile pattern t.types = .error e := by
  unfold share
  cases hget : t.cache.get? pattern with
  | some found => simp [h pattern found hget]
  | none => cases CompiledPattern.compile pattern t.types <;> simp

theorem register_of_share (hshare : t.share (t.basePath ++ pattern) = .ok (shared, cache))
    (method : String) (handler : H) : t.register method pattern handler =
      (t.withEntry (normalizeMethod method) (t.basePath ++ pattern) ⟨shared, handler⟩ cache,
        .ok ()) := by
  simp only [register, hshare]
  rfl

/-- What was shared is shared again, with nothing compiled anew. -/
theorem share_withEntry (hshare : t.share pattern = .ok (shared, cache)) (method : String)
    (e : RouteEntry H) :
    (t.withEntry method pattern e cache).share pattern = .ok (shared, cache) :=
  share_of_get? (get?_of_share hshare).1

/-- A registration that is refused changes nothing. -/
theorem register_eq_of_error {method : String} {handler : H} {e : Error}
    (h : (t.register method pattern handler).2 = .error e) :
    (t.register method pattern handler).1 = t := by
  cases hshare : t.share (t.basePath ++ pattern) with
  | error e => rw [register_of_error hshare]
  | ok found =>
    rw [register_of_share hshare] at h
    cases h

/-! ## Series -/

/-- A pattern that is accepted is accepted for every method. -/
theorem registerEach_of_share (hshare : t.share (t.basePath ++ pattern) = .ok (shared, cache))
    (methods : List String) (handler : H) : registerEach pattern handler methods t =
      (t.withEntries methods (t.basePath ++ pattern) ⟨shared, handler⟩ cache, .ok ()) := by
  induction methods generalizing t with
  | nil => rfl
  | cons m ms ih =>
    rw [registerEach, register_of_share hshare]
    exact ih (share_withEntry hshare _ _)

/-- One that is refused changes nothing, and fails for the first method if there is one. -/
theorem registerEach_of_refused {e : Error} (hshare : t.share (t.basePath ++ pattern) = .error e)
    (methods : List String) (handler : H) : registerEach pattern handler methods t =
      (t, if methods = [] then .ok () else .error e) := by
  cases methods with
  | nil => rfl
  | cons m ms => rw [registerEach, register_of_error hshare, if_neg (List.cons_ne_nil m ms)]

theorem registerEach_of_error {e : Error} (hshare : t.share (t.basePath ++ pattern) = .error e)
    {methods : List String} (hne : methods ≠ []) (handler : H) :
    registerEach pattern handler methods t = (t, .error e) := by
  rw [registerEach_of_refused hshare, if_neg hne]

theorem registerEach_eq_of_error {methods : List String} {handler : H} {e : Error}
    (h : (registerEach pattern handler methods t).2 = .error e) :
    (registerEach pattern handler methods t).1 = t := by
  cases hshare : t.share (t.basePath ++ pattern) with
  | ok found =>
    rw [registerEach_of_share hshare] at h
    cases h
  | error e => rw [registerEach_of_refused hshare]

theorem Keeps.registerEach_eq_error_iff (h : Keeps types log t) {methods : List String}
    {handler : H} {e : Error} : (RouteTable.registerEach pattern handler methods t).2 = .error e ↔
      methods ≠ [] ∧ CompiledPattern.compile (t.basePath ++ pattern) types = .error e := by
  have hcache : Compiled t.types t.cache := h.types_eq ▸ h.cache
  rw [← h.types_eq, ← share_eq_error_iff hcache]
  cases hshare : t.share (t.basePath ++ pattern) with
  | ok found => simp [registerEach_of_share hshare]
  | error e' => by_cases hmethods : methods = [] <;> simp [registerEach_of_refused hshare, hmethods]

/-- A series that is not refused adds a line of history for each of its methods. -/
theorem loggedEach_of_ok {methods : List String} {handler : H}
    (h : (registerEach pattern handler methods t).2 = .ok ()) :
    loggedEach pattern handler methods t =
      methods.map fun m => ⟨normalizeMethod m, t.basePath ++ pattern, handler⟩ := by
  induction methods generalizing t with
  | nil => rfl
  | cons m ms ih =>
    cases hshare : t.share (t.basePath ++ pattern) with
    | error e =>
      rw [registerEach_of_error hshare (List.cons_ne_nil m ms)] at h
      cases h
    | ok found =>
      have hregister := register_of_share hshare m handler
      rw [registerEach, hregister] at h
      rw [loggedEach, hregister]
      simp only [logged_of_ok (congrArg Prod.snd hregister), ih h]
      rfl

/-! ## What a series changes -/

/-- Whether a table is another one with a handler for a pattern under each of some methods, and nothing else:
what is under other methods or patterns is the same, and what was there stands where it stood. -/
structure Adds (methods : List String) (pattern : String) (handler : H) (t t' : RouteTable H) :
    Prop where
  entry : ∀ m ∈ methods, ∃ e, t'.route? m pattern = some e ∧ e.pattern = pattern ∧
    e.handler = handler
  other : ∀ m p, ¬(normalizeMethod m ∈ methods.map normalizeMethod ∧ p = pattern) →
    t'.route? m p = t.route? m p
  order : ∀ m, (t'.entries m).keys =
    if normalizeMethod m ∈ methods.map normalizeMethod ∧ pattern ∉ (t.entries m).keys then
      (t.entries m).keys ++ [pattern]
    else (t.entries m).keys
  methods : t'.methods = (t.methods ++ methods.map normalizeMethod).eraseDups
  basePath : t'.basePath = t.basePath
  types : t'.types = t.types

theorem Keeps.registerEach_adds (h : Keeps types log t) {methods : List String} {handler : H}
    (hok : (RouteTable.registerEach pattern handler methods t).2 = .ok ()) :
    Adds methods (t.basePath ++ pattern) handler t
      (RouteTable.registerEach pattern handler methods t).1 := by
  have hkeeps := h.registerEach methods pattern handler
  have hmethods : (RouteTable.registerEach pattern handler methods t).1.methods =
      (t.methods ++ methods.map normalizeMethod).eraseDups := by
    rw [RouteTable.methods, RouteTable.methods, hkeeps.methods, h.methods, loggedEach_of_ok hok,
      History.methods, History.methods, List.map_append, List.map_map, eraseDups_eraseDups_append]
    rfl
  cases hshare : t.share (t.basePath ++ pattern) with
  | error e =>
    -- A pattern that is refused is no matter where no method is listed.
    have hnil : methods = [] := by
      by_contra hne
      rw [registerEach_of_error hshare hne] at hok
      cases hok
    subst hnil
    exact ⟨by simp, fun _ _ _ => rfl, fun m => (if_neg (by simp)).symm, hmethods, rfl, rfl⟩
  | ok found =>
    obtain ⟨shared, cache⟩ := found
    have hcache : Compiled t.types t.cache := h.types_eq ▸ h.cache
    rw [registerEach_of_share hshare] at hkeeps hmethods ⊢
    refine ⟨fun m hm => ⟨⟨shared, handler⟩, ?_, ?_, rfl⟩, fun m p hmp => ?_, fun m => ?_, hmethods,
      withEntries_basePath _ _ _ _ _, hkeeps.types_eq.trans h.types_eq.symm⟩
    · show ((withEntries _ _ _ _ _).under _).get? _ = _
      rw [get?_withEntries, if_pos ⟨List.mem_map_of_mem hm, rfl⟩]
    · exact CompiledPattern.pattern_of_compile (hcache.share hshare).1
    · show ((withEntries _ _ _ _ _).under _).get? _ = _
      rw [get?_withEntries, if_neg hmp]
      rfl
    · exact keys_withEntries _ _ _ _ _ _

/-- A series of registrations is refused just when it lists a method and its pattern does not compile, and then
the whole table is as it was, as after any registration that is refused. A series that is not refused adds an
entry for each of its methods and changes nothing else. So the registration for all standard methods is refused
just when its pattern does not compile, and else adds an entry for each of them. -/
theorem Builds.registerEach_all_or_none
    (h : Builds { types } log t) (pattern : String) (handler : H) :
    (∀ methods e, (RouteTable.registerEach pattern handler methods t).2 = .error e ↔
      methods ≠ [] ∧ CompiledPattern.compile (t.basePath ++ pattern) types = .error e) ∧
    (∀ methods e, (RouteTable.registerEach pattern handler methods t).2 = .error e →
      (RouteTable.registerEach pattern handler methods t).1 = t) ∧
    (∀ e, (t.registerAny pattern handler).2 = .error e ↔
      CompiledPattern.compile (t.basePath ++ pattern) types = .error e) ∧
    (∀ e, (t.registerAny pattern handler).2 = .error e → (t.registerAny pattern handler).1 = t) ∧
    ((t.registerAny pattern handler).2 = .ok () →
      Adds standardMethods (t.basePath ++ pattern) handler t (t.registerAny pattern handler).1) ∧
    (∀ method e, (t.register method pattern handler).2 = .error e →
      (t.register method pattern handler).1 = t) ∧
    ∀ methods, (RouteTable.registerEach pattern handler methods t).2 = .ok () →
      Adds methods (t.basePath ++ pattern) handler t
        (RouteTable.registerEach pattern handler methods t).1 := by
  have hkeeps : Keeps types log t := (Keeps.fresh types).builds h
  have hstandard : standardMethods ≠ [] := List.cons_ne_nil _ _
  exact ⟨fun methods e => hkeeps.registerEach_eq_error_iff, fun methods e => registerEach_eq_of_error,
    fun e => hkeeps.registerEach_eq_error_iff.trans (and_iff_right hstandard),
    fun e => registerEach_eq_of_error, hkeeps.registerEach_adds,
    fun method e => register_eq_of_error, fun methods => hkeeps.registerEach_adds⟩

end

/-- A series with one method twice, in two spellings, after one that was refused. -/
theorem registerEach_all_or_none_twice : ∃ t : RouteTable Nat,
    Builds {} [⟨"GET", "/[i:id]", 1⟩] t ∧
    (registerEach "[i:id" 2 ["put", "get"] t).2.isOk = false ∧
    (registerEach "[i:id" 2 ["put", "get"] t).1 = t ∧
    Adds ["put", "get", "PUT"] "/[i:id]" 3 t (registerEach "[i:id]" 3 ["put", "get", "PUT"] t).1 := by
  have hrun := runProgram_builds [.register "get" "/[i:id]" 1, .setBasePath "/"] {}
  have hlog : programHistory [.register "get" "/[i:id]" 1, .setBasePath "/"] {} =
      [⟨"GET", "/[i:id]", 1⟩] := by
    cbv
  have hbase : (runProgram [.register "get" "/[i:id]" 1, .setBasePath "/"]
      ({} : RouteTable Nat)).1.basePath = "/" := by
    rfl
  rw [hlog] at hrun
  generalize (runProgram [.register "get" "/[i:id]" 1, .setBasePath "/"]
    ({} : RouteTable Nat)).1 = t at hrun hbase
  have hbad : CompiledPattern.compile "/[i:id" TypeRegistry.builtin =
      .error (.invalidPattern "/[i:id" .classUnclosed) := by
    cbv
  have hgood : (CompiledPattern.compile "/[i:id]" TypeRegistry.builtin).isOk := by
    cbv
  obtain ⟨hrefused, hsame, -⟩ := Builds.registerEach_all_or_none hrun "[i:id" 2
  obtain ⟨hrefused', -, -, -, -, -, hadds⟩ := Builds.registerEach_all_or_none hrun "[i:id]" 3
  rw [hbase] at hrefused hrefused' hadds
  have herror := (hrefused ["put", "get"] _).2 ⟨List.cons_ne_nil _ _, hbad⟩
  refine ⟨t, hrun, by rw [herror]; rfl, hsame _ _ herror, hadds _ ?_⟩
  cases houtcome : (registerEach "[i:id]" 3 ["put", "get", "PUT"] t).2 with
  | ok u => rfl
  | error e =>
    have hcompile : CompiledPattern.compile "/[i:id]" TypeRegistry.builtin = .error e :=
      ((hrefused' _ e).1 houtcome).2
    rw [hcompile] at hgood
    cases hgood

end RouteTable

end RequestRouting
