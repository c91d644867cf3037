import RequestRouting.Proofs.Table.History

/-!
Later registrations take no request away from the pattern that served it.

Which pattern serves a request is decided by the order of first registration alone (`History.served?`): one more
registration can only add its own pattern, and only where none served before (`served?_concat`). So a request
that was answered is answered by the same pattern with the same parameters after every run, and only the handler
may be a newer one (`Builds.dispatch_conserved`).
-/

namespace RequestRouting

theorem bind_findSome? {α β γ : Type} {f : α → Option β} {g : β → Option γ} {l : List α}
    (h : ∀ a ∈ l, ∀ b, f a = some b → (g b).isSome) :
    (l.findSome? f).bind g = l.findSome? fun a => (f a).bind g := by
  induction l with
  | nil => rfl
  | cons a l ih =>
    rw [List.findSome?_cons, List.findSome?_cons]
    cases ha : f a with
    | none => exact ih fun b hb => h b (List.mem_cons_of_mem a hb)
    | some b =>
      obtain ⟨c, hc⟩ := Option.isSome_iff_exists.1 (h a List.mem_cons_self b ha)
      simp only [Option.bind_some, hc]

/-! ## The pattern that serves -/

/-- The parameters that a path gives to a pattern, if the pattern compiles and the path matches. -/
def takes? [Regex.ProgramSize] (types : TypeRegistry) (pattern path : String) : Option Params :=
  (CompiledPattern.compile pattern types).toOption.bind (·.captures path)

namespace History

variable {H : Type} [Regex.ProgramSize]

/-- The first pattern of a method that takes parameters from a path, with the parameters. -/
def served? (types : TypeRegistry) (log : History H) (method path : String) :
    Option (String × Params) :=
  (patterns log method).findSome? fun pattern =>
    (takes? types pattern path).map fun params => (pattern, params)

variable {types : TypeRegistry} {log : History H} {method path : String}

omit [Regex.ProgramSize] in
theorem exists_handler? {pattern : String} (h : pattern ∈ patterns log method) :
    ∃ handler, handler? log method pattern = some handler := by
  simp only [patterns, List.mem_eraseDups, List.mem_map, List.mem_filter, decide_eq_true_eq] at h
  obtain ⟨r, ⟨hr, hmethod⟩, hpattern⟩ := h
  have hmem : r ∈ log.filter fun r => r.method = method ∧ r.pattern = pattern :=
    List.mem_filter.2 ⟨hr, by simp [hmethod, hpattern]⟩
  rw [handler?, List.getLast?_eq_some_getLast (List.ne_nil_of_mem hmem)]
  exact ⟨_, rfl⟩

theorem mem_patterns_of_served? {pattern : String} {params : Params}
    (h : served? types log method path = some (pattern, params)) :
    pattern ∈ patterns log method := by
  obtain ⟨p, hp, hparams⟩ := List.exists_of_findSome?_eq_some h
  obtain ⟨ps, -, heq⟩ := Option.map_eq_some_iff.1 hparams
  rwa [← (Prod.mk.inj heq).1]

/-- A request is answered by the pattern that serves it and the handler that this pattern got last. -/
theorem dispatch_eq_bind (m rawPath : String) : dispatch types log m rawPath =
    (served? types log (normalizeMethod m) (Path.normalize rawPath)).bind fun found =>
      (handler? log (normalizeMethod m) found.1).map fun handler =>
        { method := normalizeMethod m, path := Path.normalize rawPath, pattern := found.1, handler,
          params := found.2 } := by
  rw [served?, bind_findSome?]
  · apply findSome?_congr
    intro pattern _
    rw [takes?]
    cases (CompiledPattern.compile pattern types).toOption with
    | none => rfl
    | some c =>
      simp only [Option.bind_eq_bind, Option.bind_some]
      cases c.captures (Path.normalize rawPath) with
      | none => rfl
      | some params =>
        simp only [Option.bind_some, Option.map_eq_bind]
        rfl
  · intro pattern hpattern found hfound
    obtain ⟨params, -, rfl⟩ := Option.map_eq_some_iff.1 hfound
    obtain ⟨handler, hhandler⟩ := exists_handler? hpattern
    rw [hhandler]
    rfl

theorem dispatch_eq_some_iff {m rawPath : String} {found : RouteMatch H} :
    dispatch types log m rawPath = some found ↔
      served? types log (normalizeMethod m) (Path.normalize rawPath) =
        some (found.pattern, found.params) ∧
      handler? log (normalizeMethod m) found.pattern = some found.handler ∧
      found.method = normalizeMethod m ∧ found.path = Path.normalize rawPath := by
  rw [dispatch_eq_bind, Option.bind_eq_some_iff]
  constructor
  · intro ⟨served, hserved, hmap⟩
    obtain ⟨handler, hhandler, rfl⟩ := Option.map_eq_some_iff.1 hmap
    exact ⟨hserved, hhandler, rfl, rfl⟩
  · intro ⟨hserved, hhandler, hmethod, hpath⟩
    refine ⟨_, hserved, Option.map_eq_some_iff.2 ⟨_, hhandler, ?_⟩⟩
    rw [← hmethod, ← hpath]

theorem dispatch_eq_none_iff {m rawPath : String} : dispatch types log m rawPath = none ↔
    served? types log (normalizeMethod m) (Path.normalize rawPath) = none := by
  rw [dispatch_eq_bind]
  cases h : served? types log (normalizeMethod m) (Path.normalize rawPath) with
  | none => simp
  | some found =>
    obtain ⟨handler, hhandler⟩ := exists_handler? (mem_patterns_of_served? h)
    simp [hhandler]

/-- One more registration serves only what nothing served before. -/
theorem served?_concat (r : Registration H) : served? types (log ++ [r]) method path =
    (served? types log method path).or
      (if method = r.method then (takes? types r.pattern path).map fun params => (r.pattern, params)
        else none) := by
  by_cases hmethod : method = r.method
  · subst hmethod
    rw [if_pos rfl, served?, patterns_concat_self]
    by_cases hp : r.pattern ∈ patterns log r.method
    · -- The pattern keeps its place, so if it takes the path it was asked before.
      rw [if_pos hp, ← served?]
      cases hserved : served? types log r.method path with
      | none =>
        rw [served?, List.findSome?_eq_none_iff] at hserved
        rw [Option.none_or, hserved r.pattern hp]
      | some found => rfl
    · rw [if_neg hp, List.findSome?_append, ← served?, List.findSome?_cons, List.findSome?_nil]
      cases (takes? types r.pattern path) <;> rfl
  · rw [if_neg hmethod, Option.or_none, served?, patterns_concat_of_ne _ _ _ hmethod, ← served?]

/-- What serves a request goes on to serve it. -/
theorem served?_append {found : String × Params} (added : History H)
    (h : served? types log method path = some found) :
    served? types (log ++ added) method path = some found := by
  induction added generalizing log with
  | nil => rwa [List.append_nil]
  | cons r added ih =>
    rw [← List.singleton_append, ← List.append_assoc]
    apply ih
    rw [served?_concat, h, Option.some_or]

variable {m rawPath : String} {found : RouteMatch H} {r : Registration H}

theorem dispatch_concat_of_ne (hm : normalizeMethod m ≠ r.method) :
    dispatch types (log ++ [r]) m rawPath = dispatch types log m rawPath := by
  rw [dispatch_eq_bind, dispatch_eq_bind, served?_concat, if_neg hm, Option.or_none]
  simp only [handler?_concat, hm, false_and, if_false]

/-- An answer stays, but for the handler, which is the last one. -/
theorem dispatch_append (added : History H) (h : dispatch types log m rawPath = some found) :
    ∃ handler, handler? (log ++ added) (normalizeMethod m) found.pattern = some handler ∧
      dispatch types (log ++ added) m rawPath = some { found with handler } := by
  obtain ⟨hserved, -, hrest⟩ := dispatch_eq_some_iff.1 h
  have hstill := served?_append added hserved
  obtain ⟨handler, hhandler⟩ := exists_handler? (mem_patterns_of_served? hstill)
  exact ⟨handler, hhandler, dispatch_eq_some_iff.2 ⟨hstill, hhandler, hrest⟩⟩

/-- What was not found before one more registration is found with its pattern and handler. -/
theorem of_dispatch_concat (hnone : dispatch types log m rawPath = none)
    (h : dispatch types (log ++ [r]) m rawPath = some found) :
    found.pattern = r.pattern ∧ found.handler = r.handler := by
  obtain ⟨hserved, hhandler, -⟩ := dispatch_eq_some_iff.1 h
  rw [served?_concat, dispatch_eq_none_iff.1 hnone, Option.none_or, Option.ite_none_right_eq_some]
    at hserved
  obtain ⟨hm, hparams⟩ := hserved
  obtain ⟨params, -, heq⟩ := Option.map_eq_some_iff.1 hparams
  have hpattern : found.pattern = r.pattern := (Prod.mk.inj heq).1.symm
  rw [handler?_concat, if_pos ⟨hm, hpattern⟩] at hhandler
  exact ⟨hpattern, (Option.some.inj hhandler).symm⟩

end History

/-! ## Tables -/

namespace RouteTable

section

variable {H : Type} [Regex.ProgramSize] {types : TypeRegistry} {log : History H} {t : RouteTable H}

theorem Builds.dispatch_eq (h : Builds { types } log t) (method rawPath : String) :
    t.dispatch method rawPath = History.dispatch types log method rawPath :=
  ((Keeps.fresh types).builds h).dispatch_eq method rawPath

/-- A registration that succeeds is a line of history. -/
theorem logged_of_ok {method pattern : String} {handler : H}
    (hok : (t.register method pattern handler).2 = .ok ()) :
    t.logged method pattern handler =
      [⟨normalizeMethod method, t.basePath ++ pattern, handler⟩] := by
  rw [logged, hok]

theorem Builds.register_of_ok (h : Builds { types } log t) {method pattern : String} {handler : H}
    (hok : (t.register method pattern handler).2 = .ok ()) :
    Builds { types } (log ++ [⟨normalizeMethod method, t.basePath ++ pattern, handler⟩])
      (t.register method pattern handler).1 := by
  rw [← logged_of_ok hok]
  exact h.trans (.register t method pattern handler)

/-- A registration changes no answer to another method, and none that another pattern gave. Where its own
pattern answered, it changes the handler alone, and what was not found it may find with its own pattern and
handler. So after every run each request that was answered is answered by the same pattern with the same
parameters. -/
theorem Builds.dispatch_conserved (h : Builds { types } log t) :
    (∀ method pattern handler, (t.register method pattern handler).2 = .ok () → ∀ m rawPath,
      (normalizeMethod m ≠ normalizeMethod method →
        (t.register method pattern handler).1.dispatch m rawPath = t.dispatch m rawPath) ∧
      (normalizeMethod m = normalizeMethod method →
        (∀ found, t.dispatch m rawPath = some found → found.pattern ≠ t.basePath ++ pattern →
          (t.register method pattern handler).1.dispatch m rawPath = some found) ∧
        (∀ found, t.dispatch m rawPath = some found → found.pattern = t.basePath ++ pattern →
          (t.register method pattern handler).1.dispatch m rawPath = some { found with handler }) ∧
        (t.dispatch m rawPath = none →
          (t.register method pattern handler).1.dispatch m rawPath = none ∨
          ∃ found, (t.register method pattern handler).1.dispatch m rawPath = some found ∧
            found.pattern = t.basePath ++ pattern ∧ found.handler = handler))) ∧
    ∀ added later, Builds t added later → ∀ m rawPath found, t.dispatch m rawPath = some found →
      ∃ handler, later.dispatch m rawPath = some { found with handler } := by
  constructor
  · intro method pattern handler hok m rawPath
    simp only [h.dispatch_eq, (h.register_of_ok hok).dispatch_eq]
    refine ⟨fun hm => History.dispatch_concat_of_ne hm, fun hm => ⟨fun found hfound hpattern => ?_,
      fun found hfound hpattern => ?_, fun hnone => ?_⟩⟩
    · obtain ⟨last, hlast, hafter⟩ := History.dispatch_append
        [⟨normalizeMethod method, t.basePath ++ pattern, handler⟩] hfound
      rw [History.handler?_concat, if_neg fun hboth => hpattern hboth.2] at hlast
      obtain ⟨-, hhandler, -⟩ := History.dispatch_eq_some_iff.1 hfound
      rw [hafter, Option.some.inj (hlast.symm.trans hhandler)]
    · obtain ⟨last, hlast, hafter⟩ := History.dispatch_append
        [⟨normalizeMethod method, t.basePath ++ pattern, handler⟩] hfound
      rw [History.handler?_concat, if_pos ⟨hm, hpattern⟩] at hlast
      rw [hafter, ← Option.some.inj hlast]
    · cases hafter : History.dispatch types
          (log ++ [⟨normalizeMethod method, t.basePath ++ pattern, handler⟩]) m rawPath with
      | none => exact Or.inl rfl
      | some found => exact Or.inr ⟨found, rfl, History.of_dispatch_concat hnone hafter⟩
  · intro added later hlater m rawPath found hfound
    rw [h.dispatch_eq] at hfound
    obtain ⟨handler, -, hafter⟩ := History.dispatch_append added hfound
    rw [← (h.trans hlater).dispatch_eq] at hafter
    exact ⟨handler, hafter⟩

end

/-- A pattern that is completed by a base path gets a new handler in its place, and a literal that comes later
takes no request from it. -/
theorem dispatch_conserved_number : ∃ t : RouteTable Nat,
    Builds {} [⟨"GET", "/[i:id]", 1⟩] t ∧
    t.dispatch "get" "/7/" = some ⟨"GET", "/7", "/[i:id]", 1, ⟨[("id", "7")]⟩⟩ ∧
    (t.register "Get" ":id]" 5).1.dispatch "get" "/7/" =
      some ⟨"GET", "/7", "/[i:id]", 5, ⟨[("id", "7")]⟩⟩ ∧
    ∃ handler, ((t.setBasePath "").register "GET" "/7" 2).1.dispatch "get" "/7/" =
      some ⟨"GET", "/7", "/[i:id]", handler, ⟨[("id", "7")]⟩⟩ := by
  have hrun := runProgram_builds [.register "get" "/[i:id]" 1, .setBasePath "/[i"] {}
  have hlog : programHistory [.register "get" "/[i:id]" 1, .setBasePath "/[i"] {} =
      [⟨"GET", "/[i:id]", 1⟩] := by
    cbv
  have hbase : (runProgram [.register "get" "/[i:id]" 1, .setBasePath "/[i"]
      ({} : RouteTable Nat)).1.basePath = "/[i" := by
    rfl
  have hok : ((runProgram [.register "get" "/[i:id]" 1, .setBasePath "/[i"]
      ({} : RouteTable Nat)).1.register "Get" ":id]" 5).2 = .ok () := by
    cbv
  rw [hlog] at hrun
  generalize (runProgram [.register "get" "/[i:id]" 1, .setBasePath "/[i"]
    ({} : RouteTable Nat)).1 = t at hrun hbase hok
  have hfound : t.dispatch "get" "/7/" =
      some ⟨"GET", "/7", "/[i:id]", 1, ⟨[("id", "7")]⟩⟩ := (hrun.dispatch_eq _ _).trans (by cbv)
  obtain ⟨hstep, hlater⟩ := Builds.dispatch_conserved hrun
  have hpattern : "/[i:id]" = t.basePath ++ ":id]" := by
    rw [hbase]
    rfl
  have hmethod : normalizeMethod "get" = normalizeMethod "Get" := by cbv
  have hadded := (Builds.setBasePath t "").trans (.register (t.setBasePath "") "GET" "/7" 2)
  refine ⟨t, hrun, hfound, ?_, ?_⟩
  · exact ((hstep "Get" ":id]" 5 hok "get" "/7/").2 hmethod).2.1 _ hfound hpattern
  · exact hlater _ _ hadded "get" "/7/" _ hfound

end RouteTable

end RequestRouting
