import RequestRouting.Config.Basic
import RequestRouting.Proofs.Table.Series

/-!
The router of a configuration.

A configured route is refused if it names no method, and else if its whole pattern does not compile
(`RouteConfig.Refused`); whether it is refused depends on the route alone, and not on those before it. So the
routes of a configuration are registered up to the first that is refused, and if there is none then the router
answers as the list of its scripts tells (`Config.respond`).
-/

namespace RequestRouting

/-! ## Histories with other handlers -/

section

variable {H K : Type} (f : H → K)

def Registration.map (r : Registration H) : Registration K := ⟨r.method, r.pattern, f r.handler⟩

def RouteMatch.map (found : RouteMatch H) : RouteMatch K :=
  ⟨found.method, found.path, found.pattern, f found.handler, found.params⟩

namespace History

variable (log : History H)

theorem pairs_map : pairs (log.map (Registration.map f)) = pairs log := by
  rw [pairs, List.map_map]
  rfl

theorem patterns_map (method : String) :
    patterns (log.map (Registration.map f)) method = patterns log method := by
  rw [patterns, List.filter_map, List.map_map]
  rfl

theorem handler?_map (method pattern : String) :
    handler? (log.map (Registration.map f)) method pattern =
      (handler? log method pattern).map f := by
  rw [handler?, List.filter_map, List.getLast?_map, Option.map_map, handler?, Option.map_map]
  rfl

/-- Which pattern answers does not depend on the handlers. -/
theorem dispatch_map [Regex.ProgramSize] (types : TypeRegistry) (m rawPath : String) :
    dispatch types (log.map (Registration.map f)) m rawPath =
      (dispatch types log m rawPath).map (RouteMatch.map f) := by
  have hserved : served? types (log.map (Registration.map f)) = served? types log := by
    funext method path
    rw [served?, patterns_map, served?]
  rw [dispatch_eq_bind, dispatch_eq_bind, hserved, Option.map_bind]
  congr 1
  funext found
  rw [handler?_map, Option.map_map, Function.comp_apply, Option.map_map]
  rfl

end History

end

/-! ## Routes -/

namespace RouteConfig

variable [Regex.ProgramSize]

/-- Whether a configured route can be registered behind a base path. -/
def Accepted (types : TypeRegistry) (basePath : String) (r : RouteConfig) : Prop :=
  r.methods ≠ [] ∧ ∃ regex, Regex.compile (translate (basePath ++ r.pattern) types) = .ok regex

/-- Why a configured route cannot be registered behind a base path. A list of methods that is empty counts
before a bad pattern. -/
inductive Refused (types : TypeRegistry) (basePath : String) (r : RouteConfig) : Error → Prop
  | noMethods (h : r.methods = []) : Refused types basePath r (.noMethods r.pattern)
  | invalidPattern {reason : Regex.Error} (h : r.methods ≠ [])
    (hregex : Regex.compile (translate (basePath ++ r.pattern) types) = .error reason) :
    Refused types basePath r (.invalidPattern (basePath ++ r.pattern) reason)

/-- The registrations of a configured route behind a base path. -/
def scripts (basePath : String) (r : RouteConfig) : History String :=
  r.methods.map fun m => ⟨normalizeMethod m, basePath ++ r.pattern, r.script⟩

variable {types : TypeRegistry} {basePath : String} {r : RouteConfig}

theorem Accepted.not_refused (h : Accepted types basePath r) {e : Error} :
    ¬Refused types basePath r e := by
  intro hrefused
  obtain ⟨hmethods, regex, hregex⟩ := h
  cases hrefused with
  | noMethods hnil => exact hmethods hnil
  | invalidPattern _ herror =>
    rw [hregex] at herror
    cases herror

theorem accepted_or_refused (types : TypeRegistry) (basePath : String) (r : RouteConfig) :
    Accepted types basePath r ∨ ∃ e, Refused types basePath r e := by
  by_cases hmethods : r.methods = []
  · exact Or.inr ⟨_, .noMethods hmethods⟩
  · cases hregex : Regex.compile (translate (basePath ++ r.pattern) types) with
    | ok regex => exact Or.inl ⟨hmethods, regex, hregex⟩
    | error reason => exact Or.inr ⟨_, .invalidPattern hmethods hregex⟩

theorem exists_refused_iff : (∃ e, Refused types basePath r e) ↔
    r.methods = [] ∨
      ∃ reason, Regex.compile (translate (basePath ++ r.pattern) types) = .error reason := by
  constructor
  · intro ⟨e, hrefused⟩
    cases hrefused with
    | noMethods h => exact Or.inl h
    | invalidPattern h hregex => exact Or.inr ⟨_, hregex⟩
  · intro h
    by_cases hmethods : r.methods = []
    · exact ⟨_, .noMethods hmethods⟩
    · obtain ⟨reason, hregex⟩ := h.resolve_left hmethods
      exact ⟨_, .invalidPattern hmethods hregex⟩

end RouteConfig

theorem CompiledPattern.compile_eq_error_iff [Regex.ProgramSize] {pattern : String}
    {types : TypeRegistry} {e : Error} : compile pattern types = .error e ↔
      ∃ reason, Regex.compile (translate pattern types) = .error reason ∧
        e = .invalidPattern pattern reason := by
  unfold compile
  cases Regex.compile (translate pattern types) with
  | ok regex => simp
  | error reason => simp [eq_comm]

/-- Of some routes all are accepted, or there is a first one that is refused. -/
theorem RouteConfig.first_refused [Regex.ProgramSize] (types : TypeRegistry) (basePath : String)
    (rs : List RouteConfig) : (∀ r ∈ rs, r.Accepted types basePath) ∨
      ∃ before r after e, rs = before ++ r :: after ∧ (∀ r ∈ before, r.Accepted types basePath) ∧
        r.Refused types basePath e := by
  induction rs with
  | nil => exact Or.inl nofun
  | cons r rs ih =>
    rcases accepted_or_refused types basePath r with hr | ⟨e, hrefused⟩
    · rcases ih with hall | ⟨before, r', after, e, rfl, hbefore, hrefused⟩
      · exact Or.inl (List.forall_mem_cons.2 ⟨hr, hall⟩)
      · exact Or.inr ⟨r :: before, r', after, e, rfl, List.forall_mem_cons.2 ⟨hr, hbefore⟩, hrefused⟩
    · exact Or.inr ⟨[], r, rs, e, rfl, nofun, hrefused⟩

/-! ## Configurations -/

namespace Config

section

variable [Regex.ProgramSize] {A : Type} {types : TypeRegistry} {log : History (Handler A)}
  {t : RouteTable (Handler A)}
  {r : RouteConfig} {rs : List RouteConfig}

/-- A route that is refused ends the registration with its error. -/
theorem registerRoutes_of_refused (h : t.Keeps types log) {e : Error}
    (hrefused : r.Refused types t.basePath e) : registerRoutes (r :: rs) t = .error e := by
  rw [registerRoutes]
  cases hrefused with
  | noMethods hnil => rw [hnil, if_pos List.isEmpty_nil]
  | invalidPattern hmethods hregex =>
    have herror : (RouteTable.registerEach r.pattern (.script r.script) r.methods t).2 = .error _ :=
      h.registerEach_eq_error_iff.2
        ⟨hmethods, CompiledPattern.compile_eq_error_iff.2 ⟨_, hregex, rfl⟩⟩
    rw [if_neg (by simpa using hmethods)]
    generalize RouteTable.registerEach r.pattern (.script r.script) r.methods t = result at herror
    obtain ⟨next, outcome⟩ := result
    subst herror
    rfl

/-- A route that is accepted adds its registrations. -/
theorem registerRoutes_of_accepted (h : t.Keeps types log)
    (haccepted : r.Accepted types t.basePath) (rs : List RouteConfig) :
    ∃ next, registerRoutes (r :: rs) t = registerRoutes rs next ∧
      next.Keeps types (log ++ (r.scripts t.basePath).map (.map .script)) ∧
      next.basePath = t.basePath := by
  obtain ⟨hmethods, regex, hregex⟩ := haccepted
  have hok : (RouteTable.registerEach r.pattern (.script r.script) r.methods t).2 = .ok () := by
    cases houtcome : (RouteTable.registerEach r.pattern (.script r.script) r.methods t).2 with
    | ok u => rfl
    | error e =>
      obtain ⟨-, hcompile⟩ := h.registerEach_eq_error_iff.1 houtcome
      obtain ⟨reason, herror, -⟩ := CompiledPattern.compile_eq_error_iff.1 hcompile
      rw [hregex] at herror
      cases herror
  have hkeeps := h.registerEach r.methods r.pattern (.script r.script)
  have hadds := h.registerEach_adds hok
  rw [RouteTable.loggedEach_of_ok hok] at hkeeps
  refine ⟨_, ?_, ?_, hadds.basePath⟩
  · rw [registerRoutes, if_neg (by simpa using hmethods)]
    generalize RouteTable.registerEach r.pattern (.script r.script) r.methods t = result at hok ⊢
    obtain ⟨next, outcome⟩ := result
    subst hok
    rfl
  · rw [RouteConfig.scripts, List.map_map]
    exact hkeeps

theorem registerRoutes_append_of_accepted (h : t.Keeps types log)
    (haccepted : ∀ r ∈ rs, r.Accepted types t.basePath) (after : List RouteConfig) :
    ∃ next, registerRoutes (rs ++ after) t = registerRoutes after next ∧
      next.Keeps types (log ++ (rs.flatMap (·.scripts t.basePath)).map (.map .script)) ∧
      next.basePath = t.basePath := by
  induction rs generalizing log t with
  | nil =>
    refine ⟨t, rfl, ?_, rfl⟩
    rw [List.flatMap_nil, List.map_nil, List.append_nil]
    exact h
  | cons r rs ih =>
    obtain ⟨hr, hrs⟩ := List.forall_mem_cons.1 haccepted
    obtain ⟨next, hnext, hkeeps, hbase⟩ := registerRoutes_of_accepted h hr (rs ++ after)
    rw [← hbase] at hrs
    obtain ⟨last, hlast, hkeeps, hbase'⟩ := ih hkeeps hrs
    refine ⟨last, hnext.trans hlast, ?_, hbase'.trans hbase⟩
    rw [hbase, List.append_assoc, ← List.map_append, ← List.flatMap_cons] at hkeeps
    exact hkeeps

/-- Routes are registered up to the first that is refused. -/
theorem registerRoutes_eq_error_iff (h : t.Keeps types log) {e : Error} :
    registerRoutes rs t = .error e ↔
      ∃ before r after, rs = before ++ r :: after ∧ (∀ r ∈ before, r.Accepted types t.basePath) ∧
        r.Refused types t.basePath e := by
  -- The first route that is refused decides, and `first_refused` says that there is one or none.
  have hstops : ∀ before r after e', rs = before ++ r :: after →
      (∀ r ∈ before, r.Accepted types t.basePath) → r.Refused types t.basePath e' →
      registerRoutes rs t = .error e' := by
    intro before r after e' hrs hbefore hrefused
    obtain ⟨next, hnext, hkeeps, hbase⟩ := registerRoutes_append_of_accepted h hbefore (r :: after)
    rw [← hbase] at hrefused
    rw [hrs, hnext, registerRoutes_of_refused hkeeps hrefused]
  constructor
  · intro herror
    rcases RouteConfig.first_refused types t.basePath rs with hall | hfirst
    · obtain ⟨next, hnext, -, -⟩ := registerRoutes_append_of_accepted h hall []
      rw [List.append_nil, herror] at hnext
      cases hnext
    · obtain ⟨before, r, after, e', hrs, hbefore, hrefused⟩ := hfirst
      rw [hstops before r after e' hrs hbefore hrefused, Except.error.injEq] at herror
      exact ⟨before, r, after, hrs, hbefore, herror ▸ hrefused⟩
  · intro ⟨before, r, after, hrs, hbefore, hrefused⟩
    exact hstops before r after e hrs hbefore hrefused

theorem registerRoutes_eq_ok (h : t.Keeps types log) {t' : RouteTable (Handler A)}
    (hok : registerRoutes rs t = .ok t') :
    t'.Keeps types (log ++ (rs.flatMap (·.scripts t.basePath)).map (.map .script)) ∧
      t'.basePath = t.basePath := by
  rcases RouteConfig.first_refused types t.basePath rs with hall | hfirst
  · obtain ⟨next, hnext, hkeeps, hbase⟩ := registerRoutes_append_of_accepted h hall []
    rw [List.append_nil, hok, registerRoutes, Except.ok.injEq] at hnext
    rw [hnext]
    exact ⟨hkeeps, hbase⟩
  · obtain ⟨before, r, after, e, hparts⟩ := hfirst
    rw [(registerRoutes_eq_error_iff h).2 ⟨before, r, after, hparts⟩] at hok
    cases hok

end

/-! ### The router -/

/-- The configured scripts with their methods and whole patterns, in order. -/
def scripts (c : Config) : History String := c.routes.flatMap (·.scripts c.routing.basePath)

section

variable [Regex.ProgramSize]

/-- The answer of a configuration to a request: the first pattern of the method that takes parameters from the
path, and the last script for it, or else the configured message. -/
def respond {R : Type} (c : Config) (method rawPath : String) : Response R :=
  match History.dispatch c.registry c.scripts method rawPath with
  | some found => .delegated found.handler found.params
  | none =>
    match c.routing.notFound with
    | some text => .message text
    | none => .notFound

variable {A : Type} {c : Config} {router : Router A}

theorem buildRouter_eq_error_iff {e : Error} :
    (c.buildRouter : Except Error (Router A)) = .error e ↔
      registerRoutes (A := A) c.routes { types := c.registry, basePath := c.routing.basePath } =
        .error e := by
  unfold buildRouter
  cases registerRoutes (A := A) c.routes { types := c.registry, basePath := c.routing.basePath } with
  | ok t => exact ⟨nofun, nofun⟩
  | error e' =>
    show Except.error e' = Except.error e ↔ _
    rw [Except.error.injEq, Except.error.injEq]

theorem buildRouter_eq_ok_iff : c.buildRouter = .ok router ↔
    registerRoutes c.routes { types := c.registry, basePath := c.routing.basePath } =
      .ok router.table ∧ router.fallback = c.routing.notFound.map .message := by
  unfold buildRouter
  cases registerRoutes (A := A) c.routes { types := c.registry, basePath := c.routing.basePath } with
  | ok t =>
    obtain ⟨table, fallback⟩ := router
    show Except.ok _ = Except.ok _ ↔ _
    simp [eq_comm]
  | error e' => exact ⟨nofun, nofun⟩

theorem keeps_fresh (c : Config) :
    ({ types := c.registry, basePath := c.routing.basePath } : RouteTable (Handler A)).Keeps
      c.registry [] :=
  (RouteTable.Keeps.fresh c.registry).setBasePath c.routing.basePath

/-- A router that answers by the configured scripts gives the answer of the configuration. -/
theorem handle_eq (hkeeps : router.table.Keeps c.registry (c.scripts.map (.map .script)))
    (hfallback : router.fallback = c.routing.notFound.map .message) {m : Type → Type} [Monad m]
    {R : Type} (call : A → Params → m R) (method rawPath : String) :
    router.handle call method rawPath = pure (c.respond method rawPath) := by
  rw [Router.handle, hkeeps.dispatch_eq, History.dispatch_map, respond, hfallback]
  cases History.dispatch c.registry c.scripts method rawPath with
  | some found => rfl
  | none => cases c.routing.notFound <;> rfl

/-- No router is built just when some route is refused, and the error is that of the first such route. The router
that is built has the configured base path and fallback, as many entries as there are different methods with
a whole pattern, and answers each request as the configuration says, with no action called. -/
theorem buildRouter_serves (c : Config) (A : Type) :
    ((∃ e, (c.buildRouter : Except Error (Router A)) = .error e) ↔
      ∃ r ∈ c.routes, r.methods = [] ∨ ∃ reason,
        Regex.compile (translate (c.routing.basePath ++ r.pattern) c.registry) = .error reason) ∧
    (∀ e, (c.buildRouter : Except Error (Router A)) = .error e ↔
      ∃ before r after, c.routes = before ++ r :: after ∧
        (∀ r ∈ before, r.Accepted c.registry c.routing.basePath) ∧
        r.Refused c.registry c.routing.basePath e) ∧
    ∀ router : Router A, c.buildRouter = .ok router →
      router.table.basePath = c.routing.basePath ∧
      router.fallback = c.routing.notFound.map .message ∧
      router.table.size = (History.pairs c.scripts).length ∧
      ∀ (m : Type → Type) [Monad m] (R : Type) (call : A → Params → m R) (method rawPath : String),
        router.handle call method rawPath = pure (c.respond method rawPath) ∧
        ∀ result : R, c.respond method rawPath ≠ .handled result := by
  have herror : ∀ e, (c.buildRouter : Except Error (Router A)) = .error e ↔
      ∃ before r after, c.routes = before ++ r :: after ∧
        (∀ r ∈ before, r.Accepted c.registry c.routing.basePath) ∧
        r.Refused c.registry c.routing.basePath e := fun e =>
    buildRouter_eq_error_iff.trans (registerRoutes_eq_error_iff c.keeps_fresh)
  refine ⟨⟨?_, ?_⟩, herror, ?_⟩
  · intro ⟨e, he⟩
    obtain ⟨before, r, after, hroutes, -, hrefused⟩ := (herror e).1 he
    refine ⟨r, ?_, RouteConfig.exists_refused_iff.1 ⟨e, hrefused⟩⟩
    rw [hroutes]
    exact List.mem_append_right before List.mem_cons_self
  · intro ⟨r, hr, hbad⟩
    obtain ⟨e, hrefused⟩ := RouteConfig.exists_refused_iff.2 hbad
    rcases RouteConfig.first_refused c.registry c.routing.basePath c.routes with hall | hfirst
    · exact absurd hrefused (hall r hr).not_refused
    · obtain ⟨before, r', after, e', hparts⟩ := hfirst
      exact ⟨e', (herror e').2 ⟨before, r', after, hparts⟩⟩
  · intro router hrouter
    obtain ⟨hroutes, hfallback⟩ := buildRouter_eq_ok_iff.1 hrouter
    obtain ⟨hkeeps, hbase⟩ := registerRoutes_eq_ok c.keeps_fresh hroutes
    refine ⟨hbase, hfallback, ?_, ?_⟩
    · rw [hkeeps.size, List.nil_append, History.pairs_map]
      rfl
    · intro m _ R call method rawPath
      refine ⟨handle_eq hkeeps hfallback call method rawPath, fun result => ?_⟩
      rw [respond]
      cases History.dispatch c.registry c.scripts method rawPath with
      | some found => nofun
      | none => cases c.routing.notFound <;> nofun

end

/-- A configuration with a type of its own, two spellings of a method, and a pattern that comes twice. -/
theorem buildRouter_serves_twice : ∃ (c : Config) (router : Router String),
    c.buildRouter = .ok router ∧ router.table.size = 2 ∧
    ∀ call : String → Params → Id String, router.handle call "get" "/a/b/" =
      (.delegated "second" ⟨[("n", "b")]⟩ : Response String) := by
  obtain ⟨c, hc⟩ : ∃ c : Config, c =
    { routing := { basePath := "/a", notFound := some "nothing here" }
      types := [("b", "[ab]")]
      routes := [⟨["get", "PUT"], "/[b:n]", "first"⟩, ⟨["Get", "GET"], "/[b:n]", "second"⟩] } :=
    ⟨_, rfl⟩
  have hscripts : c.scripts = [⟨"GET", "/a/[b:n]", "first"⟩, ⟨"PUT", "/a/[b:n]", "first"⟩,
      ⟨"GET", "/a/[b:n]", "second"⟩, ⟨"GET", "/a/[b:n]", "second"⟩] := by
    rw [hc]
    decide +kernel
  have hregistry : c.registry = TypeRegistry.builtin.insert "b" "[ab]" := by
    rw [hc]
    rfl
  have hrespond : (c.respond "get" "/a/b/" : Response String) =
      .delegated "second" ⟨[("n", "b")]⟩ := by
    have hdispatch : History.dispatch (TypeRegistry.builtin.insert "b" "[ab]") c.scripts "get"
        "/a/b/" = some ⟨"GET", "/a/b", "/a/[b:n]", "second", ⟨[("n", "b")]⟩⟩ := by
      rw [hscripts]
      decide +kernel
    rw [Config.respond, hregistry, hdispatch]
  have hbuilt : (c.buildRouter : Except Error (Router String)).isOk := by
    rw [hc]
    decide +kernel
  obtain ⟨-, -, hserves⟩ := buildRouter_serves c String
  cases hrouter : (c.buildRouter : Except Error (Router String)) with
  | error e =>
    rw [hrouter] at hbuilt
    cases hbuilt
  | ok router =>
    obtain ⟨-, -, hlength, hhandle⟩ := hserves router hrouter
    refine ⟨c, router, hrouter, ?_, fun call => ?_⟩
    · rw [hlength, hscripts]
      decide
    · obtain ⟨hanswer, -⟩ := hhandle Id String call "get" "/a/b/"
      rw [hrespond] at hanswer
      exact hanswer

end Config

end RequestRouting
