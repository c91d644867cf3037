import RequestRouting.Proofs.Config.Build
import RequestRouting.Proofs.Table.Flattening

/-!
What the types of a configuration have to do with its router.

A pattern asks its types for the tags of its placeholders and for nothing else, so its expression is the same for all
types that agree on those (`AgreeOn.translate_eq`). A table asks its types for nothing but compilations: with types that
compile a pattern alike, a registration does the same and leaves the table with the types that it had
(`registerEach_withTypes`), and so does a row of configured routes (`registerRoutes_withTypes`). What is shown of the
router afterwards asks for no types. So types that no whole pattern uses do not interfere with the others, whatever
stands for them, and of those in use it does not matter how they come by their fragments.
-/

namespace RequestRouting

/-! ## Patterns -/

/-- Whether two registries give the same fragment to each tag that a pattern uses. A tag without an entry is its own
fragment. -/
def TypeRegistry.AgreeOn (pattern : String) (types types' : TypeRegistry) : Prop :=
  ∀ p ∈ placeholders pattern, types.resolve p.tag = types'.resolve p.tag

instance (pattern : String) (types types' : TypeRegistry) :
    Decidable (TypeRegistry.AgreeOn pattern types types') :=
  inferInstanceAs (Decidable (∀ p ∈ placeholders pattern, types.resolve p.tag = types'.resolve p.tag))

theorem Placeholder.group_congr {p : Placeholder} {types types' : TypeRegistry}
    (h : types.resolve p.tag = types'.resolve p.tag) : p.group types = p.group types' := by
  rw [group, group, h]

namespace TypeRegistry.AgreeOn

variable {pattern : String} {types types' : TypeRegistry}

theorem expand_eq (h : AgreeOn pattern types types') {s : Segment} (hs : s ∈ segments pattern) :
    s.expand types = s.expand types' := by
  cases s with
  | char c => rfl
  | hole p =>
    have hp : p ∈ placeholders pattern := List.mem_filterMap.2 ⟨.hole p, hs, rfl⟩
    show (p.group types).toList = (p.group types').toList
    rw [Placeholder.group_congr (h p hp)]

/-- Types that agree on a pattern write the same expression for it. -/
theorem translate_eq (h : AgreeOn pattern types types') :
    translate pattern types = translate pattern types' := by
  have hbody : (segments pattern).flatMap (Segment.expand types) =
      (segments pattern).flatMap (Segment.expand types') :=
    List.flatMap_congr fun s hs => h.expand_eq hs
  rw [translate, translate, hbody]

theorem compile_eq [Regex.ProgramSize] (h : AgreeOn pattern types types') :
    CompiledPattern.compile pattern types = CompiledPattern.compile pattern types' := by
  rw [CompiledPattern.compile, CompiledPattern.compile, h.translate_eq]

end TypeRegistry.AgreeOn

/-! ## Tables -/

namespace RouteTable

variable {H : Type} {t : RouteTable H} {types : TypeRegistry} {pattern : String}

/-- The table with other types for what is compiled from now on. -/
def withTypes (t : RouteTable H) (types : TypeRegistry) : RouteTable H := { t with types }

@[simp]
theorem withTypes_basePath (t : RouteTable H) (types : TypeRegistry) :
    (t.withTypes types).basePath = t.basePath := rfl

theorem share_withTypes [Regex.ProgramSize]
    (h : CompiledPattern.compile pattern t.types = CompiledPattern.compile pattern types) :
    (t.withTypes types).share pattern = t.share pattern := by
  simp only [share, withTypes, h]

theorem withEntries_withTypes (t : RouteTable H) (types : TypeRegistry) (methods : List String)
    (pattern : String) (e : RouteEntry H) (cache : OrderedMap String SharedPattern) :
    (t.withTypes types).withEntries methods pattern e cache =
      (t.withEntries methods pattern e cache).withTypes types := by
  induction methods generalizing t with
  | nil => rfl
  | cons m ms ih => exact ih (t.withEntry (normalizeMethod m) pattern e cache)

theorem registerEach_types [Regex.ProgramSize] (t : RouteTable H) (pattern : String) (handler : H)
    (methods : List String) :
    (registerEach pattern handler methods t).1.types = t.types := by
  cases hshare : t.share (t.basePath ++ pattern) with
  | error e => rw [registerEach_of_refused hshare]
  | ok found => rw [registerEach_of_share hshare, withEntries_types]

/-- A series of registrations does the same with types that compile its whole pattern alike. -/
theorem registerEach_withTypes [Regex.ProgramSize]
    (h : CompiledPattern.compile (t.basePath ++ pattern) t.types =
      CompiledPattern.compile (t.basePath ++ pattern) types) (handler : H) (methods : List String) :
    registerEach pattern handler methods (t.withTypes types) =
      ((registerEach pattern handler methods t).1.withTypes types,
        (registerEach pattern handler methods t).2) := by
  have hsame : (t.withTypes types).share ((t.withTypes types).basePath ++ pattern) =
      t.share (t.basePath ++ pattern) := share_withTypes h
  cases hshare : t.share (t.basePath ++ pattern) with
  | error e => rw [registerEach_of_refused hshare, registerEach_of_refused (hsame.trans hshare)]
  | ok found =>
    rw [registerEach_of_share hshare, registerEach_of_share (hsame.trans hshare),
      withEntries_withTypes, withTypes_basePath]

end RouteTable

/-! ## Routers -/

namespace Router

variable {A : Type}

def withTypes (router : Router A) (types : TypeRegistry) : Router A :=
  { router with table := router.table.withTypes types }

/-- Whether two routers show the same and serve each request alike. -/
structure Alike (router router' : Router A) : Prop where
  basePath : router.table.basePath = router'.table.basePath
  fallback : router.fallback = router'.fallback
  methods : router.table.methods = router'.table.methods
  /-- The entries of a method are the same in the same order: their whole patterns, expressions and handlers. -/
  routes : ∀ method, router.table.routesOf method = router'.table.routesOf method
  dispatch : ∀ method rawPath, router.table.dispatch method rawPath = router'.table.dispatch method rawPath
  /-- Also what is called is the same. -/
  handle : ∀ {m : Type → Type} [Monad m] {R : Type} (call : A → Params → m R) (method rawPath : String),
    router.handle call method rawPath = router'.handle call method rawPath

/-- The types of a table are of no matter to what is shown of it and to requests. -/
theorem alike_withTypes (router : Router A) (types : TypeRegistry) :
    router.Alike (router.withTypes types) where
  basePath := rfl
  fallback := rfl
  methods := rfl
  routes _ := rfl
  dispatch _ _ := rfl
  handle _ _ _ := rfl

end Router

/-! ## Configurations -/

namespace Config

section

variable [Regex.ProgramSize] {A : Type}

/-- Routes are registered alike with types that compile their whole patterns alike. -/
theorem registerRoutes_withTypes {types : TypeRegistry} {rs : List RouteConfig} {t : RouteTable (Handler A)}
    (h : ∀ r ∈ rs, CompiledPattern.compile (t.basePath ++ r.pattern) t.types =
      CompiledPattern.compile (t.basePath ++ r.pattern) types) :
    registerRoutes rs (t.withTypes types) = (registerRoutes rs t).map (·.withTypes types) := by
  induction rs generalizing t with
  | nil => rfl
  | cons r rs ih =>
    obtain ⟨hr, hrs⟩ := List.forall_mem_cons.1 h
    rw [registerRoutes, registerRoutes]
    by_cases hmethods : r.methods.isEmpty
    · rw [if_pos hmethods, if_pos hmethods]
      rfl
    · rw [if_neg hmethods, if_neg hmethods, RouteTable.registerEach_withTypes hr]
      -- The next route finds the base path and the types that this one found.
      have hbase := RouteTable.registerEach_basePath t r.pattern (.script r.script) r.methods
      have htypes := RouteTable.registerEach_types t r.pattern (.script r.script) r.methods
      cases hregister : RouteTable.registerEach r.pattern (.script r.script) r.methods t with
      | mk next outcome =>
        rw [hregister] at hbase htypes
        cases outcome with
        | error e => rfl
        | ok u =>
          apply ih
          rw [hbase, htypes]
          exact hrs

/-- With types that agree on all whole patterns, what is built differs in its types alone. -/
theorem buildRouter_withTypes {c : Config} {types : List (String × String)}
    (h : ∀ r ∈ c.routes, TypeRegistry.AgreeOn (c.routing.basePath ++ r.pattern) c.registry
      ({ c with types } : Config).registry) :
    ({ c with types } : Config).buildRouter = (c.buildRouter : Except Error (Router A)).map
      (·.withTypes ({ c with types } : Config).registry) := by
  have hroutes := registerRoutes_withTypes
    (t := ({ types := c.registry, basePath := c.routing.basePath } : RouteTable (Handler A)))
    fun r hr => (h r hr).compile_eq
  show (registerRoutes c.routes (RouteTable.withTypes { types := c.registry, basePath := c.routing.basePath }
    ({ c with types } : Config).registry) >>= fun table => _) = _
  rw [hroutes, buildRouter]
  cases registerRoutes (A := A) c.routes { types := c.registry, basePath := c.routing.basePath } with
  | ok t => rfl
  | error e => rfl

/-- Types that no whole pattern uses do not interfere, and neither does it matter how the types in use come by their
fragments: if two configurations differ in their types alone, and these agree on the tags in every whole pattern,
then both are refused with one error, or both give routers that show the same and serve each request alike. -/
theorem buildRouter_alike (c : Config) (types : List (String × String)) (A : Type)
    (h : ∀ r ∈ c.routes, TypeRegistry.AgreeOn (c.routing.basePath ++ r.pattern) c.registry
      ({ c with types } : Config).registry) :
    (∃ e, (c.buildRouter : Except Error (Router A)) = .error e ∧
      (({ c with types } : Config).buildRouter : Except Error (Router A)) = .error e) ∨
    ∃ router router' : Router A, c.buildRouter = .ok router ∧
      ({ c with types } : Config).buildRouter = .ok router' ∧ router.Alike router' := by
  have hbuilt := buildRouter_withTypes (A := A) h
  cases hrouter : (c.buildRouter : Except Error (Router A)) with
  | error e =>
    rw [hrouter] at hbuilt
    exact Or.inl ⟨e, rfl, hbuilt⟩
  | ok router =>
    rw [hrouter] at hbuilt
    exact Or.inr ⟨router, _, rfl, hbuilt, router.alike_withTypes _⟩

end

/-- One configuration repeats the fragment of a type and overrides a type that no route uses; the other registers a tag
as itself, and a fragment that cannot be read. The placeholders come up only behind the base path. -/
theorem buildRouter_alike_overridden : ∃ (c : Config) (types : List (String × String))
    (router router' : Router String),
    (∀ r ∈ c.routes, TypeRegistry.AgreeOn (c.routing.basePath ++ r.pattern) c.registry
      ({ c with types } : Config).registry) ∧
    c.registry.agrees ({ c with types } : Config).registry = false ∧
    c.buildRouter = .ok router ∧ ({ c with types } : Config).buildRouter = .ok router' ∧
    ∀ call : String → Params → Id String, router'.handle call "get" "/7/" =
      (.delegated "number" ⟨[("id", "7")]⟩ : Response String) := by
  obtain ⟨c, hc⟩ : ∃ c : Config, c =
    { routing := { basePath := "/[" }
      types := [("h", "x"), ("i", "[0-9]+")]
      routes := [⟨["get", "PUT"], "i:id]", "number"⟩, ⟨["get"], "z:letter]", "letter"⟩] } := ⟨_, rfl⟩
  have hagree : ∀ r ∈ c.routes, TypeRegistry.AgreeOn (c.routing.basePath ++ r.pattern) c.registry
      ({ c with types := [("a", "("), ("z", "z")] } : Config).registry := by
    rw [hc]
    decide +kernel
  have hdiffer : c.registry.agrees ({ c with types := [("a", "("), ("z", "z")] } : Config).registry = false := by
    rw [hc]
    decide +kernel
  have hdispatch : (c.buildRouter : Except Error (Router String)).toOption.bind
      (·.table.dispatch "get" "/7/") =
        some ⟨"GET", "/7", "/[i:id]", .script "number", ⟨[("id", "7")]⟩⟩ := by
    rw [hc]
    decide +kernel
  rcases buildRouter_alike c _ String hagree with ⟨e, he, -⟩ | ⟨router, router', hrouter, hrouter', halike⟩
  · rw [he] at hdispatch
    cases hdispatch
  · refine ⟨c, _, router, router', hagree, hdiffer, hrouter, hrouter', fun call => ?_⟩
    rw [hrouter] at hdispatch
    change router.table.dispatch "get" "/7/" = _ at hdispatch
    rw [← halike.handle, Router.handle, hdispatch]
    rfl

end Config

end RequestRouting
