import RequestRouting.Router.Basic

/-!
Configured routers: a base path, placeholder types and routes that lead to scripts.
-/

namespace RequestRouting

/-- What holds for all routes of a configuration. -/
structure RoutingConfig where
  basePath : String := ""
  /-- The answer to a request that no route takes. -/
  notFound : Option String := none
deriving DecidableEq, Repr

structure RouteConfig where
  methods : List String := ["GET"]
  pattern : String
  script : String
deriving DecidableEq, Repr

structure Config where
  routing : RoutingConfig := {}
  /-- Placeholder types besides the built-in ones, sorted by tag. -/
  types : List (String × String) := []
  routes : List RouteConfig := []
deriving DecidableEq, Repr

namespace Config

/-- The built-in placeholder types and those of the configuration. -/
def registry (c : Config) : TypeRegistry := TypeRegistry.builtin.insertAll c.types

/-- Registers configured routes, up to the first that names no method or has a bad pattern. -/
def registerRoutes [Regex.ProgramSize] {A : Type} : List RouteConfig → RouteTable (Handler A) →
    Except Error (RouteTable (Handler A))
  | [], t => .ok t
  | r :: rs, t =>
    if r.methods.isEmpty then .error (.noMethods r.pattern)
    else
      match RouteTable.registerEach r.pattern (.script r.script) r.methods t with
      | (t, .ok ()) => registerRoutes rs t
      | (_, .error e) => .error e

/-- The router of a configuration. -/
def buildRouter [Regex.ProgramSize] {A : Type} (c : Config) : Except Error (Router A) := do
  let table ← registerRoutes c.routes { types := c.registry, basePath := c.routing.basePath }
  return { table, fallback := c.routing.notFound.map .message }

end Config

end RequestRouting
