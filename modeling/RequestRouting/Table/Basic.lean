import RequestRouting.Method
import RequestRouting.OrderedMap
import RequestRouting.Path
import RequestRouting.Pattern.Compiled

/-!
Route tables.

For each method a table keeps its patterns in the order of first registration. A request is given
to the first pattern of its method that matches its path, whatever the patterns look like.
Registering a method and pattern again changes the handler and nothing else.

Every change gives back the table together with its outcome, since a block of registrations that
fails keeps those made before the failure. A registration that fails leaves the table as it was
(`register_of_error`), and a block that is mounted leaves the base path as it was
(`mount_basePath`).
-/

namespace RequestRouting

/-- A compiled pattern with the number of its compilation: patterns with one number are one
compilation that is shared. -/
structure SharedPattern where
  serial : Nat
  compiled : CompiledPattern
deriving DecidableEq, Repr

/-- A registered pattern and its handler. -/
structure RouteEntry (H : Type) where
  shared : SharedPattern
  handler : H
deriving DecidableEq, Repr

namespace RouteEntry

variable {H : Type}

/-- The whole pattern, base path included. -/
def pattern (e : RouteEntry H) : String := e.shared.compiled.pattern

def expression (e : RouteEntry H) : String := e.shared.compiled.expression

end RouteEntry

/-- A request that found its route. -/
structure RouteMatch (H : Type) where
  method : String
  path : String
  pattern : String
  handler : H
  params : Params
deriving DecidableEq, Repr

abbrev Outcome := Except Error Unit

structure RouteTable (H : Type) where
  types : TypeRegistry := TypeRegistry.builtin
  /-- What is put in front of every pattern that is registered. -/
  basePath : String := ""
  /-- The entries of each method under their patterns. -/
  routes : OrderedMap String (OrderedMap String (RouteEntry H)) := {}
  /-- What was compiled so far. -/
  cache : OrderedMap String SharedPattern := {}
deriving DecidableEq, Repr

namespace RouteTable

variable {H : Type}

/-! ## Looking up -/

/-- The entries of a method under their patterns, first registered first. -/
def entries (t : RouteTable H) (method : String) : OrderedMap String (RouteEntry H) :=
  (t.routes.get? (normalizeMethod method)).getD {}

/-- The entries of a method in order of preference. -/
def routesOf (t : RouteTable H) (method : String) : List (RouteEntry H) :=
  (t.entries method).values

def route? (t : RouteTable H) (method pattern : String) : Option (RouteEntry H) :=
  (t.entries method).get? pattern

/-- The methods that have a route, in the order of first registration. -/
def methods (t : RouteTable H) : List String := t.routes.keys

/-- The number of methods and patterns that have a handler. -/
def size (t : RouteTable H) : Nat :=
  t.routes.values.foldr (fun entries n => entries.size + n) 0

def isEmpty (t : RouteTable H) : Bool := t.size == 0

/-- The first route of the method that matches the path of a request. -/
def dispatch (t : RouteTable H) (method rawPath : String) : Option (RouteMatch H) :=
  let path := Path.normalize rawPath
  (t.entries method).toList.findSome? fun (pattern, entry) =>
    (entry.shared.compiled.captures path).map fun params =>
      { method := normalizeMethod method, path, pattern, handler := entry.handler, params }

/-! ## Registering -/

/-- The compilation of a pattern, and the cache with it. -/
def share [Regex.ProgramSize] (t : RouteTable H) (pattern : String) :
    Except Error (SharedPattern × OrderedMap String SharedPattern) :=
  match t.cache.get? pattern with
  | some shared => .ok (shared, t.cache)
  | none =>
    match CompiledPattern.compile pattern t.types with
    | .ok compiled =>
      let shared := ⟨t.cache.size, compiled⟩
      .ok (shared, t.cache.insert pattern shared)
    | .error e => .error e

def setBasePath (t : RouteTable H) (basePath : String) : RouteTable H := { t with basePath }

/-- Registers a handler for a method and the pattern behind the base path. -/
def register [Regex.ProgramSize] (t : RouteTable H) (method pattern : String) (handler : H) :
    RouteTable H × Outcome :=
  let whole := t.basePath ++ pattern
  match t.share whole with
  | .error e => (t, .error e)
  | .ok (shared, cache) =>
    let entries := (t.entries method).insert whole ⟨shared, handler⟩
    ({ t with routes := t.routes.insert (normalizeMethod method) entries, cache }, .ok ())

/-- Registers a handler for one method after the other, up to the first that fails. -/
def registerEach [Regex.ProgramSize] (pattern : String) (handler : H) :
    List String → RouteTable H → RouteTable H × Outcome
  | [], t => (t, .ok ())
  | m :: ms, t =>
    match t.register m pattern handler with
    | (t, .ok ()) => registerEach pattern handler ms t
    | (t, .error e) => (t, .error e)

/-- Registers a handler for all standard methods. -/
def registerAny [Regex.ProgramSize] (t : RouteTable H) (pattern : String) (handler : H) :
    RouteTable H × Outcome :=
  registerEach pattern handler standardMethods t

/-- Runs changes with more text at the end of the base path, which is put back afterwards, also if
a change fails. -/
def mount {α : Type} (t : RouteTable H) (segment : String)
    (changes : RouteTable H → RouteTable H × α) : RouteTable H × α :=
  let (inner, result) := changes (t.setBasePath (t.basePath ++ segment))
  (inner.setBasePath t.basePath, result)

@[simp]
theorem setBasePath_basePath (t : RouteTable H) (basePath : String) :
    (t.setBasePath basePath).basePath = basePath := rfl

@[simp]
theorem mount_basePath {α : Type} (t : RouteTable H) (segment : String)
    (changes : RouteTable H → RouteTable H × α) :
    (t.mount segment changes).1.basePath = t.basePath := rfl

theorem register_of_error [Regex.ProgramSize] {t : RouteTable H} {pattern : String} {e : Error}
    (h : t.share (t.basePath ++ pattern) = .error e) (method : String) (handler : H) :
    t.register method pattern handler = (t, .error e) := by
  simp [register, h]

end RouteTable

end RequestRouting
