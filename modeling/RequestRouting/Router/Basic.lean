import RequestRouting.Table.Basic
import RequestRouting.Text.Quoted

/-!
Routers.

A router is a route table whose handlers are actions, which are called with the parameters of the
request, or scripts, which are given back to the caller to run. It also knows what to do with a
request that no route takes. Actions are kept by their names, of a type of the caller's choice;
calling one is the caller's affair too, in a monad of its choice.
-/

namespace RequestRouting

inductive Handler (A : Type) where
  | action (a : A)
  | script (path : String)
deriving DecidableEq, Repr

namespace Handler

variable {A : Type}

def script? : Handler A → Option String
  | action _ => none
  | script path => some path

/-- A handler for reports, where an action cannot be shown. -/
def describe : Handler A → String
  | action _ => "Handler::Direct(..)"
  | script path => "Handler::Script(" ++ Text.quote path ++ ")"

end Handler

/-- What is done with a request that no route takes. -/
inductive Fallback (A : Type) where
  | action (a : A)
  | message (text : String)
deriving DecidableEq, Repr

/-- A fallback for reports. -/
def Fallback.describe {A : Type} : Fallback A → String
  | action _ => "Fallback::Handler(..)"
  | message text => "Fallback::Message(" ++ Text.quote text ++ ")"

/-- What comes of a request. -/
inductive Response (R : Type) where
  /-- An action was called and gave this. -/
  | handled (result : R)
  /-- The script is for the caller to run. -/
  | delegated (script : String) (params : Params)
  | message (text : String)
  | notFound
deriving DecidableEq, Repr

structure Router (A : Type) where
  table : RouteTable (Handler A) := {}
  fallback : Option (Fallback A) := none
deriving DecidableEq, Repr

namespace Router

variable {A : Type}

def setFallback (r : Router A) (fallback : Fallback A) : Router A :=
  { r with fallback := some fallback }

/-- Changes the table. -/
def update {α : Type} (r : Router A)
    (change : RouteTable (Handler A) → RouteTable (Handler A) × α) : Router A × α :=
  let (table, result) := change r.table
  ({ r with table }, result)

/-- Runs changes of the router with more text at the end of the base path, which is put back
afterwards, also if a change fails. -/
def mount {α : Type} (r : Router A) (segment : String) (changes : Router A → Router A × α) :
    Router A × α :=
  let basePath := r.table.basePath
  let (inner, result) := changes { r with table := r.table.setBasePath (basePath ++ segment) }
  ({ inner with table := inner.table.setBasePath basePath }, result)

/-- Serves a request: calls the action of the route that takes it, or that of the fallback, or
gives back what the caller is to do. At most one action is called, and once. -/
def handle {m : Type → Type} [Monad m] {R : Type} (call : A → Params → m R) (r : Router A)
    (method rawPath : String) : m (Response R) :=
  match r.table.dispatch method rawPath with
  | some found =>
    match found.handler with
    | .action a => do return .handled (← call a found.params)
    | .script path => pure (.delegated path found.params)
  | none =>
    match r.fallback with
    | some (.action a) => do return .handled (← call a {})
    | some (.message text) => pure (.message text)
    | none => pure .notFound

end Router

end RequestRouting
