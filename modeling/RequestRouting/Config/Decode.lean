import RequestRouting.Config.Basic
import RequestRouting.SortedPairs
import RequestRouting.Toml.Value

/-!
Configurations as TOML values.

Fields may be left out where there is a default, and unknown ones do not matter. The fields of a
table are looked at in the order of the document, so that of two errors the earlier one is found.
A structure may also be written as an array of its fields in order; surplus items do not matter.
-/

namespace RequestRouting.Config

open Toml (Value)

/-- What was wanted of a value. -/
inductive Expected where
  | string
  | path
  | sequence
  | map
  | routing
  | route
deriving DecidableEq, Repr

def Expected.describe : Expected → String
  | string => "a string"
  | path => "path string"
  | sequence => "a sequence"
  | map => "a map"
  | routing => "struct RoutingConfig"
  | route => "struct RouteConfig"

/-- What a value is, for a message. -/
def describeValue : Value → String
  | .string s => "string " ++ Text.quote s
  | .integer n => "integer `" ++ toString n ++ "`"
  | .float x => "floating point `" ++ x.text ++ "`"
  | .boolean b => "boolean `" ++ (if b then "true" else "false") ++ "`"
  | .datetime _ => "map"
  | .array _ => "sequence"
  | .table _ => "map"

/-- Why a value is no configuration. -/
inductive DataError where
  | wrongType (found : Value) (expected : Expected)
  | missingField (name : String)
  /-- A route written as an array has so few items. -/
  | tooShort (length : Nat)
deriving Repr

def DataError.message : DataError → String
  | wrongType found expected =>
    "invalid type: " ++ describeValue found ++ ", expected " ++ expected.describe
  | missingField name => "missing field `" ++ name ++ "`"
  | tooShort length =>
    "invalid length " ++ toString length ++ ", expected struct RouteConfig with 3 elements"

/-- The key under which a date or time is found where a map is wanted. -/
def datetimeKey : String := "$__toml_private_datetime"

/-- The entries of a map; a date or time is a map with one entry. -/
def entries? : Value → Option (List (String × Value))
  | .table entries => some entries
  | .datetime text => some [(datetimeKey, .string text)]
  | _ => none

def decodeString (expected : Expected) : Value → Except DataError String
  | .string s => .ok s
  | v => .error (.wrongType v expected)

def decodeStrings : Value → Except DataError (List String)
  | .array items => items.mapM (decodeString .string)
  | v => .error (.wrongType v .sequence)

/-! ## Routing -/

/-- Takes in one entry of the routing table. -/
def routingEntry (c : RoutingConfig) (key : String) (v : Value) :
    Except DataError RoutingConfig := do
  if key = "base_path" then return { c with basePath := ← decodeString .string v }
  else if key = "not_found" then return { c with notFound := some (← decodeString .string v) }
  else return c

/-- The routing fields from an array. -/
def routingItems (items : List Value) : Except DataError RoutingConfig := do
  match items with
  | [] => return {}
  | [b] => return { basePath := ← decodeString .string b }
  | b :: n :: _ =>
    let basePath ← decodeString .string b
    let notFound ← decodeString .string n
    return { basePath, notFound := some notFound }

def decodeRouting (v : Value) : Except DataError RoutingConfig :=
  match entries? v, v with
  | some entries, _ => entries.foldlM (fun c e => routingEntry c e.1 e.2) {}
  | none, .array items => routingItems items
  | none, v => .error (.wrongType v .routing)

/-! ## Types -/

def decodeTypes (v : Value) : Except DataError (List (String × String)) :=
  match entries? v with
  | some entries => entries.foldlM (fun types e => do
      return SortedPairs.insert e.1 (← decodeString .string e.2) types) []
  | none => .error (.wrongType v .map)

/-! ## Routes -/

/-- The fields of a route that were found so far. -/
structure RouteFields where
  methods : Option (List String) := none
  pattern : Option String := none
  script : Option String := none

/-- Takes in one entry of a route. -/
def routeEntry (f : RouteFields) (key : String) (v : Value) : Except DataError RouteFields := do
  if key = "methods" then return { f with methods := some (← decodeStrings v) }
  else if key = "pattern" then return { f with pattern := some (← decodeString .string v) }
  else if key = "script" then return { f with script := some (← decodeString .path v) }
  else return f

/-- The route, if no field without a default is missing. -/
def RouteFields.route (f : RouteFields) : Except DataError RouteConfig :=
  match f.pattern, f.script with
  | none, _ => .error (.missingField "pattern")
  | some _, none => .error (.missingField "script")
  | some pattern, some script =>
    .ok { methods := f.methods.getD ["GET"], pattern, script }

/-- The fields of a route from an array. -/
def routeItems (items : List Value) : Except DataError RouteConfig := do
  match items with
  | [] => throw (.tooShort 1)
  | m :: items =>
    let methods ← decodeStrings m
    match items with
    | [] => throw (.tooShort 1)
    | p :: items =>
      let pattern ← decodeString .string p
      match items with
      | [] => throw (.tooShort 2)
      | s :: _ => return { methods, pattern, script := ← decodeString .path s }

def decodeRoute (v : Value) : Except DataError RouteConfig :=
  match entries? v, v with
  | some entries, _ => do
    (← entries.foldlM (fun f e => routeEntry f e.1 e.2) {}).route
  | none, .array items => routeItems items
  | none, v => .error (.wrongType v .route)

def decodeRoutes : Value → Except DataError (List RouteConfig)
  | .array items => items.mapM decodeRoute
  | v => .error (.wrongType v .sequence)

/-! ## The whole -/

/-- Takes in one entry of the document. -/
def entry (c : Config) (key : String) (v : Value) : Except DataError Config := do
  if key = "routing" then return { c with routing := ← decodeRouting v }
  else if key = "types" then return { c with types := ← decodeTypes v }
  else if key = "routes" then return { c with routes := ← decodeRoutes v }
  else return c

/-- The configuration that the entries of a document make. -/
def ofEntries (entries : List (String × Value)) : Except DataError Config :=
  entries.foldlM (fun c e => entry c e.1 e.2) {}

end RequestRouting.Config
