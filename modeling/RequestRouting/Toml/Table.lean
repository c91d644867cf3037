import RequestRouting.Toml.Value

/-!
Tables of a document while it is read.

A table that a longer key calls for exists before it is defined; such a table is implied, and a
header may still define it once. A table that a dotted key calls for may be added to by dotted keys
only. An entry of a table is never replaced.
-/

namespace RequestRouting.Toml

/-- An entry of a table that is being read: a value that is complete, a table, or the tables of
headers with doubled brackets. -/
inductive Node where
  | leaf (v : Value)
  | table (implied dotted : Bool) (entries : List (String × Node))
  | series (tables : List (List (String × Node)))

/-- A table that is being read. `implied` and `dotted` say that no header has defined it, and that
a dotted key has called for it. -/
structure OpenTable where
  implied : Bool := false
  dotted : Bool := false
  entries : List (String × Node) := []

namespace OpenTable

def get? (t : OpenTable) (key : String) : Option Node :=
  (t.entries.find? (·.1 == key)).map (·.2)

def node (t : OpenTable) : Node := .table t.implied t.dotted t.entries

/-- Adds an entry, or puts another node in the place of one. -/
def set (t : OpenTable) (key : String) (n : Node) : OpenTable :=
  if t.entries.any (·.1 == key) then
    { t with entries := t.entries.map fun e => if e.1 == key then (key, n) else e }
  else { t with entries := t.entries ++ [(key, n)] }

def erase (t : OpenTable) (key : String) : OpenTable :=
  { t with entries := t.entries.filter (·.1 != key) }

/-- Changes the table at the end of a path, which is made if it is not there, and gives a result
with it. The last of the tables in a series is the one meant. On the way of a dotted key there are
implied tables only. -/
def change {α : Type} (dotted : Bool) (f : OpenTable → Option (OpenTable × α)) :
    List String → OpenTable → Option (OpenTable × α)
  | [], t => f t
  | key :: path, t => do
    match t.get? key with
    | none =>
      let (inner, a) ← change dotted f path { implied := true, dotted }
      return (t.set key inner.node, a)
    | some (.leaf _) => none
    | some (.table implied isDotted entries) =>
      if dotted && !implied then none
      else
        let (inner, a) ← change dotted f path { implied, dotted := isDotted, entries }
        return (t.set key inner.node, a)
    | some (.series tables) =>
      match tables.getLast? with
      | none => none
      | some entries =>
        let (inner, a) ← change dotted f path { entries }
        return (t.set key (.series (tables.dropLast ++ [inner.entries])), a)

/-- Changes the table at the end of a path. -/
def update (dotted : Bool) (path : List String) (t : OpenTable)
    (f : OpenTable → Option OpenTable) : Option OpenTable :=
  (t.change dotted (fun inner => (f inner).map fun changed => (changed, ())) path).map (·.1)

/-- Adds the value of a key, whose last part is given apart. -/
def addValue (t : OpenTable) (path : List String) (key : String) (v : Value) : Option OpenTable :=
  t.update true path fun inner =>
    if inner.dotted == path.isEmpty || (inner.get? key).isSome then none
    else some (inner.set key (.leaf v))

end OpenTable

mutual

/-- The value of a node. -/
def Node.value : Node → Value
  | .leaf v => v
  | .table _ _ entries => .table (entryValues entries)
  | .series tables => .array (seriesValues tables)

/-- The values of the entries of a table. -/
def entryValues : List (String × Node) → List (String × Value)
  | [] => []
  | (key, n) :: rest => (key, n.value) :: entryValues rest

/-- The tables of a series. -/
def seriesValues : List (List (String × Node)) → List Value
  | [] => []
  | entries :: rest => .table (entryValues entries) :: seriesValues rest

end

theorem entryValues_eq_map (entries : List (String × Node)) :
    entryValues entries = entries.map fun e => (e.1, e.2.value) := by
  induction entries with
  | nil => rfl
  | cons e rest ih =>
    rw [entryValues, ih]
    rfl

theorem seriesValues_eq_map (tables : List (List (String × Node))) :
    seriesValues tables = tables.map fun entries => .table (entryValues entries) := by
  induction tables with
  | nil => rfl
  | cons entries rest ih =>
    rw [seriesValues, ih]
    rfl

/-- The document so far: the root, the table that the last header opened, and its path. A path that
is empty means that there was no header yet. -/
structure Document where
  root : OpenTable := {}
  current : OpenTable := {}
  path : List String := []
  inSeries : Bool := false

namespace Document

/-- Puts the open table in its place. -/
def close (d : Document) : Option OpenTable :=
  match d.path.getLast? with
  | none => some d.current
  | some key =>
    d.root.update false d.path.dropLast fun parent =>
      if d.inSeries then
        match parent.get? key with
        | some (.series tables) => some (parent.set key (.series (tables ++ [d.current.entries])))
        | _ => none
      else some (parent.set key d.current.node)

/-- Opens the table of a header. A table that was only implied so far is taken out of its place and
defined now; any other must be new. -/
def openTable (d : Document) (path : List String) (key : String) : Option Document := do
  let root ← d.close
  let (root, current) ← root.change false (fun parent =>
    match parent.get? key with
    | none => some (parent, {})
    | some (.table true false entries) => some (parent.erase key, { entries })
    | some _ => none) path
  return { root, current, path := path ++ [key] }

/-- Opens a new table of the series of a header with doubled brackets. -/
def openSeries (d : Document) (path : List String) (key : String) : Option Document := do
  let root ← d.close
  let root ← root.update false path fun parent =>
    match parent.get? key with
    | none => some (parent.set key (.series []))
    | some (.series _) => some parent
    | some _ => none
  return { root, path := path ++ [key], inSeries := true }

/-- Adds the value of a key to the open table. -/
def addValue (d : Document) (path : List String) (key : String) (v : Value) : Option Document := do
  return { d with current := ← d.current.addValue path key v }

/-- The whole document as a table. -/
def value? (d : Document) : Option Value := d.close.map fun root => root.node.value

end Document

end RequestRouting.Toml
