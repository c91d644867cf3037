import RequestRouting.SortedPairs

/-!
Parameters of a request: what the named placeholders of a pattern matched, in the order in which
the placeholders stand in the pattern.
-/

namespace RequestRouting

/-- Names with values, in order. A placeholder that took no part is not among them. -/
structure Params where
  entries : List (String × String) := []
deriving DecidableEq, Repr, Inhabited

namespace Params

def push (ps : Params) (name value : String) : Params := ⟨ps.entries ++ [(name, value)]⟩

/-- The value of the first entry with a name. -/
def get? (ps : Params) (name : String) : Option String :=
  (ps.entries.find? (·.1 == name)).map (·.2)

def contains (ps : Params) (name : String) : Bool := (ps.get? name).isSome

def size (ps : Params) : Nat := ps.entries.length

def isEmpty (ps : Params) : Bool := ps.entries.isEmpty

def names (ps : Params) : List String := ps.entries.map (·.1)

/-- The parameters for look-up by name, sorted by name; of entries with one name the last
counts. -/
def toMap (ps : Params) : List (String × String) := SortedPairs.ofList ps.entries

end Params

end RequestRouting
