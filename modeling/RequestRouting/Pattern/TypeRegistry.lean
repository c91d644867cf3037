import RequestRouting.OrderedMap

/-!
Placeholder types: which fragment of an expression a tag stands for. A tag that is not registered
stands for itself.
-/

namespace RequestRouting

/-- Tags with their fragments. -/
structure TypeRegistry where
  fragments : OrderedMap String String
deriving DecidableEq, Repr

namespace TypeRegistry

/-- The tags that every registry starts with. The empty tag is that of a placeholder without a
type. -/
def builtinTypes : List (String × String) :=
  [("i", "[0-9]+"), ("a", "[0-9A-Za-z]+"), ("h", "[0-9A-Fa-f]+"), ("*", ".+?"), ("**", ".+"),
   ("", "[^/\\.]+")]

def builtin : TypeRegistry := ⟨⟨builtinTypes⟩⟩

def get? (r : TypeRegistry) (tag : String) : Option String := r.fragments.get? tag

def contains (r : TypeRegistry) (tag : String) : Bool := r.fragments.contains tag

/-- Adds or overrides a tag. -/
def insert (r : TypeRegistry) (tag fragment : String) : TypeRegistry :=
  ⟨r.fragments.insert tag fragment⟩

def insertAll (r : TypeRegistry) (types : List (String × String)) : TypeRegistry :=
  ⟨r.fragments.insertAll types⟩

/-- The fragment of a tag, or the tag itself. -/
def resolve (r : TypeRegistry) (tag : String) : String := (r.get? tag).getD tag

/-- Whether two registries hold the same tags with the same fragments, in whatever order. -/
def agrees (r s : TypeRegistry) : Bool :=
  (r.fragments.keys ++ s.fragments.keys).all fun tag => r.get? tag == s.get? tag

end TypeRegistry

end RequestRouting
