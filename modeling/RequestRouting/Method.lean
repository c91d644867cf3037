/-!
Request methods. They are compared without regard to the case of ASCII letters, and kept in capital
letters.
-/

namespace RequestRouting

/-- The methods that have names of their own. -/
inductive Verb where
  | get | post | put | patch | delete | options
deriving DecidableEq, Repr

namespace Verb

def method : Verb → String
  | get => "GET"
  | post => "POST"
  | put => "PUT"
  | patch => "PATCH"
  | delete => "DELETE"
  | options => "OPTIONS"

def all : List Verb := [get, post, put, patch, delete, options]

end Verb

/-- The methods of a route that is open to all of them. -/
def standardMethods : List String := Verb.all.map Verb.method

/-- A method in capital letters. -/
def normalizeMethod (method : String) : String := method.map Char.toUpper

end RequestRouting
