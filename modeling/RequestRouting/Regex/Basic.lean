import RequestRouting.Regex.Match
import RequestRouting.Regex.Parser
import RequestRouting.Regex.Resolve

/-!
Expressions ready for use: reading one, and searching a text with it.

A group that stands in a part repeated at most zero times is gone from the expression; so are its
number, unless a later group is left, and its name.

An expression is refused if it is nested deeper than `Syntax.nestLimit`, or if the program that is
made of it takes more than `sizeLimit`. How much that is depends on how the program is made, so the
size is a parameter (`ProgramSize`).
-/

namespace RequestRouting

/-- An expression that was read from its source. -/
structure Regex where
  source : String
  expr : Regex.Expr
  /-- The named groups from left to right, with their numbers. -/
  names : List (String × Nat)
  /-- The greatest number of a group. -/
  groupCount : Nat
deriving DecidableEq, Repr

namespace Regex

/-- Reads an expression, however big its program is. -/
def read (source : String) : Except Error Regex := do
  let parsed ← Parser.parse source.toList
  parsed.tree.checkDepth
  let expr ← parsed.tree.resolve
  return {
    source, expr
    names := parsed.names.filter fun entry => expr.groups.contains entry.2
    groupCount := expr.groups.foldl max 0 }

/-- How many octets the program of an expression takes. -/
class ProgramSize where
  octets : Regex → Nat

/-- What the states take at least, with 32 octets for each. -/
instance : ProgramSize where
  octets r := 32 * r.expr.leastStates

/-- How many octets a program may take. -/
def sizeLimit : Nat := 10485760

def isTooBig [ProgramSize] (r : Regex) : Bool := sizeLimit < ProgramSize.octets r

/-- Reads an expression and refuses it if its program is too big. -/
def compile [ProgramSize] (source : String) : Except Error Regex := do
  let r ← read source
  if r.isTooBig then .error .programTooBig else .ok r

/-- The leftmost match in a text, the preferred one of those that start there. -/
def find? (r : Regex) (text : String) : Option Match := search r.expr text.toList

def isMatch (r : Regex) (text : String) : Bool := (r.find? text).isSome

/-- Names and texts of the named groups that took part in a match, from left to right. -/
def namedTexts (r : Regex) (m : Match) (text : String) : List (String × String) :=
  r.names.filterMap fun entry =>
    (m.group? entry.2).map fun span => (entry.1, String.ofList (span.slice text.toList))

end Regex

end RequestRouting
