import RequestRouting.Error
import RequestRouting.Params
import RequestRouting.Pattern.Template
import RequestRouting.Regex.Basic

/-!
Compiled patterns: matching a path against one, and the parameters that it takes from the path.
-/

namespace RequestRouting

/-- A pattern with its expression. -/
structure CompiledPattern where
  pattern : String
  regex : Regex
deriving DecidableEq, Repr

namespace CompiledPattern

/-- Compiles a pattern with the given placeholder types. -/
def compile [Regex.ProgramSize] (pattern : String) (types : TypeRegistry) : Except Error CompiledPattern :=
  match Regex.compile (translate pattern types) with
  | .ok regex => .ok ⟨pattern, regex⟩
  | .error reason => .error (.invalidPattern pattern reason)

/-- The text of the expression. -/
def expression (c : CompiledPattern) : String := c.regex.source

/-- The names of the named groups, from left to right. -/
def paramNames (c : CompiledPattern) : List String := c.regex.names.map (·.1)

def isMatch (c : CompiledPattern) (path : String) : Bool := c.regex.isMatch path

/-- The parameters that a path gives, if it matches. Groups that took no part are left out. -/
def captures (c : CompiledPattern) (path : String) : Option Params :=
  (c.regex.find? path).map fun m => ⟨c.regex.namedTexts m path⟩

end CompiledPattern

end RequestRouting
