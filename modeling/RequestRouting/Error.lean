import RequestRouting.Regex.Error

/-!
Errors of building routes, and their wording.
-/

namespace RequestRouting

/-- Why routes cannot be built. -/
inductive Error where
  /-- The expression of a pattern is refused. -/
  | invalidPattern (pattern : String) (reason : Regex.Error)
  /-- A configured route names no method. -/
  | noMethods (pattern : String)
deriving DecidableEq, Repr

def Error.message : Error → String
  | invalidPattern pattern reason => "invalid route pattern `" ++ pattern ++ "`: " ++ reason.message
  | noMethods pattern =>
    "invalid router configuration: route `" ++ pattern ++ "` has an empty method list"

end RequestRouting
