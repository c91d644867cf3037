import RequestRouting.OrderedMap
import RequestRouting.Params

/-!
Actions that answer with a text: one that lists the parameters it is called with, and one that
counts how often it was called.
-/

namespace RequestRouting

/-- A counter is known by its serial number; whoever holds the same number shares the count. -/
inductive Responder where
  | echo (tag : String)
  | counter (serial : Nat) (tag : String)
deriving DecidableEq, Repr

/-- How often each counter was called. -/
abbrev CallCounts := OrderedMap Nat Nat

namespace Responder

/-- The tag with the parameters in parentheses. -/
def echoText (tag : String) (ps : Params) : String :=
  tag ++ "(" ++ String.intercalate "," (ps.entries.map fun e => e.1 ++ "=" ++ e.2) ++ ")"

/-- The tag with the number of the call, the first being one. -/
def countText (tag : String) (n : Nat) : String := tag ++ "#" ++ String.ofList (Nat.toDigits 10 n)

/-- Calls an action. -/
def call : Responder → Params → StateM CallCounts String
  | echo tag, ps => pure (echoText tag ps)
  | counter serial tag, _ => fun counts =>
    let n := (counts.get? serial).getD 0 + 1
    (countText tag n, counts.insert serial n)

end Responder

end RequestRouting
