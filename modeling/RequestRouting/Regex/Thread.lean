/-!
Threads.

A thread is one way of having matched so far: where it stands, what its groups hold, and which
choices it has passed since its last character. Of several threads at one position, the first is
preferred: what the others can still do, it can do too.
-/

namespace RequestRouting.Regex

/-- From where to where a group matched. -/
structure Span where
  start : Nat
  stop : Nat
deriving DecidableEq, Repr

/-- The part of a text that a span covers. -/
def Span.slice (s : Span) (text : List Char) : List Char :=
  (text.drop s.start).take (s.stop - s.start)

/-- The place of a choice in an expression, or none where choices are not noted. -/
abbrev Place := Option (List Nat)

/-- The place of a part. -/
def Place.part (p : Place) (k : Nat) : Place := p.map (k :: ·)

structure Thread where
  pos : Nat
  groups : List (Nat × Span) := []
  passed : List (List Nat) := []
deriving DecidableEq, Repr

namespace Thread

/-- Moves over a character. -/
def advance (t : Thread) : Thread := { t with pos := t.pos + 1, passed := [] }

/-- Notes what a group matched, in place of what it matched before. -/
def record (t : Thread) (index start : Nat) : Thread :=
  { t with groups := (index, ⟨start, t.pos⟩) :: t.groups.filter (·.1 != index) }

/-- Passes a choice, if it may. -/
def pass? (t : Thread) : Place → Option Thread
  | none => some t
  | some p => if p ∈ t.passed then none else some { t with passed := p :: t.passed }

/-- The threads whose position is not in the set of positions and is new in the list. -/
def distinctFrom : Nat → List Thread → List Thread
  | _, [] => []
  | seen, t :: ts =>
    if seen.testBit t.pos then distinctFrom seen ts
    else t :: distinctFrom (seen ||| 1 <<< t.pos) ts

/-- The first thread at each position. -/
def distinct : List Thread → List Thread
  | [] => []
  | [t] => [t]
  | ts => distinctFrom 0 ts

end Thread

end RequestRouting.Regex
