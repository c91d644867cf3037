import RequestRouting.Regex.Loop
import RequestRouting.Regex.Positions

/-!
Matchers: what an expression does on a text.

A matcher knows from where a match can end in a set of positions, and it finds the preferred way to
do so. Since a sequence asks its first part to end where its second part can start, the preferred
way is found without ever going back. Only a loop whose body can match the empty text lists all its
threads, since there the ways that come back to where they were must be left out.
-/

namespace RequestRouting.Regex

/-- What an expression does on a text. -/
structure Matcher where
  /-- The positions from which a match can end in the set. -/
  starts : Positions → Positions
  /-- The preferred thread that ends in the set. -/
  first : Positions → Thread → Option Thread
  /-- The threads that leave the expression, preferred ones first, one for each position. -/
  all : Place → Thread → List Thread

namespace Matcher

open Thread (distinct)

/-- A thread that stands in a set. -/
def ending (goal : Positions) (t : Thread) : Option Thread :=
  if goal.testBit t.pos then some t else none

/-- Matches the empty text. -/
def empty : Matcher where
  starts goal := goal
  first goal t := ending goal t
  all _ t := [t]

/-- Takes the character after a marked position. -/
def char (marks : Positions) : Matcher where
  starts goal := marks &&& (goal >>> 1)
  first goal t := if marks.testBit t.pos then ending goal t.advance else none
  all _ t := if marks.testBit t.pos then [t.advance] else []

/-- Matches the empty text at marked positions. -/
def look (marks : Positions) : Matcher where
  starts goal := marks &&& goal
  first goal t := if marks.testBit t.pos then ending goal t else none
  all _ t := if marks.testBit t.pos then [t] else []

/-- Records what is matched under the number of a group. -/
def group (index : Nat) (m : Matcher) : Matcher where
  starts := m.starts
  first goal t := (m.first goal t).map (·.record index t.pos)
  all p t := (m.all p t).map (·.record index t.pos)

/-- One after the other. -/
def seq (a b : Matcher) : Matcher where
  starts goal := a.starts (b.starts goal)
  first goal t := (a.first (b.starts goal) t).bind (b.first goal)
  all p t := distinct ((a.all (p.part 0) t).flatMap (b.all (p.part 1)))

/-- One or the other, the first one preferred. -/
def alt (a b : Matcher) : Matcher where
  starts goal := a.starts goal ||| b.starts goal
  first goal t := (a.first goal t).or (b.first goal t)
  all p t :=
    match t.pass? p with
    | none => []
    | some t => distinct (a.all (p.part 0) t ++ b.all (p.part 1) t)

/-! ## Repetition -/

/-- Matches or does not. -/
def optional (greedy : Bool) (m : Matcher) : Matcher := if greedy then m.alt empty else empty.alt m

/-- So many times, and then the rest. -/
def times (m rest : Matcher) : Nat → Matcher
  | 0 => rest
  | n + 1 => m.seq (times m rest n)

/-- At most so many times. -/
def upTo (greedy : Bool) (m : Matcher) : Nat → Matcher
  | 0 => empty
  | n + 1 => (m.seq (upTo greedy m n)).optional greedy

/-- Takes turns as long as they are preferred. -/
def takeTurns (greedy : Bool) (goal : Positions) (turn : Thread → Option Thread) :
    Nat → Thread → Option Thread
  | 0, t => ending goal t
  | fuel + 1, t =>
    if greedy then
      match turn t with
      | some t => takeTurns greedy goal turn fuel t
      | none => ending goal t
    else
      match ending goal t with
      | some t => some t
      | none => (turn t).bind (takeTurns greedy goal turn fuel)

/-- Any number of times; the number of positions of the text is the fuel. -/
def star (greedy : Bool) (fuel : Nat) (m : Matcher) : Matcher where
  starts goal := Positions.closure m.starts fuel goal goal
  first goal t :=
    takeTurns greedy goal (m.first (Positions.closure m.starts fuel goal goal)) fuel t
  all p t := runTurns greedy (p.part 1) (m.all (p.part 0)) fuel t

/-- So many times at least, and at most so many times if there is a bound. -/
def repeated (nullable greedy : Bool) (fuel least : Nat) (most : Option Nat) (m : Matcher) :
    Matcher :=
  let all (p : Place) (t : Thread) := runRepeated nullable greedy m.all fuel p t least most
  match most with
  | some most => { m.times (m.upTo greedy (most - least)) least with all }
  | none =>
    let whole := m.times (m.star greedy fuel) least
    if nullable then
      { whole with all, first := fun goal t => (all none t).find? fun u => goal.testBit u.pos }
    else { whole with all }

end Matcher

end RequestRouting.Regex
