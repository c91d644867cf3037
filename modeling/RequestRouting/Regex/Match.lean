import RequestRouting.Regex.Expr
import RequestRouting.Regex.Matcher
import RequestRouting.Unicode.Property

/-!
Matching.

An expression has a matcher on every text. Among the matches that start leftmost, the preferred one
is found.
-/

namespace RequestRouting.Regex

namespace Look

def isWord (unicode : Bool) (c : Char) : Bool :=
  if unicode then Unicode.wordCharacter.contains c
  else c.isAlphanum || c == '_'

/-- Whether the condition holds between two characters, either of which may be missing. -/
def holdsBetween (before after : Option Char) : Look → Bool
  | textStart => before.isNone
  | textEnd => after.isNone
  | lineStart => before.isNone || before == some '\n'
  | lineEnd => after.isNone || after == some '\n'
  | crLineStart =>
    before.isNone || before == some '\n' || (before == some '\r' && after != some '\n')
  | crLineEnd =>
    after.isNone || after == some '\r' || (after == some '\n' && before != some '\r')
  | boundary u => before.any (isWord u) != after.any (isWord u)
  | notBoundary u => before.any (isWord u) == after.any (isWord u)
  | wordStart u => !before.any (isWord u) && after.any (isWord u)
  | wordEnd u => before.any (isWord u) && !after.any (isWord u)
  | wordStartHalf u => !before.any (isWord u)
  | wordEndHalf u => !after.any (isWord u)

end Look

/-- What an expression does on a text. -/
def Expr.matcher (text : List Char) : Expr → Matcher
  | .empty => .empty
  | .char set => .char (Positions.marks (fun _ after => after.any set.contains) none text)
  | .look l => .look (Positions.marks (fun before after => l.holdsBetween before after) none text)
  | .group i e => (e.matcher text).group i
  | .seq a b => (a.matcher text).seq (b.matcher text)
  | .alt a b => (a.matcher text).alt (b.matcher text)
  | .rep least most greedy e =>
    (e.matcher text).repeated e.nullable greedy (text.length + 1) least most

/-- A match: where it starts and stops, and what the groups hold that took part. -/
structure Match where
  span : Span
  groups : List (Nat × Span)
deriving DecidableEq, Repr

/-- What a group matched, if it took part. -/
def Match.group? (m : Match) (index : Nat) : Option Span :=
  (m.groups.find? (·.1 == index)).map (·.2)

/-- The leftmost match in a text, and of those the preferred one. -/
def search (e : Expr) (text : List Char) : Option Match :=
  let m := e.matcher text
  let goal := Positions.upTo text.length
  let starts := m.starts goal
  ((List.range (text.length + 1)).find? starts.testBit).bind fun pos =>
    (m.first goal { pos }).map fun t => ⟨⟨pos, t.pos⟩, t.groups⟩

end RequestRouting.Regex
