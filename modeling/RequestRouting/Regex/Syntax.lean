import RequestRouting.Regex.Error
import RequestRouting.Unicode.Property

/-!
Expressions as they are written: the tree that reading an expression gives, with flags, escapes
and class operators still in the form in which the author wrote them. A tree may not be nested
deeper than `nestLimit`.
-/

namespace RequestRouting.Regex

/-- A character that stands for itself. `isByte` marks the two-digit hexadecimal form, which means
a byte where Unicode is switched off. -/
structure Literal where
  char : Char
  isByte : Bool := false
deriving DecidableEq, Repr, Inhabited

/-- The classes written with a backslash and one letter. -/
inductive ShortClass where
  | digit
  | space
  | word
deriving DecidableEq, Repr

/-- The classes written between colons inside a bracketed class. -/
inductive NamedClass where
  | alnum | alpha | ascii | blank | cntrl | digit | graph | lower | print | punct | space | upper
  | word | xdigit
deriving DecidableEq, Repr

def NamedClass.ofName? : String → Option NamedClass
  | "alnum" => some alnum
  | "alpha" => some alpha
  | "ascii" => some ascii
  | "blank" => some blank
  | "cntrl" => some cntrl
  | "digit" => some digit
  | "graph" => some graph
  | "lower" => some lower
  | "print" => some print
  | "punct" => some punct
  | "space" => some space
  | "upper" => some upper
  | "word" => some word
  | "xdigit" => some xdigit
  | _ => none

/-- The code points of a named class, all below 128. -/
def NamedClass.set : NamedClass → CharSet
  | alnum => CharSet.ofRanges [(48, 57), (65, 90), (97, 122)]
  | alpha => CharSet.ofRanges [(65, 90), (97, 122)]
  | ascii => CharSet.ofRanges [(0, 127)]
  | blank => CharSet.ofRanges [(9, 9), (32, 32)]
  | cntrl => CharSet.ofRanges [(0, 31), (127, 127)]
  | digit => CharSet.ofRanges [(48, 57)]
  | graph => CharSet.ofRanges [(33, 126)]
  | lower => CharSet.ofRanges [(97, 122)]
  | print => CharSet.ofRanges [(32, 126)]
  | punct => CharSet.ofRanges [(33, 47), (58, 64), (91, 96), (123, 126)]
  | space => CharSet.ofRanges [(9, 13), (32, 32)]
  | upper => CharSet.ofRanges [(65, 90)]
  | word => CharSet.ofRanges [(48, 57), (65, 90), (95, 95), (97, 122)]
  | xdigit => CharSet.ofRanges [(48, 57), (65, 70), (97, 102)]

/-- The operators between the two halves of a bracketed class. -/
inductive SetOperator where
  | intersection
  | difference
  | symmetricDifference
deriving DecidableEq, Repr

/-- The inside of a bracketed class. -/
inductive SetSyntax where
  | empty
  | literal (l : Literal)
  | range (first last : Literal)
  | named (kind : NamedClass) (negated : Bool)
  | short (kind : ShortClass) (negated : Bool)
  | property (query : Unicode.PropertyQuery) (negated : Bool)
  | bracketed (negated : Bool) (inner : SetSyntax)
  | union (left right : SetSyntax)
  | combine (op : SetOperator) (left right : SetSyntax)
deriving DecidableEq, Repr, Inhabited

/-- Adds an item to the items read so far. -/
def SetSyntax.push (items item : SetSyntax) : SetSyntax :=
  match items with
  | .empty => item
  | _ => .union items item

def SetSyntax.isUnion : SetSyntax → Bool
  | .union _ _ => true
  | _ => false

/-- How deep the inside of a class is nested. Several items next to each other are one node, however
many they are. -/
def SetSyntax.depth : SetSyntax → Nat
  | .empty | .literal _ | .range _ _ | .named _ _ | .short _ _ | .property _ _ => 0
  | .bracketed _ inner => inner.depth + 1
  | .union left right =>
    max (if left.isUnion then left.depth else left.depth + 1) (right.depth + 1)
  | .combine _ left right => max left.depth right.depth + 1

inductive Flag where
  | caseInsensitive
  | multiLine
  | dotMatchesLineEnd
  | swapGreed
  | unicode
  | carriageReturn
  | verbose
deriving DecidableEq, Repr

/-- Flags switched on, and flags switched off after a hyphen. -/
structure FlagChange where
  on : List Flag := []
  off : List Flag := []
deriving DecidableEq, Repr, Inhabited

/-- What a flag is set to, if it is mentioned. -/
def FlagChange.setting? (ch : FlagChange) (f : Flag) : Option Bool :=
  if ch.on.contains f then some true else if ch.off.contains f then some false else none

/-- Conditions on a position. -/
inductive Assertion where
  | lineStart
  | lineEnd
  | textStart
  | textEnd
  | wordBoundary
  | notWordBoundary
  | wordStart
  | wordEnd
  | wordStartHalf
  | wordEndHalf
deriving DecidableEq, Repr

/-- A group that captures, under its number, or one that only changes flags. -/
inductive GroupKind where
  | capture (index : Nat)
  | plain (flags : FlagChange)
deriving DecidableEq, Repr, Inhabited

inductive Syntax where
  | empty
  | flags (change : FlagChange)
  | literal (l : Literal)
  | anyChar
  | assertion (a : Assertion)
  | short (kind : ShortClass) (negated : Bool)
  | property (query : Unicode.PropertyQuery) (negated : Bool)
  | set (negated : Bool) (inner : SetSyntax)
  | repeated (least : Nat) (most : Option Nat) (greedy : Bool) (inner : Syntax)
  | group (kind : GroupKind) (inner : Syntax)
  | sequence (first second : Syntax)
  | choice (first second : Syntax)
deriving DecidableEq, Repr, Inhabited

namespace Syntax

/-- Items in a row, given last first. -/
def ofItemsRev : List Syntax → Syntax
  | [] => .empty
  | [s] => s
  | s :: rest => .sequence (ofItemsRev rest) s

/-- Alternatives, given last first, the last one being `last`. -/
def ofBranchesRev (last : Syntax) : List Syntax → Syntax
  | [] => last
  | s :: rest => ofBranchesRev (.choice s last) rest

def isSequence : Syntax → Bool
  | .sequence _ _ => true
  | _ => false

def isChoice : Syntax → Bool
  | .choice _ _ => true
  | _ => false

/-- How deep a tree is nested. Items in a row are one node, and so are alternatives, however many
they are. -/
def depth : Syntax → Nat
  | .empty | .flags _ | .literal _ | .anyChar | .assertion _ | .short _ _ | .property _ _ => 0
  | .set _ inner => inner.depth + 1
  | .repeated _ _ _ inner => inner.depth + 1
  | .group _ inner => inner.depth + 1
  | .sequence first second =>
    max (if first.isSequence then first.depth else first.depth + 1) (second.depth + 1)
  | .choice first second =>
    max (first.depth + 1) (if second.isChoice then second.depth else second.depth + 1)

/-- How deep a tree may be nested. -/
def nestLimit : Nat := 250

/-- Refuses a tree that is nested too deep. -/
def checkDepth (s : Syntax) : Except Error Unit :=
  if s.depth ≤ nestLimit then .ok () else .error .nestingTooDeep

end Syntax

end RequestRouting.Regex
