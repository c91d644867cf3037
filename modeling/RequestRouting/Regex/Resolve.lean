import RequestRouting.Regex.Error
import RequestRouting.Regex.Expr
import RequestRouting.Regex.Syntax
import RequestRouting.Unicode.CaseFolding

/-!
From an expression as it is written to the one that is matched.

Flags are carried from left to right: a change of flags holds for what follows it in the same
group, later alternatives included. Where Unicode is switched off, classes are sets of bytes, and
a class with a byte above 127 is refused, since it could match a part of a character.
-/

namespace RequestRouting.Regex

/-- The flags in force. -/
structure Flags where
  caseInsensitive : Bool := false
  multiLine : Bool := false
  dotMatchesLineEnd : Bool := false
  swapGreed : Bool := false
  unicode : Bool := true
  carriageReturn : Bool := false
deriving DecidableEq, Repr

/-- The flags after a change. -/
def Flags.change (f : Flags) (ch : FlagChange) : Flags where
  caseInsensitive := (ch.setting? .caseInsensitive).getD f.caseInsensitive
  multiLine := (ch.setting? .multiLine).getD f.multiLine
  dotMatchesLineEnd := (ch.setting? .dotMatchesLineEnd).getD f.dotMatchesLineEnd
  swapGreed := (ch.setting? .swapGreed).getD f.swapGreed
  unicode := (ch.setting? .unicode).getD f.unicode
  carriageReturn := (ch.setting? .carriageReturn).getD f.carriageReturn

/-- The greatest member that a class can have. -/
def Flags.top (f : Flags) : Nat := if f.unicode then CharSet.top else 0xFF

/-- The set closed under case, if case does not count. -/
def Flags.fold (f : Flags) (s : CharSet) : CharSet :=
  if f.caseInsensitive then
    if f.unicode then Unicode.foldCase s else Unicode.foldCaseAscii s
  else s

def Flags.negate (f : Flags) (negated : Bool) (s : CharSet) : CharSet :=
  if negated then s.complement f.top else s

/-- Refuses a set of bytes with a member that is no character. -/
def Flags.checkBytes (f : Flags) (s : CharSet) : Except Error CharSet :=
  if f.unicode || s.isBelow 0x7F then .ok s else .error .matchesInvalidUtf8

/-- The character of a literal, unless it means a byte that is no character. -/
def Literal.scalar (l : Literal) (f : Flags) : Except Error Char :=
  if !f.unicode && l.isByte && 0x7F < l.char.toNat then .error .matchesInvalidUtf8
  else .ok l.char

/-- A literal as a member of a class. -/
def Literal.member (l : Literal) (f : Flags) : Except Error Nat := do
  let c ← l.scalar f
  if f.unicode || c.toNat < 128 then return c.toNat else throw .unicodeNotAllowed

/-- The characters of a class written with a backslash and one letter. -/
def ShortClass.resolve (kind : ShortClass) (negated : Bool) (f : Flags) : Except Error CharSet :=
  let set :=
    match kind, f.unicode with
    | .digit, true => Unicode.decimalDigit
    | .space, true => Unicode.whiteSpace
    | .word, true => Unicode.wordCharacter
    | .digit, false => NamedClass.digit.set
    | .space, false => NamedClass.space.set
    | .word, false => NamedClass.word.set
  f.checkBytes (f.negate negated set)

/-- The characters with a property. -/
def resolveProperty (query : Unicode.PropertyQuery) (negated : Bool) (f : Flags) :
    Except Error CharSet :=
  if !f.unicode then .error .unicodeNotAllowed
  else match query.find with
    | .ok s => .ok (f.negate negated (f.fold s))
    | .error .unknownProperty => .error .propertyUnknown
    | .error .unknownValue => .error .propertyValueUnknown

/-- Applies an operator between two halves of a class. -/
def SetOperator.apply (op : SetOperator) (s t : CharSet) : CharSet :=
  match op with
  | .intersection => s.inter t
  | .difference => s.diff t
  | .symmetricDifference => s.symmDiff t

/-- The characters of a bracketed class. -/
def SetSyntax.resolve (f : Flags) : SetSyntax → Except Error CharSet
  | .empty => .ok CharSet.empty
  | .literal l => return CharSet.single (← l.member f)
  | .range first last => return ⟨[(← first.member f, ← last.member f)]⟩
  | .named kind negated => f.checkBytes (f.negate negated (f.fold kind.set))
  | .short kind negated => kind.resolve negated f
  | .property query negated => resolveProperty query negated f
  | .bracketed negated inner => do
    f.checkBytes (f.negate negated (f.fold (← inner.resolve f)))
  | .union left right => do
    let s ← left.resolve f
    let t ← right.resolve f
    return s.union t
  | .combine op left right => do
    let s ← left.resolve f
    let t ← right.resolve f
    return op.apply (f.fold s) (f.fold t)

/-- The condition on a position that an assertion stands for. -/
def Assertion.resolve (a : Assertion) (f : Flags) : Look :=
  match a with
  | .lineStart =>
    if f.multiLine then if f.carriageReturn then .crLineStart else .lineStart else .textStart
  | .lineEnd =>
    if f.multiLine then if f.carriageReturn then .crLineEnd else .lineEnd else .textEnd
  | .textStart => .textStart
  | .textEnd => .textEnd
  | .wordBoundary => .boundary f.unicode
  | .notWordBoundary => .notBoundary f.unicode
  | .wordStart => .wordStart f.unicode
  | .wordEnd => .wordEnd f.unicode
  | .wordStartHalf => .wordStartHalf f.unicode
  | .wordEndHalf => .wordEndHalf f.unicode

/-- The characters that a dot matches: all but line ends, or all. -/
def Flags.anyChar (f : Flags) : Except Error CharSet :=
  if !f.unicode then .error .matchesInvalidUtf8
  else if f.dotMatchesLineEnd then .ok ⟨[(0, CharSet.top)]⟩
  else if f.carriageReturn then .ok ((CharSet.ofRanges [(10, 10), (13, 13)]).complement CharSet.top)
  else .ok ((CharSet.single 10).complement CharSet.top)

namespace Syntax

/-- One expression for the alternatives of an alternation. -/
def unite : List Expr → Expr
  | [e] => e
  | es => .choice es

/-- The alternatives to match, only one unless the whole is an alternation, and the flags in force
after them. -/
def resolveBranches (f : Flags) : Syntax → Except Error (List Expr × Flags)
  | .empty => .ok ([.empty], f)
  | .flags ch => .ok ([.empty], f.change ch)
  | .literal l => do
    let c ← l.scalar f
    return ([.char (f.fold (CharSet.single c.toNat))], f)
  | .anyChar => do return ([.char (← f.anyChar)], f)
  | .assertion a => .ok ([.look (a.resolve f)], f)
  | .short kind negated => do return ([.char (← kind.resolve negated f)], f)
  | .property query negated => do return ([.char (← resolveProperty query negated f)], f)
  | .set negated inner => do
    return ([.char (← f.checkBytes (f.negate negated (f.fold (← inner.resolve f))))], f)
  | .repeated least most greedy inner => do
    let (es, f) ← inner.resolveBranches f
    return ([.repeated least most (greedy != f.swapGreed) (unite es)], f)
  | .group (.capture i) inner => do
    let (es, _) ← inner.resolveBranches f
    return ([.group i (unite es)], f)
  | .group (.plain ch) inner => do
    let (es, _) ← inner.resolveBranches (f.change ch)
    return ([unite es], f)
  | .sequence first second => do
    let (as, f) ← first.resolveBranches f
    let (bs, f) ← second.resolveBranches f
    return ([.seq (unite as) (unite bs)], f)
  | .choice first second => do
    let (as, f) ← first.resolveBranches f
    let (bs, f) ← second.resolveBranches f
    return (unite as :: bs, f)

/-- The expression to match. -/
def resolve (s : Syntax) : Except Error Expr := do
  let (es, _) ← s.resolveBranches {}
  return unite es

end Syntax

end RequestRouting.Regex
