import RequestRouting.Pattern.TypeRegistry

/-!
Route patterns as text with placeholders.

A placeholder is a bracketed type, with a name after a colon if it has one: `[type:name]`. A slash
or dot right before it and a question mark right after it belong to it. A pattern is read from left
to right; a bracket that begins no placeholder is ordinary text. `translate` writes the expression
that a pattern stands for.
-/

namespace RequestRouting

/-- The sign before a placeholder that is left out together with it. -/
inductive Separator where
  | slash
  | dot
deriving DecidableEq, Repr

/-- The separator in an expression; a dot has to be escaped. -/
def Separator.fragment : Separator → String
  | slash => "/"
  | dot => "\\."

structure Placeholder where
  /-- The whole text, separator and question mark included. -/
  text : String
  separator : Option Separator
  tag : String
  /-- The name, unless there is none or it is empty. -/
  name : Option String
  optional : Bool
deriving DecidableEq, Repr

namespace Placeholder

/-- The part of an expression that stands for the placeholder: a group that captures the value, in
a group with the separator. Both are optional if the placeholder is. -/
def group (p : Placeholder) (types : TypeRegistry) : String :=
  let mark := if p.optional then "?" else ""
  "(?:" ++ (p.separator.elim "" Separator.fragment) ++ "(" ++
    (p.name.elim "" fun name => "?P<" ++ name ++ ">") ++ types.resolve p.tag ++ ")" ++ mark ++
    ")" ++ mark

/-- The characters of a tag or name. -/
def isInner (c : Char) : Bool := c != ':' && c != ']'

/-- Tag, name and length of what follows an opening bracket, the closing one included. -/
def inside? (cs : List Char) : Option (List Char × Option (List Char) × Nat) :=
  let tag := cs.takeWhile isInner
  match cs.dropWhile isInner with
  | ']' :: _ => some (tag, none, tag.length + 1)
  | ':' :: r =>
    let name := r.takeWhile isInner
    match r.dropWhile isInner with
    | ']' :: _ => some (tag, some name, tag.length + name.length + 2)
    | _ => none
  | _ => none

/-- The placeholder whose separator, or else whose opening bracket, is the first character. -/
def at? (cs : List Char) : Option Placeholder :=
  let (separator, bracket) := match cs with
    | '/' :: r => (some Separator.slash, r)
    | '.' :: r => (some Separator.dot, r)
    | r => (none, r)
  match bracket with
  | '[' :: r =>
    (inside? r).map fun (tag, name, len) =>
      let optional := (r.drop len).head? == some '?'
      let length := (if separator.isSome then 1 else 0) + 1 + len + (if optional then 1 else 0)
      { text := String.ofList (cs.take length)
        separator
        tag := String.ofList tag
        name := (name.filter (!·.isEmpty)).map String.ofList
        optional }
  | _ => none

end Placeholder

/-- A character of the text, or a placeholder. -/
inductive Segment where
  | char (c : Char)
  | hole (p : Placeholder)
deriving DecidableEq, Repr

namespace Segment

/-- The segments of a pattern; as many characters as the first argument says are passed over, since
they belong to the placeholder before. -/
def scan : Nat → List Char → List Segment
  | _, [] => []
  | k + 1, _ :: r => scan k r
  | 0, c :: r =>
    match Placeholder.at? (c :: r) with
    | some p => hole p :: scan (p.text.length - 1) r
    | none => char c :: scan 0 r

def hole? : Segment → Option Placeholder
  | char _ => none
  | hole p => some p

/-- The part of an expression that a segment stands for. -/
def expand (types : TypeRegistry) : Segment → List Char
  | char c => [c]
  | hole p => (p.group types).toList

end Segment

/-- Text and placeholders of a pattern. -/
def segments (pattern : String) : List Segment := Segment.scan 0 pattern.toList

/-- The placeholders of a pattern, from left to right. -/
def placeholders (pattern : String) : List Placeholder := (segments pattern).filterMap Segment.hole?

/-- The expression of a pattern, between a sign for the start and one for the end. -/
def translate (pattern : String) (types : TypeRegistry) : String :=
  String.ofList ('^' :: (segments pattern).flatMap (Segment.expand types) ++ ['$'])

end RequestRouting
