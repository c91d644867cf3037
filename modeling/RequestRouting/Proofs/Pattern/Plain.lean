import RequestRouting.Pattern.Compiled
import RequestRouting.Proofs.Regex.Reading

/-!
Plain patterns, and the paths that they are meant for.

The text of a plain pattern stands for itself, and each of its placeholders takes a run of characters of
a builtin type or one of some words. `Fits` says what paths such a pattern is meant for, with no word on
expressions: its texts and placeholders one after the other, where an optional placeholder may lack its
value, or its value and separator.
-/

namespace RequestRouting

open Regex.Parser (isIdentifier isMeta)

/-- The builtin types, all of which take characters of one kind, one or more. -/
inductive Run where
  | digits
  | alphanumeric
  | hexadecimal
  | shortest
  | longest
  | part
deriving DecidableEq, Repr

namespace Run

def tag : Run → String
  | digits => "i"
  | alphanumeric => "a"
  | hexadecimal => "h"
  | shortest => "*"
  | longest => "**"
  | part => ""

def fragment : Run → String
  | digits => "[0-9]+"
  | alphanumeric => "[0-9A-Za-z]+"
  | hexadecimal => "[0-9A-Fa-f]+"
  | shortest => ".+?"
  | longest => ".+"
  | part => "[^/\\.]+"

/-- Whether a character may stand in a value. -/
def takes : Run → Char → Bool
  | digits, c => c.isDigit
  | alphanumeric, c => c.isAlphanum
  | hexadecimal, c => c.isDigit || ('A' ≤ c && c ≤ 'F') || ('a' ≤ c && c ≤ 'f')
  | shortest, c => c != '\n'
  | longest, c => c != '\n'
  | part, c => c != '/' && c != '.'

end Run

/-- What a placeholder takes: a run of characters, or one of some words. -/
inductive Kind where
  | run (r : Run)
  | words (ws : List (List Char))
deriving DecidableEq, Repr

namespace Kind

/-- Whether a tag stands for the kind: it is builtin with its builtin fragment, or its fragment is
a row of words of ASCII letters and digits. -/
def Of (types : TypeRegistry) (tag : String) : Kind → Prop
  | run r => tag = r.tag ∧ types.resolve tag = r.fragment
  | words ws => ws ≠ [] ∧ (∀ w ∈ ws, w ≠ [] ∧ ∀ c ∈ w, c.isAlphanum) ∧
      types.resolve tag = String.ofList (['|'].intercalate ws)

/-- Whether a text may be the value. -/
def Takes : Kind → List Char → Prop
  | run r, v => v ≠ [] ∧ ∀ c ∈ v, r.takes c
  | words ws, v => v ∈ ws

end Kind

/-- A character that stands for itself, or a placeholder and what it takes. -/
inductive Piece where
  | lit (c : Char)
  | hole (p : Placeholder) (k : Kind)
deriving DecidableEq, Repr

/-- The name of a placeholder, if it is one and has one. -/
def Piece.name? : Piece → Option String
  | lit _ => none
  | hole p _ => p.name

/-- Whether a backslash before the character makes it plain text. -/
def isEscapedSign (c : Char) : Bool := "\\.+*?()|\x7b\x7d^$".toList.contains c

/-- What the segments of a plain pattern stand for. -/
inductive Reads (types : TypeRegistry) : List Segment → List Piece → Prop
  | nil : Reads types [] []
  | char {c segs ps} : isMeta c = false → Reads types segs ps →
      Reads types (.char c :: segs) (.lit c :: ps)
  | escape {c segs ps} : isEscapedSign c → Reads types segs ps →
      Reads types (.char '\\' :: .char c :: segs) (.lit c :: ps)
  | hole {p k segs ps} : k.Of types p.tag → Reads types segs ps →
      Reads types (.hole p :: segs) (.hole p k :: ps)

/-- A plain pattern with its pieces. -/
structure Plain (types : TypeRegistry) (pattern : String) (ps : List Piece) : Prop where
  reads : Reads types (segments pattern) ps
  identifiers : ∀ name ∈ ps.filterMap Piece.name?, isIdentifier name.toList
  nodup : (ps.filterMap Piece.name?).Nodup

/-! ## Paths -/

def Separator.char : Separator → Char
  | slash => '/'
  | dot => '.'

namespace Placeholder

/-- The separator as text. -/
def lead (p : Placeholder) : List Char := (p.separator.map Separator.char).toList

/-- Whether a placeholder may stand for a text, and with what value. -/
inductive Fits (p : Placeholder) (k : Kind) : List Char → Option (List Char) → Prop
  | value {v} : k.Takes v → Fits p k (p.lead ++ v) (some v)
  | bare : p.optional → Fits p k p.lead none
  | absent : p.optional → Fits p k [] none

end Placeholder

/-- Whether a path is made of texts for the pieces, with the values of the placeholders in order. -/
inductive Fits : List Piece → List Char → List (Option (List Char)) → Prop
  | nil : Fits [] [] []
  | lit {c ps path vs} : Fits ps path vs → Fits (.lit c :: ps) (c :: path) vs
  | hole {p k ps text v path vs} : p.Fits k text v → Fits ps path vs →
      Fits (.hole p k :: ps) (text ++ path) (v :: vs)

/-- The values under the names of their placeholders. -/
def named : List Piece → List (Option (List Char)) → List (String × String)
  | .lit _ :: ps, vs => named ps vs
  | .hole p _ :: ps, v :: vs =>
    (p.name.bind fun name => v.map fun v => (name, String.ofList v)).toList ++ named ps vs
  | _, _ => []

end RequestRouting
