/-!
Reading UTF-8.

The reader goes byte by byte. A part that is not well formed is reported once for the longest start
of a character in it, and reading goes on with the byte after that start.
-/

namespace RequestRouting.Text

/-- The bytes of a text. -/
def utf8 (cs : List Char) : List UInt8 := cs.flatMap String.utf8EncodeChar

/-- What is expected next inside a character: how many bytes, the bounds of the next one, and the
value so far. -/
structure Partial where
  missing : Nat
  lo : UInt8
  hi : UInt8
  value : Nat
deriving DecidableEq, Repr

/-- What a byte gives at the start of a character: the character, the start of one, or neither. -/
inductive Lead where
  | char (c : Char)
  | more (p : Partial)
  | invalid
deriving DecidableEq, Repr

def Lead.ofByte (b : UInt8) : Lead :=
  if b < 0x80 then .char (Char.ofNat b.toNat)
  else if b < 0xC2 then .invalid
  else if b < 0xE0 then .more ⟨1, 0x80, 0xBF, b.toNat - 0xC0⟩
  else if b = 0xE0 then .more ⟨2, 0xA0, 0xBF, 0⟩
  else if b = 0xED then .more ⟨2, 0x80, 0x9F, 13⟩
  else if b < 0xF0 then .more ⟨2, 0x80, 0xBF, b.toNat - 0xE0⟩
  else if b = 0xF0 then .more ⟨3, 0x90, 0xBF, 0⟩
  else if b < 0xF4 then .more ⟨3, 0x80, 0xBF, b.toNat - 0xF0⟩
  else if b = 0xF4 then .more ⟨3, 0x80, 0x8F, 4⟩
  else .invalid

/-- The characters that bytes write; none for each part that is not well formed. The first argument
says what is missing of a character that was started. -/
def utf8CharsFrom : Option Partial → List UInt8 → List (Option Char)
  | none, [] => []
  | some _, [] => [none]
  | none, b :: bs =>
    match Lead.ofByte b with
    | .char c => some c :: utf8CharsFrom none bs
    | .more p => utf8CharsFrom (some p) bs
    | .invalid => none :: utf8CharsFrom none bs
  | some p, b :: bs =>
    if p.lo ≤ b ∧ b ≤ p.hi then
      let value := 64 * p.value + (b.toNat - 0x80)
      if p.missing ≤ 1 then some (Char.ofNat value) :: utf8CharsFrom none bs
      else utf8CharsFrom (some ⟨p.missing - 1, 0x80, 0xBF, value⟩) bs
    else
      match Lead.ofByte b with
      | .char c => none :: some c :: utf8CharsFrom none bs
      | .more q => none :: utf8CharsFrom (some q) bs
      | .invalid => none :: none :: utf8CharsFrom none bs

def utf8Chars (bs : List UInt8) : List (Option Char) := utf8CharsFrom none bs

/-- The text with the replacement character for each part that is not well formed. -/
def ofUtf8Lossy (bs : List UInt8) : List Char :=
  (utf8Chars bs).map fun c => c.getD '\uFFFD'

/-- The text, if all of it is well formed. -/
def ofUtf8? (bs : List UInt8) : Option (List Char) := (utf8Chars bs).mapM id

end RequestRouting.Text
