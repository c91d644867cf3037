import RequestRouting.Text.Numeral
import RequestRouting.Toml.Value

/-!
Reading strings, numbers, dates and times of a TOML document.

Every reader gives the value and the text after it, or nothing if the text does not begin with what
it reads.
-/

namespace RequestRouting.Toml

open Text (hexDigit? isHexDigit scalar? valueOf)

/-! ## Blanks and line ends -/

def isSpace (c : Char) : Bool := c == ' ' || c == '\t'

/-- A tab, or a character that is no control character. -/
def isText (c : Char) : Bool := c == '\t' || (32 ≤ c.toNat && c.toNat != 127)

def skipSpaces (cs : List Char) : List Char := cs.dropWhile isSpace

/-- The text after a line end. -/
def newline? : List Char → Option (List Char)
  | '\n' :: r => some r
  | '\r' :: '\n' :: r => some r
  | _ => none

/-- Drops spaces and line ends. -/
def skipBlankLines : List Char → List Char
  | [] => []
  | '\r' :: '\n' :: r => skipBlankLines r
  | c :: r => if isSpace c || c == '\n' then skipBlankLines r else c :: r

/-- The text after a comment, from its sign on. -/
def skipComment (cs : List Char) : List Char := cs.dropWhile isText

/-! ## Strings -/

/-- The character of an escape, and how many characters stand for it after the backslash. -/
def escape? : List Char → Option (Char × Nat)
  | 'b' :: _ => some ('\x08', 1)
  | 'f' :: _ => some ('\x0c', 1)
  | 'n' :: _ => some ('\n', 1)
  | 'r' :: _ => some ('\r', 1)
  | 't' :: _ => some ('\t', 1)
  | '\\' :: _ => some ('\\', 1)
  | '"' :: _ => some ('"', 1)
  | 'u' :: r => code 4 r
  | 'U' :: r => code 8 r
  | _ => none
where
  /-- A code of so many hexadecimal digits. -/
  code (digits : Nat) (r : List Char) : Option (Char × Nat) :=
    let ds := r.take digits
    if ds.length = digits ∧ ds.all isHexDigit then
      (scalar? (valueOf 16 ds)).map fun c => (c, digits + 1)
    else none

/-- Puts a character in front of what was read. -/
def consRead (c : Char) (r : Option (List Char × List Char)) : Option (List Char × List Char) :=
  r.map fun p => (c :: p.1, p.2)

/-- The rest of a string in double quotes. The first argument counts the characters that belong to
an escape that was read. -/
def basicString : Nat → List Char → Option (List Char × List Char)
  | _, [] => none
  | k + 1, _ :: r => basicString k r
  | 0, c :: r =>
    if c = '"' then some ([], r)
    else if c = '\\' then
      match escape? r with
      | some (d, len) => consRead d (basicString len r)
      | none => none
    else if isText c then consRead c (basicString 0 r)
    else none

/-- The rest of a string in single quotes. -/
def literalString : List Char → Option (List Char × List Char)
  | [] => none
  | c :: r =>
    if c = '\'' then some ([], r)
    else if isText c then consRead c (literalString r)
    else none

/-- How many quotes the text begins with, at most five. Three of them close a string of many lines,
and up to two before those belong to it. -/
def quoteRun (quote : Char) (cs : List Char) : Nat := ((cs.take 5).takeWhile (· == quote)).length

/-- How many characters an escaped line end takes after its backslash, blanks and line ends after
it included. -/
def escapedLineEnd? (r : List Char) : Option Nat :=
  match newline? (skipSpaces r) with
  | some rest => some (r.length - (skipBlankLines rest).length)
  | none => none

/-- The rest of a string of many lines, up to three quotes. Escapes are read where they mean
something. The first argument counts the characters that were dealt with. -/
def longString (quote : Char) (escapes : Bool) : Nat → List Char → Option (List Char × List Char)
  | _, [] => none
  | k + 1, _ :: r => longString quote escapes k r
  | 0, c :: r =>
    if c = quote then
      let run := quoteRun quote (c :: r)
      if 3 ≤ run then some (List.replicate (run - 3) quote, (c :: r).drop run)
      else consRead c (longString quote escapes 0 r)
    else if escapes && c = '\\' then
      match escapedLineEnd? r with
      | some len => longString quote escapes len r
      | none =>
        match escape? r with
        | some (d, len) => consRead d (longString quote escapes len r)
        | none => none
    else if c = '\n' then consRead c (longString quote escapes 0 r)
    else if c = '\r' then
      match r with
      | '\n' :: _ => longString quote escapes 0 r
      | _ => none
    else if isText c then consRead c (longString quote escapes 0 r)
    else none

/-- A line end right after the opening quotes does not count. -/
def longStringBody (quote : Char) (escapes : Bool) (cs : List Char) :
    Option (List Char × List Char) :=
  longString quote escapes 0 ((newline? cs).getD cs)

/-- A string of any kind. -/
def string? : List Char → Option (List Char × List Char)
  | '"' :: '"' :: '"' :: r => longStringBody '"' true r
  | '"' :: r => basicString 0 r
  | '\'' :: '\'' :: '\'' :: r => longStringBody '\'' false r
  | '\'' :: r => literalString r
  | _ => none

/-! ## Numbers -/

/-- More digits; one underscore may stand between two. -/
def moreDigits (isDigit : Char → Bool) : List Char → Option (List Char × List Char)
  | '_' :: c :: r => if isDigit c then consRead c (moreDigits isDigit r) else none
  | ['_'] => none
  | c :: r => if isDigit c then consRead c (moreDigits isDigit r) else some ([], c :: r)
  | [] => some ([], [])

/-- Digits, at least one. -/
def digits? (isDigit : Char → Bool) : List Char → Option (List Char × List Char)
  | c :: r => if isDigit c then consRead c (moreDigits isDigit r) else none
  | [] => none

/-- The digits of a decimal integer: a zero alone, or digits that do not begin with zero. -/
def wholePart? : List Char → Option (List Char × List Char)
  | '0' :: r => some (['0'], r)
  | cs => digits? Char.isDigit cs

/-- A sign, if there is one, and whether it is a minus sign. -/
def sign : List Char → Bool × List Char
  | '+' :: r => (false, r)
  | '-' :: r => (true, r)
  | cs => (false, cs)

def signed (negative : Bool) (n : Nat) : Int := if negative then -(n : Int) else n

/-- The exponent after its letter. -/
def exponent? (cs : List Char) : Option (Int × List Char) := do
  let (negative, cs) := sign cs
  let (ds, rest) ← digits? Char.isDigit cs
  return (signed negative (valueOf 10 ds), rest)

/-- A floating-point number; one too great to be finite is none unless it is negative. -/
def float? (negative : Bool) (digits : List Char) (exponent : Int) (rest : List Char) :
    Option (Value × List Char) :=
  match Binary64.ofDecimal negative (valueOf 10 digits) exponent with
  | .infinite false => none
  | x => some (.float x, rest)

/-- Integers have 64 bits. -/
def leastInteger : Int := -9223372036854775808

def greatestInteger : Int := 9223372036854775807

/-- An integer, if it is in bounds. -/
def integer? (n : Int) (rest : List Char) : Option (Value × List Char) :=
  if leastInteger ≤ n ∧ n ≤ greatestInteger then some (.integer n, rest) else none

/-- A number after its sign. -/
def unsignedNumber? (negative : Bool) (cs : List Char) : Option (Value × List Char) := do
  match cs with
  | 'i' :: 'n' :: 'f' :: rest => return (.float (.infinite negative), rest)
  | 'n' :: 'a' :: 'n' :: rest => return (.float .nan, rest)
  | _ =>
    let (whole, rest) ← wholePart? cs
    match rest with
    | '.' :: r =>
      let (fraction, rest) ← digits? Char.isDigit r
      let places : Int := fraction.length
      match rest with
      | 'e' :: r | 'E' :: r =>
        let (e, rest) ← exponent? r
        float? negative (whole ++ fraction) (e - places) rest
      | rest => float? negative (whole ++ fraction) (-places) rest
    | 'e' :: r | 'E' :: r =>
      let (e, rest) ← exponent? r
      float? negative whole e rest
    | rest => integer? (signed negative (valueOf 10 whole)) rest

/-- An integer in another base, after its mark. -/
def basedInteger? (base : Nat) (cs : List Char) : Option (Value × List Char) := do
  let (ds, rest) ← digits? (fun c => (hexDigit? c.toNat).any (· < base)) cs
  integer? (valueOf base ds) rest

def number? : List Char → Option (Value × List Char)
  | '0' :: 'x' :: r => basedInteger? 16 r
  | '0' :: 'o' :: r => basedInteger? 8 r
  | '0' :: 'b' :: r => basedInteger? 2 r
  | cs =>
    let (negative, r) := sign cs
    unsignedNumber? negative r

/-! ## Dates and times -/

/-- Exactly so many digits, and their value. -/
def fixedDigits? (count : Nat) (cs : List Char) : Option (Nat × List Char) :=
  let ds := cs.take count
  if ds.length = count ∧ ds.all Char.isDigit then some (valueOf 10 ds, cs.drop count) else none

/-- Two digits whose value is in bounds. -/
def bounded? (lo hi : Nat) (cs : List Char) : Option (Nat × List Char) :=
  (fixedDigits? 2 cs).filter fun p => lo ≤ p.1 && p.1 ≤ hi

/-- A number with zeros in front of it up to the given width. -/
def padded (width n : Nat) : List Char :=
  let ds := Nat.toDigits 10 n
  List.replicate (width - ds.length) '0' ++ ds

def daysIn (year month : Nat) : Nat :=
  if month = 2 then
    if year % 4 = 0 ∧ (year % 100 ≠ 0 ∨ year % 400 = 0) then 29 else 28
  else if month = 4 ∨ month = 6 ∨ month = 9 ∨ month = 11 then 30
  else 31

/-- The rest of a date, after the year and a hyphen. -/
def dateAfterYear? (year : Nat) (cs : List Char) : Option (List Char × List Char) := do
  let (month, cs) ← bounded? 1 12 cs
  match cs with
  | '-' :: cs =>
    let (day, rest) ← bounded? 1 31 cs
    if day ≤ daysIn year month then
      some (padded 4 year ++ '-' :: padded 2 month ++ '-' :: padded 2 day, rest)
    else none
  | _ => none

/-- The places behind the seconds that count: nine at most, and no zeros at the end. -/
def secondPlaces (ds : List Char) : List Char :=
  ((ds.take 9).reverse.dropWhile (· == '0')).reverse

/-- The rest of a time, after the hour and a colon. -/
def timeAfterHour? (hour : Nat) (cs : List Char) : Option (List Char × List Char) := do
  let (minute, cs) ← bounded? 0 59 cs
  match cs with
  | ':' :: cs =>
    let (second, cs) ← bounded? 0 60 cs
    let text := padded 2 hour ++ ':' :: padded 2 minute ++ ':' :: padded 2 second
    match cs with
    | '.' :: c :: r =>
      if c.isDigit then
        let places := secondPlaces ((c :: r).takeWhile Char.isDigit)
        let behind := if places.isEmpty then [] else '.' :: places
        some (text ++ behind, (c :: r).dropWhile Char.isDigit)
      else some (text, '.' :: c :: r)
    | cs => some (text, cs)
  | _ => none

/-- The offset of a time, after its sign. -/
def offsetAfterSign? (negative : Bool) (cs : List Char) : Option (List Char × List Char) := do
  let (hour, cs) ← bounded? 0 23 cs
  match cs with
  | ':' :: cs =>
    let (minute, rest) ← bounded? 0 59 cs
    let mark := if negative && (hour != 0 || minute != 0) then '-' else '+'
    some (mark :: padded 2 hour ++ ':' :: padded 2 minute, rest)
  | _ => none

/-- The hour that a time begins with, and the text after the colon behind it. -/
def hour? (cs : List Char) : Option (Nat × List Char) :=
  match bounded? 0 23 cs with
  | some (hour, ':' :: r) => some (hour, r)
  | _ => none

/-- What may follow a date: a time, and then an offset. -/
def timeAfterDate? (date : List Char) (cs : List Char) : Option (List Char × List Char) := do
  let dateAlone : Option (List Char × List Char) := some (date, cs)
  match cs with
  | c :: r =>
    if c = 'T' ∨ c = 't' ∨ c = ' ' then
      match hour? r with
      | none => dateAlone
      | some (hour, r) =>
        let (time, cs) ← timeAfterHour? hour r
        let text := date ++ 'T' :: time
        match cs with
        | 'Z' :: rest | 'z' :: rest => some (text ++ ['Z'], rest)
        | '+' :: r =>
          let (offset, rest) ← offsetAfterSign? false r
          some (text ++ offset, rest)
        | '-' :: r =>
          let (offset, rest) ← offsetAfterSign? true r
          some (text ++ offset, rest)
        | cs => some (text, cs)
    else dateAlone
  | [] => dateAlone

/-- A date or time. The outer option says whether the text is meant as one. -/
def datetime? (cs : List Char) : Option (Option (List Char × List Char)) :=
  match fixedDigits? 4 cs with
  | some (year, '-' :: r) =>
    some (do
      let (date, rest) ← dateAfterYear? year r
      timeAfterDate? date rest)
  | _ => (hour? cs).map fun (hour, r) => timeAfterHour? hour r

end RequestRouting.Toml
