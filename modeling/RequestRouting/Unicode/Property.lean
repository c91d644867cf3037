import RequestRouting.Unicode.Category
import RequestRouting.Unicode.Script

/-!
Character properties by name.

A property is asked for by one name (a binary property, a general category or a script) or by a
property name and a value. Names are compared loosely: case, blanks, hyphens and underscores do
not count, nor does a leading `is`.
-/

namespace RequestRouting.Unicode

/-! ## Binary properties -/

/-- Skip and take counts of the alphabetic characters that are neither letters nor letter
numbers. -/
def otherAlphabeticTable : List String := [
  "837 1 29 13 576 14 1 1 1 2 1 2 1 1 72 11 48 13 1 7 16 1 101 7 4 4 2 2 4 1 35 1 30 16",
  "102 11 101 2 3 9 1 3 1 4 106 1 60 12 3 7 6 20 54 2 2 15 1 2 5 3 10 2 29 3 58 7 2 2 2 2",
  "10 1 10 2 29 3 58 5 4 2 2 2 4 1 30 2 3 1 11 3 58 8 1 3 1 2 21 2 22 3 4 3 58 7 2 2 2 2",
  "9 2 10 2 30 1 59 5 3 3 1 3 10 1 40 5 57 7 1 3 1 3 8 2 11 2 29 3 58 7 1 3 1 3 8 2 11 2",
  "15 1 12 4 58 7 1 3 1 3 10 1 10 2 29 3 75 6 1 1 1 8 18 2 61 1 2 7 18 1 99 1 2 6 1 2 16 1",
  "163 19 9 11 1 36 110 12 1 1 2 4 23 4 4 3 1 3 2 7 3 4 13 12 1 1 10 4 1652 2 30 2 30 2",
  "30 2 66 19 188 2 34 1 118 12 4 9 222 5 57 10 2 20 74 2 11 3 49 5 48 15 60 3 30 9 2 2",
  "57 11 50 19 412 34 1729 52 2294 32 30836 8 34 2 354 1 8 1 23 5 88 2 50 16 1 1 57 1 38 5",
  "28 12 45 4 48 12 37 1 67 14 12 1 8 2 45 3 50 1 1 3 2 2 5 1 44 5 5 1 237 8 20275 1 2135 5",
  "1670 3 1 2 5 4 788 4 65 1 321 2 77 3 259 3 53 14 45 2 11 3 45 9 9 1 61 3 36 12 18 2 57 3",
  "48 13 14 2 92 9 2 1 6 1 2 1 157 10 23 4 58 7 2 2 2 2 10 1 10 2 84 9 1 1 2 1 1 4 1 2",
  "103 13 1 3 106 18 237 7 2 7 29 2 82 15 1 1 106 11 103 14 257 13 247 6 1 2 2 2 3 1 1 1",
  "142 7 2 6 4 1 28 10 42 5 1 4 18 11 46 14 200 8 199 8 1 7 83 22 1 14 122 6 3 1 1 2 1 3",
  "1 1 3 1 66 5 1 2 1 4 348 4 9 2 1 1 48 7 3 3 16861 17 3616 1 1 55 7 4 93 2 19628 1 9057 7",
  "1 17 2 7 1 2 1 5 100 1 1619 1 2 1 7 2 5 1 593 1 2024 26 6 26 6 26"]

/-- Skip and take counts of the small characters that are not small letters. -/
def otherLowercaseTable : List String := [
  "170 1 15 1 501 9 7 2 30 5 96 1 52 1 3457 1 3119 63 13 1 34 37 689 1 13 1 16 13 211 16",
  "848 26 1938 2 31262 2 210 1 128 4 3 2 866 4 9 1 23574 1 2 3 1 42 1 9 55413 62"]

/-- Skip and take counts of the capital characters that are not capital letters. -/
def otherUppercaseTable : List String := [
  "8544 16 838 26 117856 26 6 26 6 26"]

/-- Skip and take counts of the characters that extend a grapheme without being nonspacing or
enclosing marks. -/
def otherGraphemeExtendTable : List String := [
  "2494 1 24 1 358 1 24 1 102 1 24 1 232 1 1 1 4 2 1 2 9 2 103 1 24 1 119 1 15 1 2357 1",
  "30 1 1024 1 5 1 1 1 5 2 101 1 71 2 1048 1 4129 2 31011 1 108 1 21981 2 4640 1 116 1",
  "264 1 14 1 9 1 96 1 9 1 2 1 1 3 5 1 224 1 12 1 241 1 262 1 633 1 12 1 1539 1 20654 2",
  "24947 2 6 6 798381 96"]

def letters : List Category :=
  [.uppercaseLetter, .lowercaseLetter, .titlecaseLetter, .modifierLetter, .otherLetter]

def marks : List Category := [.nonspacingMark, .spacingMark, .enclosingMark]

def numerals : List Category := [.decimalNumber, .letterNumber, .otherNumber]

def alphabetic : CharSet :=
  (Category.setOf (.letterNumber :: letters)).union (CharSet.ofTable otherAlphabeticTable)

def lowercase : CharSet :=
  (Category.set .lowercaseLetter).union (CharSet.ofTable otherLowercaseTable)

def uppercase : CharSet :=
  (Category.set .uppercaseLetter).union (CharSet.ofTable otherUppercaseTable)

def graphemeExtend : CharSet :=
  (Category.setOf [.nonspacingMark, .enclosingMark]).union
    (CharSet.ofTable otherGraphemeExtendTable)

def whiteSpace : CharSet :=
  CharSet.ofRanges [(9, 13), (32, 32), (133, 133), (160, 160), (5760, 5760), (8192, 8202),
    (8232, 8233), (8239, 8239), (8287, 8287), (12288, 12288)]

def decimalDigit : CharSet := Category.set .decimalNumber

/-- The characters of words: alphabetic characters, marks, decimal digits, connectors and the two
joiners. -/
def wordCharacter : CharSet :=
  ((alphabetic.union (Category.setOf (.decimalNumber :: .connectorPunctuation :: marks))).insert
    0x200C 0x200D)

/-- The numerals of all kinds. -/
def numeric : CharSet := Category.setOf numerals

/-- A letter in the sense of the alphabetic property. -/
def isAlphabetic (c : Char) : Bool :=
  if c.toNat < 128 then c.isAlpha else alphabetic.contains c

/-- A letter or a numeral of any kind. -/
def isAlphanumeric (c : Char) : Bool :=
  if c.toNat < 128 then c.isAlphanum else alphabetic.contains c || numeric.contains c

/-- White space of any kind, line ends included. -/
def isBlank (c : Char) : Bool := whiteSpace.contains c

/-! ## Look-up by name -/

/-- Names and categories of the general categories and of their groups. -/
def categoryNames : List (List String × List Category) := [
  (["lu", "uppercaseletter"], [.uppercaseLetter]),
  (["ll", "lowercaseletter"], [.lowercaseLetter]),
  (["lt", "titlecaseletter"], [.titlecaseLetter]),
  (["lc", "casedletter"], [.uppercaseLetter, .lowercaseLetter, .titlecaseLetter]),
  (["lm", "modifierletter"], [.modifierLetter]),
  (["lo", "otherletter"], [.otherLetter]),
  (["l", "letter"], letters),
  (["mn", "nonspacingmark"], [.nonspacingMark]),
  (["mc", "spacingmark"], [.spacingMark]),
  (["me", "enclosingmark"], [.enclosingMark]),
  (["m", "mark", "combiningmark"], marks),
  (["nd", "decimalnumber", "digit"], [.decimalNumber]),
  (["nl", "letternumber"], [.letterNumber]),
  (["no", "othernumber"], [.otherNumber]),
  (["n", "number"], numerals),
  (["pc", "connectorpunctuation"], [.connectorPunctuation]),
  (["pd", "dashpunctuation"], [.dashPunctuation]),
  (["ps", "openpunctuation"], [.openPunctuation]),
  (["pe", "closepunctuation"], [.closePunctuation]),
  (["pi", "initialpunctuation"], [.initialPunctuation]),
  (["pf", "finalpunctuation"], [.finalPunctuation]),
  (["po", "otherpunctuation"], [.otherPunctuation]),
  (["p", "punctuation", "punct"], [.connectorPunctuation, .dashPunctuation, .openPunctuation,
    .closePunctuation, .initialPunctuation, .finalPunctuation, .otherPunctuation]),
  (["sm", "mathsymbol"], [.mathSymbol]),
  (["sc", "currencysymbol"], [.currencySymbol]),
  (["sk", "modifiersymbol"], [.modifierSymbol]),
  (["so", "othersymbol"], [.otherSymbol]),
  (["s", "symbol"], [.mathSymbol, .currencySymbol, .modifierSymbol, .otherSymbol]),
  (["zs", "spaceseparator"], [.spaceSeparator]),
  (["zl", "lineseparator"], [.lineSeparator]),
  (["zp", "paragraphseparator"], [.paragraphSeparator]),
  (["z", "separator"], [.spaceSeparator, .lineSeparator, .paragraphSeparator]),
  (["cc", "control", "cntrl"], [.control]),
  (["cf", "format"], [.format]),
  (["co", "privateuse"], [.privateUse]),
  (["cn", "unassigned"], [.unassigned]),
  (["c", "other"], [.control, .format, .privateUse, .surrogate, .unassigned])]

/-- Category and script names that are known but stand for no set of characters. -/
def emptyNames : List String :=
  ["cs", "surrogate", "zzzz", "unknown", "hrkt", "katakanaorhiragana"]

/-- A property as it is asked for. -/
inductive PropertyQuery where
  | named (name : String)
  | valued (name value : String)
deriving DecidableEq, Repr, Inhabited

/-- Why a property has no set. -/
inductive PropertyError where
  | unknownProperty
  | unknownValue
deriving DecidableEq, Repr

/-- The form in which names are compared. -/
def looseName (name : String) : String :=
  let cs := name.toList
  let hasIs := (cs.take 2).map Char.toLower == ['i', 's']
  let kept := ((if hasIs then cs.drop 2 else cs).filter fun c =>
    c.toNat < 128 && !(c == ' ' || c == '_' || c == '-')).map Char.toLower
  if hasIs && kept == ['c'] then "isc" else String.ofList kept

def binaryProperty? (name : String) : Option CharSet :=
  if name == "alphabetic" || name == "alpha" then some alphabetic
  else if name == "lowercase" || name == "lower" then some lowercase
  else if name == "uppercase" || name == "upper" then some uppercase
  else if name == "whitespace" || name == "wspace" || name == "space" then some whiteSpace
  else if name == "graphemeextend" || name == "grext" then some graphemeExtend
  else none

def category? (name : String) : Option CharSet :=
  if name == "any" then some (CharSet.ofRanges [(0, CharSet.top)])
  else if name == "ascii" then some (CharSet.ofRanges [(0, 0x7F)])
  else if name == "assigned" then some Category.assigned
  else (categoryNames.find? fun entry => entry.1.contains name).map fun entry =>
    Category.setOf entry.2

/-- The characters with a property. -/
def PropertyQuery.find : PropertyQuery → Except PropertyError CharSet
  | .named name =>
    let name := looseName name
    match (binaryProperty? name).or ((category? name).or (Script.find? name)) with
    | some s => .ok s
    | none => .error (if emptyNames.contains name then .unknownValue else .unknownProperty)
  | .valued name value =>
    let name := looseName name
    let value := looseName value
    if name == "generalcategory" || name == "gc" then
      (category? value).elim (.error .unknownValue) .ok
    else if name == "script" || name == "sc" then
      (Script.find? value).elim (.error .unknownValue) .ok
    else .error .unknownProperty

end RequestRouting.Unicode
