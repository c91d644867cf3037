import RequestRouting.Toml.Scalar
import RequestRouting.Toml.Table

/-!
Reading a TOML document.
-/

namespace RequestRouting.Toml

/-! ## Keys -/

def isBareKeyChar (c : Char) : Bool := c.isAlphanum || c == '-' || c == '_'

/-- One part of a key. -/
def keyPart? : List Char → Option (String × List Char)
  | '"' :: r => (basicString 0 r).map fun p => (String.ofList p.1, p.2)
  | '\'' :: r => (literalString r).map fun p => (String.ofList p.1, p.2)
  | cs =>
    match cs.takeWhile isBareKeyChar with
    | [] => none
    | taken => some (String.ofList taken, cs.dropWhile isBareKeyChar)

/-- The parts of a dotted key after the first part, each with the dot before it. -/
def moreKeyParts : Nat → List Char → Option (List String × List Char)
  | fuel + 1, cs =>
    match skipSpaces cs with
    | '.' :: r => do
      let (part, rest) ← keyPart? (skipSpaces r)
      let (parts, rest) ← moreKeyParts fuel rest
      return (part :: parts, rest)
    | rest => some ([], rest)
  | 0, cs => some ([], cs)

/-- How deep values may be nested, and how many parts a key may have. -/
def depthLimit : Nat := 80

/-- A key with spaces around its parts: the path to its table, and its last part. -/
def key? (cs : List Char) : Option ((List String × String) × List Char) := do
  let (first, rest) ← keyPart? (skipSpaces cs)
  let (parts, rest) ← moreKeyParts rest.length rest
  let all := first :: parts
  if depthLimit ≤ all.length then none
  else return ((all.dropLast, all.getLast?.getD first), rest)

/-! ## Values -/

/-- Drops blanks, line ends and comments; a comment must end with its line. -/
def skipBetween : Nat → List Char → Option (List Char)
  | fuel + 1, cs =>
    match skipSpaces cs with
    | '#' :: r => do skipBetween fuel (← newline? (skipComment r))
    | '\n' :: r => skipBetween fuel r
    | '\r' :: '\n' :: r => skipBetween fuel r
    | '\r' :: _ => none
    | rest => some rest
  | 0, cs => some cs

def skipBetweenItems (cs : List Char) : Option (List Char) := skipBetween (cs.length + 1) cs

/-- A value that holds no other values. -/
def scalarValue? (cs : List Char) : Option (Value × List Char) :=
  match cs with
  | [] => none
  | c :: _ =>
    if c = '"' ∨ c = '\'' then (string? cs).map fun p => (.string (String.ofList p.1), p.2)
    else match cs with
      | 't' :: 'r' :: 'u' :: 'e' :: rest => some (.boolean true, rest)
      | 'f' :: 'a' :: 'l' :: 's' :: 'e' :: rest => some (.boolean false, rest)
      | cs =>
        match datetime? cs with
        | some date => date.map fun p => (.datetime (String.ofList p.1), p.2)
        | none => number? cs

/-- The table that the pairs of an inline table make. -/
def inlineTable? (pairs : List ((List String × String) × Value)) : Option Value :=
  (pairs.foldlM (fun (t : OpenTable) p => t.addValue p.1.1 p.1.2 p.2) {}).map fun t =>
    t.node.value

mutual

/-- A value; `depth` says how deep it is nested. -/
def value? : Nat → Nat → List Char → Option (Value × List Char)
  | 0, _, _ => none
  | fuel + 1, depth, cs =>
    match cs with
    | '[' :: r =>
      if depthLimit ≤ depth + 1 then none
      else do
        let (items, rest) ← items? fuel (depth + 1) r
        return (.array items, rest)
    | '\x7b' :: r =>
      if depthLimit ≤ depth + 1 then none
      else
        match skipSpaces r with
        | '\x7d' :: rest => return (← inlineTable? [], rest)
        | r => do
          let (pairs, rest) ← pairs? fuel (depth + 1) r
          return (← inlineTable? pairs, rest)
    | cs => scalarValue? cs

/-- The items of an array, with its closing bracket. -/
def items? : Nat → Nat → List Char → Option (List Value × List Char)
  | 0, _, _ => none
  | fuel + 1, depth, cs => do
    match ← skipBetweenItems cs with
    | ']' :: rest => return ([], rest)
    | cs =>
      let (v, rest) ← value? fuel depth cs
      match ← skipBetweenItems rest with
      | ',' :: rest => do
        let (vs, rest) ← items? fuel depth rest
        return (v :: vs, rest)
      | ']' :: rest => return ([v], rest)
      | _ => none

/-- The pairs of an inline table, with its closing brace. -/
def pairs? :
    Nat → Nat → List Char → Option (List ((List String × String) × Value) × List Char)
  | 0, _, _ => none
  | fuel + 1, depth, cs => do
    let (key, rest) ← key? cs
    match rest with
    | '=' :: rest =>
      let (v, rest) ← value? fuel depth (skipSpaces rest)
      match skipSpaces rest with
      | ',' :: rest => do
        let (ps, rest) ← pairs? fuel depth rest
        return ((key, v) :: ps, rest)
      | '\x7d' :: rest => return ([(key, v)], rest)
      | _ => none
    | _ => none

end

/-! ## Lines -/

/-- What may follow on a line: spaces and a comment. -/
def lineEnd? (cs : List Char) : Option (List Char) :=
  let rest := match skipSpaces cs with
    | '#' :: r => skipComment r
    | r => r
  if rest.isEmpty then some [] else newline? rest

/-- Reads line after line. -/
def lines? : Nat → Document → List Char → Option Document
  | 0, d, _ => some d
  | fuel + 1, d, cs =>
    match skipSpaces cs with
    | [] => some d
    | '#' :: r => do lines? fuel d (← lineEnd? ('#' :: r))
    | '\n' :: r => lines? fuel d r
    | '\r' :: r => do lines? fuel d (← newline? ('\r' :: r))
    | '[' :: '[' :: r => do
      let ((path, key), rest) ← key? r
      match rest with
      | ']' :: ']' :: rest => lines? fuel (← d.openSeries path key) (← lineEnd? rest)
      | _ => none
    | '[' :: r => do
      let ((path, key), rest) ← key? r
      match rest with
      | ']' :: rest => lines? fuel (← d.openTable path key) (← lineEnd? rest)
      | _ => none
    | cs => do
      let ((path, key), rest) ← key? cs
      match rest with
      | '=' :: rest =>
        let rest := skipSpaces rest
        let (v, rest) ← value? (2 * rest.length + 2) 0 rest
        lines? fuel (← d.addValue path key v) (← lineEnd? rest)
      | _ => none

/-- Reads a document, which may begin with a byte order mark. -/
def parse? (text : String) : Option Value :=
  let cs := match text.toList with
    | '\uFEFF' :: r => r
    | cs => cs
  (lines? (cs.length + 1) {} cs).bind Document.value?

end RequestRouting.Toml
