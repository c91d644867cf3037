import RequestRouting.Regex.Error
import RequestRouting.Regex.Syntax
import RequestRouting.Text.Numeral

/-!
Reading an expression.

The reader keeps the text that is left, the items and alternatives of the group it is in, and the
groups around it. Each step takes one item, sign or bracket off the text, so that a step on a
plain character only adds one literal (`step_plain`).
-/

namespace RequestRouting.Regex.Parser

open Text (isHexDigit scalar? valueOf)

/-! ## Scanning -/

/-- Drops blanks, and comments from a number sign to the end of the line. -/
def skipTrivia : Bool → List Char → List Char
  | _, [] => []
  | true, c :: r => skipTrivia (c != '\n') r
  | false, c :: r =>
    if Unicode.isBlank c then skipTrivia false r
    else if c = '#' then skipTrivia true r
    else c :: r

/-- In verbose mode blanks and comments do not count. -/
def skip (verbose : Bool) (cs : List Char) : List Char :=
  if verbose then skipTrivia false cs else cs

/-- The accepted characters at the front, with what may be skipped after each, and the rest. -/
def takeSkipping (verbose : Bool) (accept : Char → Bool) :
    Nat → List Char → List Char × List Char
  | fuel + 1, c :: r =>
    if accept c then
      let (taken, rest) := takeSkipping verbose accept fuel (skip verbose r)
      (c :: taken, rest)
    else ([], c :: r)
  | _, cs => ([], cs)

def takeAccepted (verbose : Bool) (accept : Char → Bool) (cs : List Char) :
    List Char × List Char :=
  takeSkipping verbose accept cs.length cs

/-- The next character that counts, seen past blanks and one comment sign. -/
def peekPast (verbose : Bool) (r : List Char) : Option Char :=
  if verbose then
    let seen := match r.dropWhile Unicode.isBlank with
      | '#' :: r' => (r'.dropWhile Unicode.isBlank).head?
      | l => l.head?
    seen.or r.head?
  else r.head?

/-! ## Escapes -/

/-- The character that the digits name, or the error that they name none. -/
def hexChar (ds : List Char) : Except Error Char :=
  match scalar? (valueOf 16 ds) with
  | some c => .ok c
  | none => .error .hexNotScalar

/-- Exactly so many hexadecimal digits. -/
def fixedHex (verbose : Bool) : Nat → List Char → Except Error (List Char × List Char)
  | 0, cs => .ok ([], cs)
  | _ + 1, [] => .error .escapeUnfinished
  | n + 1, c :: r => do
    if !isHexDigit c then throw .hexDigitInvalid
    let (ds, rest) ← fixedHex verbose n (skip verbose r)
    return (c :: ds, rest)

/-- What follows the letter of a hexadecimal escape: so many digits, or any number in braces. -/
def hexEscape (verbose : Bool) (digits : Nat) (cs : List Char) :
    Except Error (Literal × List Char) :=
  match skip verbose cs with
  | [] => .error .escapeUnfinished
  | '{' :: r =>
    match takeAccepted verbose isHexDigit (skip verbose r) with
    | (_, []) => .error .escapeUnfinished
    | (ds, '}' :: rest) => do
      if ds.isEmpty then throw .hexEmpty
      let c ← hexChar ds
      return (⟨c, false⟩, skip verbose rest)
    | _ => .error .hexDigitInvalid
  | cs => do
    let (ds, rest) ← fixedHex verbose digits cs
    let c ← hexChar ds
    return (⟨c, digits == 2⟩, rest)

/-- The texts before and after the first sign of inequality. -/
def splitUnequal? : List Char → Option (List Char × List Char)
  | '!' :: '=' :: r => some ([], r)
  | c :: r => (splitUnequal? r).map fun p => (c :: p.1, p.2)
  | [] => none

/-- The property between the braces: a name, or a name and a value. -/
def propertyQuery (text : List Char) : Unicode.PropertyQuery :=
  let valued (before after : List Char) := .valued (String.ofList before) (String.ofList after)
  match splitUnequal? text with
  | some (before, after) => valued before after
  | none =>
    match text.dropWhile (· != ':') with
    | _ :: after => valued (text.takeWhile (· != ':')) after
    | [] =>
      match text.dropWhile (· != '=') with
      | _ :: after => valued (text.takeWhile (· != '=')) after
      | [] => .named (String.ofList text)

/-- What follows the letter of a property escape: one letter, or a text in braces. -/
def propertyEscape (verbose negated : Bool) (cs : List Char) :
    Except Error (Syntax × List Char) :=
  match skip verbose cs with
  | [] => .error .escapeUnfinished
  | '{' :: r =>
    match takeAccepted verbose (· != '}') (skip verbose r) with
    | (text, '}' :: rest) => .ok (.property (propertyQuery text) negated, rest)
    | _ => .error .escapeUnfinished
  | '\\' :: _ => .error .propertyClassInvalid
  | c :: r => .ok (.property (.named (String.ofList [c])) negated, skip verbose r)

def isBoundaryLetter (c : Char) : Bool := c.isAlpha || c == '-'

/-- The name in braces after a word boundary; none if the brace starts a repetition. -/
def boundaryName? (verbose : Bool) (cs : List Char) :
    Except Error (Option (Assertion × List Char)) :=
  match skip verbose cs with
  | [] => .error .wordBoundaryUnfinished
  | c :: r =>
    if !isBoundaryLetter c then .ok none
    else
      match takeAccepted verbose isBoundaryLetter (c :: r) with
      | (name, '}' :: rest) =>
        match String.ofList name with
        | "start" => .ok (some (.wordStart, rest))
        | "end" => .ok (some (.wordEnd, rest))
        | "start-half" => .ok (some (.wordStartHalf, rest))
        | "end-half" => .ok (some (.wordEndHalf, rest))
        | _ => .error .wordBoundaryUnknown
      | _ => .error .wordBoundaryUnclosed

/-- Whether a backslash before the character makes it stand for itself. -/
def isEscapable (c : Char) : Bool :=
  c.toNat < 128 && !c.isAlphanum && c != '<' && c != '>'

/-- What follows a backslash. -/
def escape (verbose : Bool) : List Char → Except Error (Syntax × List Char)
  | [] => .error .escapeUnfinished
  | c :: r =>
    let literal (d : Char) : Except Error (Syntax × List Char) := .ok (.literal ⟨d, false⟩, r)
    let hex (digits : Nat) : Except Error (Syntax × List Char) := do
      let (l, rest) ← hexEscape verbose digits r
      return (.literal l, rest)
    if isEscapable c then literal c
    else if c.isDigit then .error .backreference
    else match c with
      | 'x' => hex 2
      | 'u' => hex 4
      | 'U' => hex 8
      | 'p' => propertyEscape verbose false r
      | 'P' => propertyEscape verbose true r
      | 'd' => .ok (.short .digit false, r)
      | 'D' => .ok (.short .digit true, r)
      | 's' => .ok (.short .space false, r)
      | 'S' => .ok (.short .space true, r)
      | 'w' => .ok (.short .word false, r)
      | 'W' => .ok (.short .word true, r)
      | 'a' => literal '\x07'
      | 'f' => literal '\x0c'
      | 't' => literal '\t'
      | 'n' => literal '\n'
      | 'r' => literal '\r'
      | 'v' => literal '\x0b'
      | 'A' => .ok (.assertion .textStart, r)
      | 'z' => .ok (.assertion .textEnd, r)
      | 'B' => .ok (.assertion .notWordBoundary, r)
      | '<' => .ok (.assertion .wordStart, r)
      | '>' => .ok (.assertion .wordEnd, r)
      | 'b' =>
        match r with
        | '{' :: inside => do
          match ← boundaryName? verbose inside with
          | some (a, rest) => return (.assertion a, rest)
          | none => return (.assertion .wordBoundary, r)
        | _ => .ok (.assertion .wordBoundary, r)
      | _ => .error .escapeUnknown

/-! ## Bracketed classes -/

/-- A bracketed class that is not closed yet: the items since its last operator, and that operator
with its left side. -/
structure OpenSet where
  negated : Bool
  items : SetSyntax := .empty
  pending : Option (SetOperator × SetSyntax) := none
deriving DecidableEq, Repr

/-- What is inside, operators applied from left to right. -/
def OpenSet.inner (s : OpenSet) : SetSyntax :=
  match s.pending with
  | none => s.items
  | some (op, left) => .combine op left s.items

def OpenSet.push (s : OpenSet) (item : SetSyntax) : OpenSet :=
  { s with items := s.items.push item }

def OpenSet.operator (s : OpenSet) (op : SetOperator) : OpenSet :=
  { s with items := .empty, pending := some (op, s.inner) }

/-- The start of a class after its bracket: a negation sign, then hyphens or one closing bracket
that stand for themselves. -/
def openSet (verbose : Bool) (cs : List Char) : Except Error (OpenSet × List Char) := do
  let (negated, cs) := match skip verbose cs with
    | '^' :: r => (true, skip verbose r)
    | cs => (false, cs)
  let (hyphens, cs) := takeAccepted verbose (· == '-') cs
  let start : OpenSet := { negated }
  match cs with
  | [] => throw .classUnclosed
  | ']' :: r =>
    if hyphens.isEmpty then
      match skip verbose r with
      | [] => throw .classUnclosed
      | rest => return (start.push (.literal ⟨']', false⟩), rest)
    else return (hyphens.foldl (fun s c => s.push (.literal ⟨c, false⟩)) start, cs)
  | cs => return (hyphens.foldl (fun s c => s.push (.literal ⟨c, false⟩)) start, cs)

/-- A class named between colons, after its opening bracket. -/
def namedClass? : List Char → Option (SetSyntax × List Char)
  | ':' :: r =>
    let (negated, r) := match r with
      | '^' :: r => (true, r)
      | r => (false, r)
    match r.dropWhile (· != ':') with
    | ':' :: ']' :: rest =>
      (NamedClass.ofName? (String.ofList (r.takeWhile (· != ':')))).map fun kind =>
        (.named kind negated, rest)
    | _ => none
  | _ => none

def setItem (verbose : Bool) : List Char → Except Error (Syntax × List Char)
  | [] => .error .classUnclosed
  | '\\' :: r => escape verbose r
  | c :: r => .ok (.literal ⟨c, false⟩, r)

/-- An item of a class; only what stands for characters can be one. -/
def asSetItem : Syntax → Except Error SetSyntax
  | .literal l => .ok (.literal l)
  | .short kind negated => .ok (.short kind negated)
  | .property query negated => .ok (.property query negated)
  | _ => .error .classEscapeInvalid

def asRangeBound : Syntax → Except Error Literal
  | .literal l => .ok l
  | _ => .error .classRangeBound

/-- One item, or a range of characters. -/
def setRange (verbose : Bool) (cs : List Char) : Except Error (SetSyntax × List Char) := do
  let (first, cs) ← setItem verbose cs
  match skip verbose cs with
  | [] => throw .classUnclosed
  | '-' :: r =>
    if peekPast verbose r == some ']' || peekPast verbose r == some '-' then
      return (← asSetItem first, '-' :: r)
    else
      match skip verbose r with
      | [] => throw .classUnclosed
      | cs =>
        let (last, cs) ← setItem verbose cs
        let lo ← asRangeBound first
        let hi ← asRangeBound last
        if hi.char < lo.char then throw .classRangeInvalid
        return (.range lo hi, cs)
  | cs => return (← asSetItem first, cs)

/-- Reads on in the innermost of the open classes until the outermost is closed. -/
def setLoop (verbose : Bool) :
    Nat → OpenSet → List OpenSet → List Char → Except Error (Syntax × List Char)
  | 0, _, _, _ => .error .classUnclosed
  | fuel + 1, cur, outer, cs =>
    match skip verbose cs with
    | [] => .error .classUnclosed
    | ']' :: r =>
      match outer with
      | [] => .ok (.set cur.negated cur.inner, r)
      | o :: os => setLoop verbose fuel (o.push (.bracketed cur.negated cur.inner)) os r
    | '[' :: r =>
      match namedClass? r with
      | some (item, rest) => setLoop verbose fuel (cur.push item) outer rest
      | none => do
        let (inner, rest) ← openSet verbose r
        setLoop verbose fuel inner (cur :: outer) rest
    | '&' :: '&' :: r => setLoop verbose fuel (cur.operator .intersection) outer r
    | '-' :: '-' :: r => setLoop verbose fuel (cur.operator .difference) outer r
    | '~' :: '~' :: r => setLoop verbose fuel (cur.operator .symmetricDifference) outer r
    | cs => do
      let (item, rest) ← setRange verbose cs
      setLoop verbose fuel (cur.push item) outer rest

/-- A bracketed class, after its opening bracket. -/
def bracketed (verbose : Bool) (cs : List Char) : Except Error (Syntax × List Char) := do
  let (cur, rest) ← openSet verbose cs
  setLoop verbose (rest.length + 1) cur [] rest

/-! ## Repetition counts -/

/-- A decimal number with blanks around it; no number if there is no digit. -/
def decimal (verbose : Bool) (cs : List Char) : Option Nat × List Char :=
  let (ds, cs) := takeAccepted verbose Char.isDigit (cs.dropWhile Unicode.isBlank)
  (if ds.isEmpty then none else some (valueOf 10 ds),
    (takeAccepted verbose Unicode.isBlank cs).2)

/-- Counts have 32 bits. -/
def greatestCount : Nat := 4294967295

/-- A count that was read; it has to be in bounds. -/
def count : Option Nat → Except Error Nat
  | none => .error .countEmpty
  | some n => if n ≤ greatestCount then .ok n else .error .countInvalid

/-- The counts of a repetition, after its opening brace. -/
def countRange (verbose : Bool) (cs : List Char) :
    Except Error ((Nat × Option Nat) × List Char) := do
  let unclosed {α : Type} : Except Error α := .error .countUnclosed
  match skip verbose cs with
  | [] => unclosed
  | cs =>
    match decimal verbose cs with
    | (_, []) => unclosed
    | (least, ',' :: r) =>
      match skip verbose r with
      | [] => unclosed
      | '}' :: rest => return ((← count least, none), rest)
      | cs =>
        let least ← count least
        let (most, cs) := decimal verbose cs
        let most ← count most
        match cs with
        | '}' :: rest => return ((least, some most), rest)
        | _ => unclosed
    | (times, cs) =>
      let times ← count times
      match cs with
      | '}' :: rest => return ((times, some times), rest)
      | _ => unclosed

/-! ## Groups -/

def isNameChar (first : Bool) (c : Char) : Bool :=
  if first then c == '_' || Unicode.isAlphabetic c
  else c == '_' || c == '.' || c == '[' || c == ']' || Unicode.isAlphanumeric c

/-- The name of a group, up to its closing angle. -/
def captureName : List Char → List Char → Except Error (String × List Char)
  | _, [] => .error .captureNameUnfinished
  | taken, '>' :: r =>
    if taken.isEmpty then .error .captureNameEmpty else .ok (String.ofList taken.reverse, r)
  | taken, c :: r =>
    if isNameChar taken.isEmpty c then captureName (c :: taken) r else .error .captureNameInvalid

def flag? : Char → Option Flag
  | 'i' => some .caseInsensitive
  | 'm' => some .multiLine
  | 's' => some .dotMatchesLineEnd
  | 'U' => some .swapGreed
  | 'u' => some .unicode
  | 'R' => some .carriageReturn
  | 'x' => some .verbose
  | _ => none

/-- Flags up to a colon or a closing parenthesis, and which of the two it was. `negated` and
`dangling` say whether there was a hyphen, and whether it came last. -/
def flagsFrom (negated dangling : Bool) (ch : FlagChange) :
    List Char → Except Error (FlagChange × Bool × List Char)
  | [] => .error .flagsUnfinished
  | ':' :: r => if dangling then .error .flagNegationDangling else .ok (ch, true, r)
  | ')' :: r => if dangling then .error .flagNegationDangling else .ok (ch, false, r)
  | '-' :: r => if negated then .error .flagNegationRepeated else flagsFrom true true ch r
  | c :: r =>
    match flag? c with
    | none => .error .flagUnknown
    | some f =>
      if (ch.setting? f).isSome then .error .flagDuplicate
      else if negated then flagsFrom true false { ch with off := ch.off ++ [f] } r
      else flagsFrom false false { ch with on := ch.on ++ [f] } r

def isLookAround : List Char → Bool
  | '?' :: '=' :: _ | '?' :: '!' :: _ | '?' :: '<' :: '=' :: _ | '?' :: '<' :: '!' :: _ => true
  | _ => false

/-! ## The reader -/

/-- A group that is not closed yet: what it is, and what stood before it. -/
structure OpenGroup where
  kind : GroupKind
  verbose : Bool
  branches : List Syntax
  items : List Syntax
deriving DecidableEq, Repr

/-- Where the reader is. Items and alternatives are kept last first, capture names in order. -/
structure State where
  rest : List Char
  verbose : Bool := false
  branches : List Syntax := []
  items : List Syntax := []
  opened : List OpenGroup := []
  captures : Nat := 0
  names : List (String × Nat) := []
deriving DecidableEq, Repr

namespace State

/-- What stands inside the innermost open group. -/
def inner (s : State) : Syntax := Syntax.ofBranchesRev (Syntax.ofItemsRev s.items) s.branches

def push (s : State) (item : Syntax) (rest : List Char) : State :=
  { s with rest, items := item :: s.items }

def enter (s : State) (kind : GroupKind) (verbose : Bool) (rest : List Char) : State :=
  { s with
    rest, verbose, branches := [], items := []
    opened := ⟨kind, s.verbose, s.branches, s.items⟩ :: s.opened }

/-- Opens a capturing group. -/
def enterCapture (s : State) (rest : List Char) : State :=
  { s.enter (.capture (s.captures + 1)) s.verbose rest with captures := s.captures + 1 }

/-- Opens a capturing group with a name, which must be new. -/
def enterNamed (s : State) (cs : List Char) : Except Error State := do
  let (name, rest) ← captureName [] cs
  if (s.names.map Prod.fst).contains name then throw .captureNameDuplicate
  return { s.enterCapture rest with names := s.names ++ [(name, s.captures + 1)] }

/-- Flags for the rest of the group, or a group with flags of its own. -/
def enterFlags (s : State) (cs : List Char) : Except Error State := do
  if cs.isEmpty then throw .groupUnclosed
  let (ch, ownGroup, rest) ← flagsFrom false false {} cs
  let verbose := (ch.setting? .verbose).getD s.verbose
  if ownGroup then return s.enter (.plain ch) verbose rest
  if ch == {} then throw .repetitionMissing
  return { s.push (.flags ch) rest with verbose }

/-- What follows an opening parenthesis. -/
def openGroup (s : State) (r : List Char) : Except Error State :=
  let cs := skip s.verbose r
  if isLookAround cs then .error .lookAround
  else match cs with
    | '?' :: 'P' :: '<' :: r => s.enterNamed r
    | '?' :: '<' :: r => s.enterNamed r
    | '?' :: r => s.enterFlags r
    | cs => .ok (s.enterCapture cs)

def closeGroup (s : State) (r : List Char) : Except Error State :=
  match s.opened with
  | [] => .error .groupUnopened
  | g :: gs =>
    .ok { s with
      rest := r, verbose := g.verbose, branches := g.branches
      items := .group g.kind s.inner :: g.items, opened := gs }

/-- Repeats the last item, lazily if a question mark follows. -/
def repeatLast (s : State) (least : Nat) (most : Option Nat) (r : List Char) :
    Except Error State :=
  match s.items with
  | [] => .error .repetitionMissing
  | .empty :: _ => .error .repetitionMissing
  | .flags _ :: _ => .error .repetitionMissing
  | item :: items =>
    let (greedy, rest) := match r with
      | '?' :: r => (false, r)
      | r => (true, r)
    .ok { s with rest, items := .repeated least most greedy item :: items }

def repeatCounted (s : State) (r : List Char) : Except Error State :=
  match s.items with
  | [] => .error .repetitionMissing
  | .empty :: _ => .error .repetitionMissing
  | .flags _ :: _ => .error .repetitionMissing
  | _ => do
    let ((least, most), rest) ← countRange s.verbose r
    let s' ← s.repeatLast least most (skip s.verbose rest)
    if most.any (· < least) then throw .countRangeInvalid
    return s'

end State

/-- Takes one item, sign or bracket off the text. -/
def step (s : State) : Except Error State :=
  match skip s.verbose s.rest with
  | [] => .ok { s with rest := [] }
  | c :: r =>
    match c with
    | '(' => s.openGroup r
    | ')' => s.closeGroup r
    | '|' => .ok { s with
        rest := r, branches := Syntax.ofItemsRev s.items :: s.branches, items := [] }
    | '[' => do
      let (set, rest) ← bracketed s.verbose r
      return s.push set rest
    | '?' => s.repeatLast 0 (some 1) r
    | '*' => s.repeatLast 0 none r
    | '+' => s.repeatLast 1 none r
    | '{' => s.repeatCounted r
    | '\\' => do
      let (item, rest) ← escape s.verbose r
      return s.push item rest
    | '.' => .ok (s.push .anyChar r)
    | '^' => .ok (s.push (.assertion .lineStart) r)
    | '$' => .ok (s.push (.assertion .lineEnd) r)
    | c => .ok (s.push (.literal ⟨c, false⟩) r)

/-- Steps until the text is used up; every step takes at least one character. -/
def run : Nat → State → Except Error State
  | 0, s => .ok s
  | fuel + 1, s =>
    match s.rest with
    | [] => .ok s
    | _ => do run fuel (← step s)

/-- What reading gives: the tree, how many groups capture, and their names in order. -/
structure Parsed where
  tree : Syntax
  captures : Nat
  names : List (String × Nat)
deriving DecidableEq, Repr

def finish (s : State) : Except Error Parsed :=
  if s.opened.isEmpty then .ok ⟨s.inner, s.captures, s.names⟩ else .error .groupUnclosed

/-- Reads a whole expression. -/
def parse (cs : List Char) : Except Error Parsed := do
  finish (← run cs.length { rest := cs })

/-! ## Plain characters -/

/-- Whether a character has a meaning of its own in an expression. -/
def isMeta (c : Char) : Bool := "\\.+*?()|[]\x7b\x7d^$".toList.contains c

theorem step_plain (s : State) (c : Char) (r : List Char) (hc : isMeta c = false)
    (hr : s.rest = c :: r) (hv : s.verbose = false) :
    step s = .ok (s.push (.literal ⟨c, false⟩) r) := by
  simp [isMeta] at hc
  unfold step
  rw [hr, hv]
  simp only [skip, Bool.false_eq_true, if_false]
  split <;> simp_all

theorem run_cons (n : Nat) (s : State) (c : Char) (r : List Char) (hr : s.rest = c :: r) :
    run (n + 1) s = (step s).bind (run n) := by
  rw [run, hr]
  rfl

/-- Plain characters are read as literals, one after the other. -/
theorem run_plain (cs r : List Char) (n : Nat) (s : State) (hcs : ∀ c ∈ cs, isMeta c = false)
    (hr : s.rest = cs ++ r) (hv : s.verbose = false) :
    run (cs.length + n) s =
      run n { s with
        rest := r, items := cs.reverse.map (fun c => .literal ⟨c, false⟩) ++ s.items } := by
  induction cs generalizing s with
  | nil =>
    obtain ⟨rest⟩ := s
    simp_all
  | cons c cs ih =>
    have hc : isMeta c = false := hcs c (by simp)
    rw [List.length_cons, Nat.add_right_comm, run_cons _ s c (cs ++ r) hr,
      step_plain s c (cs ++ r) hc hr hv]
    change run (cs.length + n) (s.push (.literal ⟨c, false⟩) (cs ++ r)) = _
    rw [ih (s.push (.literal ⟨c, false⟩) (cs ++ r)) (fun d hd => hcs d (by simp [hd])) rfl hv]
    simp [State.push]

end RequestRouting.Regex.Parser
