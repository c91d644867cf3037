import RequestRouting.Unicode.CharSet

/-!
Expressions in the form in which they are matched: flags are resolved, every class is a set of
characters, and a repetition has its counts.

`choice` builds an alternation. Alternatives of one character each become one class. Where all
alternatives begin alike, what they share stands before the alternation: it is matched once, and
only then do the alternatives differ.
-/

namespace RequestRouting.Regex

/-- Conditions on the characters before and after a position. -/
inductive Look where
  | textStart
  | textEnd
  | lineStart
  | lineEnd
  | crLineStart
  | crLineEnd
  | boundary (unicode : Bool)
  | notBoundary (unicode : Bool)
  | wordStart (unicode : Bool)
  | wordEnd (unicode : Bool)
  | wordStartHalf (unicode : Bool)
  | wordEndHalf (unicode : Bool)
deriving DecidableEq, Repr

inductive Expr where
  | empty
  | char (set : CharSet)
  | look (l : Look)
  | group (index : Nat) (inner : Expr)
  | seq (first second : Expr)
  | alt (first second : Expr)
  | rep (least : Nat) (most : Option Nat) (greedy : Bool) (inner : Expr)
deriving DecidableEq, Repr, Inhabited

namespace Expr

/-- Whether the expression may match the empty text; it may not only if it surely takes a
character. -/
def nullable : Expr → Bool
  | empty => true
  | char _ => false
  | look _ => true
  | group _ e => e.nullable
  | seq a b => a.nullable && b.nullable
  | alt a b => a.nullable || b.nullable
  | rep least _ _ e => least == 0 || e.nullable

/-- The numbers of the groups, from left to right. -/
def groups : Expr → List Nat
  | empty | char _ | look _ => []
  | group i e => i :: e.groups
  | seq a b | alt a b => a.groups ++ b.groups
  | rep _ _ _ e => e.groups

/-- Whether the expression never takes a character. -/
def isEmptyOnly : Expr → Bool
  | empty => true
  | char _ => false
  | look _ => true
  | group _ e => e.isEmptyOnly
  | seq a b => a.isEmptyOnly && b.isEmptyOnly
  | alt a b => a.isEmptyOnly && b.isEmptyOnly
  | rep _ _ _ e => e.isEmptyOnly

/-- The least number of states in a program for the expression: one for each octet of a fixed
character and for each condition, two for a group, and as many copies of what is repeated as the
counts ask for. -/
def leastStates : Expr → Nat
  | empty => 0
  | char s => (s.onlyMember?.map fun n => (Char.ofNat n).utf8Size).getD 1
  | look _ => 1
  | group _ e => e.leastStates + 2
  | seq a b => a.leastStates + b.leastStates
  | alt a b => max a.leastStates b.leastStates
  | rep least most _ e => most.getD (max least 1) * e.leastStates

/-- A repetition with the counts as they are. -/
def counted (least : Nat) (most : Option Nat) (greedy : Bool) (e : Expr) : Expr :=
  if least == 0 && most == some 0 then empty
  else if least == 1 && most == some 1 then e
  else rep least most greedy e

/-- A repetition; at most zero times is the empty expression, and once is the expression. Where no
character is taken, once is as good as more often. -/
def repeated (least : Nat) (most : Option Nat) (greedy : Bool) (e : Expr) : Expr :=
  if e.isEmptyOnly then counted (min least 1) (some (min (most.getD 1) 1)) greedy e
  else counted least most greedy e

/-! ## Sequences -/

/-- The parts of a sequence, empty ones left out. -/
def parts : Expr → List Expr
  | empty => []
  | seq a b => a.parts ++ b.parts
  | e => [e]

/-- The expressions one after the other. -/
def sequence : List Expr → Expr
  | [] => empty
  | e :: rest => rest.foldl seq e

/-- Whether the expression is one fixed character. -/
def isLetter : Expr → Bool
  | char s => s.onlyMember?.isSome
  | _ => false

/-- The parts of a sequence with neighbouring fixed characters taken together. -/
def clusters : List Expr → List (List Expr)
  | [] => []
  | e :: rest =>
    match clusters rest with
    | (f :: c) :: cs => if e.isLetter && f.isLetter then (e :: f :: c) :: cs
        else [e] :: (f :: c) :: cs
    | cs => [e] :: cs

/-! ## Alternations -/

/-- The alternatives of an alternation, from left to right. -/
def alternatives : Expr → List Expr
  | alt a b => a.alternatives ++ b.alternatives
  | e => [e]

def asClass? : Expr → Option CharSet
  | char s => some s
  | _ => none

/-- The alternatives in order, as one class if each is a class. -/
def chain : List Expr → Expr
  | [] => char CharSet.empty
  | [e] => e
  | e :: rest => alt e (chain rest)

def oneOf (es : List Expr) : Expr :=
  match es with
  | [e] => e
  | es =>
    match es.mapM asClass? with
    | some sets => char (sets.foldr CharSet.union CharSet.empty)
    | none => chain es

/-- The longest common beginning of two lists. -/
def commonStart {α : Type} [DecidableEq α] : List α → List α → List α
  | a :: as, b :: bs => if a = b then a :: commonStart as bs else []
  | _, _ => []

/-- What all alternatives begin with, provided that each has at least two clusters. -/
def sharedStart (alternatives : List (List (List Expr))) : List (List Expr) :=
  if alternatives.all fun cs => 2 ≤ cs.length then
    match alternatives with
    | first :: second :: rest => (second :: rest).foldl commonStart first
    | _ => []
  else []

/-- An alternation. -/
def choice (es : List Expr) : Expr :=
  let es := es.flatMap alternatives
  let split := es.map fun e => clusters e.parts
  match sharedStart split with
  | [] => oneOf es
  | start =>
    let rests := split.map fun cs => sequence (cs.drop start.length).flatten
    seq (sequence start.flatten) (oneOf (rests.flatMap alternatives))

end Expr

end RequestRouting.Regex
