/-!
Binary floating-point numbers of 64 bits.

A decimal is rounded to the nearest number, to the one with an even significand if two are equally
near. A number is written with the fewest digits that read back as the number, nearest to it among
those, in positional notation.
-/

namespace RequestRouting

/-- A finite number is its significand, which has 53 bits, times a power of two. -/
inductive Binary64 where
  | finite (negative : Bool) (significand : Nat) (exponent : Int)
  | infinite (negative : Bool)
  | nan
deriving DecidableEq, Repr

namespace Binary64

/-- Significands are below this power of two. -/
def significandBound : Nat := 1 <<< 53

/-- The least exponent of a number. -/
def leastExponent : Int := -1074

/-- The greatest exponent of a number. -/
def greatestExponent : Int := 971

/-- The quotient rounded to the nearest integer, to the even one of two. -/
def roundQuotient (num den : Nat) : Nat :=
  let q := num / den
  let r := num % den
  if 2 * r < den then q
  else if den < 2 * r then q + 1
  else if q % 2 = 0 then q else q + 1

/-- The quotient of two numbers in units of a power of two, as a quotient. -/
def scaled (num den : Nat) (exponent : Int) : Nat × Nat :=
  if exponent < 0 then (num <<< exponent.natAbs, den) else (num, den <<< exponent.natAbs)

/-- The number nearest to a quotient of positive numbers. -/
def ofQuotient (negative : Bool) (num den : Nat) : Binary64 :=
  let guess : Int := (num.log2 : Int) - (den.log2 : Int) - 53
  let (n, d) := scaled num den guess
  let exponent := max leastExponent (if n / d < significandBound then guess else guess + 1)
  let (n, d) := scaled num den exponent
  let significand := roundQuotient n d
  let (significand, exponent) :=
    if significand = significandBound then (significandBound / 2, exponent + 1)
    else (significand, exponent)
  if greatestExponent < exponent then infinite negative
  else finite negative significand exponent

/-- The number nearest to `digits` times a power of ten. Beyond four hundred places on either side
of the point every number is infinite or zero. -/
def ofDecimal (negative : Bool) (digits : Nat) (exponent : Int) : Binary64 :=
  let places := ((Nat.toDigits 10 digits).length : Int) + exponent
  if digits = 0 ∨ places < -400 then finite negative 0 leastExponent
  else if 400 < places then infinite negative
  else if exponent < 0 then ofQuotient negative digits (Nat.pow 10 exponent.natAbs)
  else ofQuotient negative (digits * Nat.pow 10 exponent.natAbs) 1

/-! ## Writing -/

/-- Whether `digits` times a power of ten reads back as the number `m * 2 ^ e`. -/
def readsAs (m : Nat) (e : Int) (digits : Nat) (exponent : Int) : Bool :=
  match ofDecimal false digits exponent with
  | finite _ m' e' => m' == m && e' == e
  | _ => false

/-- The decimals with so many digits next to `m * 2 ^ e` that read back as it, nearest first.
`places` is the number of digits before the point. -/
def candidates (m : Nat) (e : Int) (places : Int) (count : Nat) : List (Nat × Int) :=
  let unit : Int := places - count
  let (n, d) := scaled m 1 (-e)
  let power := Nat.pow 10 unit.natAbs
  let (n, d) := if unit < 0 then (n * power, d) else (n, d * power)
  let low := n / d
  let near := if 2 * (n % d) ≤ d then [low, low + 1] else [low + 1, low]
  (near.filter fun q => 0 < q && readsAs m e q unit).map fun q => (q, unit)

/-- The number of digits before the point of `m * 2 ^ e`; negative for zeros behind it. -/
def placesOf (m : Nat) (e : Int) : Int :=
  let (n, d) := scaled m 1 (-e)
  if d ≤ n then ((Nat.toDigits 10 (n / d)).length : Int)
  else 1 - ((Nat.toDigits 10 (d / n)).length : Int)

/-- The fewest digits that read back as `m * 2 ^ e`, with their power of ten. -/
def shortest (m : Nat) (e : Int) : Nat × Int :=
  let places := placesOf m e
  ((List.range 18).flatMap fun count => candidates m e places count).head?.getD (0, 0)

/-- `digits` times a power of ten, without an exponent and with at least one digit behind the
point. -/
def positional (digits : Nat) (exponent : Int) : List Char :=
  let ds := Nat.toDigits 10 digits
  if 0 ≤ exponent then ds ++ List.replicate exponent.natAbs '0' ++ ['.', '0']
  else
    let behind := exponent.natAbs
    let ds := List.replicate (behind + 1 - ds.length) '0' ++ ds
    ds.take (ds.length - behind) ++ '.' :: ds.drop (ds.length - behind)

/-- The text of a number. -/
def text : Binary64 → String
  | nan => "NaN"
  | infinite negative => if negative then "-inf" else "inf"
  | finite negative m e =>
    let sign := if negative then ['-'] else []
    let digits := if m = 0 then ['0', '.', '0'] else
      let (ds, exponent) := shortest m e
      positional ds exponent
    String.ofList (sign ++ digits)

end Binary64

end RequestRouting
