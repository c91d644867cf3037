/-!
Numbers written in digits, decimal and hexadecimal, and the characters that numbers name.
-/

namespace RequestRouting.Text

/-- The value of the hexadecimal digit with the given code, in either case. -/
def hexDigit? (code : Nat) : Option Nat :=
  if 48 ≤ code ∧ code ≤ 57 then some (code - 48)
  else if 65 ≤ code ∧ code ≤ 70 then some (code - 55)
  else if 97 ≤ code ∧ code ≤ 102 then some (code - 87)
  else none

def isHexDigit (c : Char) : Bool := (hexDigit? c.toNat).isSome

/-- The number that digits of the given base write, the first digit counting most. -/
def valueOf (base : Nat) (ds : List Char) : Nat :=
  ds.foldl (fun n c => base * n + (hexDigit? c.toNat).getD 0) 0

/-- The character with a code point, unless it is a surrogate or too great. -/
def scalar? (n : Nat) : Option Char :=
  if h : n.isValidChar then some (Char.ofNatAux n h) else none

/-- The small hexadecimal digit of a value below sixteen. -/
def hexDigit (n : Nat) : Char := Char.ofNat (if n < 10 then 48 + n else 87 + n)

/-- The hexadecimal digits of a number, without leading zeros. -/
def hexDigits (n : Nat) : List Char := (Nat.toDigits 16 n)

theorem scalar?_toNat (c : Char) : scalar? c.toNat = some c := by
  have h : c.toNat.isValidChar := c.valid
  have hc := Char.ofNat_toNat c
  rw [Char.ofNat, dif_pos h] at hc
  rw [scalar?, dif_pos h, hc]

end RequestRouting.Text
