/-!
Sets of positions in a text.

A position stands between two characters, or at an end of the text. A set of positions is a number
whose bits say which positions belong to it. `testBit_marks` says which positions a test marks.
-/

namespace RequestRouting.Regex

/-- A set of positions, one bit for each. -/
abbrev Positions := Nat

namespace Positions

/-- The positions that pass a test of the characters before and after them. The first character
argument is the one before the text. -/
def marks (test : Option Char → Option Char → Bool) : Option Char → List Char → Positions
  | before, [] => (test before none).toNat
  | before, c :: rest => (test before (some c)).toNat + 2 * marks test (some c) rest

/-- All positions of a text with so many characters. -/
def upTo (length : Nat) : Positions := 1 <<< (length + 1) - 1

/-- Adds to a set what a step finds from the positions added last, until it finds nothing new. -/
def closure (step : Positions → Positions) : Nat → Positions → Positions → Positions
  | 0, s, _ => s
  | fuel + 1, s, added =>
    let found := step added
    let fresh := found ^^^ (found &&& s)
    if fresh = 0 then s else closure step fuel (s ||| fresh) fresh

/-! ## Membership -/

theorem testBit_toNat_add (b : Bool) (n i : Nat) :
    (b.toNat + 2 * n).testBit i = if i = 0 then b else n.testBit (i - 1) := by
  cases i with
  | zero => cases b <;> simp [Nat.testBit_zero, Nat.add_mod]
  | succ i =>
    have h : (b.toNat + 2 * n) / 2 = n := by
      cases b
      · simp
      · simp
        omega
    simp [Nat.testBit_succ, h]

theorem testBit_marks (test : Option Char → Option Char → Bool) (before : Option Char)
    (cs : List Char) (i : Nat) :
    (marks test before cs).testBit i =
      (decide (i ≤ cs.length) && test (if i = 0 then before else cs[i - 1]?) cs[i]?) := by
  induction cs generalizing before i with
  | nil =>
    have h := testBit_toNat_add (test before none) 0 i
    rw [Nat.mul_zero, Nat.add_zero] at h
    rw [marks, h]
    by_cases hi : i = 0 <;> simp [hi]
  | cons c rest ih =>
    rw [marks, testBit_toNat_add]
    cases i with
    | zero => simp
    | succ i =>
      simp only [Nat.add_one_ne_zero, if_false, Nat.add_sub_cancel, ih]
      cases i <;> simp

theorem testBit_upTo (length i : Nat) : (upTo length).testBit i = decide (i ≤ length) := by
  rw [upTo, Nat.one_shiftLeft, Nat.testBit_two_pow_sub_one]
  exact decide_eq_decide.2 Nat.lt_succ_iff

end Positions

end RequestRouting.Regex
