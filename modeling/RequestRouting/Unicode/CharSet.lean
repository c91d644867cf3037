/-!
Sets of characters, kept as ascending ranges of code points that neither overlap nor touch.

The operations are those of a character class: union, intersection, difference, symmetric
difference and complement, the last one below a given greatest code point. `has_insertRange` says
what adding a range does to membership.
-/

namespace RequestRouting

/-- Inclusive ranges of code points, ascending, with a gap between any two. -/
structure CharSet where
  ranges : List (Nat × Nat)
deriving DecidableEq, Repr, Inhabited

namespace CharSet

/-- The greatest code point. -/
def top : Nat := 0x10FFFF

def empty : CharSet := ⟨[]⟩

def single (n : Nat) : CharSet := ⟨[(n, n)]⟩

/-- Membership of a code point. -/
def has (s : CharSet) (n : Nat) : Bool :=
  s.ranges.any fun r => r.1 ≤ n && n ≤ r.2

def contains (s : CharSet) (c : Char) : Bool := s.has c.toNat

def isEmpty (s : CharSet) : Bool := s.ranges.isEmpty

/-- Adds the code points from `lo` to `hi`, joining the ranges that they meet or touch. -/
def insertRange (lo hi : Nat) : List (Nat × Nat) → List (Nat × Nat)
  | [] => [(lo, hi)]
  | (a, b) :: rest =>
    if hi + 1 < a then (lo, hi) :: (a, b) :: rest
    else if b + 1 < lo then (a, b) :: insertRange lo hi rest
    else insertRange (min lo a) (max hi b) rest

def insert (s : CharSet) (lo hi : Nat) : CharSet := ⟨insertRange lo hi s.ranges⟩

def ofRanges (rs : List (Nat × Nat)) : CharSet :=
  ⟨rs.foldr (fun r acc => insertRange r.1 r.2 acc) []⟩

def union (s t : CharSet) : CharSet :=
  ⟨s.ranges.foldr (fun r acc => insertRange r.1 r.2 acc) t.ranges⟩

/-- The ranges between the given ones, from `start` up to `last`. -/
def gaps (last : Nat) : Nat → List (Nat × Nat) → List (Nat × Nat)
  | start, [] => if start ≤ last then [(start, last)] else []
  | start, (a, b) :: rest =>
    if start < a then (start, a - 1) :: gaps last (b + 1) rest else gaps last (b + 1) rest

/-- The code points up to `last` that are not in the set. -/
def complement (s : CharSet) (last : Nat) : CharSet := ⟨gaps last 0 s.ranges⟩

def inter (s t : CharSet) : CharSet :=
  ((s.complement top).union (t.complement top)).complement top

def diff (s t : CharSet) : CharSet := s.inter (t.complement top)

def symmDiff (s t : CharSet) : CharSet := (s.union t).diff (s.inter t)

/-- Whether the set holds no code point above `last`. -/
def isBelow (s : CharSet) (last : Nat) : Bool := s.ranges.all fun r => r.2 ≤ last

/-- The only member, if there is exactly one. -/
def onlyMember? (s : CharSet) : Option Nat :=
  match s.ranges with
  | [(a, b)] => if a = b then some a else none
  | _ => none

/-! ## Tables -/

/-- The blank-separated decimal numbers of a table line. -/
def numbers (line : String) : List Nat :=
  let step : Option Nat × List Nat → Char → Option Nat × List Nat := fun st c =>
    if c.isDigit then (some (st.1.getD 0 * 10 + (c.toNat - '0'.toNat)), st.2)
    else (none, st.1.toList ++ st.2)
  let last := line.toList.foldl step (none, [])
  (last.1.toList ++ last.2).reverse

/-- Ranges from numbers taken in pairs: how many code points to skip, how many to take. -/
def rangesFrom : Nat → List Nat → List (Nat × Nat)
  | start, skip :: take :: rest =>
    (start + skip, start + skip + take - 1) :: rangesFrom (start + skip + take) rest
  | _, _ => []

/-- The set that table lines of skip and take counts describe. -/
def ofTable (lines : List String) : CharSet := ⟨rangesFrom 0 (lines.flatMap numbers)⟩

/-! ## Membership -/

theorem has_cons (a b : Nat) (rs : List (Nat × Nat)) (n : Nat) :
    has ⟨(a, b) :: rs⟩ n = ((decide (a ≤ n) && decide (n ≤ b)) || has ⟨rs⟩ n) := by
  simp [has]

theorem has_insertRange (lo hi n : Nat) (h : lo ≤ hi) (rs : List (Nat × Nat))
    (hrs : ∀ r ∈ rs, r.1 ≤ r.2) :
    has ⟨insertRange lo hi rs⟩ n = ((decide (lo ≤ n) && decide (n ≤ hi)) || has ⟨rs⟩ n) := by
  induction rs generalizing lo hi with
  | nil => simp [insertRange, has]
  | cons r rest ih =>
    obtain ⟨a, b⟩ := r
    have hab : a ≤ b := hrs (a, b) (by simp)
    have hrest : ∀ r ∈ rest, r.1 ≤ r.2 := fun r hr => hrs r (by simp [hr])
    unfold insertRange
    split
    · simp [has_cons]
    · split
      · rw [has_cons, ih lo hi h hrest, has_cons, Bool.or_left_comm]
      · rw [ih _ _ (by omega) hrest, has_cons, ← Bool.or_assoc]
        congr 1
        rw [Bool.eq_iff_iff]
        simp only [Bool.and_eq_true, Bool.or_eq_true, decide_eq_true_eq]
        omega

end CharSet

end RequestRouting
