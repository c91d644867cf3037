import RequestRouting.Text.Percent

/-!
What percent decoding does.

`PercentDecodes` says it by rules for the front of the bytes: a percent sign with two hexadecimal digits behind it is
one byte, and any other byte is itself. Decoding is what follows from these rules from left to right, and nothing
else (`percentDecodes_iff`).
-/

namespace RequestRouting.Text

/-- Whether bytes begin with a percent sign and two hexadecimal digits, in either case. -/
def BeginsEscape (bs : List UInt8) : Prop :=
  ∃ hi lo rest, bs = 0x25 :: hi :: lo :: rest ∧ (hexDigit? hi.toNat).isSome ∧
    (hexDigit? lo.toNat).isSome

/-- What bytes are with their escapes decoded. -/
inductive PercentDecodes : List UInt8 → List UInt8 → Prop
  | nil : PercentDecodes [] []
  /-- An escape is the byte that its digits write, the first of them counting sixteen times. -/
  | escape {hi lo x y bs out} : hexDigit? hi.toNat = some x → hexDigit? lo.toNat = some y →
      PercentDecodes bs out →
      PercentDecodes (0x25 :: hi :: lo :: bs) (UInt8.ofNat (16 * x + y) :: out)
  /-- A byte that begins no escape is kept, be it a percent sign or not. -/
  | keep {b bs out} : ¬BeginsEscape (b :: bs) → PercentDecodes bs out →
      PercentDecodes (b :: bs) (b :: out)

theorem hexByte?_eq_none_iff {hi lo : UInt8} : hexByte? hi lo = none ↔
    ¬((hexDigit? hi.toNat).isSome ∧ (hexDigit? lo.toNat).isSome) := by
  unfold hexByte?
  cases hexDigit? hi.toNat with
  | none => simp
  | some x => cases hexDigit? lo.toNat <;> simp

theorem percentDecode_of_not_begins {b : UInt8} {bs : List UInt8} (h : ¬BeginsEscape (b :: bs)) :
    percentDecode (b :: bs) = b :: percentDecode bs := by
  by_cases hb : b = 0x25
  · -- Behind the sign there are too few bytes, or no two digits.
    match bs with
    | [] => rfl
    | [c] => rfl
    | hi :: lo :: rest =>
      have hnone : hexByte? hi lo = none := by
        rw [hexByte?_eq_none_iff]
        exact fun hdigits => h ⟨hi, lo, rest, by rw [hb], hdigits⟩
      rw [percentDecode, if_pos hb, hnone]
  · exact percentDecode_cons_of_ne hb bs

theorem percentDecodes_percentDecode (bs : List UInt8) : PercentDecodes bs (percentDecode bs) := by
  induction hn : bs.length using Nat.strongRecOn generalizing bs with
  | ind n ih =>
    cases bs with
    | nil => exact .nil
    | cons b bs =>
      rw [List.length_cons] at hn
      by_cases h : BeginsEscape (b :: bs)
      · obtain ⟨hi, lo, rest, heq, hhi, hlo⟩ := h
        obtain ⟨x, hx⟩ := Option.isSome_iff_exists.1 hhi
        obtain ⟨y, hy⟩ := Option.isSome_iff_exists.1 hlo
        cases heq
        have hbyte : hexByte? hi lo = some (UInt8.ofNat (16 * x + y)) := by
          rw [hexByte?, hx, hy]
        rw [percentDecode_escape hbyte]
        apply PercentDecodes.escape hx hy
        apply ih rest.length _ rest rfl
        simp only [List.length_cons] at hn
        omega
      · rw [percentDecode_of_not_begins h]
        exact .keep h (ih bs.length (by omega) bs rfl)

/-- The rules leave no choice, and decoding follows them. -/
theorem percentDecodes_iff {bs out : List UInt8} :
    PercentDecodes bs out ↔ out = percentDecode bs := by
  constructor
  · intro h
    induction h with
    | nil => rfl
    | @escape hi lo x y bs out hx hy _ ih =>
      have hbyte : hexByte? hi lo = some (UInt8.ofNat (16 * x + y)) := by
        rw [hexByte?, hx, hy]
      rw [percentDecode_escape hbyte, ih]
    | keep h _ ih => rw [percentDecode_of_not_begins h, ih]
  · intro h
    rw [h]
    exact percentDecodes_percentDecode bs

end RequestRouting.Text
