import RequestRouting.Text.Numeral

/-!
Percent decoding of bytes.

A percent sign and two hexadecimal digits give the byte with that value (`percentDecode_escape`);
a percent sign with anything else after it stays as it is, and so does every other byte
(`percentDecode_cons_of_ne`).
-/

namespace RequestRouting.Text

/-- The byte that two hexadecimal digits write. -/
def hexByte? (a b : UInt8) : Option UInt8 :=
  match hexDigit? a.toNat, hexDigit? b.toNat with
  | some x, some y => some (UInt8.ofNat (16 * x + y))
  | _, _ => none

def percentDecode : List UInt8 → List UInt8
  | [] => []
  | [a] => [a]
  | [a, b] => [a, b]
  | a :: b :: c :: rest =>
    if a = 0x25 then
      match hexByte? b c with
      | some x => x :: percentDecode rest
      | none => a :: percentDecode (b :: c :: rest)
    else a :: percentDecode (b :: c :: rest)

theorem percentDecode_cons_of_ne {a : UInt8} (ha : a ≠ 0x25) (rest : List UInt8) :
    percentDecode (a :: rest) = a :: percentDecode rest := by
  match rest with
  | [] => rfl
  | [b] => simp [percentDecode]
  | b :: c :: rest => rw [percentDecode, if_neg ha]

theorem percentDecode_escape {b c x : UInt8} (h : hexByte? b c = some x) (rest : List UInt8) :
    percentDecode (0x25 :: b :: c :: rest) = x :: percentDecode rest := by
  rw [percentDecode, if_pos rfl, h]

end RequestRouting.Text
