import Mathlib.Tactic.Common
import RequestRouting.Text.Utf8

/-!
Reading back what was written in UTF-8.

A character is read from its bytes whatever follows (`utf8CharsFrom_encodeChar`), so the reader gives back
every text that was written (`ofUtf8Lossy_utf8`). No byte of a character outside ASCII is in ASCII.
-/

namespace RequestRouting.Text

/-! ## Bytes -/

/-- What a byte gives at the start of a character, in numbers. -/
theorem Lead.ofByte_byte {k : Nat} (h : k < 256) : Lead.ofByte (UInt8.ofNat k) =
    if k < 0x80 then .char (Char.ofNat k)
    else if k < 0xC2 then .invalid
    else if k < 0xE0 then .more ⟨1, 0x80, 0xBF, k - 0xC0⟩
    else if k = 0xE0 then .more ⟨2, 0xA0, 0xBF, 0⟩
    else if k = 0xED then .more ⟨2, 0x80, 0x9F, 13⟩
    else if k < 0xF0 then .more ⟨2, 0x80, 0xBF, k - 0xE0⟩
    else if k = 0xF0 then .more ⟨3, 0x90, 0xBF, 0⟩
    else if k < 0xF4 then .more ⟨3, 0x80, 0xBF, k - 0xF0⟩
    else if k = 0xF4 then .more ⟨3, 0x80, 0x8F, 4⟩
    else .invalid := by
  simp only [ofByte, UInt8.lt_iff_toNat_lt, ← UInt8.toNat_inj, UInt8.toNat_ofNat_of_lt' h]
  rfl

/-! ## Characters -/

section

variable {lo hi : UInt8} {value k n : Nat}

theorem utf8CharsFrom_lead {p : Partial} (hk : Lead.ofByte (UInt8.ofNat k) = .more p)
    (bs : List UInt8) :
    utf8CharsFrom none (UInt8.ofNat k :: bs) = utf8CharsFrom (some p) bs := by
  rw [utf8CharsFrom, hk]

theorem within_byte (hk : lo.toNat ≤ k) (hk' : k ≤ hi.toNat) :
    lo ≤ UInt8.ofNat k ∧ UInt8.ofNat k ≤ hi := by
  have hlt : hi.toNat < 256 := hi.toNat_lt
  rw [UInt8.le_iff_toNat_le, UInt8.le_iff_toNat_le, UInt8.toNat_ofNat_of_lt' (show k < 256 by omega)]
  exact ⟨hk, hk'⟩

/-- A byte that may come next ends a character of which nothing else is missing. -/
theorem utf8CharsFrom_last (hk : lo.toNat ≤ k) (hk' : k ≤ hi.toNat)
    (hn : 64 * value + (k - 0x80) = n) (bs : List UInt8) :
    utf8CharsFrom (some ⟨1, lo, hi, value⟩) (UInt8.ofNat k :: bs) =
      some (Char.ofNat n) :: utf8CharsFrom none bs := by
  have hlt : hi.toNat < 256 := hi.toNat_lt
  rw [utf8CharsFrom, if_pos (within_byte hk hk'), if_pos (Nat.le_refl 1),
    UInt8.toNat_ofNat_of_lt' (show k < 256 by omega), hn]

/-- And it leads on in a character of which more is missing. -/
theorem utf8CharsFrom_more (hk : lo.toNat ≤ k) (hk' : k ≤ hi.toNat)
    (hn : 64 * value + (k - 0x80) = n) (missing : Nat) (bs : List UInt8) :
    utf8CharsFrom (some ⟨missing + 2, lo, hi, value⟩) (UInt8.ofNat k :: bs) =
      utf8CharsFrom (some ⟨missing + 1, 0x80, 0xBF, n⟩) bs := by
  have hlt : hi.toNat < 256 := hi.toNat_lt
  rw [utf8CharsFrom, if_pos (within_byte hk hk'), if_neg (by show ¬missing + 2 ≤ 1; omega),
    UInt8.toNat_ofNat_of_lt' (show k < 256 by omega), hn]
  rfl

end

section

variable {n : Nat}

theorem utf8CharsFrom_two (h : 0x7f < n) (h' : n ≤ 0x7ff) (bs : List UInt8) :
    utf8CharsFrom none
      (UInt8.ofNat (n / 64 % 0x20 + 0xc0) :: UInt8.ofNat (n % 0x40 + 0x80) :: bs) =
      some (Char.ofNat n) :: utf8CharsFrom none bs := by
  have hlead : Lead.ofByte (UInt8.ofNat (n / 64 % 0x20 + 0xc0)) =
      .more ⟨1, 0x80, 0xBF, n / 64 % 0x20 + 0xc0 - 0xC0⟩ := by
    rw [Lead.ofByte_byte (by omega), if_neg (by omega), if_neg (by omega), if_pos (by omega)]
  rw [utf8CharsFrom_lead hlead]
  apply utf8CharsFrom_last
  · show 0x80 ≤ n % 0x40 + 0x80
    omega
  · show n % 0x40 + 0x80 ≤ 0xBF
    omega
  · omega

-- The byte after 0xE0 is no smaller than it needs to be, and the one after 0xED leads to no surrogate.
theorem Lead.ofByte_three {k : Nat} (h : 0xE0 ≤ k) (h' : k < 0xF0) : ∃ lo hi : UInt8,
    Lead.ofByte (UInt8.ofNat k) = .more ⟨2, lo, hi, k - 0xE0⟩ ∧
    lo.toNat = (if k = 0xE0 then 0xA0 else 0x80) ∧ hi.toNat = if k = 0xED then 0x9F else 0xBF := by
  rw [Lead.ofByte_byte (by omega), if_neg (by omega), if_neg (by omega), if_neg (by omega)]
  by_cases hlow : k = 0xE0
  · subst hlow
    exact ⟨0xA0, 0xBF, rfl, rfl, rfl⟩
  · by_cases hhigh : k = 0xED
    · subst hhigh
      exact ⟨0x80, 0x9F, rfl, rfl, rfl⟩
    · rw [if_neg hlow, if_neg hhigh, if_pos h', if_neg hlow, if_neg hhigh]
      exact ⟨0x80, 0xBF, rfl, rfl, rfl⟩

theorem utf8CharsFrom_three (h : 0x7ff < n) (h' : n ≤ 0xffff) (hn : n < 0xD800 ∨ 0xDFFF < n)
    (bs : List UInt8) :
    utf8CharsFrom none
      (UInt8.ofNat (n / 4096 % 0x10 + 0xe0) :: UInt8.ofNat (n / 64 % 0x40 + 0x80) ::
        UInt8.ofNat (n % 0x40 + 0x80) :: bs) =
      some (Char.ofNat n) :: utf8CharsFrom none bs := by
  obtain ⟨lo, hi, hlead, hlo, hhi⟩ :=
    Lead.ofByte_three (k := n / 4096 % 0x10 + 0xe0) (by omega) (by omega)
  rw [utf8CharsFrom_lead hlead, utf8CharsFrom_more (n := n / 64) _ _ (by omega)]
  · apply utf8CharsFrom_last
    · show 0x80 ≤ n % 0x40 + 0x80
      omega
    · show n % 0x40 + 0x80 ≤ 0xBF
      omega
    · omega
  · rw [hlo]
    split <;> omega
  · rw [hhi]
    split <;> omega

theorem Lead.ofByte_four {k : Nat} (h : 0xF0 ≤ k) (h' : k < 0xF5) : ∃ lo hi : UInt8,
    Lead.ofByte (UInt8.ofNat k) = .more ⟨3, lo, hi, k - 0xF0⟩ ∧
    lo.toNat = (if k = 0xF0 then 0x90 else 0x80) ∧ hi.toNat = if k = 0xF4 then 0x8F else 0xBF := by
  rw [Lead.ofByte_byte (by omega), if_neg (by omega), if_neg (by omega), if_neg (by omega),
    if_neg (by omega), if_neg (by omega), if_neg (by omega)]
  by_cases hlow : k = 0xF0
  · subst hlow
    exact ⟨0x90, 0xBF, rfl, rfl, rfl⟩
  · by_cases hhigh : k = 0xF4
    · subst hhigh
      exact ⟨0x80, 0x8F, rfl, rfl, rfl⟩
    · rw [if_neg hlow, if_pos (by omega), if_neg hlow, if_neg hhigh]
      exact ⟨0x80, 0xBF, rfl, rfl, rfl⟩

theorem utf8CharsFrom_four (h : 0xffff < n) (h' : n < 0x110000) (bs : List UInt8) :
    utf8CharsFrom none
      (UInt8.ofNat (n / 262144 % 0x08 + 0xf0) :: UInt8.ofNat (n / 4096 % 0x40 + 0x80) ::
        UInt8.ofNat (n / 64 % 0x40 + 0x80) :: UInt8.ofNat (n % 0x40 + 0x80) :: bs) =
      some (Char.ofNat n) :: utf8CharsFrom none bs := by
  obtain ⟨lo, hi, hlead, hlo, hhi⟩ :=
    Lead.ofByte_four (k := n / 262144 % 0x08 + 0xf0) (by omega) (by omega)
  rw [utf8CharsFrom_lead hlead, utf8CharsFrom_more (n := n / 4096) _ _ (by omega),
    utf8CharsFrom_more (n := n / 64) _ _ (by omega)]
  · apply utf8CharsFrom_last
    · show 0x80 ≤ n % 0x40 + 0x80
      omega
    · show n % 0x40 + 0x80 ≤ 0xBF
      omega
    · omega
  · show 0x80 ≤ n / 64 % 0x40 + 0x80
    omega
  · show n / 64 % 0x40 + 0x80 ≤ 0xBF
    omega
  · rw [hlo]
    split <;> omega
  · rw [hhi]
    split <;> omega

end

theorem encodeChar_eq (c : Char) : String.utf8EncodeChar c =
    if c.toNat ≤ 0x7f then [UInt8.ofNat c.toNat]
    else if c.toNat ≤ 0x7ff then
      [UInt8.ofNat (c.toNat / 64 % 0x20 + 0xc0), UInt8.ofNat (c.toNat % 0x40 + 0x80)]
    else if c.toNat ≤ 0xffff then
      [UInt8.ofNat (c.toNat / 4096 % 0x10 + 0xe0), UInt8.ofNat (c.toNat / 64 % 0x40 + 0x80),
        UInt8.ofNat (c.toNat % 0x40 + 0x80)]
    else
      [UInt8.ofNat (c.toNat / 262144 % 0x08 + 0xf0), UInt8.ofNat (c.toNat / 4096 % 0x40 + 0x80),
        UInt8.ofNat (c.toNat / 64 % 0x40 + 0x80), UInt8.ofNat (c.toNat % 0x40 + 0x80)] := rfl

/-- A character is read from its bytes, whatever follows. -/
theorem utf8CharsFrom_encodeChar (c : Char) (bs : List UInt8) :
    utf8CharsFrom none (String.utf8EncodeChar c ++ bs) = some c :: utf8CharsFrom none bs := by
  -- That surrogates are no characters is what the third form rests on.
  have hvalid : c.toNat < 0xD800 ∨ 0xDFFF < c.toNat ∧ c.toNat < 0x110000 := c.valid
  have hc : Char.ofNat c.toNat = c := Char.ofNat_toNat c
  rw [encodeChar_eq]
  by_cases h₁ : c.toNat ≤ 0x7f
  · rw [if_pos h₁]
    show utf8CharsFrom none (UInt8.ofNat c.toNat :: bs) = _
    rw [utf8CharsFrom, Lead.ofByte_byte (by omega), if_pos (by omega), hc]
  · rw [if_neg h₁]
    by_cases h₂ : c.toNat ≤ 0x7ff
    · rw [if_pos h₂]
      exact (utf8CharsFrom_two (by omega) h₂ bs).trans (by rw [hc])
    · rw [if_neg h₂]
      by_cases h₃ : c.toNat ≤ 0xffff
      · rw [if_pos h₃]
        exact (utf8CharsFrom_three (by omega) h₃ (by omega) bs).trans (by rw [hc])
      · rw [if_neg h₃]
        exact (utf8CharsFrom_four (n := c.toNat) (by omega) (by omega) bs).trans (by rw [hc])

theorem encodeChar_of_ascii {c : Char} (h : c.toNat ≤ 0x7f) :
    String.utf8EncodeChar c = [UInt8.ofNat c.toNat] := by
  rw [encodeChar_eq, if_pos h]

/-- The bytes of a character outside ASCII are outside ASCII. -/
theorem le_of_mem_encodeChar {c : Char} (h : 0x7f < c.toNat) {b : UInt8}
    (hb : b ∈ String.utf8EncodeChar c) : 0x80 ≤ b.toNat := by
  have hbyte : ∀ k, b = UInt8.ofNat k → 0x80 ≤ k → k < 256 → 0x80 ≤ b.toNat := by
    intro k hk hlo hhi
    rw [hk, UInt8.toNat_ofNat_of_lt' hhi]
    exact hlo
  rw [encodeChar_eq, if_neg (by omega)] at hb
  split at hb
  · simp only [List.mem_cons, List.not_mem_nil, or_false] at hb
    rcases hb with hb | hb <;> exact hbyte _ hb (by omega) (by omega)
  · split at hb
    · simp only [List.mem_cons, List.not_mem_nil, or_false] at hb
      rcases hb with hb | hb | hb <;> exact hbyte _ hb (by omega) (by omega)
    · simp only [List.mem_cons, List.not_mem_nil, or_false] at hb
      rcases hb with hb | hb | hb | hb <;> exact hbyte _ hb (by omega) (by omega)

/-! ## Texts -/

/-- What was written is read back, whatever follows. -/
theorem utf8Chars_append (cs : List Char) (bs : List UInt8) :
    utf8Chars (utf8 cs ++ bs) = cs.map some ++ utf8Chars bs := by
  induction cs with
  | nil => rfl
  | cons c cs ih =>
    show utf8CharsFrom none ((String.utf8EncodeChar c ++ utf8 cs) ++ bs) = _
    rw [List.append_assoc, utf8CharsFrom_encodeChar]
    exact congrArg (some c :: ·) ih

theorem utf8Chars_utf8 (cs : List Char) : utf8Chars (utf8 cs) = cs.map some := by
  have h := utf8Chars_append cs []
  rwa [List.append_nil, show utf8Chars [] = [] from rfl, List.append_nil] at h

/-- A text that was written is well formed. -/
theorem ofUtf8?_utf8 (cs : List Char) : ofUtf8? (utf8 cs) = some cs := by
  rw [ofUtf8?, utf8Chars_utf8]
  induction cs with
  | nil => rfl
  | cons c cs ih =>
    rw [List.map_cons, List.mapM_cons, ih]
    rfl

theorem ofUtf8Lossy_append (cs : List Char) (bs : List UInt8) :
    ofUtf8Lossy (utf8 cs ++ bs) = cs ++ ofUtf8Lossy bs := by
  rw [ofUtf8Lossy, utf8Chars_append, List.map_append, List.map_map]
  exact congrArg (· ++ ofUtf8Lossy bs) (List.map_id cs)

theorem ofUtf8Lossy_utf8 (cs : List Char) : ofUtf8Lossy (utf8 cs) = cs := by
  rw [ofUtf8Lossy, utf8Chars_utf8, List.map_map]
  exact List.map_id cs

end RequestRouting.Text
