import Mathlib
import RequestRouting.Proofs.Text.Utf8

/-!
Reading bytes that need not be UTF-8.

`Repairs` says what is read without a word on the reader: characters where their bytes stand, and a replacement
character for each part that is not well formed, which reaches as far as some character might. The reader goes
through the bytes one by one and finds just that (`repairs_iff`). `Expects` is what ties its states to the characters:
a state expects just the bytes by which what was begun can become a character.

The text has no more characters than there are characters and single bytes to read (`length_utf8CharsFrom_byte`,
`length_utf8CharsFrom_char`).
-/

namespace RequestRouting.Text

/-! ## Parts that are not well formed -/

/-- Whether some character's bytes begin with these. -/
def BeginsChar (part : List UInt8) : Prop := ∃ c, part <+: String.utf8EncodeChar c

/-- A part that is replaced: no character stands at its front, and it is the longest start of a character there,
or a single byte. -/
structure IllFormed (part rest : List UInt8) : Prop where
  ne_nil : part ≠ []
  no_char : ∀ c, ¬String.utf8EncodeChar c <+: part ++ rest
  start : BeginsChar part ∨ part.length = 1
  longest : ∀ b ∈ rest.head?, ¬BeginsChar (part ++ [b])

/-- What bytes say, with a replacement character for each part that is not well formed. -/
inductive Repairs : List UInt8 → List Char → Prop
  | nil : Repairs [] []
  | char {c rest bs cs} : bs = String.utf8EncodeChar c ++ rest → Repairs rest cs →
      Repairs bs (c :: cs)
  | replace {part rest bs cs} : bs = part ++ rest → IllFormed part rest → Repairs rest cs →
      Repairs bs ('\uFFFD' :: cs)

theorem BeginsChar.mono {part part' : List UInt8} (h : BeginsChar part') (hpre : part <+: part') :
    BeginsChar part := by
  obtain ⟨c, hc⟩ := h
  exact ⟨c, hpre.trans hc⟩

/-- Different characters do not begin alike. -/
theorem eq_of_encodeChar_append {c d : Char} {bs bs' : List UInt8}
    (h : String.utf8EncodeChar c ++ bs = String.utf8EncodeChar d ++ bs') : c = d ∧ bs = bs' := by
  have hread := utf8CharsFrom_encodeChar c bs
  rw [h, utf8CharsFrom_encodeChar] at hread
  obtain rfl : d = c := Option.some.inj (List.cons.inj hread).1
  exact ⟨rfl, List.append_cancel_left h⟩

/-- Of two parts at one place, none is longer. -/
theorem IllFormed.length_le {part part' rest rest' : List UInt8} (h : IllFormed part rest)
    (h' : IllFormed part' rest') (heq : part ++ rest = part' ++ rest') :
    part'.length ≤ part.length := by
  by_contra hlt
  -- Otherwise the longer one would go on with a byte by which the shorter one is no start of a character.
  obtain ⟨more, hmore⟩ : part <+: part' :=
    List.prefix_of_prefix_length_le ⟨rest, heq⟩ (List.prefix_append _ _) (by omega)
  cases more with
  | nil =>
    rw [List.append_nil] at hmore
    rw [hmore] at hlt
    exact hlt (Nat.le_refl _)
  | cons b more =>
    have hrest : rest = b :: (more ++ rest') := by
      have hsame : part ++ rest = part ++ b :: (more ++ rest') := by
        rw [heq, ← hmore, List.append_assoc, List.cons_append]
      exact List.append_cancel_left hsame
    have hpre : part ++ [b] <+: part' := ⟨more, by rw [← hmore, List.append_assoc]; rfl⟩
    apply h.longest b (by rw [hrest]; rfl)
    apply BeginsChar.mono _ hpre
    apply h'.start.resolve_right
    have hpos := List.length_pos_of_ne_nil h.ne_nil
    omega

/-- Bytes are read in one way. -/
theorem Repairs.unique {bs : List UInt8} {cs cs' : List Char} (h : Repairs bs cs)
    (h' : Repairs bs cs') : cs = cs' := by
  induction h generalizing cs' with
  | nil =>
    cases h' with
    | nil => rfl
    | @char c rest _ _ heq _ =>
      exact absurd (List.append_eq_nil_iff.1 heq.symm).1 String.utf8EncodeChar_ne_nil
    | replace heq hpart _ => exact absurd (List.append_eq_nil_iff.1 heq.symm).1 hpart.ne_nil
  | @char c rest bs cs heq _ ih =>
    cases h' with
    | nil => exact absurd (List.append_eq_nil_iff.1 heq.symm).1 String.utf8EncodeChar_ne_nil
    | char heq' hrest =>
      obtain ⟨hc, hsame⟩ := eq_of_encodeChar_append (heq.symm.trans heq')
      rw [hc, ih (hsame ▸ hrest)]
    | replace heq' hpart _ => exact absurd ⟨rest, heq.symm.trans heq'⟩ (hpart.no_char c)
  | @replace part rest bs cs heq hpart _ ih =>
    cases h' with
    | nil => exact absurd (List.append_eq_nil_iff.1 heq.symm).1 hpart.ne_nil
    | @char c rest' _ _ heq' _ => exact absurd ⟨rest', heq'.symm.trans heq⟩ (hpart.no_char c)
    | replace heq' hpart' hrest =>
      have happend := heq.symm.trans heq'
      have hlength := Nat.le_antisymm (hpart'.length_le hpart happend.symm)
        (hpart.length_le hpart' happend)
      obtain ⟨-, hsame⟩ := List.append_inj happend hlength
      rw [ih (hsame ▸ hrest)]

/-! ## States of the reader -/

/-- The last bytes of a character outside ASCII, so many of them. -/
def tailBytes : Nat → Nat → List UInt8
  | 0, _ => []
  | k + 1, n => UInt8.ofNat (0x80 + n / 64 ^ k % 64) :: tailBytes k n

/-- Whether a state is that of the reader behind bytes with which a character begins: the bytes that it lets come
next are those of the characters that begin so. -/
structure Partial.Expects (p : Partial) (part : List UInt8) : Prop where
  pos : 0 < p.missing
  le_three : p.missing ≤ 3
  lo_le : 0x80 ≤ p.lo.toNat
  hi_le : p.hi.toNat ≤ 0xBF
  lo_le_hi : p.lo.toNat ≤ p.hi.toNat
  reads : ∀ bs, utf8CharsFrom none (part ++ bs) = utf8CharsFrom (some p) bs
  encodes : ∀ n, n / 64 ^ p.missing = p.value →
    p.lo.toNat ≤ 0x80 + n / 64 ^ (p.missing - 1) % 64 →
    0x80 + n / 64 ^ (p.missing - 1) % 64 ≤ p.hi.toNat →
    n.isValidChar ∧ String.utf8EncodeChar (Char.ofNat n) = part ++ tailBytes p.missing n

/-- Where the reader replaces something, no character stands. -/
theorem not_prefix_of_replaced {bs : List UInt8} (h : (utf8CharsFrom none bs).head? = some none)
    (c : Char) : ¬String.utf8EncodeChar c <+: bs := by
  rintro ⟨rest, rfl⟩
  rw [utf8CharsFrom_encodeChar] at h
  cases Option.some.inj h

/-- What the reader replaces whatever follows is no start of a character. -/
theorem not_beginsChar_of_replaced {part : List UInt8}
    (h : ∀ bs, (utf8CharsFrom none (part ++ bs)).head? = some none) : ¬BeginsChar part := by
  rintro ⟨c, rest, hrest⟩
  exact not_prefix_of_replaced (h rest) c (hrest ▸ List.prefix_refl _)

/-- A byte that a state does not let come next ends what was begun. -/
theorem utf8CharsFrom_of_not_within {p : Partial} {b : UInt8} (h : ¬(p.lo ≤ b ∧ b ≤ p.hi))
    (bs : List UInt8) : utf8CharsFrom (some p) (b :: bs) = none :: utf8CharsFrom none (b :: bs) := by
  cases hlead : Lead.ofByte b <;> simp [utf8CharsFrom, h, hlead]

theorem toNat_ofNat_of_isValidChar {n : Nat} (h : n.isValidChar) : (Char.ofNat n).toNat = n := by
  rw [Char.ofNat, dif_pos h]
  rfl

theorem Lead.expects_two {k : Nat} (h : 0xC2 ≤ k) (h' : k < 0xE0) :
    Partial.Expects ⟨1, 0x80, 0xBF, k - 0xC0⟩ [UInt8.ofNat k] where
  pos := Nat.one_pos
  le_three := (by decide : 1 ≤ 3)
  lo_le := Nat.le_refl 0x80
  hi_le := Nat.le_refl 0xBF
  lo_le_hi := (by decide : 0x80 ≤ 0xBF)
  reads bs := by
    apply utf8CharsFrom_lead
    rw [Lead.ofByte_byte (by omega), if_neg (by omega), if_neg (by omega), if_pos (by omega)]
  encodes n hn _ _ := by
    dsimp only at hn
    have hvalid : n.isValidChar := Or.inl (by omega)
    refine ⟨hvalid, ?_⟩
    rw [encodeChar_eq, toNat_ofNat_of_isValidChar hvalid, if_neg (by omega), if_pos (by omega)]
    have hfirst : n / 64 % 0x20 + 0xc0 = k := by omega
    have hlast : n % 0x40 + 0x80 = 0x80 + n / 64 ^ 0 % 64 := by omega
    rw [hfirst, hlast]
    rfl

theorem Lead.expects_three {k : Nat} (h : 0xE0 ≤ k) (h' : k < 0xF0) : ∃ lo hi,
    Lead.ofByte (UInt8.ofNat k) = .more ⟨2, lo, hi, k - 0xE0⟩ ∧
      Partial.Expects ⟨2, lo, hi, k - 0xE0⟩ [UInt8.ofNat k] := by
  obtain ⟨lo, hi, hlead, hlo, hhi⟩ := Lead.ofByte_three h h'
  refine ⟨lo, hi, hlead, Nat.two_pos, Nat.le_succ 2, ?_, ?_, ?_,
    fun bs => utf8CharsFrom_lead hlead bs, ?_⟩
  · dsimp only
    rw [hlo]
    split <;> omega
  · dsimp only
    rw [hhi]
    split <;> omega
  · dsimp only
    rw [hlo, hhi]
    split <;> split <;> omega
  · intro n hn hlow hhigh
    dsimp only at hn hlow hhigh
    rw [hlo] at hlow
    rw [hhi] at hhigh
    -- The bounds of the second byte keep the character from being written too long and from being a surrogate.
    have hvalid : n.isValidChar := by
      rw [Nat.isValidChar]
      split at hlow <;> split at hhigh <;> omega
    have hbeyond : 0x7ff < n := by split at hlow <;> omega
    refine ⟨hvalid, ?_⟩
    rw [encodeChar_eq, toNat_ofNat_of_isValidChar hvalid, if_neg (by omega), if_neg (by omega),
      if_pos (by omega)]
    have hfirst : n / 4096 % 0x10 + 0xe0 = k := by omega
    have hsecond : n / 64 % 0x40 + 0x80 = 0x80 + n / 64 ^ 1 % 64 := by omega
    have hlast : n % 0x40 + 0x80 = 0x80 + n / 64 ^ 0 % 64 := by omega
    rw [hfirst, hsecond, hlast]
    rfl

theorem Lead.expects_four {k : Nat} (h : 0xF0 ≤ k) (h' : k < 0xF5) : ∃ lo hi,
    Lead.ofByte (UInt8.ofNat k) = .more ⟨3, lo, hi, k - 0xF0⟩ ∧
      Partial.Expects ⟨3, lo, hi, k - 0xF0⟩ [UInt8.ofNat k] := by
  obtain ⟨lo, hi, hlead, hlo, hhi⟩ := Lead.ofByte_four h h'
  refine ⟨lo, hi, hlead, Nat.succ_pos 2, Nat.le_refl 3, ?_, ?_, ?_,
    fun bs => utf8CharsFrom_lead hlead bs, ?_⟩
  · dsimp only
    rw [hlo]
    split <;> omega
  · dsimp only
    rw [hhi]
    split <;> omega
  · dsimp only
    rw [hlo, hhi]
    split <;> split <;> omega
  · intro n hn hlow hhigh
    dsimp only at hn hlow hhigh
    rw [hlo] at hlow
    rw [hhi] at hhigh
    have hbeyond : 0xffff < n := by split at hlow <;> omega
    have hvalid : n.isValidChar := by
      rw [Nat.isValidChar]
      split at hhigh <;> omega
    refine ⟨hvalid, ?_⟩
    rw [encodeChar_eq, toNat_ofNat_of_isValidChar hvalid, if_neg (by omega), if_neg (by omega),
      if_neg (by omega)]
    have hfirst : n / 262144 % 0x08 + 0xf0 = k := by omega
    have hsecond : n / 4096 % 0x40 + 0x80 = 0x80 + n / 64 ^ 2 % 64 := by omega
    have hthird : n / 64 % 0x40 + 0x80 = 0x80 + n / 64 ^ 1 % 64 := by omega
    have hlast : n % 0x40 + 0x80 = 0x80 + n / 64 ^ 0 % 64 := by omega
    rw [hfirst, hsecond, hthird, hlast]
    rfl

/-- The states behind one byte. -/
theorem Lead.expects_of_more {b : UInt8} {p : Partial} (h : Lead.ofByte b = .more p) :
    p.Expects [b] := by
  obtain ⟨k, hk, rfl⟩ : ∃ k < 256, b = UInt8.ofNat k := ⟨b.toNat, b.toNat_lt, UInt8.ofNat_toNat.symm⟩
  by_cases h₂ : k < 0xE0
  · rw [Lead.ofByte_byte hk] at h
    by_cases hascii : k < 0x80
    · rw [if_pos hascii] at h
      cases h
    · by_cases h₁ : k < 0xC2
      · rw [if_neg hascii, if_pos h₁] at h
        cases h
      · rw [if_neg hascii, if_neg h₁, if_pos h₂] at h
        cases h
        exact expects_two (by omega) h₂
  · by_cases h₃ : k < 0xF0
    · obtain ⟨lo, hi, hlead, hp⟩ := expects_three (by omega) h₃
      rw [hlead] at h
      cases h
      exact hp
    · by_cases h₄ : k < 0xF5
      · obtain ⟨lo, hi, hlead, hp⟩ := expects_four (by omega) h₄
        rw [hlead] at h
        cases h
        exact hp
      · rw [Lead.ofByte_byte hk, if_neg (by omega), if_neg (by omega), if_neg (by omega),
          if_neg (by omega), if_neg (by omega), if_neg (by omega), if_neg (by omega), if_neg (by omega),
          if_neg (by omega)] at h
        cases h

namespace Partial.Expects

variable {p : Partial} {part : List UInt8} {b : UInt8}

/-- What was begun can become a character. -/
theorem beginsChar (h : p.Expects part) : BeginsChar part := by
  have hlo := h.lo_le
  have hhi := h.hi_le
  have hle := h.lo_le_hi
  obtain ⟨m, hm⟩ : ∃ m, p.missing = m + 1 := ⟨p.missing - 1, by have := h.pos; omega⟩
  -- The least byte that may come next, and the least bytes behind it.
  have hquot : (64 * p.value + (p.lo.toNat - 0x80)) * 64 ^ m / 64 ^ m =
      64 * p.value + (p.lo.toNat - 0x80) := Nat.mul_div_cancel _ (Nat.pow_pos (by decide))
  have hencodes := h.encodes ((64 * p.value + (p.lo.toNat - 0x80)) * 64 ^ m)
  rw [hm, Nat.add_sub_cancel, Nat.pow_succ, ← Nat.div_div_eq_div_mul, hquot] at hencodes
  obtain ⟨-, hcs⟩ := hencodes (by omega) (by omega) (by omega)
  exact ⟨_, tailBytes (m + 1) _, hcs.symm⟩

/-- A byte that may come next ends the character, if it is the last one that is missing. -/
theorem last (h : p.Expects part) (hm : p.missing = 1) (hb : p.lo ≤ b ∧ b ≤ p.hi) :
    ∃ c, String.utf8EncodeChar c = part ++ [b] ∧
      ∀ bs, utf8CharsFrom (some p) (b :: bs) = some c :: utf8CharsFrom none bs := by
  have hlo := h.lo_le
  have hhi := h.hi_le
  obtain ⟨hlow, hhigh⟩ := hb
  rw [UInt8.le_iff_toNat_le] at hlow hhigh
  have hencodes := h.encodes (64 * p.value + (b.toNat - 0x80))
  rw [hm, Nat.sub_self, Nat.pow_one, Nat.pow_zero, Nat.div_one] at hencodes
  have hdigit : 0x80 + (64 * p.value + (b.toNat - 0x80)) % 64 = b.toNat := by omega
  rw [hdigit] at hencodes
  obtain ⟨-, hcs⟩ := hencodes (by omega) hlow hhigh
  refine ⟨Char.ofNat (64 * p.value + (b.toNat - 0x80)), ?_, fun bs => ?_⟩
  · rw [hcs, tailBytes, Nat.pow_zero, Nat.div_one, hdigit, UInt8.ofNat_toNat]
    rfl
  · rw [utf8CharsFrom, if_pos ⟨UInt8.le_iff_toNat_le.2 hlow, UInt8.le_iff_toNat_le.2 hhigh⟩,
      if_pos (Nat.le_of_eq hm)]

/-- And it leads on, if there are more. -/
theorem next (h : p.Expects part) (hm : 1 < p.missing) (hb : p.lo ≤ b ∧ b ≤ p.hi) :
    ∃ q : Partial, q.Expects (part ++ [b]) ∧
      ∀ bs, utf8CharsFrom (some p) (b :: bs) = utf8CharsFrom (some q) bs := by
  have hlo := h.lo_le
  have hhi := h.hi_le
  have hthree := h.le_three
  have hlow := UInt8.le_iff_toNat_le.1 hb.1
  have hhigh := UInt8.le_iff_toNat_le.1 hb.2
  obtain ⟨m, hsucc⟩ : ∃ m, p.missing = m + 1 := ⟨p.missing - 1, by omega⟩
  have hstep : ∀ bs, utf8CharsFrom (some p) (b :: bs) =
      utf8CharsFrom (some ⟨m, 0x80, 0xBF, 64 * p.value + (b.toNat - 0x80)⟩) bs := by
    intro bs
    rw [utf8CharsFrom, if_pos hb, if_neg (by omega), hsucc, Nat.add_sub_cancel]
  refine ⟨⟨m, 0x80, 0xBF, 64 * p.value + (b.toNat - 0x80)⟩,
    ⟨?_, ?_, Nat.le_refl 0x80, Nat.le_refl 0xBF, (by decide : 0x80 ≤ 0xBF), ?_, ?_⟩, hstep⟩
  · show 0 < m
    omega
  · show m ≤ 3
    omega
  · intro bs
    rw [List.append_assoc, List.singleton_append, h.reads, hstep]
  · intro n hn _ _
    dsimp only at hn ⊢
    -- The value so far is that of the last state, with the digit of the new byte.
    have hencodes := h.encodes n
    rw [hsucc, Nat.add_sub_cancel, Nat.pow_succ, ← Nat.div_div_eq_div_mul, hn] at hencodes
    have hdigit : 0x80 + (64 * p.value + (b.toNat - 0x80)) % 64 = b.toNat := by omega
    rw [hdigit] at hencodes
    obtain ⟨hvalid, hcs⟩ := hencodes (by omega) hlow hhigh
    refine ⟨hvalid, ?_⟩
    rw [hcs, tailBytes, hn, hdigit, UInt8.ofNat_toNat, List.append_cons]

/-- What was begun is replaced if no byte comes that may come next. -/
theorem illFormed (h : p.Expects part) {bs : List UInt8}
    (hbs : ∀ b ∈ bs.head?, ¬(p.lo ≤ b ∧ b ≤ p.hi)) : IllFormed part bs where
  ne_nil := by
    intro hnil
    have hread := h.reads []
    rw [hnil] at hread
    cases hread
  no_char := by
    apply not_prefix_of_replaced
    rw [h.reads]
    cases bs with
    | nil => rfl
    | cons b bs =>
      rw [utf8CharsFrom_of_not_within (hbs b rfl)]
      rfl
  start := Or.inl h.beginsChar
  longest b hb := by
    apply not_beginsChar_of_replaced
    intro rest
    rw [List.append_assoc, h.reads, List.singleton_append, utf8CharsFrom_of_not_within (hbs b hb)]
    rfl

end Partial.Expects

/-- A byte with which no character begins is replaced alone. -/
theorem illFormed_singleton {b : UInt8} (h : Lead.ofByte b = .invalid) (bs : List UInt8) :
    IllFormed [b] bs where
  ne_nil := List.cons_ne_nil b []
  no_char := by
    apply not_prefix_of_replaced
    rw [List.singleton_append, utf8CharsFrom, h]
    rfl
  start := Or.inr rfl
  longest d _ := by
    apply not_beginsChar_of_replaced
    intro rest
    rw [List.append_assoc, List.singleton_append, utf8CharsFrom, h]
    rfl

theorem Lead.encodeChar_of_char {b : UInt8} {c : Char} (h : Lead.ofByte b = .char c) :
    String.utf8EncodeChar c = [b] := by
  obtain ⟨k, hk, rfl⟩ : ∃ k < 256, b = UInt8.ofNat k := ⟨b.toNat, b.toNat_lt, UInt8.ofNat_toNat.symm⟩
  rw [Lead.ofByte_byte hk] at h
  by_cases hascii : k < 0x80
  · rw [if_pos hascii] at h
    cases h
    have hvalid : k.isValidChar := Or.inl (by omega)
    have hnat := toNat_ofNat_of_isValidChar hvalid
    rw [encodeChar_of_ascii (by omega), hnat]
  · -- Every other byte begins more than one, or nothing.
    rw [if_neg hascii] at h
    repeat' split at h
    all_goals cases h

/-! ## The reader -/

/-- What the reader finds, at the front of a character and inside one. -/
theorem repairs_utf8CharsFrom (bs : List UInt8) :
    Repairs bs ((utf8CharsFrom none bs).map (·.getD '\uFFFD')) ∧
    ∀ (p : Partial) (part : List UInt8), p.Expects part →
      Repairs (part ++ bs) ((utf8CharsFrom (some p) bs).map (·.getD '\uFFFD')) := by
  induction bs with
  | nil =>
    refine ⟨.nil, fun p part h => ?_⟩
    exact .replace rfl (h.illFormed nofun) .nil
  | cons b bs ih =>
    obtain ⟨hnone, hsome⟩ := ih
    have hfront : Repairs (b :: bs) ((utf8CharsFrom none (b :: bs)).map (·.getD '\uFFFD')) := by
      rw [utf8CharsFrom]
      cases hlead : Lead.ofByte b with
      | char c =>
        have hc : b :: bs = String.utf8EncodeChar c ++ bs := by
          rw [Lead.encodeChar_of_char hlead, List.singleton_append]
        exact .char hc hnone
      | more p => exact hsome p [b] (Lead.expects_of_more hlead)
      | invalid => exact .replace rfl (illFormed_singleton hlead bs) hnone
    refine ⟨hfront, fun p part h => ?_⟩
    by_cases hb : p.lo ≤ b ∧ b ≤ p.hi
    · by_cases hm : p.missing = 1
      · obtain ⟨c, hc, hread⟩ := h.last hm hb
        rw [hread, List.map_cons, Option.getD_some]
        apply Repairs.char _ hnone
        rw [hc, List.append_assoc, List.singleton_append]
      · obtain ⟨q, hq, hread⟩ := h.next (by have := h.pos; omega) hb
        rw [hread, List.append_cons]
        exact hsome q _ hq
    · -- The byte is read again, as the first of what comes next.
      rw [utf8CharsFrom_of_not_within hb]
      apply Repairs.replace rfl (h.illFormed _) hfront
      intro d hd
      rwa [← Option.some.inj hd]

/-- The reader repairs bytes as the rules say. -/
theorem repairs_iff {bs : List UInt8} {cs : List Char} : Repairs bs cs ↔ cs = ofUtf8Lossy bs := by
  have hlossy : Repairs bs (ofUtf8Lossy bs) := (repairs_utf8CharsFrom bs).1
  constructor
  · exact fun h => h.unique hlossy
  · intro h
    rw [h]
    exact hlossy

/-! ## How much is read -/

/-- Whether only bytes that begin no character may come next. -/
def Trails (s : Option Partial) : Prop := ∀ p ∈ s, 0x80 ≤ p.lo.toNat ∧ p.hi.toNat ≤ 0xBF

/-- How many replacement characters are owed if nothing comes that may come next. -/
def owed (s : Option Partial) : Nat := if s.isSome then 1 else 0

theorem trails_of_more {b : UInt8} {p : Partial} (h : Lead.ofByte b = .more p) : Trails (some p) := by
  intro q hq
  obtain rfl : p = q := Option.some.inj hq
  have hp := Lead.expects_of_more h
  exact ⟨hp.lo_le, hp.hi_le⟩

/-- A single byte gives no more than one character, besides what is owed. -/
theorem length_utf8CharsFrom_byte {bs : List UInt8} {n : Nat}
    (h : ∀ s, Trails s → (utf8CharsFrom s bs).length ≤ owed s + n) (b : UInt8) {s : Option Partial}
    (hs : Trails s) : (utf8CharsFrom s (b :: bs)).length ≤ owed s + (n + 1) := by
  have hstart : (utf8CharsFrom none bs).length ≤ 0 + n := h none nofun
  have hfront : (utf8CharsFrom none (b :: bs)).length ≤ n + 1 := by
    rw [utf8CharsFrom]
    cases hlead : Lead.ofByte b with
    | char c => simp only [List.length_cons]; omega
    | more p =>
      have hmore := h (some p) (trails_of_more hlead)
      simp only [owed, Option.isSome_some, if_true] at hmore ⊢
      omega
    | invalid => simp only [List.length_cons]; omega
  cases s with
  | none => simpa [owed] using hfront
  | some p =>
    by_cases hb : p.lo ≤ b ∧ b ≤ p.hi
    · rw [utf8CharsFrom, if_pos hb]
      dsimp only
      split
      · simp only [List.length_cons]
        omega
      · -- Inside a character a byte only changes what may come next.
        have hmore := h (some ⟨p.missing - 1, 0x80, 0xBF, 64 * p.value + (b.toNat - 0x80)⟩)
          (by rintro q ⟨⟩; exact ⟨Nat.le_refl 0x80, Nat.le_refl 0xBF⟩)
        simp only [owed, Option.isSome_some, if_true] at hmore ⊢
        omega
    · rw [utf8CharsFrom_of_not_within hb]
      simp only [List.length_cons, owed, Option.isSome_some, if_true]
      omega

/-- The first byte of a character may come next nowhere inside another. -/
theorem encodeChar_eq_cons (c : Char) : ∃ b bs, String.utf8EncodeChar c = b :: bs ∧
    (b.toNat < 0x80 ∨ 0xBF < b.toNat) := by
  have hvalid : c.toNat < 0xD800 ∨ 0xDFFF < c.toNat ∧ c.toNat < 0x110000 := c.valid
  have hbyte : ∀ k < 256, k < 0x80 ∨ 0xBF < k →
      (UInt8.ofNat k).toNat < 0x80 ∨ 0xBF < (UInt8.ofNat k).toNat := by
    intro k hk h
    rwa [UInt8.toNat_ofNat_of_lt' hk]
  rw [encodeChar_eq]
  split
  · exact ⟨_, _, rfl, hbyte _ (by omega) (by omega)⟩
  · split
    · exact ⟨_, _, rfl, hbyte _ (by omega) (by omega)⟩
    · split
      · exact ⟨_, _, rfl, hbyte _ (by omega) (by omega)⟩
      · exact ⟨_, _, rfl, hbyte _ (by omega) (by omega)⟩

/-- The bytes of a character give one character, besides what is owed. -/
theorem length_utf8CharsFrom_char (c : Char) (bs : List UInt8) {s : Option Partial} (hs : Trails s) :
    (utf8CharsFrom s (String.utf8EncodeChar c ++ bs)).length =
      owed s + ((utf8CharsFrom none bs).length + 1) := by
  have hfront := congrArg List.length (utf8CharsFrom_encodeChar c bs)
  cases s with
  | none => rw [hfront, List.length_cons, owed, if_neg (by decide), Nat.zero_add]
  | some p =>
    obtain ⟨b, rest, hc, hb⟩ := encodeChar_eq_cons c
    obtain ⟨hlo, hhi⟩ := hs p rfl
    have hnot : ¬(p.lo ≤ b ∧ b ≤ p.hi) := by
      rw [UInt8.le_iff_toNat_le, UInt8.le_iff_toNat_le]
      omega
    rw [hc, List.cons_append] at hfront ⊢
    rw [utf8CharsFrom_of_not_within hnot, List.length_cons, hfront, List.length_cons, owed,
      if_pos (by rfl), Nat.add_comm]

end RequestRouting.Text
