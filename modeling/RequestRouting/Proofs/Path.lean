import Mathlib.Data.List.TakeWhile
import RequestRouting.Path
import RequestRouting.Proofs.Text.Utf8

/-!
Encoded request paths.

A path may be sent with any of its characters escaped, only a percent sign must be. Decoding gives back the
path, whatever was escaped (`Encodes.decode_eq`), and a path that begins with one slash and has nothing to be
cut off is its own key (`normalize_encoded`).
-/

namespace RequestRouting.Path

open Text

/-! ## Escapes -/

/-- Whether characters write bytes as percent escapes, with the digits in either case. -/
inductive Escapes : List UInt8 → List Char → Prop
  | nil : Escapes [] []
  | cons {b bs hi lo cs} : hexDigit? hi.toNat = some (b.toNat / 16) →
      hexDigit? lo.toNat = some (b.toNat % 16) → Escapes bs cs →
      Escapes (b :: bs) ('%' :: hi :: lo :: cs)

/-- Whether characters write a path, each of its characters kept or escaped. -/
inductive Encodes : List Char → List Char → Prop
  | nil : Encodes [] []
  | keep {c path raw} : c ≠ '%' → Encodes path raw → Encodes (c :: path) (c :: raw)
  | escape {c path escapes raw} : Escapes (String.utf8EncodeChar c) escapes → Encodes path raw →
      Encodes (c :: path) (escapes ++ raw)

theorem le_of_hexDigit? {code v : Nat} (h : hexDigit? code = some v) : code ≤ 0x7f := by
  unfold hexDigit? at h
  by_contra hgt
  rw [if_neg (by omega), if_neg (by omega), if_neg (by omega)] at h
  cases h

/-- The bytes of an escape are read as the byte that its digits write. -/
theorem percentDecode_utf8_escape {hi lo : Char} {x y : Nat} (hhi : hexDigit? hi.toNat = some x)
    (hlo : hexDigit? lo.toNat = some y) (cs : List Char) (rest : List UInt8) :
    percentDecode (utf8 ('%' :: hi :: lo :: cs) ++ rest) =
      UInt8.ofNat (16 * x + y) :: percentDecode (utf8 cs ++ rest) := by
  have hhi' : hi.toNat < 256 := by have := le_of_hexDigit? hhi; omega
  have hlo' : lo.toNat < 256 := by have := le_of_hexDigit? hlo; omega
  have hbytes : utf8 ('%' :: hi :: lo :: cs) =
      0x25 :: UInt8.ofNat hi.toNat :: UInt8.ofNat lo.toNat :: utf8 cs := by
    simp only [utf8, List.flatMap_cons, encodeChar_of_ascii (le_of_hexDigit? hhi),
      encodeChar_of_ascii (le_of_hexDigit? hlo)]
    rfl
  have hbyte : hexByte? (UInt8.ofNat hi.toNat) (UInt8.ofNat lo.toNat) = some (UInt8.ofNat (16 * x + y)) := by
    rw [hexByte?, UInt8.toNat_ofNat_of_lt' hhi', UInt8.toNat_ofNat_of_lt' hlo', hhi, hlo]
  rw [hbytes]
  exact percentDecode_escape hbyte _

theorem Escapes.percentDecode_eq {bs : List UInt8} {escapes : List Char} (h : Escapes bs escapes)
    (rest : List UInt8) : percentDecode (utf8 escapes ++ rest) = bs ++ percentDecode rest := by
  induction h with
  | nil => rfl
  | @cons b bs hi lo cs hhi hlo _ ih =>
    rw [percentDecode_utf8_escape hhi hlo, ih, Nat.div_add_mod, UInt8.ofNat_toNat, List.cons_append]

theorem percentDecode_append {bs : List UInt8} (h : ∀ b ∈ bs, b ≠ 0x25) (rest : List UInt8) :
    percentDecode (bs ++ rest) = bs ++ percentDecode rest := by
  induction bs with
  | nil => rfl
  | cons b bs ih =>
    rw [List.cons_append, percentDecode_cons_of_ne (h b List.mem_cons_self),
      ih fun d hd => h d (List.mem_cons_of_mem b hd)]
    rfl

theorem ne_of_mem_encodeChar {c : Char} (hc : c ≠ '%') :
    ∀ b ∈ String.utf8EncodeChar c, b ≠ 0x25 := by
  intro b hb heq
  by_cases hascii : c.toNat ≤ 0x7f
  · rw [encodeChar_of_ascii hascii, List.mem_singleton] at hb
    have hnat : c.toNat = 0x25 := by
      rw [← UInt8.toNat_ofNat_of_lt' (show c.toNat < 256 by omega), ← hb, heq]
      rfl
    exact hc (Char.toNat_inj.1 hnat)
  · -- A percent sign is in ASCII, and none of these bytes is.
    have hle := le_of_mem_encodeChar (by omega) hb
    rw [heq] at hle
    exact absurd hle (by decide)

theorem encodes_self {path : List Char} (h : '%' ∉ path) : Encodes path path := by
  induction path with
  | nil => exact .nil
  | cons c path ih =>
    exact .keep (fun hc => h (hc ▸ List.mem_cons_self)) (ih fun hmem => h (List.mem_cons_of_mem c hmem))

namespace Encodes

variable {path raw : List Char}

theorem percentDecode_append (h : Encodes path raw) (rest : List UInt8) :
    percentDecode (utf8 raw ++ rest) = utf8 path ++ percentDecode rest := by
  induction h with
  | nil => rfl
  | @keep c path raw hc _ ih =>
    show percentDecode ((String.utf8EncodeChar c ++ utf8 raw) ++ rest) = _
    rw [List.append_assoc, Path.percentDecode_append (ne_of_mem_encodeChar hc), ih, ← List.append_assoc]
    rfl
  | @escape c path escapes raw hc _ ih =>
    rw [utf8, List.flatMap_append]
    show percentDecode ((utf8 escapes ++ utf8 raw) ++ rest) = _
    rw [List.append_assoc, hc.percentDecode_eq, ih, ← List.append_assoc]
    rfl

theorem percentDecode_eq (h : Encodes path raw) : percentDecode (utf8 raw) = utf8 path := by
  have happend := h.percentDecode_append []
  rwa [List.append_nil, show percentDecode [] = [] from rfl, List.append_nil] at happend

/-- What has no percent sign has no escapes. -/
theorem eq_of_not_mem (h : Encodes path raw) (hraw : '%' ∉ raw) : raw = path := by
  induction h with
  | nil => rfl
  | keep _ _ ih => rw [ih fun hmem => hraw (List.mem_cons_of_mem _ hmem)]
  | @escape c path escapes raw hc _ _ =>
    cases hbytes : String.utf8EncodeChar c with
    | nil => exact absurd hbytes String.utf8EncodeChar_ne_nil
    | cons b bs =>
      rw [hbytes] at hc
      cases hc
      exact absurd List.mem_cons_self hraw

theorem decode_eq (h : Encodes path raw) : decode raw = path := by
  unfold decode
  by_cases hraw : '%' ∈ raw
  · rw [if_pos (List.contains_iff_mem.2 hraw), h.percentDecode_eq, ofUtf8Lossy_utf8]
  · rw [if_neg (fun hc => hraw (List.contains_iff_mem.1 hc)), h.eq_of_not_mem hraw]

end Encodes

/-! ## Keys -/

/-- A path that begins with one slash, does not end with one, and has no question mark. -/
structure IsKey (path : List Char) : Prop where
  head : path.head? = some '/'
  second : path[1]? ≠ some '/'
  last : path.getLast? ≠ some '/'
  query : '?' ∉ path

theorem IsKey.trimSlashes_eq {path : List Char} (h : IsKey path) :
    '/' :: trimSlashes path = path := by
  obtain ⟨hhead, hsecond, hlast, -⟩ := h
  rcases path with _ | ⟨d, rest⟩
  · cases hhead
  obtain rfl : d = '/' := Option.some.inj hhead
  -- There is more than the slash, since the path does not end with it.
  rcases rest with _ | ⟨c, cs⟩
  · exact absurd rfl hlast
  have hc : ¬isSlash c := by simpa [isSlash] using hsecond
  have hstart : ('/' :: c :: cs).dropWhile isSlash = c :: cs := by
    rw [List.dropWhile_cons_of_pos rfl, List.dropWhile_cons_of_neg hc]
  have hend : (c :: cs).reverse.dropWhile isSlash = (c :: cs).reverse := by
    obtain ⟨front, d, hcs⟩ := (List.eq_nil_or_concat (c :: cs)).resolve_left (List.cons_ne_nil c cs)
    rw [List.concat_eq_append] at hcs
    have hd : ¬isSlash d := by
      rw [hcs] at hlast
      simpa [isSlash, List.getLast?_cons] using hlast
    rw [hcs, List.reverse_concat, List.dropWhile_cons_of_neg hd]
  rw [trimSlashes, hstart, hend, List.reverse_reverse]

/-- The key of an encoded path is the path. -/
theorem normalize_encoded {path raw : String} (hkey : IsKey path.toList)
    (h : Encodes path.toList raw.toList) : normalize raw = path := by
  have hdecode := h.decode_eq
  unfold normalize
  by_cases hraw : isNormalized raw
  · -- What is taken for normal has no percent sign, so nothing in it was escaped.
    rw [if_pos hraw]
    have hpercent : '%' ∉ raw.toList := by
      intro hmem
      rw [isNormalized, Bool.or_eq_true, beq_iff_eq, Bool.and_eq_true, List.all_eq_true] at hraw
      rcases hraw with hslash | ⟨-, hall⟩
      · rw [hslash] at hmem
        exact absurd hmem (by decide)
      · exact absurd (hall '%' hmem) (by decide)
    exact String.toList_inj.1 (h.eq_of_not_mem hpercent)
  · have hquery : path.toList.takeWhile (· != '?') = path.toList := by
      rw [List.takeWhile_eq_self_iff]
      intro c hc
      simpa using fun heq : c = '?' => hkey.query (heq ▸ hc)
    rw [if_neg hraw, hdecode, hquery, hkey.trimSlashes_eq, String.ofList_toList]

end RequestRouting.Path
