import RequestRouting.Proofs.Path.Decoding

/-!
Which paths are keys, and what becomes of a key that is normalized again.

The keys are the paths that begin with one slash, do not end with one, and have no question mark, and the root. A key
is its own key unless an escape is left in it; then its key is shorter, since the reader gives one character for
each character of the path and for each byte of an escape, which takes three. So normalizing again and again comes to
an end (`normalize_again`).
-/

namespace RequestRouting.Path

open Text

/-! ## Escapes in a path -/

/-- Whether a path begins with a percent sign and two hexadecimal digits. -/
def BeginsEscape (cs : List Char) : Prop :=
  ∃ hi lo rest, cs = '%' :: hi :: lo :: rest ∧ isHexDigit hi ∧ isHexDigit lo

/-- Whether an escape stands somewhere in a path. -/
def HasEscape (cs : List Char) : Prop := ∃ front rest, cs = front ++ rest ∧ BeginsEscape rest

theorem hasEscape_cons {c : Char} {cs : List Char} :
    HasEscape (c :: cs) ↔ BeginsEscape (c :: cs) ∨ HasEscape cs := by
  constructor
  · intro ⟨front, rest, hcs, hrest⟩
    cases front with
    | nil => exact Or.inl (hcs ▸ hrest)
    | cons d front => exact Or.inr ⟨front, rest, (List.cons.inj hcs).2, hrest⟩
  · rintro (h | ⟨front, rest, hcs, hrest⟩)
    · exact ⟨[], c :: cs, rfl, h⟩
    · exact ⟨c :: front, rest, congrArg (c :: ·) hcs, hrest⟩

/-- A byte of a hexadecimal digit is that of a character in ASCII. -/
theorem exists_char_of_utf8_eq_cons {cs : List Char} {b : UInt8} {bs : List UInt8}
    (h : utf8 cs = b :: bs) (hb : (hexDigit? b.toNat).isSome) :
    ∃ c rest, cs = c :: rest ∧ utf8 rest = bs ∧ isHexDigit c := by
  obtain ⟨v, hv⟩ := Option.isSome_iff_exists.1 hb
  have hle : b.toNat ≤ 0x7f := le_of_hexDigit? hv
  cases cs with
  | nil => cases h
  | cons c rest =>
    have hbytes : String.utf8EncodeChar c ++ utf8 rest = b :: bs := h
    by_cases hc : c.toNat ≤ 0x7f
    · rw [encodeChar_of_ascii hc, List.singleton_append] at hbytes
      obtain ⟨hfirst, hrest⟩ := List.cons.inj hbytes
      refine ⟨c, rest, rfl, hrest, ?_⟩
      rw [isHexDigit, ← UInt8.toNat_ofNat_of_lt' (show c.toNat < 256 by omega), hfirst]
      exact hb
    · -- The bytes of any other character are too great.
      cases hcode : String.utf8EncodeChar c with
      | nil => exact absurd hcode String.utf8EncodeChar_ne_nil
      | cons d ds =>
        have hd : 0x80 ≤ d.toNat := le_of_mem_encodeChar (by omega) (hcode ▸ List.mem_cons_self)
        rw [hcode, List.cons_append] at hbytes
        rw [(List.cons.inj hbytes).1] at hd
        omega

theorem beginsEscape_of_utf8 {cs : List Char} (h : Text.BeginsEscape (utf8 ('%' :: cs))) :
    BeginsEscape ('%' :: cs) := by
  obtain ⟨hi, lo, rest, hbytes, hhi, hlo⟩ := h
  have hbehind : utf8 cs = hi :: lo :: rest := (List.cons.inj hbytes).2
  obtain ⟨c, cs, rfl, hrest, hc⟩ := exists_char_of_utf8_eq_cons hbehind hhi
  obtain ⟨d, ds, rfl, -, hd⟩ := exists_char_of_utf8_eq_cons hrest hlo
  exact ⟨c, d, ds, rfl, hc, hd⟩

theorem percentDecode_of_beginsEscape {cs : List Char} (h : BeginsEscape cs) :
    ∃ b rest, rest.length + 3 = cs.length ∧
      percentDecode (utf8 cs) = b :: percentDecode (utf8 rest) := by
  obtain ⟨hi, lo, rest, rfl, hhi, hlo⟩ := h
  obtain ⟨x, hx⟩ := Option.isSome_iff_exists.1 hhi
  obtain ⟨y, hy⟩ := Option.isSome_iff_exists.1 hlo
  have hread := percentDecode_utf8_escape hx hy rest []
  rw [List.append_nil, List.append_nil] at hread
  exact ⟨UInt8.ofNat (16 * x + y), rest, rfl, hread⟩

/-- A character that begins no escape is kept. -/
theorem percentDecode_of_not_beginsEscape {c : Char} {cs : List Char}
    (h : ¬BeginsEscape (c :: cs)) :
    percentDecode (utf8 (c :: cs)) = String.utf8EncodeChar c ++ percentDecode (utf8 cs) := by
  by_cases hc : c = '%'
  · subst hc
    exact percentDecode_of_not_begins fun hbytes => h (beginsEscape_of_utf8 hbytes)
  · exact percentDecode_append (ne_of_mem_encodeChar hc) (utf8 cs)

/-! ## The length of what is decoded -/

/-- Decoding gives no more characters than there were, and less if there was an escape. -/
theorem length_utf8CharsFrom_percentDecode (cs : List Char) {s : Option Partial} (hs : Trails s) :
    (utf8CharsFrom s (percentDecode (utf8 cs))).length ≤ owed s + cs.length ∧
    (HasEscape cs →
      (utf8CharsFrom s (percentDecode (utf8 cs))).length < owed s + cs.length) := by
  induction hn : cs.length using Nat.strongRecOn generalizing cs s with
  | ind n ih =>
    by_cases hbegins : BeginsEscape cs
    · -- One byte stands for the three characters of the escape.
      obtain ⟨b, rest, hlength, hdecode⟩ := percentDecode_of_beginsEscape hbegins
      have hrest : ∀ s, Trails s →
          (utf8CharsFrom s (percentDecode (utf8 rest))).length ≤ owed s + rest.length :=
        fun s hs => (ih rest.length (by omega) rest hs rfl).1
      have hbyte := length_utf8CharsFrom_byte hrest b hs
      rw [hdecode]
      exact ⟨by omega, fun _ => by omega⟩
    · cases cs with
      | nil =>
        refine ⟨?_, fun ⟨front, rest, hcs, hrest⟩ => ?_⟩
        · cases s with
          | none => exact Nat.zero_le _
          | some p => exact Nat.le_add_right 1 _
        · rw [(List.append_eq_nil_iff.1 hcs.symm).2] at hrest
          exact absurd hrest hbegins
      | cons c cs =>
        rw [percentDecode_of_not_beginsEscape hbegins, length_utf8CharsFrom_char c _ hs, hasEscape_cons]
        rw [List.length_cons] at hn
        obtain ⟨hle, hlt⟩ := ih cs.length (by omega) cs (s := none) nofun rfl
        simp only [owed, Option.isSome_none, Bool.false_eq_true, if_false] at hle hlt
        refine ⟨by omega, fun hescape => ?_⟩
        have := hlt (hescape.resolve_left hbegins)
        omega

theorem length_decode_lt {cs : List Char} (h : HasEscape cs) : (decode cs).length < cs.length := by
  have hlength := (length_utf8CharsFrom_percentDecode cs (s := none) nofun).2 h
  rw [decode_eq_lossy, ofUtf8Lossy, List.length_map, utf8Chars]
  simpa [owed] using hlength

theorem decode_of_not_hasEscape {cs : List Char} (h : ¬HasEscape cs) : decode cs = cs := by
  have hbytes : percentDecode (utf8 cs) = utf8 cs := by
    induction cs with
    | nil => rfl
    | cons c cs ih =>
      rw [hasEscape_cons, not_or] at h
      rw [percentDecode_of_not_beginsEscape h.1, ih h.2]
      rfl
  rw [decode_eq_lossy, hbytes, ofUtf8Lossy_utf8]

/-! ## Keys -/

/-- Whether a path is a key: it is the root, or has one slash at its front, none at its end, and no question mark. -/
def IsRootOrKey (path : String) : Prop := path = "/" ∨ IsKey path.toList

theorem isRootOrKey_normalize (raw : String) : IsRootOrKey (normalize raw) := by
  rw [IsRootOrKey, normalize_eq]
  generalize htext : (decode raw.toList).takeWhile (· != '?') = text
  obtain ⟨hhead, hlast, n, m, hslashes⟩ := betweenSlashes_trimSlashes text
  have hquery : '?' ∉ trimSlashes text := by
    intro hmem
    have htake : '?' ∈ text := by
      rw [hslashes]
      exact List.mem_append_right _ (List.mem_append_left _ hmem)
    rw [← htext] at htake
    exact absurd (List.mem_takeWhile_imp htake) (by decide)
  cases hinner : trimSlashes text with
  | nil => exact Or.inl rfl
  | cons c cs =>
    rw [hinner] at hhead hlast hquery
    right
    rw [String.toList_ofList]
    refine ⟨rfl, hhead, ?_, ?_⟩
    · rwa [List.getLast?_cons_cons]
    · intro hmem
      exact hquery ((List.mem_cons.1 hmem).resolve_left (by decide))

/-- Every key can be written with its percent signs escaped. -/
theorem exists_encodes (path : List Char) : ∃ raw, Encodes path raw := by
  induction path with
  | nil => exact ⟨[], .nil⟩
  | cons c path ih =>
    obtain ⟨raw, hraw⟩ := ih
    by_cases hc : c = '%'
    · subst hc
      have hpercent : Escapes (String.utf8EncodeChar '%') ['%', '2', '5'] := .cons rfl rfl .nil
      exact ⟨_, .escape hpercent hraw⟩
    · exact ⟨_, .keep hc hraw⟩

theorem exists_normalize_eq {path : String} (h : IsRootOrKey path) : ∃ raw, normalize raw = path := by
  rcases h with rfl | hkey
  · exact ⟨"/", rfl⟩
  · obtain ⟨raw, hraw⟩ := exists_encodes path.toList
    refine ⟨String.ofList raw, normalize_encoded hkey ?_⟩
    rwa [String.toList_ofList]

/-- A key without a percent sign is taken for one at once. -/
theorem IsRootOrKey.isNormalized_iff {path : String} (h : IsRootOrKey path) :
    isNormalized path ↔ '%' ∉ path.toList := by
  rw [Path.isNormalized_iff]
  constructor
  · rintro (rfl | ⟨-, hpercent⟩)
    · decide
    · exact hpercent
  · exact fun hpercent => h.imp_right fun hkey => ⟨hkey, hpercent⟩

theorem IsRootOrKey.normalize_of_not_hasEscape {path : String} (h : IsRootOrKey path)
    (hescape : ¬HasEscape path.toList) : normalize path = path := by
  rcases h with rfl | hkey
  · rfl
  · rw [normalize_eq, decode_of_not_hasEscape hescape, takeWhile_of_not_mem hkey.query,
      hkey.trimSlashes_eq, String.ofList_toList]

theorem length_trimSlashes_le (cs : List Char) : (trimSlashes cs).length ≤ cs.length := by
  obtain ⟨-, -, n, m, hcs⟩ := betweenSlashes_trimSlashes cs
  have hlength := congrArg List.length hcs
  simp only [List.length_append] at hlength
  omega

/-- The slash at the front of a key is put back, so what is left out counts behind it. -/
theorem IsRootOrKey.length_normalize_lt {path : String} (h : IsRootOrKey path)
    (hescape : HasEscape path.toList) : (normalize path).length < path.length := by
  obtain ⟨cs, hcs⟩ : ∃ cs, path.toList = '/' :: cs := by
    rcases h with rfl | hkey
    · exact ⟨[], rfl⟩
    · have hhead := hkey.head
      cases hpath : path.toList with
      | nil => rw [hpath] at hhead; cases hhead
      | cons c cs =>
        rw [hpath] at hhead
        exact ⟨cs, by rw [Option.some.inj hhead]⟩
  rw [hcs, hasEscape_cons] at hescape
  have hbehind : HasEscape cs := by
    apply hescape.resolve_left
    intro ⟨hi, lo, rest, heq, _⟩
    exact absurd (List.cons.inj heq).1 (by decide)
  have hslash : Encodes ['/'] ['/'] := .keep (by decide) .nil
  have hdecode : decode ('/' :: cs) = '/' :: decode cs := hslash.decode_append cs
  have hkeep : ('/' :: decode cs).takeWhile (· != '?') = '/' :: (decode cs).takeWhile (· != '?') :=
    List.takeWhile_cons_of_pos (by decide)
  have htrim : ∀ text, trimSlashes ('/' :: text) = trimSlashes text := by
    intro text
    rw [trimSlashes, List.dropWhile_cons_of_pos (by decide)]
    rfl
  rw [normalize_eq, hcs, hdecode, hkeep, htrim, ← String.length_toList, ← String.length_toList,
    String.toList_ofList, hcs, List.length_cons, List.length_cons]
  -- Neither cutting nor trimming adds anything.
  have hcut := (List.takeWhile_prefix (l := decode cs) (· != '?')).length_le
  have htrimmed := length_trimSlashes_le ((decode cs).takeWhile (· != '?'))
  have hdecoded := length_decode_lt hbehind
  omega

theorem exists_fixed (path : String) : ∃ n, normalize (normalize^[n] path) = normalize^[n] path := by
  suffices hkey : ∀ key, IsRootOrKey key → ∃ n, normalize (normalize^[n] key) = normalize^[n] key by
    obtain ⟨n, hn⟩ := hkey (normalize path) (isRootOrKey_normalize path)
    exact ⟨n + 1, hn⟩
  intro key h
  -- Each round in which the key changes makes it shorter.
  induction hn : key.length using Nat.strongRecOn generalizing key with
  | ind k ih =>
    by_cases hescape : HasEscape key.toList
    · have hlt := h.length_normalize_lt hescape
      obtain ⟨n, hfixed⟩ := ih _ (by omega) (normalize key) (isRootOrKey_normalize key) rfl
      exact ⟨n + 1, hfixed⟩
    · exact ⟨0, h.normalize_of_not_hasEscape hescape⟩

/-- The keys are the root and the paths that begin with one slash, do not end with one, and have no question mark.
Normalizing a key changes it just when an escape is left in it, and then makes it shorter, so that some round is the
last to change anything. -/
theorem normalize_again :
    (∀ path, (∃ raw, normalize raw = path) ↔ IsRootOrKey path) ∧
    ∀ raw, (isNormalized (normalize raw) ↔ '%' ∉ (normalize raw).toList) ∧
      (normalize (normalize raw) = normalize raw ↔ ¬HasEscape (normalize raw).toList) ∧
      (HasEscape (normalize raw).toList →
        (normalize (normalize raw)).length < (normalize raw).length) ∧
      ∃ n, normalize (normalize^[n] raw) = normalize^[n] raw := by
  refine ⟨fun path => ⟨?_, exists_normalize_eq⟩, fun raw => ?_⟩
  · rintro ⟨raw, rfl⟩
    exact isRootOrKey_normalize raw
  · have hkey := isRootOrKey_normalize raw
    refine ⟨hkey.isNormalized_iff, ⟨fun hfixed hescape => ?_, hkey.normalize_of_not_hasEscape⟩,
      hkey.length_normalize_lt, exists_fixed raw⟩
    have hlt := hkey.length_normalize_lt hescape
    rw [hfixed] at hlt
    exact absurd hlt (Nat.lt_irrefl _)

/-- A percent sign that was escaped makes an escape with what follows it. -/
theorem normalize_again_twice : normalize "a%2541/" = "/a%41" ∧ HasEscape "/a%41".toList ∧
    normalize "/a%41" = "/aA" ∧ (normalize "/a%41").length < "/a%41".length := by
  have hfirst : normalize "a%2541/" = "/a%41" := by decide +kernel
  have hescape : HasEscape "/a%41".toList := ⟨['/', 'a'], ['%', '4', '1'], rfl, '4', '1', [], rfl, rfl, rfl⟩
  have hshorter := (normalize_again.2 "a%2541/").2.2.1
  rw [hfirst] at hshorter
  exact ⟨hfirst, hescape, by decide +kernel, hshorter hescape⟩

end RequestRouting.Path
