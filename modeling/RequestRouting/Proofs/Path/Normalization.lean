import RequestRouting.Proofs.Path

/-!
How the key of a request path comes about.

The shortcuts for a path that is its own key and for one without escapes change nothing, so the key is always
what is left of the decoded path before the first question mark between slashes (`normalize_eq`). Decoding goes
from left to right, and what follows does not change what was decoded before it (`Encodes.decode_append`).
Hence slashes around a path and a query behind it leave no trace, whatever is escaped and whatever the query
holds (`normalize_surrounded`).
-/

namespace RequestRouting.Path

open Text

/-! ## Decoding -/

/-- A path without a percent sign need not be looked through for escapes. -/
theorem decode_eq_lossy (cs : List Char) : decode cs = ofUtf8Lossy (percentDecode (utf8 cs)) := by
  unfold decode
  by_cases h : '%' ∈ cs
  · rw [if_pos (List.contains_iff_mem.2 h)]
  · rw [if_neg (fun hc => h (List.contains_iff_mem.1 hc)), (encodes_self h).percentDecode_eq,
      ofUtf8Lossy_utf8]

namespace Encodes

variable {path path' raw raw' : List Char}

theorem append (h : Encodes path raw) (h' : Encodes path' raw') :
    Encodes (path ++ path') (raw ++ raw') := by
  induction h with
  | nil => exact h'
  | keep hc _ ih => exact .keep hc ih
  | escape hc _ ih =>
    rw [List.append_assoc]
    exact .escape hc ih

theorem decode_append (h : Encodes path raw) (rest : List Char) :
    decode (raw ++ rest) = path ++ decode rest := by
  have hbytes : utf8 (raw ++ rest) = utf8 raw ++ utf8 rest := List.flatMap_append
  rw [decode_eq_lossy, hbytes, h.percentDecode_append, ofUtf8Lossy_append, ← decode_eq_lossy]

end Encodes

/-! ## Slashes -/

/-- Whether characters write slashes, each of them kept or escaped. -/
inductive Slashes : List Char → Prop
  | nil : Slashes []
  | keep {cs} : Slashes cs → Slashes ('/' :: cs)
  | capital {cs} : Slashes cs → Slashes ('%' :: '2' :: 'F' :: cs)
  | small {cs} : Slashes cs → Slashes ('%' :: '2' :: 'f' :: cs)

theorem Slashes.encodes {cs : List Char} (h : Slashes cs) :
    ∃ n, Encodes (List.replicate n '/') cs := by
  induction h with
  | nil => exact ⟨0, .nil⟩
  | keep _ ih =>
    obtain ⟨n, hn⟩ := ih
    exact ⟨n + 1, .keep (by decide) hn⟩
  | capital _ ih =>
    obtain ⟨n, hn⟩ := ih
    have hslash : Escapes (String.utf8EncodeChar '/') ['%', '2', 'F'] := .cons rfl rfl .nil
    exact ⟨n + 1, .escape hslash hn⟩
  | small _ ih =>
    obtain ⟨n, hn⟩ := ih
    have hslash : Escapes (String.utf8EncodeChar '/') ['%', '2', 'f'] := .cons rfl rfl .nil
    exact ⟨n + 1, .escape hslash hn⟩

theorem dropWhile_slashes (n : Nat) (cs : List Char) :
    (List.replicate n '/' ++ cs).dropWhile isSlash = cs.dropWhile isSlash := by
  apply List.dropWhile_append_of_pos
  intro c hc
  rw [(List.mem_replicate.1 hc).2]
  rfl

theorem dropWhile_of_head {cs : List Char} (h : cs.head? ≠ some '/') : cs.dropWhile isSlash = cs := by
  cases cs with
  | nil => rfl
  | cons c cs => exact List.dropWhile_cons_of_neg (by simpa [isSlash] using h)

/-- A text that neither begins nor ends with a slash is what is left of it between slashes. -/
theorem trimSlashes_between {cs : List Char} (hhead : cs.head? ≠ some '/')
    (hlast : cs.getLast? ≠ some '/') (n m : Nat) :
    trimSlashes (List.replicate n '/' ++ (cs ++ List.replicate m '/')) = cs := by
  rw [trimSlashes, dropWhile_slashes]
  by_cases hcs : cs = []
  · -- There are slashes only, and the first pass takes all of them.
    have hnone : (List.replicate m '/').dropWhile isSlash = [] := by
      simpa using dropWhile_slashes m []
    rw [hcs, List.nil_append, hnone]
    rfl
  · have hstart : (cs ++ List.replicate m '/').head? ≠ some '/' := by
      rwa [List.head?_append, List.head?_eq_some_head hcs, Option.some_or, ← List.head?_eq_some_head hcs]
    rw [dropWhile_of_head hstart, List.reverse_append, List.reverse_replicate, dropWhile_slashes,
      dropWhile_of_head (by rwa [List.head?_reverse]), List.reverse_reverse]

/-! ## Keys -/

theorem isNormalized_iff {path : String} :
    isNormalized path ↔ path = "/" ∨ IsKey path.toList ∧ '%' ∉ path.toList := by
  have hslash : path.toList = ['/'] ↔ path = "/" := by
    rw [← String.toList_inj]
    rfl
  simp only [isNormalized, Bool.or_eq_true, Bool.and_eq_true, beq_iff_eq, bne_iff_ne, List.all_eq_true,
    hslash]
  constructor
  · rintro (h | ⟨⟨⟨hhead, hsecond⟩, hlast⟩, hall⟩)
    · exact Or.inl h
    · exact Or.inr ⟨⟨hhead, hsecond, hlast, fun hc => (hall _ hc).2 rfl⟩, fun hc => (hall _ hc).1 rfl⟩
  · rintro (h | ⟨⟨hhead, hsecond, hlast, hquery⟩, hpercent⟩)
    · exact Or.inl h
    · exact Or.inr ⟨⟨⟨hhead, hsecond⟩, hlast⟩,
        fun c hc => ⟨fun heq => hpercent (heq ▸ hc), fun heq => hquery (heq ▸ hc)⟩⟩

theorem takeWhile_of_not_mem {cs : List Char} (h : '?' ∉ cs) : cs.takeWhile (· != '?') = cs := by
  rw [List.takeWhile_eq_self_iff]
  intro c hc
  simpa using fun heq : c = '?' => h (heq ▸ hc)

theorem takeWhile_query {cs : List Char} (h : '?' ∉ cs) (rest : List Char) :
    (cs ++ '?' :: rest).takeWhile (· != '?') = cs := by
  rw [List.takeWhile_append, takeWhile_of_not_mem h, if_pos rfl, List.takeWhile_cons_of_neg (by decide),
    List.append_nil]

/-- A path that is its own key would be no other if it were looked through. -/
theorem normalize_eq (path : String) : normalize path =
    String.ofList ('/' :: trimSlashes ((decode path.toList).takeWhile (· != '?'))) := by
  unfold normalize
  by_cases h : isNormalized path
  · rw [if_pos h]
    rcases isNormalized_iff.1 h with hslash | ⟨hkey, hpercent⟩
    · rw [hslash]
      rfl
    · rw [(encodes_self hpercent).decode_eq, takeWhile_of_not_mem hkey.query,
        hkey.trimSlashes_eq, String.ofList_toList]
  · rw [if_neg h]

/-- Slashes around a path and a query behind it leave no trace in the key, whatever is escaped in the path and
whatever follows the question mark, which may be escaped too. -/
theorem normalize_surrounded {path raw front back : String} (hquery : '?' ∉ path.toList)
    (hhead : path.toList.head? ≠ some '/') (hlast : path.toList.getLast? ≠ some '/')
    (hraw : Encodes path.toList raw.toList) (hfront : Slashes front.toList)
    (hback : Slashes back.toList) (query : String) :
    normalize (front ++ raw ++ back) = "/" ++ path ∧
    normalize (front ++ raw ++ back ++ "?" ++ query) = "/" ++ path ∧
    normalize (front ++ raw ++ back ++ "%3F" ++ query) = "/" ++ path := by
  obtain ⟨n, hn⟩ := hfront.encodes
  obtain ⟨m, hm⟩ := hback.encodes
  have hwhole : Encodes (List.replicate n '/' ++ (path.toList ++ List.replicate m '/'))
      (front ++ raw ++ back).toList := by
    rw [String.toList_append, String.toList_append, List.append_assoc]
    exact hn.append (hraw.append hm)
  have hmark : Encodes ['?'] "?".toList := .keep (by decide) .nil
  have hescape : Escapes (String.utf8EncodeChar '?') ['%', '3', 'F'] := .cons rfl rfl .nil
  have hmark' : Encodes ['?'] "%3F".toList := .escape hescape .nil
  have hcut : '?' ∉ List.replicate n '/' ++ (path.toList ++ List.replicate m '/') := by
    simp [List.mem_replicate, hquery]
  have hkey : String.ofList ('/' :: path.toList) = "/" ++ path := by
    rw [← String.toList_inj, String.toList_ofList, String.toList_append]
    rfl
  refine ⟨?_, ?_, ?_⟩
  · rw [normalize_eq, hwhole.decode_eq, takeWhile_of_not_mem hcut,
      trimSlashes_between hhead hlast, hkey]
  · rw [normalize_eq, String.toList_append, String.toList_append, (hwhole.append hmark).decode_append,
      List.append_assoc, List.singleton_append, takeWhile_query hcut,
      trimSlashes_between hhead hlast, hkey]
  · rw [normalize_eq, String.toList_append, String.toList_append, (hwhole.append hmark').decode_append,
      List.append_assoc, List.singleton_append, takeWhile_query hcut,
      trimSlashes_between hhead hlast, hkey]

/-- An escaped percent sign at the end of the path, and a query with escapes that mean nothing. -/
theorem normalize_surrounded_cafe :
    Encodes "a/é%".toList "a%2F%C3%a9%25".toList ∧ Slashes "/%2f".toList ∧ Slashes "%2F/".toList ∧
    normalize "/%2fa%2F%C3%a9%25%2F/" = "/a/é%" ∧
    normalize "/%2fa%2F%C3%a9%25%2F/%3F%FF%4%%41?/" = "/a/é%" := by
  have hraw : Encodes "a/é%".toList "a%2F%C3%a9%25".toList := by
    show Encodes ['a', '/', 'é', '%'] ('a' :: (['%', '2', 'F'] ++ (['%', 'C', '3', '%', 'a', '9'] ++
      (['%', '2', '5'] ++ []))))
    exact .keep (by decide) (.escape (.cons rfl rfl .nil) (.escape (.cons rfl rfl (.cons rfl rfl .nil))
      (.escape (.cons rfl rfl .nil) .nil)))
  have hfront : Slashes "/%2f".toList := .keep (.small .nil)
  have hback : Slashes "%2F/".toList := .capital (.keep .nil)
  obtain ⟨halone, -, hescaped⟩ := normalize_surrounded (by decide) (by decide) (by decide) hraw hfront
    hback "%FF%4%%41?/"
  exact ⟨hraw, hfront, hback, halone, hescaped⟩

end RequestRouting.Path
