import RequestRouting.Proofs.Path.Normalization
import RequestRouting.Proofs.Text.Lossy
import RequestRouting.Proofs.Text.Percent

/-!
The key of a request path, read the plain way.

`PlainKey` says how a key comes about step by step: escapes are decoded from left to right, what is no UTF-8 is
repaired, the text is cut at its first question mark, and what is left between slashes stands behind one slash. A
path has one key of this kind, and it is the one that normalization gives, whichever of its shortcuts it takes
(`plainKey_iff_normalize`).
-/

namespace RequestRouting.Path

open Text

/-! ## The steps -/

/-- What a path says when its escapes are decoded and what is no UTF-8 then is repaired. -/
def Decodes (raw text : List Char) : Prop :=
  ∃ bytes, PercentDecodes (utf8 raw) bytes ∧ Repairs bytes text

/-- What stands before the first question mark of a text, or the whole text if it has none. -/
def BeforeQuery (text before : List Char) : Prop :=
  ∃ query, text = before ++ query ∧ '?' ∉ before ∧ ∀ c ∈ query.head?, c = '?'

/-- What is left of a text without the slashes at both ends. -/
def BetweenSlashes (text inner : List Char) : Prop :=
  inner.head? ≠ some '/' ∧ inner.getLast? ≠ some '/' ∧
    ∃ n m, text = List.replicate n '/' ++ (inner ++ List.replicate m '/')

/-- The key of a path, by the steps one after the other. -/
def PlainKey (raw key : List Char) : Prop :=
  ∃ text before inner, Decodes raw text ∧ BeforeQuery text before ∧ BetweenSlashes before inner ∧
    key = '/' :: inner

/-! ## Each step has one outcome -/

variable {raw text before inner : List Char}

theorem decodes_iff : Decodes raw text ↔ text = decode raw := by
  constructor
  · intro ⟨bytes, hbytes, htext⟩
    rw [repairs_iff.1 htext, percentDecodes_iff.1 hbytes, decode_eq_lossy]
  · intro h
    rw [h, decode_eq_lossy]
    exact ⟨_, percentDecodes_iff.2 rfl, repairs_iff.2 rfl⟩

theorem beforeQuery_iff : BeforeQuery text before ↔ before = text.takeWhile (· != '?') := by
  constructor
  · intro ⟨query, htext, hbefore, hquery⟩
    cases query with
    | nil => rw [htext, List.append_nil, takeWhile_of_not_mem hbefore]
    | cons c query => rw [htext, hquery c rfl, takeWhile_query hbefore]
  · intro h
    refine ⟨text.dropWhile (· != '?'), ?_, ?_, ?_⟩
    · rw [h, List.takeWhile_append_dropWhile]
    · intro hmem
      rw [h] at hmem
      exact absurd (List.mem_takeWhile_imp hmem) (by decide)
    · intro c hc
      have hstop := List.head?_dropWhile_not (· != '?') text
      rw [Option.mem_def.1 hc] at hstop
      simpa using hstop

/-- What takes the slashes off the front leaves a text that begins with none. -/
theorem exists_replicate_dropWhile (cs : List Char) :
    ∃ n, cs = List.replicate n '/' ++ cs.dropWhile isSlash := by
  refine ⟨(cs.takeWhile isSlash).length, ?_⟩
  have hslashes : cs.takeWhile isSlash = List.replicate (cs.takeWhile isSlash).length '/' := by
    apply List.eq_replicate_of_mem
    intro c hc
    simpa [isSlash] using List.mem_takeWhile_imp hc
  rw [← hslashes, List.takeWhile_append_dropWhile]

theorem head?_dropWhile_slashes (cs : List Char) : (cs.dropWhile isSlash).head? ≠ some '/' := by
  intro h
  have hstop := List.head?_dropWhile_not isSlash cs
  rw [h] at hstop
  exact absurd hstop (by decide)

theorem betweenSlashes_trimSlashes (cs : List Char) : BetweenSlashes cs (trimSlashes cs) := by
  obtain ⟨n, hn⟩ := exists_replicate_dropWhile cs
  obtain ⟨m, hm⟩ := exists_replicate_dropWhile (cs.dropWhile isSlash).reverse
  have hback : cs.dropWhile isSlash = trimSlashes cs ++ List.replicate m '/' := by
    rw [← List.reverse_inj, hm, trimSlashes, List.reverse_append, List.reverse_reverse,
      List.reverse_replicate]
  refine ⟨?_, ?_, n, m, by rw [← hback, ← hn]⟩
  · intro hhead
    apply head?_dropWhile_slashes cs
    rw [hback, List.head?_append, hhead]
    rfl
  · rw [trimSlashes, List.getLast?_reverse]
    exact head?_dropWhile_slashes _

theorem betweenSlashes_iff : BetweenSlashes text inner ↔ inner = trimSlashes text := by
  constructor
  · intro ⟨hhead, hlast, n, m, htext⟩
    rw [htext, trimSlashes_between hhead hlast]
  · intro h
    rw [h]
    exact betweenSlashes_trimSlashes text

/-! ## The key -/

/-- The key of a path is the plain one, and decoding gives what the path says. In particular it makes no difference
that a path which is its own key is not looked through, and that one without a percent sign is not decoded. -/
theorem plainKey_iff_normalize (raw : String) :
    (∀ key : String, PlainKey raw.toList key.toList ↔ key = normalize raw) ∧
    (∀ text, Decodes raw.toList text ↔ text = decode raw.toList) ∧
    (isNormalized raw → PlainKey raw.toList raw.toList) ∧
    ('%' ∉ raw.toList → Decodes raw.toList raw.toList) := by
  have hkey : ∀ key : String, PlainKey raw.toList key.toList ↔ key = normalize raw := by
    intro key
    rw [normalize_eq, ← String.toList_inj, String.toList_ofList]
    constructor
    · intro ⟨text, before, inner, htext, hbefore, hinner, hkey⟩
      rw [hkey, betweenSlashes_iff.1 hinner, beforeQuery_iff.1 hbefore, decodes_iff.1 htext]
    · intro hkey
      exact ⟨_, _, _, decodes_iff.2 rfl, beforeQuery_iff.2 rfl, betweenSlashes_iff.2 rfl, hkey⟩
  refine ⟨hkey, fun text => decodes_iff, fun hnormalized => ?_, fun hpercent => ?_⟩
  · rw [hkey, normalize, if_pos hnormalized]
  · rw [decodes_iff, decode, if_neg (fun hc => hpercent (List.contains_iff_mem.1 hc))]

/-- A path that is its own key, which has no percent sign then. -/
theorem plainKey_users : isNormalized "/users/42" ∧ '%' ∉ "/users/42".toList ∧
    PlainKey "/users/42".toList "/users/42".toList ∧
    Decodes "/users/42".toList "/users/42".toList := by
  have hnormalized : isNormalized "/users/42" := by decide
  have hpercent : '%' ∉ "/users/42".toList := by decide
  obtain ⟨-, -, hkey, hdecodes⟩ := plainKey_iff_normalize "/users/42"
  exact ⟨hnormalized, hpercent, hkey hnormalized, hdecodes hpercent⟩

-- A percent sign right before an escape, a byte that no character begins with, and a sign with one digit.
example : normalize "%%41/%FF/%4" = "/%A/\uFFFD/%4" := by decide +kernel

end RequestRouting.Path
