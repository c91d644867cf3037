import RequestRouting.Proofs.Pattern.Division

/-!
Patterns one behind the other.

A base path is put in front of a pattern as text, and the placeholders of both are looked for in what that makes. Where
no bracket stands open in the front and nothing at the seam belongs to both sides, the parts are read as they are alone:
the placeholders of the front come before those of the back, and so do their groups (`translate_append`).
-/

namespace RequestRouting

open Placeholder (Opens at?)

/-- Text is its own expression. -/
theorem flatMap_expand_char (types : TypeRegistry) (cs : List Char) :
    (cs.map Segment.char).flatMap (Segment.expand types) = cs := by
  rw [List.flatMap_map]
  exact List.flatMap_singleton' cs

/-! ## The seam -/

namespace Segment

/-- A text in which no bracketed tag begins is text as a pattern. -/
theorem scan_of_not_opens {cs : List Char} (h : ∀ rest, rest <:+ cs → ¬Opens rest) :
    scan 0 cs = cs.map char := by
  induction cs with
  | nil => rfl
  | cons c cs ih =>
    have hnone : at? (c :: cs) = none :=
      Placeholder.at?_eq_none_iff.2 ⟨h _ (List.suffix_refl _), fun _ _ => h _ (List.suffix_cons c cs)⟩
    rw [scan_of_none hnone, ih fun rest hrest => h rest (hrest.trans (List.suffix_cons c cs)), List.map_cons]

/-- An opening bracket at the front of a text begins a tag if no such bracket is text. -/
theorem opens_of_head? {cs : List Char} (hgap : char '[' ∉ scan 0 cs) (h : cs.head? = some '[') :
    Opens cs := by
  cases cs with
  | nil => cases h
  | cons c cs =>
    obtain rfl : c = '[' := Option.some.inj h
    by_contra hopens
    have hnone : at? ('[' :: cs) = none :=
      Placeholder.at?_eq_none_iff.2 ⟨hopens, fun s hs => by cases s <;> exact absurd hs (by decide)⟩
    rw [scan_of_none hnone] at hgap
    exact hgap List.mem_cons_self

/-- Two texts are read one after the other if no bracket is open in the first, its last placeholder takes no question
mark from the second, and the second takes no separator from it. -/
theorem scan_append {cs ds : List Char} (hgap : char '[' ∉ scan 0 cs)
    (hmark : cs.getLast? = some ']' → ds.head? ≠ some '?')
    (hseparator : ∀ s : Separator, cs.getLast? = some s.char → ¬Opens ds) :
    scan 0 (cs ++ ds) = scan 0 cs ++ scan 0 ds := by
  induction cs using scan_induction with
  | nil => rfl
  | char c rest hnone ih =>
    rw [scan_of_none hnone] at hgap ⊢
    rw [List.mem_cons, not_or] at hgap
    have hlast : ∀ d, rest.getLast? = some d → (c :: rest).getLast? = some d := fun d hd => by
      rw [List.getLast?_cons, hd]
      rfl
    have hnone' : at? (c :: (rest ++ ds)) = none := by
      refine Placeholder.at?_eq_none_iff.2 ⟨fun hopens => ?_, fun s hs hopens => ?_⟩
      · exact hgap.1 (congrArg char (Option.some.inj hopens.head?).symm)
      · cases rest with
        | nil => exact hseparator s (congrArg some hs) hopens
        | cons d rest =>
          -- The bracket behind the separator closes within the first text, or it would stand open there.
          exact (Placeholder.at?_eq_none_iff.1 hnone).2 s hs (opens_of_head? hgap.2 hopens.head?)
    rw [List.cons_append, scan_of_none hnone', ih hgap.2 (fun h => hmark (hlast _ h))
      fun s h => hseparator s (hlast _ h), List.cons_append]
  | hole p rest hfound ih =>
    obtain ⟨hp, r, hr, hnomark⟩ := Placeholder.at?_eq_some_iff.1 hfound
    rw [← List.append_cancel_left hr] at hnomark
    rw [scan_of_some hfound] at hgap ⊢
    rw [List.mem_cons, not_or] at hgap
    have hlast : ∀ d, rest.getLast? = some d → (p.text.toList ++ rest).getLast? = some d := fun d hd => by
      rw [List.getLast?_append, hd]
      rfl
    have hfound' : at? (p.text.toList ++ (rest ++ ds)) = some p := by
      refine Placeholder.at?_eq_some_iff.2 ⟨hp, _, rfl, fun hoptional => ?_⟩
      cases rest with
      | nil =>
        rw [List.append_nil] at hmark
        exact hmark (hp.getLast?.trans (by rw [if_neg hoptional]))
      | cons d rest => exact hnomark hoptional
    rw [List.append_assoc, scan_of_some hfound', ih hgap.2 (fun h => hmark (hlast _ h))
      fun s h => hseparator s (hlast _ h), List.cons_append]

end Segment

/-! ## Two patterns -/

/-- Behind each other, two patterns have the placeholders of the first and then those of the second, and their
expressions are written behind each other between the anchors: if no bracket stands in the text between the
placeholders of the first, and at the seam neither a question mark follows a closing bracket nor an opening bracket a
separator. -/
theorem translate_append {front back : String} (hgap : Segment.char '[' ∉ segments front)
    (hmark : ¬(front.toList.getLast? = some ']' ∧ back.toList.head? = some '?'))
    (hseparator : ∀ s : Separator, ¬(front.toList.getLast? = some s.char ∧ back.toList.head? = some '[')) :
    placeholders (front ++ back) = placeholders front ++ placeholders back ∧
      ∀ types, ∃ body body' : String,
        translate front types = "^" ++ body ++ "$" ∧ translate back types = "^" ++ body' ++ "$" ∧
          translate (front ++ back) types = "^" ++ body ++ body' ++ "$" := by
  have hsegments : segments (front ++ back) = segments front ++ segments back := by
    rw [segments, String.toList_append]
    apply Segment.scan_append hgap
    · exact fun hbracket hquestion => hmark ⟨hbracket, hquestion⟩
    · exact fun s hs hopens => hseparator s ⟨hs, hopens.head?⟩
  refine ⟨?_, fun types => ?_⟩
  · rw [placeholders, hsegments, List.filterMap_append]
    rfl
  · refine ⟨String.ofList ((segments front).flatMap (Segment.expand types)),
      String.ofList ((segments back).flatMap (Segment.expand types)), ?_, ?_, ?_⟩
    · rw [← String.toList_inj]
      simp [translate]
    · rw [← String.toList_inj]
      simp [translate]
    · rw [← String.toList_inj]
      simp [translate, hsegments]

/-- A base path with a bracket in a tag, and a pattern with a separator of its own. -/
theorem translate_append_base :
    placeholders ("/api.[[i:v]/" ++ "users/[:id]?") = placeholders "/api.[[i:v]/" ++ placeholders "users/[:id]?" ∧
      ∀ types, ∃ body body' : String,
        translate "/api.[[i:v]/" types = "^" ++ body ++ "$" ∧
          translate "users/[:id]?" types = "^" ++ body' ++ "$" ∧
            translate ("/api.[[i:v]/" ++ "users/[:id]?") types = "^" ++ body ++ body' ++ "$" :=
  translate_append (by decide) (by decide) fun s => by cases s <;> decide

-- A separator at the end of the front goes to a placeholder at the start of the back.
example : (placeholders ("/api/" ++ "[i:id]")).map (·.text) = ["/[i:id]"] := by decide

end RequestRouting
