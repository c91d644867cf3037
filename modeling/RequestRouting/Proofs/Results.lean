import Mathlib.Data.List.Forall2

/-!
Computations that may fail.

What is done in several steps gives a result just when each step does.
-/

namespace RequestRouting

/-- A computation gives a result in two steps just when the first gives what the second goes on from. -/
theorem bind_eq_ok_iff {ε α β : Type} {x : Except ε α} {f : α → Except ε β} {b : β} :
    x >>= f = .ok b ↔ ∃ a, x = .ok a ∧ f a = .ok b := by
  cases x with
  | error e => exact ⟨nofun, nofun⟩
  | ok a =>
    constructor
    · exact fun h => ⟨a, rfl, h⟩
    · rintro ⟨_, ⟨⟩, h⟩
      exact h

section

variable {ε α β σ : Type}

/-- A list has results just when each of its elements has one. -/
theorem mapM_eq_ok_iff {f : α → Except ε β} {xs : List α} {ys : List β} :
    xs.mapM f = .ok ys ↔ List.Forall₂ (fun x y => f x = .ok y) xs ys := by
  induction xs generalizing ys with
  | nil =>
    rw [List.mapM_nil, List.forall₂_nil_left_iff]
    exact ⟨fun h => (Except.ok.inj h).symm, fun h => h ▸ rfl⟩
  | cons x xs ih =>
    rw [List.mapM_cons, bind_eq_ok_iff, List.forall₂_cons_left_iff]
    constructor
    · intro ⟨y, hy, hrest⟩
      obtain ⟨zs, hzs, hys⟩ := bind_eq_ok_iff.1 hrest
      exact ⟨y, zs, hy, ih.1 hzs, (Except.ok.inj hys).symm⟩
    · rintro ⟨y, zs, hy, hzs, rfl⟩
      exact ⟨y, hy, bind_eq_ok_iff.2 ⟨zs, ih.2 hzs, rfl⟩⟩

/-- There is a list of partners just when each element has one. -/
theorem exists_forall₂_iff {R : α → β → Prop} {xs : List α} : (∃ ys, List.Forall₂ R xs ys) ↔ ∀ x ∈ xs, ∃ y, R x y := by
  induction xs with
  | nil => exact ⟨fun _ => nofun, fun _ => ⟨[], .nil⟩⟩
  | cons x xs ih =>
    rw [List.forall_mem_cons, ← ih]
    constructor
    · rintro ⟨_, hxs⟩
      cases hxs with
      | cons hy hys => exact ⟨⟨_, hy⟩, _, hys⟩
    · exact fun ⟨⟨y, hy⟩, ys, hys⟩ => ⟨y :: ys, .cons hy hys⟩

/-- Elements can be taken in one after the other if each can be taken in at any time. -/
theorem exists_foldlM_eq_ok {step : σ → α → Except ε σ} {xs : List α}
    (h : ∀ x ∈ xs, ∀ s, ∃ s', step s x = .ok s') (s : σ) : ∃ s', xs.foldlM step s = .ok s' := by
  induction xs generalizing s with
  | nil => exact ⟨s, rfl⟩
  | cons x xs ih =>
    rw [List.forall_mem_cons] at h
    obtain ⟨s₁, hfirst⟩ := h.1 s
    obtain ⟨s', hrest⟩ := ih h.2 s₁
    exact ⟨s', bind_eq_ok_iff.2 ⟨s₁, hfirst, hrest⟩⟩

/-- Of what is taken in, each element was taken in at some time. -/
theorem exists_step_of_foldlM {step : σ → α → Except ε σ} {xs : List α} {s s' : σ} (h : xs.foldlM step s = .ok s')
    {x : α} (hx : x ∈ xs) : ∃ s₁ s₂, step s₁ x = .ok s₂ := by
  induction xs generalizing s with
  | nil => cases hx
  | cons y xs ih =>
    obtain ⟨s₁, hfirst, hrest⟩ := bind_eq_ok_iff.1 h
    rcases List.mem_cons.1 hx with rfl | hx
    · exact ⟨s, s₁, hfirst⟩
    · exact ih hrest hx

end

end RequestRouting
