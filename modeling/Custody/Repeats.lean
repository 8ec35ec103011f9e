/-!
# Repeated list entries

`firstRepeat?` finds the first entry that equals an earlier one; there is none exactly when the list
is free of duplicates.
-/

namespace Custody

variable {α : Type} [DecidableEq α]

/-- The first entry of `xs` that occurs earlier in `xs` or in `seen`. -/
def firstRepeatAfter (seen : List α) : List α → Option α
  | [] => none
  | x :: xs => if x ∈ seen then some x else firstRepeatAfter (x :: seen) xs

/-- The first entry that equals an earlier one. -/
def firstRepeat? (xs : List α) : Option α := firstRepeatAfter [] xs

theorem firstRepeatAfter_eq_none_iff {seen xs : List α} :
    firstRepeatAfter seen xs = none ↔ xs.Nodup ∧ ∀ x ∈ xs, x ∉ seen := by
  induction xs generalizing seen with
  | nil => simp [firstRepeatAfter]
  | cons x xs ih =>
    by_cases hx : x ∈ seen
    · simp [firstRepeatAfter, hx]
    · simp only [firstRepeatAfter, hx, if_false, ih, List.nodup_cons, List.mem_cons, not_or]
      constructor
      · rintro ⟨hnodup, hall⟩
        refine ⟨⟨fun hmem ↦ (hall x hmem).1 rfl, hnodup⟩, ?_⟩
        rintro y (rfl | hy)
        · exact hx
        · exact (hall y hy).2
      · rintro ⟨⟨hmem, hnodup⟩, hall⟩
        refine ⟨hnodup, fun y hy ↦ ⟨?_, hall y (Or.inr hy)⟩⟩
        rintro rfl
        exact hmem hy

theorem firstRepeat?_eq_none_iff {xs : List α} : firstRepeat? xs = none ↔ xs.Nodup := by
  simp [firstRepeat?, firstRepeatAfter_eq_none_iff]

end Custody
