/-!
# Front and back of a text

Taking a given text off the front or the back of another one.
-/

set_option autoImplicit false

namespace ModuleAssembly.Text

variable {α : Type} [DecidableEq α]

/-- What follows `front`, if `xs` starts with it. -/
def dropFront? : List α → List α → Option (List α)
  | [], xs => some xs
  | _ :: _, [] => none
  | a :: front, x :: xs => if a = x then dropFront? front xs else none

/-- What precedes `back`, if `xs` ends with it. -/
def dropBack? (back xs : List α) : Option (List α) :=
  (dropFront? back.reverse xs.reverse).map List.reverse

/-- `xs` without `back` at its end, or `xs` itself. -/
def withoutBack (back xs : List α) : List α := (dropBack? back xs).getD xs

theorem dropFront?_append (front xs : List α) : dropFront? front (front ++ xs) = some xs := by
  induction front with
  | nil => rfl
  | cons a front ih => simp [dropFront?, ih]

theorem eq_append_of_dropFront? {front xs rest : List α} (h : dropFront? front xs = some rest) :
    xs = front ++ rest := by
  induction front generalizing xs with
  | nil => simpa [dropFront?] using h
  | cons a front ih =>
      cases xs with
      | nil => simp [dropFront?] at h
      | cons x xs =>
          by_cases hax : a = x
          · subst hax
            simp only [dropFront?, if_true] at h
            rw [ih h, List.cons_append]
          · simp [dropFront?, hax] at h

theorem dropBack?_append (xs back : List α) : dropBack? back (xs ++ back) = some xs := by
  simp [dropBack?, dropFront?_append]

theorem eq_append_of_dropBack? {back xs rest : List α} (h : dropBack? back xs = some rest) :
    xs = rest ++ back := by
  obtain ⟨r, hr, rfl⟩ := Option.map_eq_some_iff.1 h
  have := eq_append_of_dropFront? hr
  rw [← List.reverse_reverse xs, this]
  simp

end ModuleAssembly.Text
