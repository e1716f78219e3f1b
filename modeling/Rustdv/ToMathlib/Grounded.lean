import Mathlib.Data.List.Basic

/-! # Elements judged by what stands before them

A log grows at its end, and an entry is judged by the entries before it. What later entries say about
it then comes out of one entry and one prefix.
-/

namespace List

variable {α : Type*} {P : List α → α → Prop} {l : List α} {x : α}

/-- Every element fits what stands before it. -/
def Grounded (P : List α → α → Prop) (l : List α) : Prop :=
  ∀ before x after, l = before ++ x :: after → P before x

theorem grounded_nil : Grounded P [] := by
  intro before x after split
  simp at split

theorem Grounded.concat (grounded : l.Grounded P) (fits : P l x) : (l ++ [x]).Grounded P := by
  intro before y after split
  rcases List.append_eq_append_iff.mp split with ⟨mid, rfl, tail⟩ | ⟨mid, rfl, tail⟩
  · cases mid with
    | nil =>
      obtain ⟨rfl, -⟩ := List.cons.inj tail
      simpa using fits
    | cons z mid =>
      have := congrArg List.length tail
      simp at this
  · cases mid with
    | nil =>
      obtain ⟨rfl, -⟩ := List.cons.inj tail
      simpa using fits
    | cons z mid =>
      obtain ⟨rfl, -⟩ := List.cons.inj tail
      exact grounded before y mid rfl

end List
