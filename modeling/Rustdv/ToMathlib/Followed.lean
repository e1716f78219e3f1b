import Mathlib.Data.List.Basic

/-! # Elements that are followed at once

An element of a list may call for another one right after it. Concatenation keeps this, since an
element that is followed has its successor in its own part.
-/

namespace List

variable {α : Type*} {next : α → Option α} {l l' : List α}

/-- Every element that calls for a next one has it right behind it. -/
def Followed (next : α → Option α) (l : List α) : Prop :=
  ∀ before x after y, l = before ++ x :: after → next x = some y → ∃ rest, after = y :: rest

theorem followed_nil : Followed next [] := by
  intro before x after y split
  simp at split

/-- An element that calls for nothing can stand anywhere. -/
theorem Followed.cons {x : α} (calm : next x = none) (followed : l.Followed next) : (x :: l).Followed next := by
  intro before z after y split called
  cases before with
  | nil =>
    obtain ⟨rfl, -⟩ := List.cons.inj split
    cases calm.symm.trans called
  | cons _ before => exact followed before z after y (List.cons.inj split).2 called

/-- An element with what it calls for. -/
theorem Followed.cons_cons {x y : α} (called : next x = some y) (followed : (y :: l).Followed next) :
    (x :: y :: l).Followed next := by
  intro before z after y' split called'
  cases before with
  | nil =>
    obtain ⟨rfl, rfl⟩ := List.cons.inj split
    exact ⟨l, by rw [Option.some.inj (called.symm.trans called')]⟩
  | cons _ before => exact followed before z after y' (List.cons.inj split).2 called'

theorem Followed.append (left : l.Followed next) (right : l'.Followed next) : (l ++ l').Followed next := by
  intro before x after y split called
  rcases List.append_eq_append_iff.mp split with ⟨mid, -, rest⟩ | ⟨mid, rfl, rest⟩
  · exact right mid x after y rest called
  · cases mid with
    | nil => exact right [] x after y rest.symm called
    | cons z tail =>
      obtain ⟨rfl, rfl⟩ := List.cons.inj rest
      obtain ⟨tail', rfl⟩ := left before x tail y rfl called
      exact ⟨tail' ++ l', rfl⟩

/-- A list of elements that call for nothing. -/
theorem followed_of_calm (calm : ∀ x ∈ l, next x = none) : l.Followed next := by
  intro before x after y split called
  cases (calm x (split ▸ List.mem_append_right _ List.mem_cons_self)).symm.trans called

end List
