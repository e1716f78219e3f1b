import Mathlib.Data.List.Basic

/-! # Texts in segments

A text is cut into segments at every occurrence of a separator. The segments of one text begin those of
another just when the texts are the same, or the first one and a separator begin the second. Among the
texts that begin one text in this sense, more segments are a longer text.
-/

namespace List

variable {α : Type*} {x : α} {a b c : List α}

/-- A text that goes on behind its first segments has a separator there. -/
theorem intercalate_append_of_ne_nil {front back : List (List α)} (front_ne : front ≠ []) (back_ne : back ≠ []) :
    [x].intercalate (front ++ back) = [x].intercalate front ++ x :: [x].intercalate back := by
  induction front with
  | nil => exact absurd rfl front_ne
  | cons s front ih =>
    cases front with
    | nil =>
      obtain ⟨t, back, rfl⟩ := exists_cons_of_ne_nil back_ne
      rw [singleton_append, intercalate_cons_cons, intercalate_singleton, append_assoc, singleton_append]
    | cons t front =>
      rw [cons_append, cons_append, intercalate_cons_cons, intercalate_cons_cons, ← cons_append,
        ih (cons_ne_nil t front), append_assoc, append_assoc, append_assoc]

variable [DecidableEq α]

/-- The segments determine the text. -/
theorem splitOn_inj (same : a.splitOn x = b.splitOn x) : a = b := by
  have back : [x].intercalate (b.splitOn x) = b := intercalate_splitOn x
  rw [← back, ← same, intercalate_splitOn]

theorem splitOn_prefix_iff : a.splitOn x <+: b.splitOn x ↔ a = b ∨ a ++ [x] <+: b := by
  constructor
  · rintro ⟨back, split⟩
    rcases eq_or_ne back [] with rfl | more
    · exact .inl (splitOn_inj ((append_nil _).symm.trans split))
    · right
      refine ⟨[x].intercalate back, ?_⟩
      have whole : [x].intercalate (b.splitOn x) = b := intercalate_splitOn x
      rw [← split, intercalate_append_of_ne_nil (splitOn_ne_nil x a) more, intercalate_splitOn] at whole
      rw [append_assoc, singleton_append]
      exact whole
  · rintro (rfl | ⟨rest, rfl⟩)
    · exact prefix_rfl
    · rw [append_assoc, singleton_append, splitOn_append_cons_self]
      exact prefix_append _ _

/-- Of two texts that begin a third, the one with fewer segments begins the other. -/
theorem prefix_of_fewer_segments (ha : a.splitOn x <+: c.splitOn x) (hb : b.splitOn x <+: c.splitOn x)
    (fewer : (a.splitOn x).length < (b.splitOn x).length) : a ++ [x] <+: b := by
  have begins : a.splitOn x <+: b.splitOn x := prefix_of_prefix_length_le ha hb (Nat.le_of_lt fewer)
  rcases splitOn_prefix_iff.mp begins with rfl | longer
  · exact absurd fewer (Nat.lt_irrefl _)
  · exact longer

/-- As many segments, the same text. -/
theorem eq_of_same_segments (ha : a.splitOn x <+: c.splitOn x) (hb : b.splitOn x <+: c.splitOn x)
    (same : (a.splitOn x).length = (b.splitOn x).length) : a = b :=
  splitOn_inj ((prefix_of_prefix_length_le ha hb (Nat.le_of_eq same)).eq_of_length same)

end List
