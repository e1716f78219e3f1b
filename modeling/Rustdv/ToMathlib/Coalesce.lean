import Mathlib.Data.List.Induction
import Mathlib.Data.List.Nodup

/-! # Coalescing a list of keyed writes

Writes are pairs of a key and a value. A buffer holds at most one write for each key: a new write
replaces the value of an earlier one in place, or goes to the end. The buffer then lists the keys in
the order of their first writes, each with its last value, and replaying the buffer has the effect of
replaying all writes, for any store in which a write sets its own key and no other.
-/

namespace Coalesce

variable {K V : Type*} [DecidableEq K]

/-- Replace the value of the first write to the key, or add a write at the end. -/
def upsert (k : K) (v : V) : List (K × V) → List (K × V)
  | [] => [(k, v)]
  | w :: rest => if w.1 = k then (w.1, v) :: rest else w :: upsert k v rest

/-- The buffer after these writes. -/
def coalesce (writes : List (K × V)) : List (K × V) :=
  writes.foldl (fun buffer w => upsert w.1 w.2 buffer) []

/-- The last value written to the key. -/
def lastValue (k : K) (writes : List (K × V)) : Option V :=
  ((writes.filter fun w => w.1 = k).getLast?).map Prod.snd

theorem keys_upsert (k : K) (v : V) (l : List (K × V)) :
    (upsert k v l).map Prod.fst =
      if k ∈ l.map Prod.fst then l.map Prod.fst else l.map Prod.fst ++ [k] := by
  induction l with
  | nil => rfl
  | cons w rest ih =>
    by_cases same : w.1 = k
    · simp [upsert, same]
    · have distinct : k ≠ w.1 := Ne.symm same
      simp only [upsert, same, ↓reduceIte, List.map_cons, ih, List.mem_cons, distinct, false_or]
      split_ifs <;> rfl

theorem coalesce_append_singleton (writes : List (K × V)) (w : K × V) :
    coalesce (writes ++ [w]) = upsert w.1 w.2 (coalesce writes) := by
  simp only [coalesce, List.foldl_append, List.foldl_cons, List.foldl_nil]

theorem lastValue_append_singleton (k : K) (writes : List (K × V)) (w : K × V) :
    lastValue k (writes ++ [w]) = if w.1 = k then some w.2 else lastValue k writes := by
  simp only [lastValue, List.filter_append, List.filter_cons, List.filter_nil]
  by_cases same : w.1 = k
  · simp [same]
  · simp [same]

theorem lastValue_append (k : K) (first second : List (K × V)) :
    lastValue k (first ++ second) = (lastValue k second).or (lastValue k first) := by
  simp only [lastValue, List.filter_append, List.getLast?_append, Option.map_or]

theorem lastValue_eq_none_iff {k : K} {writes : List (K × V)} :
    lastValue k writes = none ↔ k ∉ writes.map Prod.fst := by
  simp only [lastValue, Option.map_eq_none_iff, List.getLast?_eq_none_iff, List.filter_eq_nil_iff,
    decide_eq_true_eq, List.mem_map, not_exists, not_and]

/-- The buffer lists the keys in the order of their first writes. -/
theorem keys_coalesce (writes : List (K × V)) :
    (coalesce writes).map Prod.fst = (writes.map Prod.fst).eraseDups := by
  induction writes using List.reverseRecOn with
  | nil => rfl
  | append_singleton front w ih =>
    rw [coalesce_append_singleton, keys_upsert, ih, List.map_append, List.eraseDups_append]
    by_cases member : w.1 ∈ front.map Prod.fst
    · simp [List.removeAll, List.mem_eraseDups, member]
    · simp [List.removeAll, List.mem_eraseDups, member, List.eraseDups_cons]

theorem nodup_keys_coalesce (writes : List (K × V)) : ((coalesce writes).map Prod.fst).Nodup := by
  induction writes using List.reverseRecOn with
  | nil => exact List.nodup_nil
  | append_singleton front w ih =>
    rw [coalesce_append_singleton, keys_upsert]
    split_ifs with member
    · exact ih
    · exact List.nodup_append'.mpr ⟨ih, List.nodup_singleton _, by simpa using member⟩

/-- Every entry of the updated buffer is the new write or an old one to another key. -/
theorem mem_upsert {k : K} {v : V} {l : List (K × V)} (nodup : (l.map Prod.fst).Nodup) {w : K × V}
    (member : w ∈ upsert k v l) : w = (k, v) ∨ w ∈ l ∧ w.1 ≠ k := by
  induction l with
  | nil => exact .inl (List.mem_singleton.mp member)
  | cons first rest ih =>
    obtain ⟨fresh, nodup'⟩ := List.nodup_cons.mp nodup
    by_cases same : first.1 = k
    · rw [upsert, if_pos same] at member
      rcases List.mem_cons.mp member with rfl | later
      · exact .inl (Prod.ext same rfl)
      · refine .inr ⟨List.mem_cons_of_mem _ later, ?_⟩
        intro same'
        exact fresh (List.mem_map.mpr ⟨w, later, same'.trans same.symm⟩)
    · rw [upsert, if_neg same] at member
      rcases List.mem_cons.mp member with rfl | later
      · exact .inr ⟨List.mem_cons_self, same⟩
      · exact (ih nodup' later).imp_right fun both => ⟨List.mem_cons_of_mem _ both.1, both.2⟩

/-- Every entry of the buffer carries the last value written to its key. -/
theorem lastValue_of_mem_coalesce {writes : List (K × V)} {w : K × V} (member : w ∈ coalesce writes) :
    lastValue w.1 writes = some w.2 := by
  induction writes using List.reverseRecOn with
  | nil => cases member
  | append_singleton front last ih =>
    rw [coalesce_append_singleton] at member
    rw [lastValue_append_singleton]
    rcases mem_upsert (nodup_keys_coalesce front) member with rfl | ⟨earlier, distinct⟩
    · simp
    · rw [if_neg (Ne.symm distinct)]
      exact ih earlier

section Replay

variable {S A : Type*} (put : S → K → V → S) (value : S → K → A)

/-- Perform the writes in order. -/
def replay (s : S) (writes : List (K × V)) : S := writes.foldl (fun s w => put s w.1 w.2) s

variable {put value}

omit [DecidableEq K] in
theorem replay_append_singleton (s : S) (writes : List (K × V)) (w : K × V) :
    replay put s (writes ++ [w]) = put (replay put s writes) w.1 w.2 := by
  simp only [replay, List.foldl_append, List.foldl_cons, List.foldl_nil]

section Groups

variable {G : Type*} [DecidableEq G] (group : K → G)

/-- The last write to a group of keys. -/
def lastWrite (g : G) (writes : List (K × V)) : Option (K × V) :=
  (writes.filter fun w => group w.1 = g).getLast?

variable {group}

omit [DecidableEq K] in
theorem lastWrite_append_singleton (g : G) (writes : List (K × V)) (w : K × V) :
    lastWrite group g (writes ++ [w]) = if group w.1 = g then some w else lastWrite group g writes := by
  simp only [lastWrite, List.filter_append, List.filter_cons, List.filter_nil]
  by_cases same : group w.1 = g
  · simp [same]
  · simp [same]

omit [DecidableEq K] in
theorem mem_of_lastWrite {g : G} {writes : List (K × V)} {w : K × V} (last : lastWrite group g writes = some w) :
    w ∈ writes ∧ group w.1 = g := by
  obtain ⟨member, same⟩ := List.mem_filter.mp (List.mem_of_getLast? last)
  exact ⟨member, of_decide_eq_true same⟩

variable (group)

omit [DecidableEq K] in
/-- After a replay a group of keys that share one value holds what the last write to it left, and
another group what it held. -/
theorem value_replay_groups {value : S → G → A} {writes : List (K × V)}
    (own : ∀ w ∈ writes, ∀ s s', value (put s w.1 w.2) (group w.1) = value (put s' w.1 w.2) (group w.1))
    (other : ∀ s k v g, g ≠ group k → value (put s k v) g = value s g) (s : S) (g : G) :
    value (replay put s writes) g =
      (lastWrite group g writes).elim (value s g) fun w => value (put s w.1 w.2) g := by
  induction writes using List.reverseRecOn with
  | nil => rfl
  | append_singleton front w ih =>
    rw [replay_append_singleton, lastWrite_append_singleton]
    by_cases same : group w.1 = g
    · subst same
      rw [if_pos rfl]
      exact own w (by simp) _ _
    · rw [other _ _ _ _ (Ne.symm same), if_neg same]
      exact ih fun w member => own w (List.mem_append_left _ member)

/-- In the buffer the last write to a group is through its key that was first written last. -/
theorem map_fst_lastWrite_coalesce (g : G) (writes : List (K × V)) :
    (lastWrite group g (coalesce writes)).map Prod.fst =
      ((writes.map Prod.fst).eraseDups.filter fun k => group k = g).getLast? := by
  rw [lastWrite, ← List.getLast?_map, ← keys_coalesce, List.filter_map]
  rfl

end Groups

/-- After a replay a key that was written holds its last value, and another key what it held. -/
theorem value_replay {writes : List (K × V)}
    (own : ∀ w ∈ writes, ∀ s s', value (put s w.1 w.2) w.1 = value (put s' w.1 w.2) w.1)
    (other : ∀ s k k' v, k' ≠ k → value (put s k v) k' = value s k') (s : S) (k : K) :
    value (replay put s writes) k = (lastValue k writes).elim (value s k) fun v => value (put s k v) k := by
  rw [value_replay_groups id own (fun s k v g => other s k g v)]
  change _ = ((lastWrite id k writes).map Prod.snd).elim _ _
  cases last : lastWrite id k writes with
  | none => rfl
  | some w =>
    obtain ⟨-, rfl⟩ := mem_of_lastWrite last
    rfl

/-- The buffer holds only writes that were made. -/
theorem mem_of_mem_coalesce {writes : List (K × V)} {w : K × V} (member : w ∈ coalesce writes) : w ∈ writes := by
  obtain ⟨last, found, same⟩ := Option.map_eq_some_iff.mp (lastValue_of_mem_coalesce member)
  obtain ⟨inside, key⟩ := List.mem_filter.mp (List.mem_of_getLast? found)
  obtain rfl : last = w := Prod.ext (of_decide_eq_true key) same
  exact inside

theorem lastValue_coalesce (k : K) (writes : List (K × V)) :
    lastValue k (coalesce writes) = lastValue k writes := by
  cases found : lastValue k (coalesce writes) with
  | some v =>
    obtain ⟨w, last, rfl⟩ := Option.map_eq_some_iff.mp found
    have member := List.mem_of_getLast? last
    obtain ⟨inside, same⟩ := List.mem_filter.mp member
    obtain rfl : w.1 = k := of_decide_eq_true same
    exact (lastValue_of_mem_coalesce inside).symm
  | none =>
    rw [lastValue_eq_none_iff, keys_coalesce, List.mem_eraseDups] at found
    exact (lastValue_eq_none_iff.mpr found).symm

/-- Replaying the buffer has the effect of replaying all writes. -/
theorem value_replay_coalesce {writes : List (K × V)}
    (own : ∀ w ∈ writes, ∀ s s', value (put s w.1 w.2) w.1 = value (put s' w.1 w.2) w.1)
    (other : ∀ s k k' v, k' ≠ k → value (put s k v) k' = value s k') (s : S) (k : K) :
    value (replay put s (coalesce writes)) k = value (replay put s writes) k := by
  rw [value_replay (fun w member => own w (mem_of_mem_coalesce member)) other, value_replay own other,
    lastValue_coalesce]

end Replay

end Coalesce
