import Rustdv.ToMathlib.Coalesce

/-! # Draining a backlog of writes between fresh ones

A backlog holds at most one write for each key. Its writes are performed one at a time, in order, and
fresh writes are performed at once in between. In program order the backlog comes first. A key then
ends with its last write in program order, unless that was a fresh write made before the backlog's own
write to the key was performed.
-/

namespace Backlog

open Coalesce

variable {K V : Type*}

inductive Event (K V : Type*) where
  /-- Perform the next write of the backlog, if any is left. -/
  | next
  /-- A fresh write. -/
  | write (k : K) (v : V)

def Event.isNext : Event K V → Bool
  | .next => true
  | .write .. => false

def Event.written : Event K V → Option (K × V)
  | .next => none
  | .write k v => some (k, v)

/-- How often the next write of the backlog was called for. -/
def nexts (events : List (Event K V)) : ℕ := events.countP Event.isNext

/-- The fresh writes, in order. -/
def fresh (events : List (Event K V)) : List (K × V) := events.filterMap Event.written

/-- All writes, in the order they are performed. -/
def puts (backlog : List (K × V)) (events : List (Event K V)) : List (K × V) :=
  match events with
  | [] => []
  | .write k v :: rest => (k, v) :: puts backlog rest
  | .next :: rest =>
      match backlog with
      | [] => puts [] rest
      | w :: left => w :: puts left rest

section Append

variable (backlog : List (K × V)) (events : List (Event K V))

@[simp]
theorem nexts_append (more : List (Event K V)) : nexts (events ++ more) = nexts events + nexts more :=
  List.countP_append

@[simp]
theorem fresh_append (more : List (Event K V)) : fresh (events ++ more) = fresh events ++ fresh more :=
  List.filterMap_append

@[simp]
theorem nexts_next_cons : nexts (.next :: events) = nexts events + 1 := List.countP_cons_of_pos rfl

@[simp]
theorem fresh_next_cons : fresh (.next :: events) = fresh events := rfl

theorem puts_append (more : List (Event K V)) :
    puts backlog (events ++ more) = puts backlog events ++ puts (backlog.drop (nexts events)) more := by
  induction events generalizing backlog with
  | nil => rfl
  | cons event rest ih =>
    cases event with
    | write k v => exact congrArg ((k, v) :: ·) (ih backlog)
    | next =>
      rw [nexts_next_cons]
      cases backlog with
      | nil => simpa [puts] using ih []
      | cons w left => exact congrArg (w :: ·) (ih left)

theorem puts_next (left : List (K × V)) : puts left [.next] = left.head?.toList := by
  cases left <;> rfl

/-- Everything performed was in the backlog or is fresh. -/
theorem mem_puts {backlog : List (K × V)} {events : List (Event K V)} {w : K × V}
    (member : w ∈ puts backlog events) : w ∈ backlog ∨ w ∈ fresh events := by
  induction events generalizing backlog with
  | nil => cases member
  | cons event rest ih =>
    cases event with
    | write k v =>
      rcases List.mem_cons.mp member with rfl | later
      · exact .inr List.mem_cons_self
      · exact (ih later).imp_right (List.mem_cons_of_mem _)
    | next =>
      cases backlog with
      | nil => exact ih member
      | cons first left =>
        rcases List.mem_cons.mp member with rfl | later
        · exact .inl List.mem_cons_self
        · exact (ih later).imp_left (List.mem_cons_of_mem _)

end Append

variable [DecidableEq K]

/-- The backlog's write to the key is performed after the last fresh write to it. -/
def Overtakes (backlog : List (K × V)) (events : List (Event K V)) (k : K) (old new : V) : Prop :=
  ∃ before after, events = before ++ .next :: after ∧ backlog[nexts before]? = some (k, old) ∧
    lastValue k (fresh before) = some new ∧ lastValue k (fresh after) = none

theorem Overtakes.append {backlog : List (K × V)} {events more : List (Event K V)} {k : K} {old new : V}
    (overtakes : Overtakes backlog events k old new) (none : lastValue k (fresh more) = none) :
    Overtakes backlog (events ++ more) k old new := by
  obtain ⟨before, after, rfl, held, last, silent⟩ := overtakes
  refine ⟨before, after ++ more, by simp, held, last, ?_⟩
  rw [fresh_append, lastValue_append, none, silent, Option.or_none]

/-- In program order the fresh write is the last one. -/
theorem Overtakes.last_fresh {backlog : List (K × V)} {events : List (Event K V)} {k : K} {old new : V}
    (overtakes : Overtakes backlog events k old new) (earlier : List (K × V)) :
    lastValue k (earlier ++ fresh events) = some new := by
  obtain ⟨before, after, rfl, -, last, silent⟩ := overtakes
  rw [fresh_append, fresh_next_cons, lastValue_append, lastValue_append, silent, last]
  rfl

/-- As performed, the backlog's write is the last one. -/
theorem Overtakes.last_put {backlog : List (K × V)} {events : List (Event K V)} {k : K} {old new : V}
    (overtakes : Overtakes backlog events k old new) (nodup : (backlog.map Prod.fst).Nodup) :
    lastValue k (puts backlog events) = some old := by
  obtain ⟨before, after, rfl, held, -, silent⟩ := overtakes
  -- what is left of the backlog after this write has no other one to the key
  obtain ⟨left, dropped⟩ : ∃ left, backlog.drop (nexts before) = (k, old) :: left := by
    obtain ⟨bound, same⟩ := List.getElem?_eq_some_iff.mp held
    exact ⟨_, same ▸ List.drop_eq_getElem_cons bound⟩
  have apart : k ∉ left.map Prod.fst := by
    have kept := nodup.sublist ((List.drop_sublist (nexts before) backlog).map Prod.fst)
    rw [dropped] at kept
    exact (List.nodup_cons.mp kept).1
  have later (left : List (K × V)) (apart : k ∉ left.map Prod.fst) (after : List (Event K V))
      (silent : lastValue k (fresh after) = none) : lastValue k (puts left after) = none := by
    rw [lastValue_eq_none_iff] at silent ⊢
    induction after generalizing left with
    | nil => exact List.not_mem_nil
    | cons event rest ih =>
      cases event with
      | write k' v =>
        simp only [fresh, List.filterMap_cons, Event.written, List.map_cons, List.mem_cons, not_or] at silent
        simp only [puts, List.map_cons, List.mem_cons, not_or]
        exact ⟨silent.1, ih left apart silent.2⟩
      | next =>
        cases left with
        | nil => exact ih [] apart silent
        | cons w left =>
          simp only [List.map_cons, List.mem_cons, not_or] at apart
          simp only [puts, List.map_cons, List.mem_cons, not_or]
          exact ⟨apart.1, ih left apart.2 silent⟩
  rw [puts_append, dropped, lastValue_append]
  change (lastValue k ([(k, old)] ++ puts left after)).or _ = _
  rw [lastValue_append, later left apart after silent]
  simp [lastValue]

/-- As performed, a key ends with its last write in program order, or that was overtaken. -/
theorem lastValue_puts (k : K) (backlog : List (K × V)) (events : List (Event K V)) :
    lastValue k (puts backlog events) = lastValue k (backlog.take (nexts events) ++ fresh events) ∨
      ∃ old new, Overtakes backlog events k old new := by
  induction events using List.reverseRecOn with
  | nil => exact .inl (by simp [puts, nexts, fresh])
  | append_singleton events event ih =>
    cases event with
    | write k' v =>
      have done : puts backlog (events ++ [.write k' v]) = puts backlog events ++ [(k', v)] := puts_append ..
      have made : fresh (events ++ [.write k' v]) = fresh events ++ [(k', v)] := fresh_append ..
      have count : nexts (events ++ [.write k' v]) = nexts events := nexts_append ..
      by_cases same : k' = k
      · refine .inl ?_
        rw [done, made, ← List.append_assoc, lastValue_append_singleton, lastValue_append_singleton,
          if_pos same, if_pos same]
      · rcases ih with kept | ⟨old, new, overtakes⟩
        · refine .inl ?_
          rw [done, made, count, ← List.append_assoc, lastValue_append_singleton, lastValue_append_singleton,
            if_neg same, if_neg same, kept]
        · exact .inr ⟨old, new, overtakes.append (by simp [fresh, Event.written, lastValue, same])⟩
    | next =>
      have made : fresh (events ++ [.next]) = fresh events := by simp [fresh, Event.written]
      have count : nexts (events ++ [.next]) = nexts events + 1 := nexts_append ..
      have done : puts backlog (events ++ [.next]) = puts backlog events ++ backlog[nexts events]?.toList := by
        rw [puts_append, puts_next, List.head?_drop]
      have taken : backlog.take (nexts events + 1) = backlog.take (nexts events) ++ backlog[nexts events]?.toList :=
        List.take_add_one ..
      cases held : backlog[nexts events]? with
      | none =>
        rw [held] at done taken
        rcases ih with kept | ⟨old, new, overtakes⟩
        · refine .inl ?_
          rw [done, made, count, taken, Option.toList_none, List.append_nil, List.append_nil, kept]
        · exact .inr ⟨old, new, overtakes.append rfl⟩
      | some w =>
        rw [held, Option.toList_some] at done taken
        by_cases same : w.1 = k
        · cases last : lastValue k (fresh events) with
          | none =>
            refine .inl ?_
            rw [done, made, count, taken, lastValue_append_singleton, if_pos same, lastValue_append, last,
              Option.none_or, lastValue_append_singleton, if_pos same]
          | some new =>
            refine .inr ⟨w.2, new, events, [], rfl, ?_, last, rfl⟩
            rw [held, ← same]
        · rcases ih with kept | ⟨old, new, overtakes⟩
          · refine .inl ?_
            rw [done, made, count, taken, lastValue_append_singleton, if_neg same, kept, lastValue_append,
              lastValue_append, lastValue_append_singleton, if_neg same]
          · exact .inr ⟨old, new, overtakes.append rfl⟩

end Backlog
