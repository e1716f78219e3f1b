import Mathlib.Data.List.Basic
import Mathlib.Order.Basic

/-! # Finite runs of observable machines

A machine accepts or refuses an action at a state; an accepted action yields the next state and
the observations the step emitted, in order. A run is a list of actions, all accepted. Everything
that is said about whole runs follows from one rule, `Machine.run_invariant`: a relation between
the state and the observations so far that holds at the start and survives every step holds at
the end. `Machine.restrict` keeps only the steps that meet a condition on the state and the
action, so that "every run whose steps all meet the condition" is a run of the restricted machine.
-/

/-- Actions are accepted with a successor and the observations of the step, or refused. -/
structure Machine (State Action Obs : Type*) where
  step : State → Action → Option (State × List Obs)

namespace Machine

variable {State Action Obs : Type*} (m : Machine State Action Obs)

/-- Perform the actions from left to right, concatenating what the steps emit. -/
def run : State → List Action → Option (State × List Obs)
  | s, [] => some (s, [])
  | s, a :: rest =>
      (m.step s a).bind fun (mid, first) =>
        (run mid rest).map fun (last, later) => (last, first ++ later)

@[simp] theorem run_nil (s : State) : m.run s [] = some (s, []) := rfl

theorem run_cons_eq_some_iff {s t : State} {a : Action} {rest : List Action} {obs : List Obs} :
    m.run s (a :: rest) = some (t, obs) ↔
      ∃ mid first later, m.step s a = some (mid, first) ∧ m.run mid rest = some (t, later) ∧
        obs = first ++ later := by
  constructor
  · intro ran
    obtain ⟨⟨mid, first⟩, stepped, mapped⟩ := Option.bind_eq_some_iff.mp ran
    obtain ⟨⟨last, later⟩, suffix, same⟩ := Option.map_eq_some_iff.mp mapped
    cases same
    exact ⟨mid, first, later, stepped, suffix, rfl⟩
  · rintro ⟨mid, first, later, stepped, ran, rfl⟩
    simp only [run, stepped, Option.bind_some, ran, Option.map_some]

theorem run_singleton (s : State) (a : Action) : m.run s [a] = m.step s a := by
  cases stepped : m.step s a with
  | none => simp only [run, stepped, Option.bind_none]
  | some out => simp only [run, stepped, Option.bind_some, Option.map_some, List.append_nil]

/-- Runs compose at their shared state. -/
theorem run_append {s mid t : State} {front back : List Action} {first later : List Obs}
    (left : m.run s front = some (mid, first)) (right : m.run mid back = some (t, later)) :
    m.run s (front ++ back) = some (t, first ++ later) := by
  induction front generalizing s first with
  | nil =>
    cases left
    simpa using right
  | cons a rest ih =>
    obtain ⟨next, out, tail, stepped, suffix, rfl⟩ := m.run_cons_eq_some_iff.mp left
    rw [List.cons_append, run_cons_eq_some_iff]
    exact ⟨next, out, tail ++ later, stepped, ih suffix, List.append_assoc ..⟩

/-- A run passes through a state between any two of its actions. -/
theorem run_append_eq_some_iff {s t : State} {front back : List Action} {obs : List Obs} :
    m.run s (front ++ back) = some (t, obs) ↔ ∃ mid first later,
      m.run s front = some (mid, first) ∧ m.run mid back = some (t, later) ∧ obs = first ++ later := by
  constructor
  · intro ran
    induction front generalizing s obs with
    | nil => exact ⟨s, [], obs, rfl, ran, rfl⟩
    | cons a rest ih =>
      obtain ⟨next, out, tail, stepped, suffix, rfl⟩ := m.run_cons_eq_some_iff.mp ran
      obtain ⟨mid, first, later, prior, after, rfl⟩ := ih suffix
      refine ⟨mid, out ++ first, later, ?_, after, (List.append_assoc ..).symm⟩
      exact m.run_cons_eq_some_iff.mpr ⟨next, out, first, stepped, prior, rfl⟩
  · rintro ⟨mid, first, later, prior, after, rfl⟩
    exact m.run_append prior after

/-- What holds of the starting state and the observations so far, and survives every accepted
step, holds at the end of every run. -/
theorem run_invariant (inv : State → List Obs → Prop) {s t : State} {past obs : List Obs}
    {actions : List Action} (initial : inv s past)
    (preserved : ∀ {u v : State} {seen out : List Obs} {a : Action}, inv u seen →
      m.step u a = some (v, out) → inv v (seen ++ out))
    (ran : m.run s actions = some (t, obs)) : inv t (past ++ obs) := by
  induction actions generalizing s past obs with
  | nil =>
    cases ran
    simpa using initial
  | cons a rest ih =>
    obtain ⟨mid, first, later, stepped, suffix, rfl⟩ := m.run_cons_eq_some_iff.mp ran
    simpa only [List.append_assoc] using ih (preserved initial stepped) suffix

/-- The same rule for a run that starts with no observations behind it. -/
theorem run_invariant_nil (inv : State → List Obs → Prop) {s t : State} {obs : List Obs}
    {actions : List Action} (initial : inv s [])
    (preserved : ∀ {u v : State} {seen out : List Obs} {a : Action}, inv u seen →
      m.step u a = some (v, out) → inv v (seen ++ out))
    (ran : m.run s actions = some (t, obs)) : inv t obs :=
  m.run_invariant inv initial preserved ran

/-- Accept only the actions that meet a condition on the state they are taken in. -/
def restrict (ok : State → Action → Prop) [∀ s a, Decidable (ok s a)] : Machine State Action Obs where
  step s a := if ok s a then m.step s a else none

section Restrict

variable {ok : State → Action → Prop} [∀ s a, Decidable (ok s a)]

theorem restrict_step_eq_some_iff {s t : State} {a : Action} {out : List Obs} :
    (m.restrict ok).step s a = some (t, out) ↔ ok s a ∧ m.step s a = some (t, out) := by
  simp only [restrict]
  split
  · next allowed => exact (and_iff_right allowed).symm
  · next refused => exact ⟨fun none => (by cases none), fun both => (refused both.1).elim⟩

/-- A restricted run is a run. -/
theorem run_of_restrict {s t : State} {actions : List Action} {obs : List Obs}
    (ran : (m.restrict ok).run s actions = some (t, obs)) : m.run s actions = some (t, obs) := by
  induction actions generalizing s obs with
  | nil => exact ran
  | cons a rest ih =>
    obtain ⟨mid, first, later, stepped, suffix, rfl⟩ := (m.restrict ok).run_cons_eq_some_iff.mp ran
    exact m.run_cons_eq_some_iff.mpr
      ⟨mid, first, later, (m.restrict_step_eq_some_iff.mp stepped).2, ih suffix, rfl⟩

/-- A run whose actions are allowed in every state is a restricted run. -/
theorem restrict_run {s t : State} {actions : List Action} {obs : List Obs}
    (allowed : ∀ a ∈ actions, ∀ u, ok u a) (ran : m.run s actions = some (t, obs)) :
    (m.restrict ok).run s actions = some (t, obs) := by
  induction actions generalizing s obs with
  | nil => exact ran
  | cons a rest ih =>
    obtain ⟨mid, first, later, stepped, suffix, rfl⟩ := m.run_cons_eq_some_iff.mp ran
    refine (m.restrict ok).run_cons_eq_some_iff.mpr ⟨mid, first, later, ?_, ?_, rfl⟩
    · exact m.restrict_step_eq_some_iff.mpr ⟨allowed a List.mem_cons_self s, stepped⟩
    · exact ih (fun b member => allowed b (List.mem_cons_of_mem a member)) suffix

/-- A run that is not a restricted one has a first step that is not allowed. -/
theorem restrict_run_or {s t : State} {actions : List Action} {obs : List Obs}
    (ran : m.run s actions = some (t, obs)) :
    (m.restrict ok).run s actions = some (t, obs) ∨
      ∃ before a after u v first out later, actions = before ++ a :: after ∧ m.run s before = some (u, first) ∧
        ¬ ok u a ∧ m.step u a = some (v, out) ∧ m.run v after = some (t, later) ∧ obs = first ++ out ++ later := by
  induction actions generalizing s obs with
  | nil => exact .inl ran
  | cons a rest ih =>
    obtain ⟨mid, out, later, stepped, suffix, rfl⟩ := m.run_cons_eq_some_iff.mp ran
    by_cases allowed : ok s a
    · rcases ih suffix with restricted | ⟨before, b, after, u, v, first, out', later', rfl, prior, refused, moved, rest, rfl⟩
      · exact .inl ((m.restrict ok).run_cons_eq_some_iff.mpr
          ⟨mid, out, later, m.restrict_step_eq_some_iff.mpr ⟨allowed, stepped⟩, restricted, rfl⟩)
      · refine .inr ⟨a :: before, b, after, u, v, out ++ first, out', later', rfl, ?_, refused, moved, rest, ?_⟩
        · exact m.run_cons_eq_some_iff.mpr ⟨mid, out, first, stepped, prior, rfl⟩
        · simp only [List.append_assoc]
    · exact .inr ⟨[], a, rest, s, mid, [], out, later, rfl, rfl, allowed, stepped, suffix, rfl⟩

end Restrict

end Machine
