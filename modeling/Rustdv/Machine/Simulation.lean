import Rustdv.Machine.Run

/-! # Forward simulation between observable machines

A concrete step is matched by a finite abstract run that emits what is left of the concrete
observations after a filter. Whole runs are then matched the same way, and what an abstract
invariant says of the kept observations holds of every concrete run.
-/

namespace Machine

variable {State Action State' Action' Obs : Type*}
variable (m : Machine State Action Obs) (abstract : Machine State' Action' Obs)

/-- From a state that meets `inv`, every concrete step keeps `inv` and is an abstract run between
the images, on the kept observations. -/
def Simulates (inv : State → Prop) (image : State → State') (keep : Obs → Bool) : Prop :=
  ∀ s a t out, inv s → m.step s a = some (t, out) →
    inv t ∧ ∃ actions, abstract.run (image s) actions = some (image t, out.filter keep)

variable {m abstract}

/-- Simulation of steps lifts to simulation of runs. -/
theorem Simulates.run {inv : State → Prop} {image : State → State'} {keep : Obs → Bool}
    (simulates : m.Simulates abstract inv image keep) {s t : State} {actions : List Action}
    {obs : List Obs} (initial : inv s) (ran : m.run s actions = some (t, obs)) :
    inv t ∧ ∃ matched, abstract.run (image s) matched = some (image t, obs.filter keep) := by
  induction actions generalizing s obs with
  | nil =>
    cases ran
    exact ⟨initial, [], rfl⟩
  | cons a rest ih =>
    obtain ⟨mid, first, later, stepped, suffix, rfl⟩ := m.run_cons_eq_some_iff.mp ran
    obtain ⟨kept, front, left⟩ := simulates s a mid first initial stepped
    obtain ⟨final, back, right⟩ := ih kept suffix
    exact ⟨final, front ++ back, by rw [List.filter_append]; exact abstract.run_append left right⟩

end Machine

/-- A partial observation of the kept elements is the same observation of all elements, when
everything it observes is kept. -/
theorem List.filterMap_filter_of_observed {α β : Type*} (keep : α → Bool) (observe : α → Option β)
    (observed : ∀ a, (observe a).isSome → keep a = true) (l : List α) :
    (l.filter keep).filterMap observe = l.filterMap observe := by
  rw [List.filterMap_filter]
  congr 1
  funext a
  cases kept : keep a with
  | true => rfl
  | false =>
    cases seen : observe a with
    | none => rfl
    | some b => exact absurd (observed a (by simp [seen])) (by simp [kept])
