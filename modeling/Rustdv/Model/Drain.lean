import Rustdv.Model.Phase

/-! # The ReadWrite drain, put by put

A simulator may run value-change callbacks from within `vpi_put_value`. A callback that wakes a task
runs the executor until idle, so tasks act after every single put of the drain, while the rest of the
buffer is still waiting to be applied. The hub's ReadWrite callback is here cut into these pieces; all
other actions are the hub's.
-/

namespace Rustdv.Phase.Drain

/-- The hub, and the writes that the ReadWrite callback has taken from the buffer and not yet applied. -/
structure Draining (σ : Type*) where
  hub : Hub σ
  /-- `none` when no drain is under way. -/
  remaining : Option (List (WriteTarget × WriteVal))

inductive Reaction where
  /-- An action of the hub; during a drain, one of the tasks woken by a put. -/
  | hub (a : Action)
  /-- `vpi_put_value` returns to the drain, which goes on with the next write. -/
  | next

section Step

variable {σ Val : Type*} (env : Simulator σ Val)

def initial (sim : σ) : Draining σ := ⟨initHub sim, none⟩

/-- The drain up to its next put, or to the end of it: the waiters are fired. -/
def proceed (s : Hub σ) : List (WriteTarget × WriteVal) → Draining σ × List Obs
  | w :: rest =>
      let (t, out) := apply env s w.1 w.2
      (⟨t, some rest⟩, out)
  | [] =>
      let (t, out) := fireWaiters s .readWrite
      (⟨t, none⟩, out)

/-- The hub when the ReadWrite callback has taken the buffer. -/
def taken (s : Hub σ) : Hub σ :=
  { s with
    cb := Function.update s.cb .readWrite false
    inside := some .readWrite
    phase := .readWrite
    writes := [] }

/-- The ReadWrite callback up to its first put. -/
def enter (s : Hub σ) : Draining σ × List Obs :=
  let (t, out) := proceed env (taken s) s.writes
  (t, .callback .readWrite :: out)

/-- An action of the hub that does not touch the drain. -/
def pass (s : Draining σ) (a : Action) : Option (Draining σ × List Obs) :=
  (Phase.step env s.hub a).map fun (t, out) => ({ s with hub := t }, out)

/-- One reaction. The callback goes on to `run_until_idle` and returns only after the drain. -/
def step (s : Draining σ) : Reaction → Option (Draining σ × List Obs)
  | .next => s.remaining.map (proceed env s.hub)
  | .hub (.fire .readWrite) =>
      if s.hub.cb .readWrite = true ∧ s.hub.inside = none then some (enter env s.hub) else none
  | .hub .finish => if s.remaining.isNone then pass env s .finish else none
  | .hub a => pass env s a

/-- The hub with the drain as a machine. -/
def machine : Machine (Draining σ) Reaction Obs where
  step := step env

end Step

end Rustdv.Phase.Drain
