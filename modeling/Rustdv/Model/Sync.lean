import Mathlib.Data.List.Basic

/-! # Wakers, polls and the manual-reset event

A poll either completes or stores the caller's waker with what it waits for. Waking does not run
anything: it appends to the executor's woken list. Operations that wake therefore return the
wakers they woke, in order, and the machines built on them report those as observations.
-/

namespace Rustdv

/-- Task ids are `u64` and only ever counted up from 1. -/
abbrev TaskId := ℕ

/-- A waker reschedules one executor task, or belongs to code outside the executor. -/
inductive Waker where
  | task (id : TaskId)
  | foreign (tag : ℕ)
deriving DecidableEq, Repr

/-- The executor task that a waker reschedules. -/
def Waker.taskId : Waker → Option TaskId
  | .task id => some id
  | .foreign _ => none

/-- The result of polling a future once. -/
inductive Poll (α : Type*) where
  | ready (value : α)
  | pending
deriving DecidableEq, Repr

/-- The manual-reset event: `set` latches until `clear`. -/
structure Event where
  isSet : Bool
  waiters : List Waker
deriving DecidableEq, Repr

namespace Event

def new : Event := ⟨false, []⟩

/-- Latch the event and wake every registered waiter. -/
def set (event : Event) : Event × List Waker :=
  (⟨true, []⟩, event.waiters)

def clear (event : Event) : Event := { event with isSet := false }

/-- `EventWait::poll`: ready at once when the event is set, else the waker is registered. -/
def wait (event : Event) (waker : Waker) : Poll Unit × Event :=
  if event.isSet then (.ready (), event)
  else (.pending, { event with waiters := event.waiters ++ [waker] })

@[simp] theorem set_isSet (event : Event) : event.set.1.isSet = true := rfl

theorem wait_of_isSet {event : Event} (latched : event.isSet = true) (waker : Waker) :
    event.wait waker = (.ready (), event) := if_pos latched

theorem wait_of_not_isSet {event : Event} (clear : event.isSet = false) (waker : Waker) :
    event.wait waker = (.pending, { event with waiters := event.waiters ++ [waker] }) := by
  simp only [wait, clear, Bool.false_eq_true, ↓reduceIte]

end Event

end Rustdv
