import Rustdv.Machine.Run
import Rustdv.Model.Sync
import Mathlib.Logic.Function.Basic

/-! # The FIFO-fair lock

`release` hands ownership to the first waiter before that waiter runs, so an `Acquire` can own the
lock without knowing it yet. The machine is one lock with all the `Acquire` futures and guards made
from it. An `Acquire` makes at most one waiter, so the waiter behind its `Rc` is named by its
`Acquire`; a guard is named by the `Acquire` that returned it. A completed `Acquire` is not polled
again, as the `Future` contract demands; everything else may happen in any order.
-/

namespace Rustdv.Lock

/-- The identity of an `Acquire`, of its waiter and of its guard. -/
abbrev AcqRef := ℕ

structure LockWaiter where
  granted : Bool
  waker : Option Waker
deriving DecidableEq, Repr

structure LockInner where
  locked : Bool
  waiters : List AcqRef
deriving DecidableEq, Repr

structure Acquire where
  waiter : Option AcqRef
  acquired : Bool
deriving DecidableEq, Repr

inductive Obs where
  | woke (waker : Waker)
  /-- The `Acquire` was polled for the first time. -/
  | firstPolled (acq : AcqRef)
  /-- The `Acquire` was given the lock, by its own poll or by a release. -/
  | owned (acq : AcqRef)
  /-- The `Acquire`'s poll returned the guard. -/
  | acquired (acq : AcqRef)
  /-- The guard, or the `Acquire` that had been granted the lock, was dropped. -/
  | released (acq : AcqRef)
  /-- The `Acquire` was dropped while it stood in the queue. -/
  | cancelled (acq : AcqRef)
deriving DecidableEq, Repr

/-- The lock, the waiter cells, the `Acquire`s that have not been dropped and the live guards. -/
structure System where
  inner : LockInner
  heap : AcqRef → LockWaiter
  fresh : AcqRef
  acquires : AcqRef → Option Acquire
  guards : List AcqRef

inductive Action where
  | acquire
  | poll (acq : AcqRef) (waker : Waker)
  | dropAcquire (acq : AcqRef)
  | dropGuard (acq : AcqRef)
deriving DecidableEq, Repr

namespace System

def setAcquire (s : System) (acq : AcqRef) (state : Option Acquire) : System :=
  { s with acquires := Function.update s.acquires acq state }

def setWaiter (s : System) (acq : AcqRef) (waiter : LockWaiter) : System :=
  { s with heap := Function.update s.heap acq waiter }

section Fields

variable (s : System) (acq : AcqRef) (state : Option Acquire) (waiter : LockWaiter)

@[simp] theorem setAcquire_inner : (s.setAcquire acq state).inner = s.inner := rfl
@[simp] theorem setAcquire_heap : (s.setAcquire acq state).heap = s.heap := rfl
@[simp] theorem setAcquire_fresh : (s.setAcquire acq state).fresh = s.fresh := rfl
@[simp] theorem setAcquire_acquires : (s.setAcquire acq state).acquires = Function.update s.acquires acq state := rfl
@[simp] theorem setAcquire_guards : (s.setAcquire acq state).guards = s.guards := rfl
@[simp] theorem setWaiter_inner : (s.setWaiter acq waiter).inner = s.inner := rfl
@[simp] theorem setWaiter_heap : (s.setWaiter acq waiter).heap = Function.update s.heap acq waiter := rfl
@[simp] theorem setWaiter_fresh : (s.setWaiter acq waiter).fresh = s.fresh := rfl
@[simp] theorem setWaiter_acquires : (s.setWaiter acq waiter).acquires = s.acquires := rfl
@[simp] theorem setWaiter_guards : (s.setWaiter acq waiter).guards = s.guards := rfl

end Fields

end System

/-- Pass ownership to the next waiter, or unlock. -/
def release (s : System) : System × List Obs :=
  match s.inner.waiters with
  | next :: rest =>
      -- ownership transferred: still locked
      ({ s.setWaiter next ⟨true, none⟩ with inner := { s.inner with waiters := rest } },
        .owned next :: ((s.heap next).waker.map Obs.woke).toList)
  | [] => ({ s with inner := { s.inner with locked := false } }, [])

/-- The poll that returns the guard. -/
def complete (s : System) (acq : AcqRef) (waiter : Option AcqRef) : System :=
  { s.setAcquire acq (some ⟨waiter, true⟩) with guards := s.guards ++ [acq] }

/-- `Acquire::poll`, for an `Acquire` that has not completed. -/
def poll (s : System) (acq : AcqRef) (waker : Waker) (state : Acquire) : System × List Obs :=
  match state.waiter with
  | none =>
      if !s.inner.locked then
        (complete { s with inner := { s.inner with locked := true } } acq none,
          [.firstPolled acq, .owned acq, .acquired acq])
      else
        ({ (s.setWaiter acq ⟨false, some waker⟩).setAcquire acq (some { state with waiter := some acq }) with
          inner := { s.inner with waiters := s.inner.waiters ++ [acq] } }, [.firstPolled acq])
  | some w =>
      if (s.heap w).granted then (complete s acq (some w), [.acquired acq])
      else (s.setWaiter w { s.heap w with waker := some waker }, [])

/-- `Acquire::drop`. -/
def dropAcquire (s : System) (acq : AcqRef) (state : Acquire) : System × List Obs :=
  let gone := s.setAcquire acq none
  if state.acquired then (gone, [])
  else
    match state.waiter with
    | none => (gone, [])
    | some w =>
        if (s.heap w).granted then
          -- granted but never polled: pass it on
          let (next, out) := release gone
          (next, .released acq :: out)
        else
          ({ gone with inner := { s.inner with waiters := s.inner.waiters.filter (· ≠ w) } }, [.cancelled acq])

/-- `LockGuard::drop`. -/
def dropGuard (s : System) (acq : AcqRef) : System × List Obs :=
  let (next, out) := release { s with guards := s.guards.erase acq }
  (next, .released acq :: out)

def step (s : System) : Action → Option (System × List Obs)
  | .acquire => some ({ s.setAcquire s.fresh (some ⟨none, false⟩) with fresh := s.fresh + 1 }, [])
  | .poll acq waker =>
      match s.acquires acq with
      | some state => if state.acquired then none else some (poll s acq waker state)
      | none => none
  | .dropAcquire acq => (s.acquires acq).map (dropAcquire s acq)
  | .dropGuard acq => if acq ∈ s.guards then some (dropGuard s acq) else none

/-- One lock with its futures and guards. -/
def machine : Machine System Action Obs where
  step := step

/-- A fresh lock. -/
def initial : System := ⟨⟨false, []⟩, fun _ => ⟨false, none⟩, 0, fun _ => none, []⟩

namespace System

/-- Whether the `Acquire` has been granted the lock and not been polled since. -/
def grantedUnpolled (s : System) (acq : AcqRef) : Bool :=
  match s.acquires acq with
  | some ⟨some w, false⟩ => (s.heap w).granted
  | _ => false

/-- The owners of the lock: live guards, and granted `Acquire`s that have not been polled since. -/
def owners (s : System) : List AcqRef :=
  s.guards ++ (List.range s.fresh).filter s.grantedUnpolled

end System

end Rustdv.Lock
