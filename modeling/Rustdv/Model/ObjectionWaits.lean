import Rustdv.Machine.Run
import Rustdv.Model.Objection

/-! # Waiting for the objections to be dropped

Clones of a registry share it, so there is one registry, with the guards that are alive and the futures
that wait. Objections are raised, guards are dropped and futures are polled and cancelled in any order.
-/

namespace Rustdv.Objection

inductive WaitKind where
  /-- `wait_drained_event`. -/
  | drainedEvent
  /-- `wait_all_dropped`. -/
  | allDropped
deriving DecidableEq, Repr

inductive Stage where
  | unpolled
  /-- Its last poll was pending, in the wait for the event. -/
  | waiting
  | complete
  | cancelled
deriving DecidableEq, Repr

structure WaitFut where
  kind : WaitKind
  stage : Stage
deriving DecidableEq, Repr

/-- The first poll of `wait_all_dropped`, with the warning it logs. -/
def pollAllDropped (reg : ObjectionRegistry) (waker : Waker) : Poll Unit × ObjectionRegistry × List String :=
  if !reg.raisedEver then
    (.ready (), reg, ["all_objections_dropped awaited but no objection was ever raised"])
  else if reg.count = 0 then (.ready (), reg, [])
  else
    let (poll, next) := waitDrained reg waker
    (poll, next, [])

/-- A poll of a future that is neither complete nor dropped. -/
def WaitFut.poll (fut : WaitFut) (reg : ObjectionRegistry) (waker : Waker) :
    Option (Poll Unit × ObjectionRegistry × List String) :=
  match fut.kind, fut.stage with
  | _, .complete | _, .cancelled => none
  | .allDropped, .unpolled => some (pollAllDropped reg waker)
  | .drainedEvent, .unpolled | _, .waiting =>
      let (poll, next) := waitDrained reg waker
      some (poll, next, [])

/-- Where a poll leaves the future. -/
def Stage.after : Poll Unit → Stage
  | .ready () => .complete
  | .pending => .waiting

/-- The registry and the futures made of it so far. -/
structure Waits where
  reg : ObjectionRegistry
  futs : List WaitFut
deriving DecidableEq, Repr

def Waits.init : Waits := ⟨new, []⟩

inductive Action where
  /-- An objection is raised, or a guard dropped. -/
  | op (op : Op)
  | wait (kind : WaitKind)
  | poll (fut : ℕ) (waker : Waker)
  | cancel (fut : ℕ)
deriving DecidableEq, Repr

inductive WaitObs where
  | objection (o : Obs)
  | pended (fut : ℕ) (waker : Waker)
  | completed (fut : ℕ)
  | warned (text : String)
deriving DecidableEq, Repr

/-- What is seen of a poll. -/
def WaitObs.polled (fut : ℕ) (waker : Waker) : Poll Unit → WaitObs
  | .ready () => .completed fut
  | .pending => .pended fut waker

def Waits.step (s : Waits) : Action → Option (Waits × List WaitObs)
  | .op op =>
      let (reg, out) := perform s.reg op
      some ({ s with reg }, out.map .objection)
  | .wait kind => some ({ s with futs := s.futs ++ [⟨kind, .unpolled⟩] }, [])
  | .poll i waker =>
      s.futs[i]?.bind fun fut => (fut.poll s.reg waker).map fun (poll, reg, warnings) =>
        (⟨reg, s.futs.set i ⟨fut.kind, .after poll⟩⟩, warnings.map .warned ++ [.polled i waker poll])
  | .cancel i => s.futs[i]?.map fun fut => ({ s with futs := s.futs.set i ⟨fut.kind, .cancelled⟩ }, [])

def waits : Machine Waits Action WaitObs := ⟨Waits.step⟩

end Rustdv.Objection
