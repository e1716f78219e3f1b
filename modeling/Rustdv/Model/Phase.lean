import Rustdv.Machine.Run
import Rustdv.Model.Sync
import Rustdv.Model.Value
import Rustdv.ToMathlib.Coalesce
import Mathlib.Logic.Function.Basic

/-! # The phase hub

Three kinds of phase waits and the scheduled writes share one hub. A wait keeps its shared cell; the
hub holds weak references to the cells, so dropping a future drops its cell. Each kind of callback
is armed on demand, fires once and runs the executor until idle; what tasks do there are actions of
their own, between the beginning and the end of the callback. Other simulator callbacks only run
tasks, so for the hub they are the actions their tasks perform.
-/

namespace Rustdv.Phase

open Coalesce

inductive SimPhase where
  | normal
  | readWrite
  | readOnly
deriving DecidableEq, Repr

inductive PhaseKind where
  | readWrite
  | readOnly
  | nextTimeStep
deriving DecidableEq, Repr

/-- The cell that a callback fires and a future polls. -/
structure TrigShared where
  fired : Bool
  waker : Option Waker
deriving DecidableEq, Repr

/-- A phase future; it has no cell before its first poll. -/
structure PhaseFut where
  kind : PhaseKind
  shared : Option TrigShared
deriving DecidableEq, Repr

/-- The identity of a future, and of its cell. -/
abbrev FutRef := ℕ

/-- The simulator behind VPI, as far as writes go: a put with no delay sets its own object, whatever
it held, and no other. -/
structure Simulator (σ Val : Type*) where
  put : σ → WriteTarget → PutVal → σ
  value : σ → WriteTarget → Val
  fullName : WriteTarget → String
  put_self : ∀ s s' target v, value (put s target v) target = value (put s' target v) target
  put_other : ∀ s target target' v, target' ≠ target → value (put s target v) target' = value s target'

structure Hub (σ : Type*) where
  phase : SimPhase
  /-- `rw_waiters`, `ro_waiters` and `nt_waiters`. -/
  waiters : PhaseKind → List FutRef
  /-- Whether the callback is armed: `rw_cb`, `ro_cb` and `nt_cb`. -/
  cb : PhaseKind → Bool
  writes : List (WriteTarget × WriteVal)
  /-- The futures that exist; a dropped one is gone with its cell. -/
  futs : FutRef → Option PhaseFut
  fresh : FutRef
  sim : σ
  /-- The callback whose tasks are being run. -/
  inside : Option PhaseKind

inductive Obs where
  /-- A write went into the buffer. -/
  | buffered (target : WriteTarget) (val : WriteVal)
  /-- A write was put into the simulator. -/
  | applied (target : WriteTarget) (val : WriteVal)
  /-- A string setter returned `Err(InteriorNul)`. -/
  | refused (target : WriteTarget)
  /-- The first poll of a future. -/
  | registered (fut : FutRef) (kind : PhaseKind)
  | completed (fut : FutRef)
  /-- A callback set this future's cell. -/
  | fired (fut : FutRef)
  | woke (waker : Waker)
  | callback (kind : PhaseKind)
  /-- The callback's `run_until_idle` has returned. -/
  | returned (kind : PhaseKind)
  | panicked (text : String)
deriving DecidableEq, Repr

inductive Action where
  /-- `read_write()`, `read_only()` or `next_time_step()`. -/
  | make (kind : PhaseKind)
  | poll (fut : FutRef) (waker : Waker)
  | drop (fut : FutRef)
  /-- A buffered setter. -/
  | set (call : SetCall)
  /-- An immediate setter. -/
  | setNow (call : SetCall)
  /-- The simulator runs an armed callback, up to its `run_until_idle`. -/
  | fire (kind : PhaseKind)
  /-- The rest of the callback, when the executor is idle. -/
  | finish

section Hub

variable {σ Val : Type*} (env : Simulator σ Val)

/-- `init_hub`. -/
def initHub (sim : σ) : Hub σ where
  phase := .normal
  waiters _ := []
  cb _ := false
  writes := []
  futs _ := none
  fresh := 0
  sim := sim
  inside := none

def Hub.setFut (s : Hub σ) (fut : FutRef) (state : Option PhaseFut) : Hub σ :=
  { s with futs := Function.update s.futs fut state }

/-- `prime_rw`, `prime_ro` and `prime_nt`: arm the callback unless it is armed. -/
def prime (s : Hub σ) (kind : PhaseKind) : Hub σ :=
  { s with cb := Function.update s.cb kind true }

/-- Apply one write to the simulator. -/
def apply (s : Hub σ) (target : WriteTarget) (val : WriteVal) : Hub σ × List Obs :=
  match applyWrite target val with
  | .ok put => ({ s with sim := env.put s.sim target put }, [.applied target val])
  | .error .mismatch => (s, [.panicked "internal error: entered unreachable code: write target/value mismatch"])
  | .error .interiorNul => (s, [.panicked "scheduled string was validated: InteriorNul"])

/-- The text of `deny_write_in_read_only`. -/
def denied (target : WriteTarget) : String :=
  s!"illegal write to '{env.fullName target}' during the ReadOnly phase (cocotb rule, design-doc §4.4)"

def schedule (s : Hub σ) (target : WriteTarget) (val : WriteVal) : Hub σ × List Obs :=
  match s.phase with
  | .readOnly => (s, [.panicked (denied env target)])
  | .readWrite => apply env s target val
  | .normal =>
      (prime { s with writes := upsert target val s.writes } .readWrite, [.buffered target val])

/-- Whether the call passes a string with an interior NUL. -/
def SetCall.interiorNul (call : SetCall) : Bool :=
  match call.val with
  | .string v => v.contains '\x00'
  | _ => false

/-- The buffered setters. The string setter checks the phase and the text first. -/
def set (s : Hub σ) (call : SetCall) : Hub σ × List Obs :=
  if call.interiorNul then
    if s.phase = .readOnly then (s, [.panicked (denied env call.target)]) else (s, [.refused call.target])
  else schedule env s call.target call.val

/-- The immediate setters skip the buffer, not the phase rule. -/
def setNow (s : Hub σ) (call : SetCall) : Hub σ × List Obs :=
  if s.phase = .readOnly then (s, [.panicked (denied env call.target)])
  else if call.interiorNul then (s, [.refused call.target])
  else apply env s call.target call.val

/-- Apply writes in order. -/
def applyAll (s : Hub σ) : List (WriteTarget × WriteVal) → Hub σ × List Obs
  | [] => (s, [])
  | w :: rest =>
      let (next, out) := apply env s w.1 w.2
      let (last, more) := applyAll next rest
      (last, out ++ more)

/-- `TrigShared::fire`: latch, and wake the task that polled last. -/
def fireOne (s : Hub σ) (fut : FutRef) : Hub σ × List Obs :=
  match s.futs fut with
  | some ⟨kind, some cell⟩ =>
      (s.setFut fut (some ⟨kind, some ⟨true, none⟩⟩), .fired fut :: cell.waker.toList.map .woke)
  | _ => (s, [])

def fireAll (s : Hub σ) : List FutRef → Hub σ × List Obs
  | [] => (s, [])
  | fut :: rest =>
      let (next, out) := fireOne s fut
      let (last, more) := fireAll next rest
      (last, out ++ more)

/-- `fire_waiters`: the batch is detached before anything wakes. -/
def fireWaiters (s : Hub σ) (kind : PhaseKind) : Hub σ × List Obs :=
  fireAll { s with waiters := Function.update s.waiters kind [] } (s.waiters kind)

/-- The beginning of a callback, up to `run_until_idle`. -/
def fire (s : Hub σ) (kind : PhaseKind) : Hub σ × List Obs :=
  let taken : Hub σ := { s with cb := Function.update s.cb kind false, inside := some kind }
  match kind with
  | .readWrite =>
      let (drained, first) := applyAll env { taken with phase := .readWrite, writes := [] } s.writes
      let (last, later) := fireWaiters drained kind
      (last, .callback kind :: first ++ later)
  | .readOnly =>
      let (last, later) := fireWaiters { taken with phase := .readOnly } kind
      (last, .callback kind :: later)
  | .nextTimeStep =>
      let (last, later) := fireWaiters taken kind
      (last, .callback kind :: later)

/-- The end of a callback. -/
def finish (s : Hub σ) (kind : PhaseKind) : Hub σ × List Obs :=
  match kind with
  | .nextTimeStep => ({ s with inside := none }, [.returned kind])
  | _ => ({ s with inside := none, phase := .normal }, [.returned kind])

/-- The first poll of a future. -/
def register (s : Hub σ) (fut : FutRef) (kind : PhaseKind) (waker : Waker) : Hub σ × List Obs :=
  if s.phase = .readOnly ∧ kind = .readWrite then
    (s, [.panicked "awaiting ReadWrite from the ReadOnly phase is illegal (cocotb rule)"])
  else if s.phase = .readOnly ∧ kind = .readOnly then
    (s, [.panicked "awaiting ReadOnly from the ReadOnly phase is illegal (cocotb rule)"])
  else
    (prime { s.setFut fut (some ⟨kind, some ⟨false, some waker⟩⟩) with
      waiters := Function.update s.waiters kind (s.waiters kind ++ [fut]) } kind, [.registered fut kind])

/-- `PhaseFut::poll`. -/
def poll (s : Hub σ) (fut : FutRef) (state : PhaseFut) (waker : Waker) : Hub σ × List Obs :=
  match state.shared with
  | some cell =>
      if cell.fired then (s, [.completed fut])
      else (s.setFut fut (some { state with shared := some { cell with waker := some waker } }), [])
  | none => register s fut state.kind waker

/-- One action. Callbacks are not nested and only an armed one fires. -/
def step (s : Hub σ) : Action → Option (Hub σ × List Obs)
  | .make kind => some ({ s.setFut s.fresh (some ⟨kind, none⟩) with fresh := s.fresh + 1 }, [])
  | .poll fut waker => (s.futs fut).map fun state => poll s fut state waker
  | .drop fut => (s.futs fut).map fun _ => (s.setFut fut none, [])
  | .set call => some (set env s call)
  | .setNow call => some (setNow env s call)
  | .fire kind => if s.cb kind = true ∧ s.inside = none then some (fire env s kind) else none
  | .finish => s.inside.map fun kind => finish s kind

/-- The hub as a machine. -/
def machine : Machine (Hub σ) Action Obs where
  step := step env

end Hub

end Rustdv.Phase
