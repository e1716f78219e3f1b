import Rustdv.Model.Drain
import Rustdv.Model.TestRun

/-! # The regression in the simulator's regions

The hub, the executor and the regression run on one thread, and the simulator calls them. A callback of
the hub sets the phase, fires its waiters and runs the executor until idle, whatever is queued there:
the tasks of a test, the regression, and the next test after it. A put may run callbacks of value
changes, which run the executor in the middle of a ReadWrite drain; no other callbacks are nested. A
panic that no poll catches leaves the callback in which it happens, and the phase stays as it is.
-/

namespace Rustdv.Region

open Phase (Hub Simulator SetCall WriteTarget WriteVal PhaseKind)
open Phase.Drain (Draining)
open Runner (Bench Notice TestRegistration regressionTask)
open Component (TestResult)
open Executor (Frame Thread Move)

/-- How far the regression is in `leave_read_only`. -/
inductive Leaving where
  /-- Not in it. -/
  | out
  /-- The timer of one step is registered. -/
  | waiting
  /-- The timer's callback has fired its cell. -/
  | fired
deriving DecidableEq, Repr

structure World (σ : Type*) where
  drain : Draining σ
  bench : Bench
  leaving : Leaving

inductive Act where
  /-- Code of a test uses the hub: futures of phases, scheduled and immediate setters. -/
  | hub (a : Phase.Action)
  /-- The clock's task writes its signal. -/
  | clock (signal : Phase.LogicHandle) (high : Bool)
  /-- The executor's loop, code of a test, or the regression. -/
  | bench (a : Runner.Act)
  /-- `leave_read_only` finds the phase ReadOnly. -/
  | hold
  /-- The callback of the timer in `leave_read_only`. -/
  | timer
  /-- The simulator begins an armed callback of the hub. -/
  | enter (kind : PhaseKind)
  /-- The ReadWrite callback goes on with its drain. -/
  | next
  /-- A callback of the hub returns. -/
  | finish

inductive Sight where
  | hub (o : Phase.Obs)
  | bench (n : Notice)

/-- The writes of `Clock::start`: `set_u64_now(1)` and `set_u64_now(0)`. -/
def clockWrite (signal : Phase.LogicHandle) (high : Bool) : SetCall :=
  ⟨.logic signal, .u64 (if high then 1 else 0), rfl⟩

/-- The first panic among the observations. -/
def panicked (out : List Phase.Obs) : Option String :=
  out.findSome? fun
    | .panicked text => some text
    | _ => none

/-- The wakers that a batch of fired futures wakes. -/
def wakers (out : List Phase.Obs) : List Waker :=
  out.filterMap fun
    | .woke waker => some waker
    | _ => none

section World

variable {σ Val : Type*} (env : Simulator σ Val)

/-- What code of a test can do with the hub. -/
def perform (s : Hub σ) : Phase.Action → Option (Hub σ × List Phase.Obs)
  | .fire _ | .finish => none
  | a => Phase.step env s a

namespace World

/-- The simulator has been started, and the regression is spawned. -/
def init (sim : σ) (tests : List TestRegistration) : World σ :=
  ⟨Phase.Drain.initial sim, Bench.init tests, .out⟩

/-- No callback is in progress. -/
def atRest (s : World σ) : Bool := s.bench.thread.stack.isEmpty && s.drain.hub.inside.isNone

/-- Code outside of the executor's loop runs between the callbacks of the hub, and in callbacks of value
changes that a put of the drain runs. -/
def outsideRuns (s : World σ) : Bool := s.drain.hub.inside.isNone || s.drain.remaining.isSome

/-- Code of a test is running. -/
def codeRuns (s : World σ) : Bool :=
  s.bench.thread.userRuns && !s.bench.ownTurn && (s.bench.thread.inner.control ≠ .outside || s.outsideRuns)

/-- In its own poll the regression waits for the timer or for the test, returns after the last test, or
panics. -/
def permits (s : World σ) (move : Move TestResult) : Bool :=
  if s.bench.ownTurn then
    match s.bench.stage, move with
    | .ending .., _ => false
    | _, .panic _ => true
    | .between, .pollPending => s.leaving = .waiting
    | .between, .pollReady _ => s.bench.tests.isEmpty
    | .running .., .pollPending => true
    | _, _ => false
  else s.bench.thread.inner.control ≠ .outside || s.outsideRuns

/-- A step of the executor. -/
def heed (s : World σ) (result : Thread TestResult × List (Executor.Obs TestResult)) : World σ × List Sight :=
  let (bench, out) := s.bench.heed result
  ({ s with bench := bench }, out.map .bench)

/-- A panic leaves a callback, and the trampoline reports it. During a drain it is the callback of a
value change, else the one of the hub, if any. -/
def abandon (s : World σ) (message : String) : World σ × List Sight :=
  let text := s!"panic in simulator callback: {message}"
  let inside := if s.drain.remaining.isSome then s.drain.hub.inside else none
  ({ s with
      drain := { s.drain with hub := { s.drain.hub with inside := inside } }
      bench := { s.bench with slot := Runner.sink s.bench.slot [text] } },
    [.bench (.sankCallback text)])

/-- The code that is running panics. -/
def panic (s : World σ) (message : String) : World σ × List Sight :=
  let (t, out) := s.heed (s.bench.thread.panic message)
  if s.bench.thread.stack.any Frame.isPolling then (t, out)
  else
    let (u, more) := t.abandon message
    (u, out ++ more)

def exec (s : World σ) : Move TestResult → Option (World σ × List Sight)
  | .panic message => if s.bench.thread.userRuns then some (s.panic message) else none
  | move => (s.bench.thread.step move).map s.heed

/-- An operation on the hub, which may panic. -/
def settle (s : World σ) (result : Hub σ × List Phase.Obs) : World σ × List Sight :=
  let t : World σ := { s with drain := { s.drain with hub := result.1 } }
  match panicked result.2 with
  | none => (t, result.2.map .hub)
  | some text =>
      let (u, more) := t.panic text
      (u, result.2.map .hub ++ more)

/-- The end of every callback: wake, and run the executor until idle. -/
def runTasks (s : World σ) (woken : List Waker) : World σ × List Sight :=
  let woke : Thread TestResult := ⟨Executor.wake s.bench.thread.inner woken, s.bench.thread.stack⟩
  s.heed woke.runUntilIdle

/-- The callback fires the waiters of its kind. -/
def fireAndRun (s : World σ) (result : Hub σ × List Phase.Obs) : World σ × List Sight :=
  let t : World σ := { s with drain := ⟨result.1, none⟩ }
  let (u, more) := t.runTasks (wakers result.2)
  (u, result.2.map .hub ++ more)

/-- A callback of the hub, up to `run_until_idle`; the ReadWrite callback up to its drain. -/
def enter (s : World σ) : PhaseKind → World σ × List Sight
  | .readWrite =>
      ({ s with drain := ⟨Phase.Drain.taken s.drain.hub, some s.drain.hub.writes⟩ }, [.hub (.callback .readWrite)])
  | kind => s.fireAndRun (Phase.fire env s.drain.hub kind)

/-- The drain up to its next put; after the last one the waiters are fired. -/
def next (s : World σ) : List (WriteTarget × WriteVal) → World σ × List Sight
  | [] => s.fireAndRun (Phase.fireWaiters s.drain.hub .readWrite)
  | w :: rest =>
      let (hub, out) := Phase.apply env s.drain.hub w.1 w.2
      match panicked out with
      | none => ({ s with drain := ⟨hub, some rest⟩ }, out.map .hub)
      | some text =>
          let (t, more) := abandon { s with drain := ⟨hub, none⟩ } text
          (t, out.map .hub ++ more)

/-- The regression is polled and its next test is to be run. -/
def atTest (s : World σ) : Bool :=
  s.bench.ownTurn && s.bench.stage = .between && s.bench.tests.head?.any fun reg => !reg.skip

/-- `leave_read_only` has returned: at once, or when the timer has fired. -/
def hasLeft (s : World σ) : Bool :=
  match s.leaving with
  | .out => s.drain.hub.phase ≠ .readOnly
  | .waiting => false
  | .fired => true

def step (dut : Except String Unit) (s : World σ) : Act → Option (World σ × List Sight)
  | .hub a => if s.codeRuns then (perform env s.drain.hub a).map s.settle else none
  | .clock signal high =>
      if s.codeRuns then some (s.settle (Phase.setNow env s.drain.hub (clockWrite signal high))) else none
  | .bench (.exec move) => if s.permits move then s.exec move else none
  | .bench .begin =>
      if s.hasLeft then
        (s.bench.step dut .begin).map fun (bench, out) =>
          ({ s with bench := bench, leaving := .out }, out.map .bench)
      else none
  | .bench a => (s.bench.step dut a).map fun (bench, out) => ({ s with bench := bench }, out.map .bench)
  | .hold =>
      if s.atTest ∧ s.leaving = .out ∧ s.drain.hub.phase = .readOnly then some ({ s with leaving := .waiting }, [])
      else none
  | .timer =>
      if s.leaving = .waiting ∧ s.atRest then
        some (runTasks { s with leaving := .fired } [.task regressionTask])
      else none
  | .enter kind => if s.drain.hub.cb kind = true ∧ s.atRest then some (s.enter env kind) else none
  | .next => if s.bench.thread.stack.isEmpty then s.drain.remaining.map (s.next env) else none
  | .finish =>
      if s.bench.thread.stack.isEmpty ∧ s.drain.remaining = none then
        s.drain.hub.inside.map fun kind =>
          let (hub, out) := Phase.finish s.drain.hub kind
          ({ s with drain := ⟨hub, none⟩ }, out.map .hub)
      else none

end World

/-- The whole process over a DUT that is there or not. -/
def world (dut : Except String Unit) : Machine (World σ) Act Sight where
  step := World.step env dut

end World

end Rustdv.Region
