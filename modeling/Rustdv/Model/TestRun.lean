import Rustdv.Model.Runner
import Rustdv.Model.Teardown

/-! # The regression as a task among its tests' tasks

The regression is the first task of the executor. In its own polls it begins a test, looks at the
test's handle, cancels what the test leaves behind and scores it. Between these polls the test's tasks,
their destructors and the simulator's callbacks do what they like with the executor; the failure sink
and the handle of the test's own task are the regression's.
-/

namespace Rustdv.Runner

open Component (TestResult)
open Executor (Frame Thread Move victims)

/-- Where the regression is in `run_one`. -/
inductive Stage where
  /-- Before a test: in the loop of `regression`, or waiting to leave the ReadOnly region. -/
  | between
  | running (reg : TestRegistration) (body : TaskId)
  /-- `cancel_after` is at work; `raw` is what awaiting the test came to. -/
  | ending (reg : TestRegistration) (raw : Option (Except TaskError TestResult))
deriving DecidableEq

/-- The executor with the regression that runs in it. -/
structure Bench where
  thread : Thread TestResult
  /-- `CURRENT_FAILURE`. -/
  slot : Option String
  stage : Stage
  /-- The tests still to come. -/
  tests : List TestRegistration

inductive Act where
  /-- The executor's loop, or code of a test. -/
  | exec (move : Move TestResult)
  /-- A callback's closure panics, and its trampoline reports it. -/
  | callbackPanic (msg : String)
  | skip
  | begin
  /-- The handle is polled and the test's task is not done. -/
  | await
  /-- The wait is over; the order is that of `cancel_after`. -/
  | finish (order : List TaskId)
  | score

inductive Notice where
  | exec (o : Executor.Obs TestResult)
  /-- The panic sink of the callbacks was called with this text. -/
  | sankCallback (text : String)
  | skipped (reg : TestRegistration)
  /-- There is no DUT to run the test on. -/
  | refused (reg : TestRegistration) (outcome : Outcome)
  | began (reg : TestRegistration) (body : TaskId)
  | ended (reg : TestRegistration) (raw : Option (Except TaskError TestResult)) (outcome : Outcome)

/-- What the two sinks of `on_start_of_simulation` are told. -/
def Notice.report : Notice → Option String
  | .exec (.sank text) => some text
  | .sankCallback text => some text
  | _ => none

/-- The regression is the first task to be spawned. -/
def regressionTask : TaskId := 1

/-- What awaiting a task comes to when it is done. A handle that is awaited once finds a result. -/
def awaited : Except Executor.TaskError TestResult → Option (Except TaskError TestResult)
  | .ok result => some (.ok result)
  | .error (.panicked msg) => some (.error (.panicked msg))
  | .error .cancelled => some (.error .cancelled)
  | .error .invalidState => none

namespace Bench

/-- `on_start_of_simulation`, up to `run_until_idle`. -/
def init (tests : List TestRegistration) : Bench where
  thread := ⟨(Executor.spawnNamed { Executor.init TestResult with failureSink := true } "rustdv_regression").1, []⟩
  slot := none
  stage := .between
  tests := tests

/-- The regression's own code is running. -/
def ownTurn (s : Bench) : Bool := s.thread.stack.head? = some (.polling regressionTask)

/-- A destructor is running. -/
def destructs (s : Bench) : Bool :=
  match s.thread.stack.head? with
  | some .dropping | some (.discarding ..) => true
  | _ => false

/-- The code of a task is running. -/
def polls (s : Bench) : Bool := s.thread.stack.head?.any Frame.isPolling

/-- The task that the running test's handle stands for. -/
def body? (s : Bench) : Option TaskId :=
  match s.stage with
  | .running _ body => some body
  | _ => none

/-- In its own poll the regression waits, returns after the last test, or panics. Anybody else may do
anything but replace the sink or use the handle of the test's task; destructors neither spawn nor
panic. -/
def permits (s : Bench) (move : Move TestResult) : Bool :=
  if s.ownTurn then
    match s.stage, move with
    | .ending .., _ => false
    | _, .pollPending | _, .panic _ => true
    | .between, .pollReady _ => s.tests.isEmpty
    | _, _ => false
  else
    match move with
    | .spawnNamed _ => !s.destructs
    | .panic _ => s.polls
    | .setFailureSink => false
    | .pollHandle id _ | .takeResult id => s.body? ≠ some id
    | _ => true

/-- A step of the executor, with what it tells the sink. -/
def heed (s : Bench) (result : Thread TestResult × List (Executor.Obs TestResult)) : Bench × List Notice :=
  let notices := result.2.map .exec
  ({ s with thread := result.1, slot := sink s.slot (notices.filterMap Notice.report) }, notices)

/-- The beginning of `run_one`. -/
def begin (s : Bench) (dut : Except String Unit) (reg : TestRegistration) (rest : List TestRegistration) :
    Bench × List Notice :=
  match dut with
  | .error e => ({ s with tests := rest }, [.refused reg (fail s!"no DUT: {e}")])
  | .ok () =>
      let body := s.thread.inner.nextId
      let (spawned, out) := s.heed (s.thread.lift (Executor.spawnNamed s.thread.inner reg.name))
      ({ spawned with stage := .running reg body, tests := rest }, out ++ [.began reg body])

/-- What awaiting the test's task comes to, with its timeout; `some none` is a timeout. -/
def waited (s : Bench) (reg : TestRegistration) (body : TaskId) : Option (Option (Except TaskError TestResult)) :=
  if (s.thread.inner.shared body).state.done then
    (awaited (Executor.takeResult s.thread.inner body).2).map some
  else if reg.timeout.isSome then some none
  else none

/-- The handle of the test's task is polled. -/
def pollBody (s : Bench) (body : TaskId) : Bench × List Notice :=
  s.heed (s.thread.lift (Executor.pollHandle s.thread.inner body (.task regressionTask)))

/-- `cancel_after` begins. -/
def finish (s : Bench) (reg : TestRegistration) (raw : Option (Except TaskError TestResult)) (order : List TaskId) :
    Bench :=
  { s with
    thread := { s.thread with stack := .cancelling order :: s.thread.stack }
    stage := .ending reg raw }

/-- The scoring takes what is in the failure slot. -/
def score (s : Bench) (reg : TestRegistration) (raw : Option (Except TaskError TestResult)) : Bench × List Notice :=
  ({ s with slot := none, stage := .between },
    [.ended reg raw (expected reg (withBackground s.slot (rawOutcome reg raw)))])

def step (dut : Except String Unit) (s : Bench) : Act → Option (Bench × List Notice)
  | .exec move => if s.permits move then (s.thread.step move).map s.heed else none
  | .callbackPanic msg =>
      if s.thread.userRuns then
        let text := s!"panic in simulator callback: {msg}"
        some ({ s with slot := sink s.slot [text] }, [.sankCallback text])
      else none
  | .skip =>
      match s.stage, s.tests with
      | .between, reg :: rest =>
          if s.ownTurn ∧ reg.skip then some ({ s with tests := rest }, [.skipped reg]) else none
      | _, _ => none
  | .begin =>
      match s.stage, s.tests with
      | .between, reg :: rest => if s.ownTurn ∧ ¬ reg.skip then some (s.begin dut reg rest) else none
      | _, _ => none
  | .await =>
      match s.stage with
      | .running _ body =>
          if s.ownTurn ∧ ¬ (s.thread.inner.shared body).state.done then some (s.pollBody body) else none
      | _ => none
  | .finish order =>
      match s.stage with
      | .running reg body =>
          if s.ownTurn ∧ order.Perm (victims s.thread.inner body) then
            (s.waited reg body).map fun raw => ((s.pollBody body).1.finish reg raw order, (s.pollBody body).2)
          else none
      | _ => none
  | .score =>
      match s.stage with
      | .ending reg raw => if s.ownTurn then some (s.score reg raw) else none
      | _ => none

end Bench

/-- A regression over a DUT that is there or not. -/
def bench (dut : Except String Unit) : Machine Bench Act Notice where
  step := Bench.step dut

end Rustdv.Runner
