import Rustdv.Machine.Run
import Rustdv.Model.Sync
import Mathlib.Logic.Function.Basic

/-! # The single-threaded executor

A run queue drained to exhaustion after every simulator callback. User code runs outside the loop
or inside the poll of one task; there it may spawn, wake, cancel, join and call `run_until_idle`
again. The loop itself is one action a turn: take in the wakes, pop, and begin the next poll or
return. How a poll ends is up to the task, so every end is an action.
-/

namespace Rustdv.Executor

inductive TaskState where
  | unstarted
  | scheduled
  | running
  | pending
  | finished
  | cancelled
  | failed
deriving DecidableEq, Repr

/-- `TaskHandle::done`. -/
def TaskState.done : TaskState → Bool
  | finished | cancelled | failed => true
  | _ => false

inductive TaskError where
  | cancelled
  | panicked (message : String)
  /-- `result()` called before completion, or awaited twice. -/
  | invalidState
deriving DecidableEq, Repr

/-- The cell shared by the executor entry and its handles. -/
structure TaskShared (V : Type*) where
  state : TaskState
  result : Option (Except TaskError V)
  joiners : List Waker

/-- The executor's own record of a live task. -/
structure TaskEntry where
  name : String
  state : TaskState
deriving DecidableEq, Repr

/-- Whose code is running. -/
inductive Control where
  | outside
  /-- Inside `run_until_idle`, between two polls. -/
  | looping
  | polling (id : TaskId)
deriving DecidableEq, Repr

structure ExecInner (V : Type*) where
  tasks : TaskId → Option TaskEntry
  /-- The cells of all tasks ever spawned; handles outlive entries. -/
  shared : TaskId → TaskShared V
  nextId : TaskId
  runQueue : List TaskId
  woken : List TaskId
  running : Bool
  currentlyPolling : Option TaskId
  /-- Self-cancellations deferred until the poll returns. -/
  cancelPending : List TaskId
  /-- Whether `set_failure_sink` has been called. -/
  failureSink : Bool
  control : Control

/-- `init`: a fresh executor. -/
def init (V : Type*) : ExecInner V where
  tasks _ := none
  shared _ := ⟨.unstarted, none, []⟩
  nextId := 1
  runQueue := []
  woken := []
  running := false
  currentlyPolling := none
  cancelPending := []
  failureSink := false
  control := .outside

inductive Obs (V : Type*) where
  | spawned (id : TaskId) (name : String)
  | woke (waker : Waker)
  | pollBegan (id : TaskId)
  /-- A result went into the task's cell, and these joiners are woken for it. -/
  | stored (id : TaskId) (result : Except TaskError V) (joiners : List Waker)
  /-- A pending join left its waker with the task. -/
  | registered (id : TaskId) (waker : Waker)
  | joined (id : TaskId) (result : Except TaskError V)
  /-- A task asked to cancel itself from inside its own poll. -/
  | deferred (id : TaskId)
  /-- A nested `run_until_idle` returned at once. -/
  | nested
  /-- The outermost `run_until_idle` returned. -/
  | idled
  /-- The failure sink was called with this text. -/
  | sank (text : String)
  /-- There is no sink: the text goes to standard error. -/
  | printed (text : String)

inductive Action (V : Type*) where
  | spawnNamed (name : Option String)
  | wake (waker : Waker)
  | cancel (id : TaskId)
  /-- Poll a handle. -/
  | pollHandle (id : TaskId) (waker : Waker)
  /-- `TaskHandle::result`. -/
  | takeResult (id : TaskId)
  | setFailureSink
  | runUntilIdle
  /-- One turn of the loop. -/
  | turn
  | pollReady (value : V)
  | pollPending
  | pollPanic (message : String)

variable {V : Type*}

namespace ExecInner

def setEntry (s : ExecInner V) (id : TaskId) (entry : Option TaskEntry) : ExecInner V :=
  { s with tasks := Function.update s.tasks id entry }

def setShared (s : ExecInner V) (id : TaskId) (cell : TaskShared V) : ExecInner V :=
  { s with shared := Function.update s.shared id cell }

/-- `state_cell`: the handle's view of the state. -/
def setState (s : ExecInner V) (id : TaskId) (state : TaskState) : ExecInner V :=
  s.setShared id { s.shared id with state := state }

end ExecInner

/-- `TaskWaker::wake`: push the id; nothing runs. -/
def wake (s : ExecInner V) (wakers : List Waker) : ExecInner V :=
  { s with woken := s.woken ++ wakers.filterMap Waker.taskId }

/-- `TaskShared::complete`: store the result and wake the joiners. -/
def complete (s : ExecInner V) (id : TaskId) (result : Except TaskError V) : ExecInner V × List (Obs V) :=
  let cell := s.shared id
  (wake (s.setShared id { cell with result := some result, joiners := [] }) cell.joiners,
    .stored id result cell.joiners :: cell.joiners.map .woke)

/-- The state in which an aborted task ends. -/
def TaskError.state : TaskError → TaskState
  | cancelled => .cancelled
  | _ => .failed

/-- `on_abort`: propagate abnormal termination into the shared cell. -/
def onAbort (s : ExecInner V) (id : TaskId) (error : TaskError) : ExecInner V × List (Obs V) :=
  complete (s.setState id error.state) id (.error error)

def spawnNamed (s : ExecInner V) (name : Option String) : ExecInner V × List (Obs V) :=
  let id := s.nextId
  let name := name.getD s!"task_{id}"
  ({ (s.setShared id ⟨.scheduled, none, []⟩).setEntry id (some ⟨name, .scheduled⟩) with
      nextId := id + 1
      runQueue := s.runQueue ++ [id] }, [.spawned id name])

/-- Cancelling drops the future; a task that cancels itself is dropped when its poll returns. -/
def cancel (s : ExecInner V) (id : TaskId) : ExecInner V × List (Obs V) :=
  if s.currentlyPolling = some id then
    ({ s with cancelPending := s.cancelPending ++ [id] }, [.deferred id])
  else
    match s.tasks id with
    | none => (s, [])
    | some _ => onAbort (s.setEntry id none) id .cancelled

/-- Cancel a list of tasks in order. -/
def cancelAll (s : ExecInner V) : List TaskId → ExecInner V × List (Obs V)
  | [] => (s, [])
  | id :: rest =>
      let (next, out) := cancel s id
      let (last, more) := cancelAll next rest
      (last, out ++ more)

/-- `TaskHandle::result`: the stored value, which is consumed. -/
def takeResult (s : ExecInner V) (id : TaskId) : ExecInner V × Except TaskError V :=
  let cell := s.shared id
  match cell.result with
  | some result => (s.setShared id { cell with result := none }, result)
  | none => (s, .error .invalidState)

/-- `TaskHandle::poll`. -/
def pollHandle (s : ExecInner V) (id : TaskId) (waker : Waker) : ExecInner V × List (Obs V) :=
  let cell := s.shared id
  if cell.state.done then
    let (next, result) := takeResult s id
    (next, [.joined id result])
  else (s.setShared id { cell with joiners := cell.joiners ++ [waker] }, [.registered id waker])

/-- One woken id: a pending task is scheduled, anything else needs nothing. -/
def drainOne (s : ExecInner V) (id : TaskId) : ExecInner V :=
  match s.tasks id with
  | some entry =>
      if entry.state = .pending then
        { (s.setEntry id (some { entry with state := .scheduled })).setState id .scheduled with
          runQueue := s.runQueue ++ [id] }
      else s
  | none => s

def drainWoken (s : ExecInner V) : ExecInner V :=
  s.woken.foldl drainOne { s with woken := [] }

/-- The beginning of `poll_task`: a stale id is dropped, a scheduled task starts to run. -/
def pollTask (s : ExecInner V) (id : TaskId) : ExecInner V × List (Obs V) :=
  match s.tasks id with
  | none => (s, [])
  | some entry =>
      if entry.state = .scheduled then
        ({ (s.setEntry id (some { entry with state := .running })).setState id .running with
          currentlyPolling := some id
          control := .polling id }, [.pollBegan id])
      else (s, [])

/-- One turn of the loop of `run_until_idle`. -/
def turn (s : ExecInner V) : ExecInner V × List (Obs V) :=
  let drained := drainWoken s
  match drained.runQueue with
  | [] => ({ drained with running := false, control := .outside }, [.idled])
  | id :: rest => pollTask { drained with runQueue := rest } id

def runUntilIdle (s : ExecInner V) : ExecInner V × List (Obs V) :=
  if s.running then (s, [.nested]) else ({ s with running := true, control := .looping }, [])

/-- The poll returned `Ready`: the wrapper has stored the value, the entry goes. -/
def pollReady (s : ExecInner V) (id : TaskId) (value : V) : ExecInner V × List (Obs V) :=
  let (stored, out) := complete (s.setState id .finished) id (.ok value)
  ({ stored.setEntry id none with currentlyPolling := none, control := .looping }, out)

/-- The poll returned `Pending`: the future goes back, then self-cancellations take effect. -/
def pollPending (s : ExecInner V) (id : TaskId) : ExecInner V × List (Obs V) :=
  let returned : ExecInner V := { s with currentlyPolling := none, control := .looping }
  let parked := match s.tasks id with
    | some entry => (returned.setEntry id (some { entry with state := .pending })).setState id .pending
    | none => returned
  cancelAll { parked with cancelPending := [] } s.cancelPending

/-- What becomes of a panic message: the sink gets it, or standard error. -/
def reportPanic (sink : Bool) (name message : String) : Obs V :=
  if sink then .sank s!"task '{name}' panicked: {message}"
  else .printed s!"rustdv: unhandled task panic in '{name}': {message}"

/-- The poll panicked. -/
def pollPanic (s : ExecInner V) (id : TaskId) (message : String) : ExecInner V × List (Obs V) :=
  let name := ((s.tasks id).map TaskEntry.name).getD ""
  let removed : ExecInner V := { s.setEntry id none with currentlyPolling := none, control := .looping }
  let (aborted, out) := onAbort (removed.setState id .failed) id (.panicked message)
  (aborted, out ++ [reportPanic s.failureSink name message])

/-- One action. User code runs outside the loop or inside a poll; the loop runs between polls. A
handle exists only for a task that was spawned. -/
def step (s : ExecInner V) : Action V → Option (ExecInner V × List (Obs V))
  | .turn => if s.control = .looping then some (turn s) else none
  | .pollReady value =>
      match s.control with
      | .polling id => some (pollReady s id value)
      | _ => none
  | .pollPending =>
      match s.control with
      | .polling id => some (pollPending s id)
      | _ => none
  | .pollPanic message =>
      match s.control with
      | .polling id => some (pollPanic s id message)
      | _ => none
  | .spawnNamed name => if s.control = .looping then none else some (spawnNamed s name)
  | .wake waker => if s.control = .looping then none else some (wake s [waker], [.woke waker])
  | .cancel id => if s.control = .looping then none else some (cancel s id)
  | .pollHandle id waker =>
      if s.control = .looping ∨ s.nextId ≤ id then none else some (pollHandle s id waker)
  | .takeResult id =>
      if s.control = .looping ∨ s.nextId ≤ id then none
      else some ((takeResult s id).1, [.joined id (takeResult s id).2])
  | .setFailureSink => if s.control = .looping then none else some ({ s with failureSink := true }, [])
  | .runUntilIdle => if s.control = .looping then none else some (runUntilIdle s)

/-- The executor as a machine. -/
def machine (V : Type*) : Machine (ExecInner V) (Action V) (Obs V) where
  step := step

/-- Everything that one action can do, with what it needs. -/
inductive Transition (s : ExecInner V) : Action V → ExecInner V × List (Obs V) → Prop where
  | turn (looping : s.control = .looping) : Transition s .turn (turn s)
  | pollReady (id : TaskId) (value : V) (polling : s.control = .polling id) :
      Transition s (.pollReady value) (pollReady s id value)
  | pollPending (id : TaskId) (polling : s.control = .polling id) : Transition s .pollPending (pollPending s id)
  | pollPanic (id : TaskId) (message : String) (polling : s.control = .polling id) :
      Transition s (.pollPanic message) (pollPanic s id message)
  | spawnNamed (name : Option String) (user : s.control ≠ .looping) :
      Transition s (.spawnNamed name) (spawnNamed s name)
  | wake (waker : Waker) (user : s.control ≠ .looping) : Transition s (.wake waker) (wake s [waker], [.woke waker])
  | cancel (id : TaskId) (user : s.control ≠ .looping) : Transition s (.cancel id) (cancel s id)
  | pollHandle (id : TaskId) (waker : Waker) (user : s.control ≠ .looping) (born : id < s.nextId) :
      Transition s (.pollHandle id waker) (pollHandle s id waker)
  | takeResult (id : TaskId) (user : s.control ≠ .looping) (born : id < s.nextId) :
      Transition s (.takeResult id) ((takeResult s id).1, [.joined id (takeResult s id).2])
  | setFailureSink (user : s.control ≠ .looping) : Transition s .setFailureSink ({ s with failureSink := true }, [])
  | runUntilIdle (user : s.control ≠ .looping) : Transition s .runUntilIdle (runUntilIdle s)

theorem transition_of_step {s : ExecInner V} {a : Action V} {next : ExecInner V × List (Obs V)}
    (stepped : step s a = some next) : Transition s a next := by
  cases a with
  | turn =>
    obtain ⟨looping, same⟩ := Option.ite_none_right_eq_some.mp stepped
    cases same
    exact .turn looping
  | pollReady value =>
    simp only [step] at stepped
    split at stepped
    · next id polling =>
      cases stepped
      exact .pollReady id value polling
    · cases stepped
  | pollPending =>
    simp only [step] at stepped
    split at stepped
    · next id polling =>
      cases stepped
      exact .pollPending id polling
    · cases stepped
  | pollPanic message =>
    simp only [step] at stepped
    split at stepped
    · next id polling =>
      cases stepped
      exact .pollPanic id message polling
    · cases stepped
  | spawnNamed name =>
    obtain ⟨user, same⟩ := Option.ite_none_left_eq_some.mp stepped
    cases same
    exact .spawnNamed name user
  | wake waker =>
    obtain ⟨user, same⟩ := Option.ite_none_left_eq_some.mp stepped
    cases same
    exact .wake waker user
  | cancel id =>
    obtain ⟨user, same⟩ := Option.ite_none_left_eq_some.mp stepped
    cases same
    exact .cancel id user
  | pollHandle id waker =>
    obtain ⟨allowed, same⟩ := Option.ite_none_left_eq_some.mp stepped
    obtain ⟨user, born⟩ := not_or.mp allowed
    cases same
    exact .pollHandle id waker user (Nat.lt_of_not_le born)
  | takeResult id =>
    obtain ⟨allowed, same⟩ := Option.ite_none_left_eq_some.mp stepped
    obtain ⟨user, born⟩ := not_or.mp allowed
    cases same
    exact .takeResult id user (Nat.lt_of_not_le born)
  | setFailureSink =>
    obtain ⟨user, same⟩ := Option.ite_none_left_eq_some.mp stepped
    cases same
    exact .setFailureSink user
  | runUntilIdle =>
    obtain ⟨user, same⟩ := Option.ite_none_left_eq_some.mp stepped
    cases same
    exact .runUntilIdle user

end Rustdv.Executor
