import Rustdv.Model.Executor

/-! # The executor and the destructors of its futures

A cancelled future is dropped, and dropping it runs user code: that code may spawn, wake and cancel,
and it may panic. Here the calls in progress are kept as a stack, so that a destructor runs in the
middle of the executor's own loops, and a panic unwinds the stack down to the innermost poll, whose
`catch_unwind` stops it, or down to whoever called the executor. A panic during an unwinding aborts
the process, so it is no step.
-/

namespace Rustdv.Executor

/-- A call in progress. -/
inductive Frame where
  /-- `run_until_idle`. -/
  | draining
  /-- The poll inside the `catch_unwind` of `poll_task`. -/
  | polling (id : TaskId)
  /-- A loop that has these tasks still to cancel. -/
  | cancelling (rest : List TaskId)
  /-- The destructor of a cancelled future, or of what `poll_task` lets go of at its end. -/
  | dropping
  /-- The destructor of the future whose poll has panicked. -/
  | discarding (id : TaskId) (name message : String)
deriving DecidableEq, Repr

def Frame.isPolling : Frame → Bool
  | .polling _ => true
  | _ => false

/-- The executor with the calls in progress, the innermost first. -/
structure Thread (V : Type*) where
  inner : ExecInner V
  stack : List Frame

inductive Move (V : Type*) where
  | spawnNamed (name : Option String)
  | wake (waker : Waker)
  | cancel (id : TaskId)
  /-- The order is the one in which the hash map yields the ids. -/
  | cancelAfter (watermark : TaskId) (order : List TaskId)
  | pollHandle (id : TaskId) (waker : Waker)
  | takeResult (id : TaskId)
  | setFailureSink
  | runUntilIdle
  | turn
  /-- One turn of a loop over `cancel`. -/
  | next
  /-- A destructor returns. -/
  | dropped
  | pollReady (value : V)
  | pollPending
  /-- User code panics. -/
  | panic (message : String)

variable {V : Type*}

/-- The future goes back after `Pending`; the self-cancellations are still to come. -/
def park (s : ExecInner V) (id : TaskId) : ExecInner V :=
  let returned : ExecInner V := { s with currentlyPolling := none, control := .looping }
  let parked := match s.tasks id with
    | some entry => (returned.setEntry id (some { entry with state := .pending })).setState id .pending
    | none => returned
  { parked with cancelPending := [] }

/-- A caught panic: the entry goes, the future is still to be dropped. -/
def catchPanic (s : ExecInner V) (id : TaskId) : ExecInner V :=
  { s.setEntry id none with currentlyPolling := none, control := .looping }

/-- After that drop: the handle is told, and whoever listens to failures. -/
def failTask (s : ExecInner V) (id : TaskId) (name message : String) : ExecInner V × List (Obs V) :=
  let (aborted, out) := onAbort (s.setState id .failed) id (.panicked message)
  (aborted, out ++ [reportPanic s.failureSink name message])

/-- The live tasks that `cancel_after` finds. -/
def victims (s : ExecInner V) (watermark : TaskId) : List TaskId :=
  (List.range s.nextId).filter fun id => watermark ≤ id && (s.tasks id).isSome

namespace Thread

/-- Whether user code is running: between callbacks, in a poll or in a destructor. -/
def userRuns (s : Thread V) : Bool :=
  match s.stack with
  | .draining :: _ | .cancelling _ :: _ => false
  | _ => true

/-- An operation that runs no user code. -/
def lift (s : Thread V) (result : ExecInner V × List (Obs V)) : Thread V × List (Obs V) :=
  (⟨result.1, s.stack⟩, result.2)

/-- `Executor::cancel`: the destructor runs when a live task is removed. -/
def cancel (s : Thread V) (id : TaskId) : Thread V × List (Obs V) :=
  let (inner, out) := Executor.cancel s.inner id
  let removed := s.inner.currentlyPolling ≠ some id ∧ (s.inner.tasks id).isSome
  (⟨inner, if removed then .dropping :: s.stack else s.stack⟩, out)

/-- A turn begins a poll, passes over a stale id, or ends the loop. -/
def turn (s : Thread V) (below : List Frame) : Thread V × List (Obs V) :=
  let (inner, out) := Executor.turn s.inner
  let stack := match inner.control with
    | .polling id => .polling id :: .draining :: below
    | .looping => .draining :: below
    | .outside => below
  (⟨inner, stack⟩, out)

def runUntilIdle (s : Thread V) : Thread V × List (Obs V) :=
  let (inner, out) := Executor.runUntilIdle s.inner
  (⟨inner, if s.inner.running then s.stack else .draining :: s.stack⟩, out)

/-- The unwinding stops at the innermost poll, or leaves the executor as it is. -/
def panic (s : Thread V) (message : String) : Thread V × List (Obs V) :=
  match s.stack.dropWhile fun frame => !frame.isPolling with
  | .polling id :: below =>
      let name := ((s.inner.tasks id).map TaskEntry.name).getD ""
      (⟨catchPanic s.inner id, .discarding id name message :: below⟩, [])
  | _ => (⟨{ s.inner with control := .outside }, []⟩, [])

def step (s : Thread V) : Move V → Option (Thread V × List (Obs V))
  | .spawnNamed name => if s.userRuns then some (s.lift (spawnNamed s.inner name)) else none
  | .wake waker => if s.userRuns then some (s.lift (wake s.inner [waker], [.woke waker])) else none
  | .cancel id => if s.userRuns then some (s.cancel id) else none
  | .cancelAfter watermark order =>
      if s.userRuns ∧ order.Perm (victims s.inner watermark) then
        some ({ s with stack := .cancelling order :: s.stack }, [])
      else none
  | .pollHandle id waker =>
      if s.userRuns ∧ id < s.inner.nextId then some (s.lift (pollHandle s.inner id waker)) else none
  | .takeResult id =>
      if s.userRuns ∧ id < s.inner.nextId then
        some (s.lift ((takeResult s.inner id).1, [.joined id (takeResult s.inner id).2]))
      else none
  | .setFailureSink =>
      if s.userRuns then some ({ s with inner := { s.inner with failureSink := true } }, []) else none
  | .runUntilIdle => if s.userRuns then some s.runUntilIdle else none
  | .turn =>
      match s.stack with
      | .draining :: below => some (s.turn below)
      | _ => none
  | .next =>
      match s.stack with
      | .cancelling [] :: below => some ({ s with stack := below }, [])
      | .cancelling (id :: rest) :: below => some (cancel { s with stack := .cancelling rest :: below } id)
      | _ => none
  | .dropped =>
      match s.stack with
      | .dropping :: below => some ({ s with stack := below }, [])
      | .discarding id name message :: below => some (lift { s with stack := below } (failTask s.inner id name message))
      | _ => none
  | .pollReady value =>
      match s.stack with
      | .polling id :: below => some (lift { s with stack := .dropping :: below } (pollReady s.inner id value))
      | _ => none
  | .pollPending =>
      match s.stack with
      | .polling id :: below => some (⟨park s.inner id, .cancelling s.inner.cancelPending :: below⟩, [])
      | _ => none
  | .panic message => if s.userRuns then some (s.panic message) else none

end Thread

/-- The executor with its call stack as a machine. -/
def threads (V : Type*) : Machine (Thread V) (Move V) (Obs V) where
  step := Thread.step

namespace Thread

def init (V : Type*) : Thread V := ⟨Executor.init V, []⟩

end Thread

end Rustdv.Executor
