import Rustdv.Machine.Run
import Rustdv.Model.Sync

/-! # The simulation-aware FIFO queue

`Queue` is shared by cloning; the model is its one inner cell. The blocking operations are the
polls of their futures: each either takes effect at once or registers the caller's waker on the
side it waits for. Dropping a future leaves a stale waker behind and nothing else.

`Queue.machine` is one queue with all its clones and all the futures made from them. The futures
stand in a table; any of them may be polled or dropped at any time, also without having been woken
and also after it has completed.
-/

namespace Rustdv

/-- `QInner`: the buffer, its bound and the wakers waiting on either side. -/
structure Queue (α : Type*) where
  buf : List α
  cap : Option ℕ
  getWaiters : List Waker
  putWaiters : List Waker
deriving DecidableEq, Repr

namespace Queue

variable {α : Type*}

/-- `none` is unbounded. -/
def new (cap : Option ℕ) : Queue α := ⟨[], cap, [], []⟩

def unbounded : Queue α := new none

def hasSpace (queue : Queue α) : Bool :=
  match queue.cap with
  | none => true
  | some bound => queue.buf.length < bound

/-- The item enters at the back and every waiting getter is woken. -/
def accept (queue : Queue α) (item : α) : Queue α × List Waker :=
  ({ queue with buf := queue.buf ++ [item], getWaiters := [] }, queue.getWaiters)

/-- A refused item comes back to the caller. -/
def tryPut (queue : Queue α) (item : α) : Except α (Queue α × List Waker) :=
  if queue.hasSpace then .ok (queue.accept item) else .error item

/-- Taking an item opens space, so every waiting putter is woken. -/
def tryGet (queue : Queue α) : Option (α × Queue α × List Waker) :=
  match queue.buf with
  | [] => none
  | item :: rest => some (item, { queue with buf := rest, putWaiters := [] }, queue.putWaiters)

/-- `Put::poll` for the item the future still owns. -/
def pollPut (queue : Queue α) (item : α) (waker : Waker) : Poll Unit × Queue α × List Waker :=
  if queue.hasSpace then (.ready (), queue.accept item)
  else (.pending, { queue with putWaiters := queue.putWaiters ++ [waker] }, [])

/-- `Get::poll`. -/
def pollGet (queue : Queue α) (waker : Waker) : Poll α × Queue α × List Waker :=
  match queue.tryGet with
  | some (item, rest, woken) => (.ready item, rest, woken)
  | none => (.pending, { queue with getWaiters := queue.getWaiters ++ [waker] }, [])

/-- `Space::poll`: room is announced, not reserved. -/
def pollSpace (queue : Queue α) (waker : Waker) : Poll Unit × Queue α :=
  if queue.hasSpace then (.ready (), queue)
  else (.pending, { queue with putWaiters := queue.putWaiters ++ [waker] })

/-- A copy of the front item, which stays. -/
def tryPeek (queue : Queue α) : Option α := queue.buf.head?

/-- `Peek::poll`. Nothing left the queue, so no putter is woken. -/
def pollPeek (queue : Queue α) (waker : Waker) : Poll α × Queue α :=
  match queue.tryPeek with
  | some item => (.ready item, queue)
  | none => (.pending, { queue with getWaiters := queue.getWaiters ++ [waker] })

theorem hasSpace_of_cap_none {queue : Queue α} (unbounded : queue.cap = none) :
    queue.hasSpace = true := by
  simp only [hasSpace, unbounded]

/-- An unbounded queue never blocks a put. -/
theorem pollPut_of_cap_none {queue : Queue α} (unbounded : queue.cap = none) (item : α) (waker : Waker) :
    queue.pollPut item waker = (.ready (), queue.accept item) :=
  if_pos (hasSpace_of_cap_none unbounded)

theorem tryPut_of_cap_none (queue : Queue α) (unbounded : queue.cap = none) (item : α) :
    queue.tryPut item = .ok (queue.accept item) :=
  if_pos (hasSpace_of_cap_none unbounded)

theorem tryGet_of_nil {queue : Queue α} (empty : queue.buf = []) : queue.tryGet = none := by
  simp only [tryGet, empty]

theorem tryGet_of_cons {queue : Queue α} {item : α} {rest : List α} (front : queue.buf = item :: rest) :
    queue.tryGet = some (item, { queue with buf := rest, putWaiters := [] }, queue.putWaiters) := by
  simp only [tryGet, front]

theorem tryPeek_of_nil {queue : Queue α} (empty : queue.buf = []) : queue.tryPeek = none := by
  simp only [tryPeek, empty, List.head?_nil]

theorem tryPeek_of_cons {queue : Queue α} {item : α} {rest : List α} (front : queue.buf = item :: rest) :
    queue.tryPeek = some item := by
  simp only [tryPeek, front, List.head?_cons]

/-- A future made from the queue. A put owns its item until it completes. -/
inductive Fut (α : Type*) where
  | put (item : Option α)
  | get
  | peek
  | space
deriving DecidableEq, Repr

/-- The identity of a future. -/
abbrev FutRef := ℕ

/-- Which of the two waker lists a future waits in. -/
inductive Side where
  | getters
  | putters
deriving DecidableEq, Repr

inductive Obs (α : Type*) where
  | woke (waker : Waker)
  /-- A poll returned `Pending` and left its waker on this side. -/
  | registered (side : Side) (waker : Waker)
  /-- An item entered the buffer: a put completed or `try_put` returned `Ok`. -/
  | accepted (item : α)
  /-- An item left the buffer: a get completed or `try_get` returned it. -/
  | taken (item : α)
  /-- `try_put` returned `Err` with this item. -/
  | refused (item : α)
  | peeked (item : α)
  /-- `wait_for_space` completed. -/
  | spacious
  /-- `try_get` or `try_peek` returned `None`. -/
  | nothing
  /-- "Put polled after completion". -/
  | panicked
deriving DecidableEq, Repr

inductive Action (α : Type*) where
  | put (item : α)
  | get
  | peek
  | waitForSpace
  | poll (fut : FutRef) (waker : Waker)
  | drop (fut : FutRef)
  | tryPut (item : α)
  | tryGet
  | tryPeek
deriving DecidableEq, Repr

/-- The queue and its futures; a dropped future leaves an empty entry. -/
structure System (α : Type*) where
  queue : Queue α
  futs : List (Option (Fut α))
deriving DecidableEq, Repr

namespace System

def setQueue (s : System α) (queue : Queue α) : System α := { s with queue := queue }

/-- Make a future: nothing happens before its first poll. -/
def make (s : System α) (fut : Fut α) : System α := { s with futs := s.futs ++ [some fut] }

end System

def woke (wakers : List Waker) : List (Obs α) := wakers.map .woke

/-- One poll of a live future. -/
def pollFut (s : System α) (ref : FutRef) (waker : Waker) : Fut α → System α × List (Obs α)
  | .put (some item) =>
      match s.queue.pollPut item waker with
      | (.ready _, queue, woken) =>
          (⟨queue, s.futs.set ref (some (.put none))⟩, .accepted item :: woke woken)
      | (.pending, queue, _) => (s.setQueue queue, [.registered .putters waker])
  | .put none =>
      -- the item is gone: with room the `expect` fails, without it the waker is stored again
      match s.queue.pollSpace waker with
      | (.ready _, _) => (s, [.panicked])
      | (.pending, queue) => (s.setQueue queue, [.registered .putters waker])
  | .get =>
      match s.queue.pollGet waker with
      | (.ready item, queue, woken) => (s.setQueue queue, .taken item :: woke woken)
      | (.pending, queue, _) => (s.setQueue queue, [.registered .getters waker])
  | .peek =>
      match s.queue.pollPeek waker with
      | (.ready item, queue) => (s.setQueue queue, [.peeked item])
      | (.pending, queue) => (s.setQueue queue, [.registered .getters waker])
  | .space =>
      match s.queue.pollSpace waker with
      | (.ready _, queue) => (s.setQueue queue, [.spacious])
      | (.pending, queue) => (s.setQueue queue, [.registered .putters waker])

/-- One call, poll or drop. Only futures that have not been dropped can be polled or dropped. -/
def step (s : System α) : Action α → Option (System α × List (Obs α))
  | .put item => some (s.make (.put (some item)), [])
  | .get => some (s.make .get, [])
  | .peek => some (s.make .peek, [])
  | .waitForSpace => some (s.make .space, [])
  | .poll ref waker => (s.futs.getD ref none).map (pollFut s ref waker)
  | .drop ref =>
      if (s.futs.getD ref none).isSome then some ({ s with futs := s.futs.set ref none }, []) else none
  | .tryPut item =>
      match s.queue.tryPut item with
      | .ok (queue, woken) => some (s.setQueue queue, .accepted item :: woke woken)
      | .error back => some (s, [.refused back])
  | .tryGet =>
      match s.queue.tryGet with
      | some (item, queue, woken) => some (s.setQueue queue, .taken item :: woke woken)
      | none => some (s, [.nothing])
  | .tryPeek =>
      match s.queue.tryPeek with
      | some item => some (s, [.peeked item])
      | none => some (s, [.nothing])

/-- One queue, its futures and everything that is done with them. -/
def machine (α : Type*) : Machine (System α) (Action α) (Obs α) where
  step := step

/-- A fresh queue without futures. -/
def initial (cap : Option ℕ) : System α := ⟨new cap, []⟩

end Queue

end Rustdv
