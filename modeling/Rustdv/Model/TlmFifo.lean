import Rustdv.Model.Queue

/-! # The TLM FIFO with its analysis taps

A put broadcasts its item to the put taps between the check for space and the handover to the
queue; a get broadcasts between taking the item and returning it. A tap calls its subscribers one
after the other, and a subscriber's handler is code of the user: it may do anything with the FIFO
before it returns. The machine therefore keeps the stack of broadcasts in progress; while one is on
top, every action is the running handler's, and `resume` is the handler's return. A subscriber
keeps its state in a `RefCell` that is borrowed while its handler runs, so a delivery to it in the
meantime panics: the machine refuses the step.
-/

namespace Rustdv.TlmFifo

/-- The identity of a subscriber's shared state. -/
abbrev SubRef := ℕ

/-- The position of a connection in its tap's list. -/
abbrev ConnRef := ℕ

/-- The two taps: `put_ap` and `get_ap`. -/
inductive Side where
  | put
  | get
deriving DecidableEq, Repr

/-- An operation that broadcasts its item before it finishes. `awaited` tells `put` from `try_put`. -/
structure Call (α : Type*) where
  side : Side
  item : α
  awaited : Bool
deriving DecidableEq, Repr

/-- A broadcast in progress: the subscriber whose handler runs and those still to be called. -/
structure Frame (α : Type*) where
  call : Call α
  current : SubRef
  remaining : List (SubRef × ConnRef)
deriving DecidableEq, Repr

/-- A pending future; a put owns its item. -/
inductive Fut (α : Type*) where
  | put (item : α)
  | get
  | peek
deriving DecidableEq, Repr

/-- The identity of a future. -/
abbrev FutRef := ℕ

inductive Obs (α : Type*) where
  | woke (waker : Waker)
  /-- A subscriber was added to the tap. -/
  | connected (side : Side) (conn : ConnRef)
  /-- An item passed the tap's point: accepted by a put, taken out by a get. -/
  | passed (side : Side) (item : α)
  /-- The item was delivered to the subscriber of this connection. -/
  | tapped (side : Side) (conn : ConnRef) (item : α)
  /-- The queue took the item that a put handed over. -/
  | stored (item : α)
  /-- `put` lost the item: the queue refused it and the result is discarded. -/
  | discarded (item : α)
  /-- `try_put` returned `Err` with this item. -/
  | refused (item : α)
  /-- `get` or `try_get` returned this item. -/
  | returned (item : α)
  | flushed (item : α)
  | peeked (item : α)
  /-- `try_get` or `try_peek` returned `None`. -/
  | nothing
deriving DecidableEq, Repr

inductive Action (α : Type*) where
  | connect (side : Side) (sub : SubRef)
  | put (item : α)
  | get
  | peek
  | poll (fut : FutRef) (waker : Waker)
  | drop (fut : FutRef)
  | tryPut (item : α)
  | tryGet
  | tryPeek
  | flush
  /-- The running handler returns. -/
  | resume
deriving DecidableEq, Repr

/-- The FIFO with its taps, its pending futures and the broadcasts in progress, innermost first. -/
structure System (α : Type*) where
  queue : Queue α
  putTaps : List SubRef
  getTaps : List SubRef
  futs : List (Option (Fut α))
  stack : List (Frame α)
deriving DecidableEq, Repr

variable {α : Type*}

namespace System

def taps (s : System α) : Side → List SubRef
  | .put => s.putTaps
  | .get => s.getTaps

def setQueue (s : System α) (queue : Queue α) : System α := { s with queue := queue }

@[simp] theorem setQueue_queue (s : System α) (queue : Queue α) : (s.setQueue queue).queue = queue := rfl

def setStack (s : System α) (stack : List (Frame α)) : System α := { s with stack := stack }

/-- The future completes or is dropped. -/
def clear (s : System α) (ref : FutRef) : System α := { s with futs := s.futs.set ref none }

def make (s : System α) (fut : Fut α) : System α := { s with futs := s.futs ++ [some fut] }

/-- Whether the subscriber's state is borrowed by its handler. -/
def busy (s : System α) (sub : SubRef) : Bool := s.stack.any (·.current = sub)

end System

def woke (wakers : List Waker) : List (Obs α) := wakers.map .woke

/-- What follows the broadcast: a put hands its item over, a get returns it. -/
def finish (s : System α) (call : Call α) : System α × List (Obs α) :=
  match call.side with
  | .put =>
      match s.queue.tryPut call.item with
      | .ok (queue, woken) => (s.setQueue queue, .stored call.item :: woke woken)
      | .error back => (s, [if call.awaited then .discarded back else .refused back])
  | .get => (s, [.returned call.item])

/-- Call the next subscriber, or finish; a subscriber whose state is borrowed panics. -/
def deliver (s : System α) (call : Call α) : List (SubRef × ConnRef) → Option (System α × List (Obs α))
  | [] => some (finish s call)
  | (sub, conn) :: rest =>
      if s.busy sub then none
      else some (s.setStack (⟨call, sub, rest⟩ :: s.stack), [.tapped call.side conn call.item])

/-- `FifoInner::tap`, on a copy of the tap's list. -/
def tap (s : System α) (call : Call α) (out : List (Obs α)) : Option (System α × List (Obs α)) :=
  (deliver s call (s.taps call.side).zipIdx).map fun result =>
    (result.1, .passed call.side call.item :: out ++ result.2)

/-- One poll of `put`, `get` or `peek`. -/
def pollFut (s : System α) (ref : FutRef) (waker : Waker) : Fut α → Option (System α × List (Obs α))
  | .put item =>
      match s.queue.pollSpace waker with
      | (.ready _, _) => tap (s.clear ref) ⟨.put, item, true⟩ []
      | (.pending, queue) => some (s.setQueue queue, [])
  | .get =>
      match s.queue.pollGet waker with
      | (.ready item, queue, woken) => tap ((s.setQueue queue).clear ref) ⟨.get, item, true⟩ (woke woken)
      | (.pending, queue, _) => some (s.setQueue queue, [])
  | .peek =>
      match s.queue.pollPeek waker with
      | (.ready item, queue) => some (s.setQueue queue, [.peeked item])
      | (.pending, queue) => some (s.setQueue queue, [])

/-- `while self.inner.q.try_get().is_some() {}`, for at most so many rounds. -/
def flushLoop : ℕ → Queue α → Queue α × List (Obs α)
  | 0, queue => (queue, [])
  | rounds + 1, queue =>
      match queue.tryGet with
      | none => (queue, [])
      | some (item, rest, woken) =>
          let (last, out) := flushLoop rounds rest
          (last, .flushed item :: woke woken ++ out)

/-- Every round takes one item, so as many rounds as there are items empty the queue. -/
def flush (queue : Queue α) : Queue α × List (Obs α) := flushLoop queue.buf.length queue

def step (s : System α) : Action α → Option (System α × List (Obs α))
  | .connect .put sub => some ({ s with putTaps := s.putTaps ++ [sub] }, [.connected .put s.putTaps.length])
  | .connect .get sub => some ({ s with getTaps := s.getTaps ++ [sub] }, [.connected .get s.getTaps.length])
  | .put item => some (s.make (.put item), [])
  | .get => some (s.make .get, [])
  | .peek => some (s.make .peek, [])
  | .poll ref waker => (s.futs.getD ref none).bind (pollFut s ref waker)
  | .drop ref => if (s.futs.getD ref none).isSome then some (s.clear ref, []) else none
  | .tryPut item =>
      if !s.queue.hasSpace then some (s, [.refused item]) else tap s ⟨.put, item, false⟩ []
  | .tryGet =>
      match s.queue.tryGet with
      | some (item, queue, woken) => tap (s.setQueue queue) ⟨.get, item, false⟩ (woke woken)
      | none => some (s, [.nothing])
  | .tryPeek =>
      match s.queue.tryPeek with
      | some item => some (s, [.peeked item])
      | none => some (s, [.nothing])
  | .flush => some (s.setQueue (flush s.queue).1, (flush s.queue).2)
  | .resume =>
      match s.stack with
      | [] => none
      | frame :: below => deliver (s.setStack below) frame.call frame.remaining

/-- One FIFO with its taps, futures and handlers. -/
def machine (α : Type*) : Machine (System α) (Action α) (Obs α) where
  step := step

/-- A fresh FIFO of the given depth; `none` is unbounded. -/
def initial (size : Option ℕ) : System α := ⟨.new size, [], [], [], []⟩

end Rustdv.TlmFifo
