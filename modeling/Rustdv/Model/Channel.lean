import Rustdv.Machine.Run
import Rustdv.Model.Sync

/-! # The bounded channel

Senders and receivers are counted; the futures they make hold the shared state themselves and may
outlive them. The machine is one channel with all its endpoints and futures: the counters say how
many endpoints of either side are left, and a side's operations need one of them. Any future may be
polled or dropped at any time, also without having been woken and also after it has completed.
-/

namespace Rustdv

/-- `ChanInner`. -/
structure Chan (α : Type*) where
  buf : List α
  cap : ℕ
  senders : ℕ
  receivers : ℕ
  sendWaiters : List Waker
  recvWaiters : List Waker
deriving DecidableEq, Repr

namespace Chan

variable {α : Type*}

/-- `channel(capacity)` makes one endpoint of each side; a capacity of 0 is coerced to 1. -/
def new (capacity : ℕ) : Chan α := ⟨[], max capacity 1, 1, 1, [], []⟩

def hasSpace (chan : Chan α) : Bool := chan.buf.length < chan.cap

/-- The item enters at the back and every waiting receiver is woken. -/
def accept (chan : Chan α) (item : α) : Chan α × List Waker :=
  ({ chan with buf := chan.buf ++ [item], recvWaiters := [] }, chan.recvWaiters)

/-- The front item leaves and every waiting sender is woken. -/
def pop (chan : Chan α) : Option (α × Chan α × List Waker) :=
  match chan.buf with
  | [] => none
  | item :: rest => some (item, { chan with buf := rest, sendWaiters := [] }, chan.sendWaiters)

/-- `Sender::drop`: the last one wakes the receivers. -/
def dropSender (chan : Chan α) : Chan α × List Waker :=
  let left := chan.senders - 1
  if left = 0 then ({ chan with senders := left, recvWaiters := [] }, chan.recvWaiters)
  else ({ chan with senders := left }, [])

/-- `Receiver::drop`: the last one wakes the senders. -/
def dropReceiver (chan : Chan α) : Chan α × List Waker :=
  let left := chan.receivers - 1
  if left = 0 then ({ chan with receivers := left, sendWaiters := [] }, chan.sendWaiters)
  else ({ chan with receivers := left }, [])

/-- A future made from an endpoint. A send owns its item until it completes. -/
inductive Fut (α : Type*) where
  | send (item : Option α)
  | recv
  | peek
deriving DecidableEq, Repr

/-- The identity of a future. -/
abbrev FutRef := ℕ

inductive Side where
  | senders
  | receivers
deriving DecidableEq, Repr

inductive Obs (α : Type*) where
  | woke (waker : Waker)
  /-- A poll returned `Pending` and left its waker on this side. -/
  | registered (side : Side) (waker : Waker)
  /-- `send` or `try_send` returned `Ok` for this item. -/
  | accepted (item : α)
  /-- `recv` or `try_recv` returned this item. -/
  | received (item : α)
  | peeked (item : α)
  /-- `try_send` returned `TlmFull` with this item. -/
  | refused (item : α)
  /-- `try_recv` or `try_peek` returned `TlmEmpty`. -/
  | empty
  /-- `send` returned `Disconnected`. -/
  | sendDisconnected
  /-- `recv` returned `Disconnected`. -/
  | recvDisconnected
  /-- `peek` returned `Disconnected`. -/
  | peekDisconnected
  /-- "Send polled after completion". -/
  | panicked
deriving DecidableEq, Repr

inductive Action (α : Type*) where
  | cloneSender
  | dropSender
  | send (item : α)
  | trySend (item : α)
  | cloneReceiver
  | dropReceiver
  | recv
  | peek
  | tryRecv
  | tryPeek
  | poll (fut : FutRef) (waker : Waker)
  | drop (fut : FutRef)
deriving DecidableEq, Repr

/-- The channel and its futures; a dropped future leaves an empty entry. -/
structure System (α : Type*) where
  chan : Chan α
  futs : List (Option (Fut α))
deriving DecidableEq, Repr

namespace System

def setChan (s : System α) (chan : Chan α) : System α := { s with chan := chan }

def make (s : System α) (fut : Fut α) : System α := { s with futs := s.futs ++ [some fut] }

end System

def woke (wakers : List Waker) : List (Obs α) := wakers.map .woke

/-- A poll that returns `Pending` leaves its waker with the senders. -/
def awaitSpace (s : System α) (waker : Waker) : System α × List (Obs α) :=
  (s.setChan { s.chan with sendWaiters := s.chan.sendWaiters ++ [waker] }, [.registered .senders waker])

/-- A poll that returns `Pending` leaves its waker with the receivers. -/
def awaitItem (s : System α) (waker : Waker) : System α × List (Obs α) :=
  (s.setChan { s.chan with recvWaiters := s.chan.recvWaiters ++ [waker] }, [.registered .receivers waker])

/-- `Send_::poll`. -/
def pollSend (s : System α) (ref : FutRef) (waker : Waker) (item : Option α) : System α × List (Obs α) :=
  if s.chan.receivers = 0 then (s, [.sendDisconnected])
  else if s.chan.hasSpace then
    match item with
    | some item =>
        let (chan, woken) := s.chan.accept item
        (⟨chan, s.futs.set ref (some (.send none))⟩, .accepted item :: woke woken)
    | none => (s, [.panicked])
  else awaitSpace s waker

/-- `Recv::poll`. -/
def pollRecv (s : System α) (waker : Waker) : System α × List (Obs α) :=
  match s.chan.pop with
  | some (item, chan, woken) => (s.setChan chan, .received item :: woke woken)
  | none => if s.chan.senders = 0 then (s, [.recvDisconnected]) else awaitItem s waker

/-- `Peek::poll`. -/
def pollPeek (s : System α) (waker : Waker) : System α × List (Obs α) :=
  match s.chan.buf.head? with
  | some item => (s, [.peeked item])
  | none => if s.chan.senders = 0 then (s, [.peekDisconnected]) else awaitItem s waker

def pollFut (s : System α) (ref : FutRef) (waker : Waker) : Fut α → System α × List (Obs α)
  | .send item => pollSend s ref waker item
  | .recv => pollRecv s waker
  | .peek => pollPeek s waker

def trySend (s : System α) (item : α) : System α × List (Obs α) :=
  -- without a receiver there is nowhere for the item to go
  if s.chan.receivers = 0 then (s, [.refused item])
  else if s.chan.hasSpace then
    let (chan, woken) := s.chan.accept item
    (s.setChan chan, .accepted item :: woke woken)
  else (s, [.refused item])

def tryRecv (s : System α) : System α × List (Obs α) :=
  match s.chan.pop with
  | some (item, chan, woken) => (s.setChan chan, .received item :: woke woken)
  | none => (s, [.empty])

def tryPeek (s : System α) : System α × List (Obs α) :=
  match s.chan.buf.head? with
  | some item => (s, [.peeked item])
  | none => (s, [.empty])

/-- One call, clone, poll or drop. An endpoint's operation needs an endpoint of its side. -/
def step (s : System α) : Action α → Option (System α × List (Obs α))
  | .cloneSender =>
      if s.chan.senders = 0 then none
      else some (s.setChan { s.chan with senders := s.chan.senders + 1 }, [])
  | .dropSender =>
      if s.chan.senders = 0 then none
      else some (s.setChan s.chan.dropSender.1, woke s.chan.dropSender.2)
  | .send item => if s.chan.senders = 0 then none else some (s.make (.send (some item)), [])
  | .trySend item => if s.chan.senders = 0 then none else some (trySend s item)
  | .cloneReceiver =>
      if s.chan.receivers = 0 then none
      else some (s.setChan { s.chan with receivers := s.chan.receivers + 1 }, [])
  | .dropReceiver =>
      if s.chan.receivers = 0 then none
      else some (s.setChan s.chan.dropReceiver.1, woke s.chan.dropReceiver.2)
  | .recv => if s.chan.receivers = 0 then none else some (s.make .recv, [])
  | .peek => if s.chan.receivers = 0 then none else some (s.make .peek, [])
  | .tryRecv => if s.chan.receivers = 0 then none else some (tryRecv s)
  | .tryPeek => if s.chan.receivers = 0 then none else some (tryPeek s)
  | .poll ref waker => (s.futs.getD ref none).map (pollFut s ref waker)
  | .drop ref =>
      if (s.futs.getD ref none).isSome then some ({ s with futs := s.futs.set ref none }, []) else none

/-- One channel with its endpoints and futures. -/
def machine (α : Type*) : Machine (System α) (Action α) (Obs α) where
  step := step

/-- A fresh channel with its first two endpoints. -/
def initial (capacity : ℕ) : System α := ⟨new capacity, []⟩

end Chan

end Rustdv
