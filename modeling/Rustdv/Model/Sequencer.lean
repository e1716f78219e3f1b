import Rustdv.Machine.Run
import Rustdv.Model.Queue
import Mathlib.Logic.Function.Basic

/-! # The sequencer handshake as a machine

One driver and a family of sequences share a sequencer. Every `async fn` of the source is the
machine of its await points: an action is one poll of a future (the first poll of a fresh call or
a later one), one synchronous call, or the drop of a pending future. Slots are heap cells behind
an `Rc`; a `SlotRef` is the pointer, the ticket in the cell is separate data. Anything may be
polled at any time, so the order of actions is every interleaving and every spurious wake-up.
-/

namespace Rustdv.Sequencer

/-- A transaction's ticket: a `u64` handed out by counting up from 1. -/
structure TxnId where
  val : ℕ
deriving DecidableEq, Repr

/-- What a driver receives: the ticket and the user's payload. -/
structure SeqItem (Req : Type*) where
  id : TxnId
  payload : Req
deriving DecidableEq, Repr

/-- Handshake state for one in-flight item. -/
structure ItemSlot (Req : Type*) where
  id : TxnId
  granted : Event
  ready : Event
  done : Event
  payload : Option Req
deriving DecidableEq, Repr

def ItemSlot.new {Req : Type*} (id : TxnId) : ItemSlot Req := ⟨id, .new, .new, .new, none⟩

/-- The identity of one `Rc<ItemSlot>`. -/
abbrev SlotRef := ℕ

/-- Responses in arrival order, with the wakers of pending receivers. -/
structure ResponseQueue (Rsp : Type*) where
  items : List (TxnId × Rsp)
  waiters : List Waker
deriving DecidableEq, Repr

def ResponseQueue.push {Rsp : Type*} (responses : ResponseQueue Rsp) (id : TxnId) (rsp : Rsp) :
    ResponseQueue Rsp × List Waker :=
  (⟨responses.items ++ [(id, rsp)], []⟩, responses.waiters)

/-- The sequencer's shared state. -/
structure SeqrInner (Rsp : Type*) where
  queue : Queue SlotRef
  nextId : ℕ
  responses : ResponseQueue Rsp
  current : Option SlotRef
deriving DecidableEq, Repr

def SeqrInner.new {Rsp : Type*} : SeqrInner Rsp := ⟨.unbounded, 1, ⟨[], []⟩, none⟩

/-- A sequence's context; `attached` is false for a virtual sequence, which has no sequencer. -/
structure SeqCtx where
  attached : Bool
  current : Option SlotRef
  name : String
deriving DecidableEq, Repr

/-- Where a sequence stands: between calls, or suspended at an await point of its call. -/
inductive SeqPos where
  | idle
  /-- `start_item` waits for room in the queue. -/
  | enqueueing (slot : SlotRef)
  /-- `start_item` waits for the grant. -/
  | starting (slot : SlotRef)
  /-- `finish_item` waits for the driver to release the item. -/
  | finishing (slot : SlotRef)
  /-- The sequence was cancelled: its context and its pending call are gone. -/
  | dropped
deriving DecidableEq, Repr

structure SeqState where
  ctx : SeqCtx
  pos : SeqPos
deriving DecidableEq, Repr

/-- Where the driver's one `get_next_item` future stands. -/
inductive DriverPos where
  /-- No `get_next_item` is pending. -/
  | idle
  /-- Suspended in `queue.get()`. -/
  | waiting
  /-- Suspended in `ready.wait()` on a slot it has taken out of the queue and granted. -/
  | readying (slot : SlotRef)
deriving DecidableEq, Repr

/-- The assertions and `expect`s of the driver's side. -/
inductive Panic where
  | getNextItemTwice
  | tryNextItemTwice
  | payloadMissing
  | itemDoneWithoutItem
deriving DecidableEq, Repr

def Panic.message : Panic → String
  | getNextItemTwice => "get_next_item called twice without item_done"
  | tryNextItemTwice => "try_next_item called without item_done"
  | payloadMissing => "item ready but payload missing (rustdv bug)"
  | itemDoneWithoutItem => "item_done without get_next_item"

/-- What a step shows: calls taking effect, calls returning, wakes, errors and panics. -/
inductive Obs (ι Req : Type*) where
  | woke (waker : Waker)
  /-- `start_item` put its slot into the queue under this ticket. -/
  | enqueued (seq : ι) (id : TxnId)
  /-- `start_item` returned `Ok`. -/
  | started (seq : ι) (id : TxnId)
  /-- `finish_item` was given this payload for the slot of this ticket. -/
  | handed (seq : ι) (id : TxnId) (payload : Req)
  /-- `finish_item` returned `Ok` with this ticket. -/
  | returned (seq : ι) (id : TxnId)
  /-- `get_next_item` or `try_next_item` returned this item. -/
  | delivered (item : SeqItem Req)
  /-- `try_next_item` returned `None`. -/
  | nothing
  /-- `item_done` released the item of this ticket. -/
  | released (id : TxnId)
  | seqError (seq : ι) (message : String)
  | panicked (panic : Panic)
deriving DecidableEq, Repr

/-- The whole system: the slot heap, the sequencer, its driver and its sequences. -/
structure System (ι Req Rsp : Type*) where
  heap : SlotRef → ItemSlot Req
  fresh : SlotRef
  inner : SeqrInner Rsp
  driver : DriverPos
  seqs : ι → SeqState

inductive Action (ι Req Rsp : Type*) where
  | startItem (seq : ι) (waker : Waker)
  | pollStart (seq : ι) (waker : Waker)
  | finishItem (seq : ι) (payload : Req) (waker : Waker)
  | pollFinish (seq : ι) (waker : Waker)
  /-- Drop the pending `start_item` or `finish_item` future; the sequence itself goes on. -/
  | dropCall (seq : ι)
  /-- Drop the whole sequence. -/
  | dropSeq (seq : ι)
  | getNextItem (waker : Waker)
  | pollNext (waker : Waker)
  /-- Drop the pending `get_next_item` future. -/
  | dropNext
  | tryNextItem
  | itemDone (rsp : Option Rsp)
  | putResponse (id : TxnId) (rsp : Rsp)
deriving DecidableEq, Repr

variable {ι Req Rsp : Type*} [DecidableEq ι]

namespace System

/-- Overwrite one slot cell. -/
def setSlot (s : System ι Req Rsp) (slot : SlotRef) (cell : ItemSlot Req) : System ι Req Rsp :=
  { s with heap := Function.update s.heap slot cell }

def setSeq (s : System ι Req Rsp) (seq : ι) (state : SeqState) : System ι Req Rsp :=
  { s with seqs := Function.update s.seqs seq state }

def setPos (s : System ι Req Rsp) (seq : ι) (pos : SeqPos) : System ι Req Rsp :=
  s.setSeq seq { s.seqs seq with pos := pos }

def setInner (s : System ι Req Rsp) (inner : SeqrInner Rsp) : System ι Req Rsp :=
  { s with inner := inner }

def setDriver (s : System ι Req Rsp) (driver : DriverPos) : System ι Req Rsp :=
  { s with driver := driver }

end System

/-- The observations of waking a list of wakers. -/
def woke (wakers : List Waker) : List (Obs ι Req) := wakers.map .woke

/-- `slot.granted.wait().await`, the last await point of `start_item`. -/
def pollGranted (s : System ι Req Rsp) (seq : ι) (slot : SlotRef) (waker : Waker) :
    System ι Req Rsp × List (Obs ι Req) :=
  let cell := s.heap slot
  match cell.granted.wait waker with
  | (.ready _, _) => (s.setPos seq .idle, [.started seq cell.id])
  | (.pending, granted) => ((s.setSlot slot { cell with granted := granted }).setPos seq (.starting slot), [])

/-- `inner.queue.put(slot).await`, then the wait for the grant. -/
def pollEnqueue (s : System ι Req Rsp) (seq : ι) (slot : SlotRef) (waker : Waker) :
    System ι Req Rsp × List (Obs ι Req) :=
  match s.inner.queue.pollPut slot waker with
  | (.ready _, queue, woken) =>
      let (next, out) := pollGranted (s.setInner { s.inner with queue := queue }) seq slot waker
      (next, .enqueued seq (s.heap slot).id :: woke woken ++ out)
  | (.pending, queue, _) =>
      ((s.setInner { s.inner with queue := queue }).setPos seq (.enqueueing slot), [])

/-- The first poll of `start_item`: take a ticket, allocate the slot, enqueue it. -/
def startItem (s : System ι Req Rsp) (seq : ι) (waker : Waker) : System ι Req Rsp × List (Obs ι Req) :=
  let ctx := (s.seqs seq).ctx
  if ctx.current.isSome then (s, [.seqError seq "start_item called twice without finish_item"])
  else if !ctx.attached then
    (s, [.seqError seq
      s!"{ctx.name}: start_item in a virtual sequence — it was started without a sequencer"])
  else
    let slot := s.fresh
    let allocated : System ι Req Rsp :=
      { (s.setSlot slot (.new ⟨s.inner.nextId⟩)) with
        fresh := slot + 1
        inner := { s.inner with nextId := s.inner.nextId + 1 } }
    pollEnqueue (allocated.setSeq seq { s.seqs seq with ctx := { ctx with current := some slot } })
      seq slot waker

/-- A later poll of `start_item`. -/
def pollStart (s : System ι Req Rsp) (seq : ι) (waker : Waker) :
    Option (System ι Req Rsp × List (Obs ι Req)) :=
  match (s.seqs seq).pos with
  | .enqueueing slot => some (pollEnqueue s seq slot waker)
  | .starting slot => some (pollGranted s seq slot waker)
  | _ => none

/-- `slot.done.wait().await`, the await point of `finish_item`. -/
def pollDone (s : System ι Req Rsp) (seq : ι) (slot : SlotRef) (waker : Waker) :
    System ι Req Rsp × List (Obs ι Req) :=
  let cell := s.heap slot
  match cell.done.wait waker with
  | (.ready _, _) => (s.setPos seq .idle, [.returned seq cell.id])
  | (.pending, done) => ((s.setSlot slot { cell with done := done }).setPos seq (.finishing slot), [])

/-- The first poll of `finish_item`: hand the payload over and announce it. -/
def finishItem (s : System ι Req Rsp) (seq : ι) (payload : Req) (waker : Waker) :
    System ι Req Rsp × List (Obs ι Req) :=
  let state := s.seqs seq
  match state.ctx.current with
  | none => (s, [.seqError seq "finish_item without start_item"])
  | some slot =>
      let cell := s.heap slot
      let (ready, woken) := cell.ready.set
      let filled := (s.setSlot slot { cell with payload := some payload, ready := ready }).setSeq seq
        { state with ctx := { state.ctx with current := none } }
      let (next, out) := pollDone filled seq slot waker
      (next, .handed seq cell.id payload :: woke woken ++ out)

/-- `slot.ready.wait().await`, then the handover of the payload to the driver. -/
def pollReady (s : System ι Req Rsp) (slot : SlotRef) (waker : Waker) :
    System ι Req Rsp × List (Obs ι Req) :=
  let cell := s.heap slot
  match cell.ready.wait waker with
  | (.pending, ready) => ((s.setSlot slot { cell with ready := ready }).setDriver (.readying slot), [])
  | (.ready _, _) =>
      match cell.payload with
      | none => (s.setDriver .idle, [.panicked .payloadMissing])
      | some payload =>
          (((s.setSlot slot { cell with payload := none }).setInner
            { s.inner with current := some slot }).setDriver .idle, [.delivered ⟨cell.id, payload⟩])

/-- `slot.granted.set()`. -/
def grant (s : System ι Req Rsp) (slot : SlotRef) : System ι Req Rsp × List (Obs ι Req) :=
  let cell := s.heap slot
  let (granted, woken) := cell.granted.set
  (s.setSlot slot { cell with granted := granted }, woke woken)

/-- `self.queue.get().await`, then the grant and the wait for the payload. -/
def pollQueue (s : System ι Req Rsp) (waker : Waker) : System ι Req Rsp × List (Obs ι Req) :=
  match s.inner.queue.pollGet waker with
  | (.pending, queue, _) =>
      ((s.setInner { s.inner with queue := queue }).setDriver .waiting, [])
  | (.ready slot, queue, woken) =>
      let (granted, out) := grant (s.setInner { s.inner with queue := queue }) slot
      let (next, more) := pollReady granted slot waker
      (next, woke woken ++ out ++ more)

/-- The first poll of `get_next_item`. -/
def getNextItem (s : System ι Req Rsp) (waker : Waker) : System ι Req Rsp × List (Obs ι Req) :=
  if s.inner.current.isSome then (s, [.panicked .getNextItemTwice]) else pollQueue s waker

/-- A later poll of `get_next_item`. -/
def pollNext (s : System ι Req Rsp) (waker : Waker) : Option (System ι Req Rsp × List (Obs ι Req)) :=
  match s.driver with
  | .idle => none
  | .waiting => some (pollQueue s waker)
  | .readying slot => some (pollReady s slot waker)

/-- `try_next_item`: a slot that is granted but not filled goes back to the end of the queue. -/
def tryNextItem (s : System ι Req Rsp) : System ι Req Rsp × List (Obs ι Req) :=
  if s.inner.current.isSome then (s, [.panicked .tryNextItemTwice])
  else
    match s.inner.queue.tryGet with
    | none => (s, [.nothing])
    | some (slot, queue, woken) =>
        let (granted, out) := grant (s.setInner { s.inner with queue := queue }) slot
        let cell := granted.heap slot
        match cell.payload with
        | some payload =>
            ((granted.setSlot slot { cell with payload := none }).setInner
              { granted.inner with current := some slot }, woke woken ++ out ++ [.delivered ⟨cell.id, payload⟩])
        | none =>
            match queue.tryPut slot with
            | .ok (back, getters) =>
                (granted.setInner { granted.inner with queue := back },
                  woke woken ++ out ++ woke getters ++ [.nothing])
            | .error _ => (granted, woke woken ++ out ++ [.nothing])

def itemDone (s : System ι Req Rsp) (rsp : Option Rsp) : System ι Req Rsp × List (Obs ι Req) :=
  match s.inner.current with
  | none => (s, [.panicked .itemDoneWithoutItem])
  | some slot =>
      let cell := s.heap slot
      let (responses, receivers) := match rsp with
        | none => (s.inner.responses, [])
        | some r => s.inner.responses.push cell.id r
      let (done, woken) := cell.done.set
      ((s.setSlot slot { cell with done := done }).setInner
        { s.inner with current := none, responses := responses },
        woke receivers ++ .released cell.id :: woke woken)

def putResponse (s : System ι Req Rsp) (id : TxnId) (rsp : Rsp) : System ι Req Rsp × List (Obs ι Req) :=
  let (responses, receivers) := s.inner.responses.push id rsp
  (s.setInner { s.inner with responses := responses }, woke receivers)

/-- One action. A call is refused while the caller still has a call pending, and a poll or a drop
when there is nothing to poll or drop. -/
def step (s : System ι Req Rsp) : Action ι Req Rsp → Option (System ι Req Rsp × List (Obs ι Req))
  | .startItem seq waker =>
      if (s.seqs seq).pos = .idle then some (startItem s seq waker) else none
  | .pollStart seq waker => pollStart s seq waker
  | .finishItem seq payload waker =>
      if (s.seqs seq).pos = .idle then some (finishItem s seq payload waker) else none
  | .pollFinish seq waker =>
      match (s.seqs seq).pos with
      | .finishing slot => some (pollDone s seq slot waker)
      | _ => none
  | .dropCall seq =>
      match (s.seqs seq).pos with
      | .idle | .dropped => none
      | _ => some (s.setPos seq .idle, [])
  | .dropSeq seq =>
      if (s.seqs seq).pos = .dropped then none else some (s.setPos seq .dropped, [])
  | .getNextItem waker => if s.driver = .idle then some (getNextItem s waker) else none
  | .pollNext waker => pollNext s waker
  | .dropNext => if s.driver = .idle then none else some (s.setDriver .idle, [])
  | .tryNextItem => if s.driver = .idle then some (tryNextItem s) else none
  | .itemDone rsp => some (itemDone s rsp)
  | .putResponse id rsp => some (putResponse s id rsp)

/-- The sequencer machine over a family of sequences. -/
def machine (ι Req Rsp : Type*) [DecidableEq ι] : Machine (System ι Req Rsp) (Action ι Req Rsp) (Obs ι Req) where
  step := step

/-- A fresh sequencer: no slot allocated, the driver and every sequence between calls. -/
def initial (names : ι → String) (attached : ι → Bool) : System ι Req Rsp where
  heap _ := .new ⟨0⟩
  fresh := 0
  inner := .new
  driver := .idle
  seqs seq := ⟨⟨attached seq, none, names seq⟩, .idle⟩

end Rustdv.Sequencer
