import Rustdv.Model.Sequencer

/-! # Response routing

The sequencer's responses are collected by `get_response` futures and `try_get_response` calls of
any number of sequences, each for the next response or for the one of a ticket. The machine is the
sequencer with a table of these futures. The driver's side pushes through `item_done` and
`put_response`; what a step pushed and the ticket under which a returned response had been pushed
are part of what it shows.
-/

namespace Rustdv.Sequencer

variable {ι Req Rsp : Type*}

/-- What a request asks for: the next response, or the one of a ticket. -/
abbrev Request := Option TxnId

namespace ResponseQueue

/-- The index of the entry the request takes. -/
def select (responses : ResponseQueue Rsp) : Request → Option ℕ
  | none => if responses.items.isEmpty then none else some 0
  | some id => responses.items.findIdx? fun entry => entry.1 = id

/-- The selected entry is removed; the caller gets its response. -/
def tryGetResponse (responses : ResponseQueue Rsp) (request : Request) :
    Option ((TxnId × Rsp) × ResponseQueue Rsp) :=
  (responses.select request).bind fun index =>
    (responses.items[index]?).map fun entry => (entry, { responses with items := responses.items.eraseIdx index })

/-- `GetResponse::poll`. -/
def pollResponse (responses : ResponseQueue Rsp) (request : Request) (waker : Waker) :
    Poll (TxnId × Rsp) × ResponseQueue Rsp :=
  match responses.tryGetResponse request with
  | some (entry, rest) => (.ready entry, rest)
  | none => (.pending, { responses with waiters := responses.waiters ++ [waker] })

end ResponseQueue

/-- A pending `get_response` call of a sequence. -/
structure GetResponse (ι : Type*) where
  seq : ι
  request : Request
deriving DecidableEq, Repr

/-- The identity of a `get_response` future. -/
abbrev GetRef := ℕ

/-- The sequencer with its drivers and sequences, and the `get_response` futures. -/
structure Router (ι Req Rsp : Type*) where
  system : System ι Req Rsp
  gets : List (Option (GetResponse ι))

inductive RouterObs (ι Req Rsp : Type*) where
  | seqr (obs : Obs ι Req)
  /-- A response was queued under this ticket. -/
  | pushed (entry : TxnId × Rsp)
  /-- The future of this request returned `Pending` and left its waker. -/
  | registered (ref : GetRef) (request : Request) (waker : Waker)
  /-- A request returned the response of this entry. -/
  | answered (request : Request) (entry : TxnId × Rsp)
  /-- `try_get_response` returned `None`. -/
  | noResponse
  /-- "get_response in a virtual sequence". -/
  | panicked
deriving DecidableEq, Repr

inductive RouterAction (ι Req Rsp : Type*) where
  /-- Anything the driver and the sequences do otherwise, pushes included. -/
  | seqr (action : Action ι Req Rsp)
  | getResponse (seq : ι) (request : Request)
  | poll (ref : GetRef) (waker : Waker)
  | drop (ref : GetRef)
  | tryGetResponse (seq : ι) (request : Request)
deriving DecidableEq, Repr

/-- What an action pushes: `item_done(Some(r))` under the ticket of the driver's current item,
`put_response` under the ticket it is given. -/
def pushes (s : System ι Req Rsp) : Action ι Req Rsp → List (TxnId × Rsp)
  | .itemDone (some rsp) => (s.inner.current.map fun slot => ((s.heap slot).id, rsp)).toList
  | .putResponse id rsp => [(id, rsp)]
  | _ => []

namespace Router

def setResponses (s : Router ι Req Rsp) (responses : ResponseQueue Rsp) : Router ι Req Rsp :=
  { s with system := s.system.setInner { s.system.inner with responses := responses } }

/-- One poll of `get_response`; a sequence without a sequencer has no responses. -/
def poll (s : Router ι Req Rsp) (ref : GetRef) (get : GetResponse ι) (waker : Waker) :
    Router ι Req Rsp × List (RouterObs ι Req Rsp) :=
  if (s.system.seqs get.seq).ctx.attached then
    match s.system.inner.responses.pollResponse get.request waker with
    | (.ready entry, rest) => (s.setResponses rest, [.answered get.request entry])
    | (.pending, rest) => (s.setResponses rest, [.registered ref get.request waker])
  else (s, [.panicked])

def tryGetResponse (s : Router ι Req Rsp) (seq : ι) (request : Request) :
    Router ι Req Rsp × List (RouterObs ι Req Rsp) :=
  if (s.system.seqs seq).ctx.attached then
    match s.system.inner.responses.tryGetResponse request with
    | some (entry, rest) => (s.setResponses rest, [.answered request entry])
    | none => (s, [.noResponse])
  else (s, [.noResponse])

variable [DecidableEq ι]

def step (s : Router ι Req Rsp) :
    RouterAction ι Req Rsp → Option (Router ι Req Rsp × List (RouterObs ι Req Rsp))
  | .seqr action =>
      (Sequencer.step s.system action).map fun result =>
        ({ s with system := result.1 }, (pushes s.system action).map .pushed ++ result.2.map .seqr)
  | .getResponse seq request => some ({ s with gets := s.gets ++ [some ⟨seq, request⟩] }, [])
  | .poll ref waker => (s.gets.getD ref none).map fun get => s.poll ref get waker
  | .drop ref =>
      if (s.gets.getD ref none).isSome then some ({ s with gets := s.gets.set ref none }, []) else none
  | .tryGetResponse seq request => some (s.tryGetResponse seq request)

/-- The sequencer and everything that is done with its responses. -/
def machine (ι Req Rsp : Type*) [DecidableEq ι] :
    Machine (Router ι Req Rsp) (RouterAction ι Req Rsp) (RouterObs ι Req Rsp) where
  step := step

/-- A fresh sequencer without requests. -/
def initial (names : ι → String) (attached : ι → Bool) : Router ι Req Rsp :=
  ⟨Sequencer.initial names attached, []⟩

end Router

end Rustdv.Sequencer
