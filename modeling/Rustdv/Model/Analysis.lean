import Rustdv.Machine.Run

/-! # Analysis hubs and their ports

A hub has a list of subscribers and no queue: `write` takes a copy of the list and calls one subscriber
after the other. A handler is code of the user. Before it returns it may write to any hub, through a port
or directly, connect more subscribers, and, by a callback of the simulator, have the executor poll tasks.
The machine keeps the stack of what is in progress, and `resume` is the return of its top. A subscriber's
state is in a `RefCell` that is borrowed while its handler runs; a delivery in the meantime panics, and the
panic unwinds the stack as far as the last poll, which catches it. The component's own guards on that state
are short, as `RustdvShared::get` asks: none is held when something is written.
-/

namespace Rustdv.Analysis

abbrev HubRef := ℕ

/-- The identity of a subscriber's shared state. -/
abbrev SubRef := ℕ

/-- The identity of a `PublishPort` or of a `SubscribePort`. -/
abbrev PortRef := ℕ

/-- A field that is marked `#[port]`: its cell, if it is one of analysis ports of the item's type. -/
inductive PortCell where
  | publish (port : PortRef)
  | subscribe (port : PortRef)
  | other
deriving DecidableEq, Repr

/-- A component as `connect` sees it. -/
structure PortOwner where
  label : String
  ports : List (String × PortCell)
deriving DecidableEq, Repr

inductive ConnectError where
  | noSuchPort (owner name : String)
  | wrongInterface (owner name : String)
  | noSubscriber (owner name : String)
deriving DecidableEq, Repr

def ConnectError.display : ConnectError → String
  | .noSuchPort owner name =>
      "connect: " ++ owner ++ " has no port named '" ++ name ++
        "' (is the field marked #[port(..)]? is the child slot built?)"
  | .wrongInterface owner name =>
      "connect: " ++ owner ++ "'s port '" ++ name ++
        "' wants a different interface (put/get/peek mismatch, or a different transaction type)"
  | .noSubscriber owner name =>
      "connect: " ++ owner ++ "'s subscribe port '" ++ name ++ "' has no subscriber — call `self." ++ name ++
        ".subscribe(handle)` in " ++ owner ++ "'s build phase"

/-- A broadcast in progress: its copy of the hub's list, and the connection whose handler runs. -/
structure Frame (α : Type*) where
  hub : HubRef
  item : α
  subs : List SubRef
  conn : ℕ
deriving DecidableEq, Repr

inductive Panic where
  | connect (error : ConnectError)
  /-- `already borrowed`. -/
  | borrowed (sub : SubRef)
  /-- Of the user's code. -/
  | code
deriving DecidableEq, Repr

inductive Obs (α : Type*) where
  /-- The connection at this position of its hub's list was made. -/
  | connected (hub : HubRef) (conn : ℕ)
  /-- A write reached a hub. -/
  | wrote (hub : HubRef) (item : α)
  | delivered (hub : HubRef) (conn : ℕ) (item : α)
  | panicked (panic : Panic)
deriving DecidableEq, Repr

inductive Action (α : Type*) where
  /-- `AnalysisBus::new`. -/
  | newHub
  /-- A fresh `PublishPort`. -/
  | newPublish
  /-- A fresh `SubscribePort`. -/
  | newSubscribe
  /-- `SubscribePort::subscribe`. -/
  | subscribe (port : PortRef) (sub : SubRef)
  /-- `PublishExport::connect`. -/
  | bind (hub : HubRef) (owner : PortOwner) (name : String)
  /-- `SubscribeExport::connect`. -/
  | connect (hub : HubRef) (owner : PortOwner) (name : String)
  /-- `PublishPort::write`. -/
  | publish (port : PortRef) (item : α)
  /-- `AnalysisBus::write`. -/
  | write (hub : HubRef) (item : α)
  /-- A handler has the executor poll a task. -/
  | poll
  /-- The running handler or the poll returns. -/
  | resume
  | panic
deriving DecidableEq, Repr

/-- The hubs with their subscribers, the cells of the ports, and what is in progress, innermost first: a
broadcast, or a poll within a handler. -/
structure Net (α : Type*) where
  hubs : List (List SubRef)
  publishers : List (Option HubRef)
  subscribers : List (Option SubRef)
  stack : List (Option (Frame α))
deriving DecidableEq, Repr

variable {α : Type*}

/-- The subscriber whose handler runs. -/
def Frame.current (f : Frame α) : Option SubRef := f.subs[f.conn]?

/-- The broadcasts in progress. -/
def Net.frames (s : Net α) : List (Frame α) := s.stack.filterMap id

/-- Whether the subscriber's state is borrowed by its handler. -/
def Net.busy (s : Net α) (sub : SubRef) : Bool := s.frames.any (·.current = some sub)

def Net.setStack (s : Net α) (stack : List (Option (Frame α))) : Net α := { s with stack := stack }

/-- The stack is unwound as far as the last poll. -/
def Net.unwind (s : Net α) (panic : Panic) : Net α × List (Obs α) :=
  (s.setStack (s.stack.dropWhile Option.isSome).tail, [.panicked panic])

/-- Call the subscriber of this connection, unless the list is at its end. -/
def Net.deliver (s : Net α) (hub : HubRef) (item : α) (subs : List SubRef) (conn : ℕ) : Net α × List (Obs α) :=
  match subs[conn]? with
  | none => (s, [])
  | some sub =>
      if s.busy sub then s.unwind (.borrowed sub)
      else (s.setStack (some ⟨hub, item, subs, conn⟩ :: s.stack), [.delivered hub conn item])

/-- `HubInner::broadcast`. -/
def Net.broadcast (s : Net α) (hub : HubRef) (item : α) (subs : List SubRef) : Net α × List (Obs α) :=
  let (t, out) := s.deliver hub item subs 0
  (t, .wrote hub item :: out)

/-- The cell of a port by its name. -/
def PortOwner.slot (owner : PortOwner) (name : String) : Except ConnectError PortCell :=
  match owner.ports.lookup name with
  | none => .error (.noSuchPort owner.label name)
  | some cell => .ok cell

/-- `bind`, for a publish export. -/
def Net.bind (s : Net α) (hub : HubRef) (owner : PortOwner) (name : String) : Except ConnectError (Net α) :=
  match owner.slot name with
  | .error e => .error e
  | .ok (.publish port) => .ok { s with publishers := s.publishers.set port (some hub) }
  | .ok _ => .error (.wrongInterface owner.label name)

def Net.sinkOf (s : Net α) (owner : PortOwner) (name : String) : Except ConnectError SubRef :=
  match owner.slot name with
  | .error e => .error e
  | .ok (.subscribe port) =>
      match (s.subscribers[port]?).join with
      | none => .error (.noSubscriber owner.label name)
      | some sub => .ok sub
  | .ok _ => .error (.wrongInterface owner.label name)

def step (s : Net α) : Action α → Option (Net α × List (Obs α))
  | .newHub => some ({ s with hubs := s.hubs ++ [[]] }, [])
  | .newPublish => some ({ s with publishers := s.publishers ++ [none] }, [])
  | .newSubscribe => some ({ s with subscribers := s.subscribers ++ [none] }, [])
  | .subscribe port sub => some ({ s with subscribers := s.subscribers.set port (some sub) }, [])
  | .bind hub owner name =>
      match s.bind hub owner name with
      | .error e => some (s.unwind (.connect e))
      | .ok t => some (t, [])
  | .connect hub owner name =>
      (s.hubs[hub]?).map fun subs =>
        match s.sinkOf owner name with
        | .error e => s.unwind (.connect e)
        | .ok sub => ({ s with hubs := s.hubs.set hub (subs ++ [sub]) }, [.connected hub subs.length])
  | .publish port item =>
      (s.publishers[port]?).bind fun
        | none => some (s, [])
        | some hub => (s.hubs[hub]?).map (s.broadcast hub item)
  | .write hub item => (s.hubs[hub]?).map (s.broadcast hub item)
  | .poll => if s.stack.isEmpty then none else some (s.setStack (none :: s.stack), [])
  | .resume =>
      match s.stack with
      | [] => none
      | none :: below => some (s.setStack below, [])
      | some f :: below => some ((s.setStack below).deliver f.hub f.item f.subs (f.conn + 1))
  | .panic => some (s.unwind .code)

/-- The hubs of a test. -/
def machine (α : Type*) : Machine (Net α) (Action α) (Obs α) where
  step := step

def Net.initial : Net α := ⟨[], [], [], []⟩

end Rustdv.Analysis
