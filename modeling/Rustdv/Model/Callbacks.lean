import Mathlib.Logic.Function.Basic
import Mathlib.Data.Nat.Notation
import Rustdv.Machine.Run

/-! # Simulator callbacks

A registration is shared between the handle in Rust, the simulator, which got a raw reference, and the
trampoline while it runs. The simulator may call a callback that it has not been told to remove at any
time, also while the closure of another one, or of the same one, is running. A panic that leaves a
trampoline ends the process.
-/

namespace Rustdv.Callback

inductive CbKind where
  | oneShot
  | recurring
deriving DecidableEq, Repr

/-- What is shared, with what the simulator and the Rust side hold of it. -/
structure CbShared where
  kind : CbKind
  /-- The C-side reference has been reclaimed. -/
  released : Bool
  /-- The closure of a one-shot is still there. -/
  once : Bool
  /-- The closure of a recurring callback is borrowed. -/
  borrowed : Bool
  /-- The strong count. -/
  strong : ℕ
  /-- The simulator has the callback. -/
  registered : Bool
  /-- There is an attached `CallbackHandle`. -/
  attached : Bool
deriving DecidableEq, Repr

inductive Obs where
  | registered (id : ℕ)
  /-- `vpi_register_cb` returned null. -/
  | refused (id : ℕ)
  /-- The simulator called the trampoline. -/
  | entered (id : ℕ)
  /-- The closure was called. -/
  | ran (id : ℕ)
  | panicked (id : ℕ) (msg : String)
  /-- The panic sink got the message. -/
  | reported (id : ℕ) (msg : String)
  /-- A panic left the trampoline. -/
  | escaped (id : ℕ)
  | returned (id : ℕ) (status : Int)
  /-- `vpi_remove_cb`. -/
  | removed (id : ℕ)
  /-- The reference given to the C side was dropped. -/
  | reclaimed (id : ℕ)
  /-- An attached handle was dropped. -/
  | dropped (id : ℕ)
  | forgot (id : ℕ)
  /-- The shared state was freed. -/
  | freed (id : ℕ)
deriving DecidableEq, Repr

/-- The registration that an observation is about. -/
def Obs.id : Obs → ℕ
  | registered id | refused id | entered id | ran id | panicked id _ | reported id _ | escaped id | returned id _
  | removed id | reclaimed id | dropped id | forgot id | freed id => id

inductive Act where
  | register (kind : CbKind) (accepted : Bool)
  /-- The simulator calls the callback. -/
  | fire (id : ℕ)
  /-- The innermost closure returns. -/
  | return
  /-- The innermost closure panics. -/
  | panic (msg : String)
  | dropHandle (id : ℕ)
  | forget (id : ℕ)
deriving DecidableEq, Repr

/-- How the entry into a trampoline goes on. -/
inductive Entry where
  | runs
  | returns
  | escapes
deriving DecidableEq, Repr

namespace CbShared

/-- `register`; a refusal panics and leaves the C-side reference. -/
def new (kind : CbKind) (accepted : Bool) : CbShared where
  kind := kind
  released := false
  once := kind = .oneShot
  borrowed := false
  strong := if accepted then 2 else 1
  registered := accepted
  attached := accepted

variable (c : CbShared) (id : ℕ)

/-- A reference is dropped; the last one frees. -/
def letGo : CbShared × List Obs := ({ c with strong := c.strong - 1 }, if c.strong = 1 then [.freed id] else [])

/-- The callback is removed and the C-side reference is reclaimed. -/
def release : CbShared × List Obs :=
  let (rest, out) := letGo { c with released := true, registered := false } id
  (rest, .removed id :: .reclaimed id :: out)

/-- What a second mutable borrow panics with. -/
def borrowText : String := "RefCell already borrowed"

/-- `trampoline`, up to the call of the closure. -/
def enter : CbShared × List Obs × Entry :=
  let held := { c with strong := c.strong + 1 }
  match c.kind with
  | .oneShot =>
      if c.released then
        let (rest, out) := held.letGo id
        (rest, out ++ [.returned id 0], .returns)
      else
        let (rest, out) := release { held with once := false } id
        if c.once then (rest, out ++ [.ran id], .runs)
        else
          let (last, more) := rest.letGo id
          (last, out ++ more ++ [.returned id 0], .returns)
  | .recurring =>
      -- the borrow is outside the `catch_unwind`; the unwinding drops the reference again
      if c.borrowed then (c, [.panicked id borrowText, .escaped id], .escapes)
      else ({ held with borrowed := true }, [.ran id], .runs)

/-- `trampoline`, after the closure. -/
def leave : CbShared × List Obs :=
  let (rest, out) := letGo { c with borrowed := false } id
  (rest, out ++ [.returned id 0])

/-- `CallbackHandle::drop`, with the fields. -/
def dropHandle : CbShared × List Obs :=
  let (rest, out) := if c.released then (c, []) else c.release id
  let (last, more) := letGo { rest with attached := false } id
  (last, .dropped id :: out ++ more)

/-- `CallbackHandle::forget`. -/
def forget : CbShared × List Obs :=
  let (rest, out) := letGo { c with attached := false } id
  (rest, .forgot id :: out)

end CbShared

structure Callbacks where
  shared : ℕ → Option CbShared
  next : ℕ
  /-- The trampolines whose closures are running, the innermost first. -/
  stack : List ℕ
  /-- A panic has left a trampoline. -/
  aborted : Bool

namespace Callbacks

def init : Callbacks := ⟨fun _ => none, 0, [], false⟩

def put (s : Callbacks) (id : ℕ) (c : CbShared) : Callbacks := { s with shared := Function.update s.shared id (some c) }

def register (s : Callbacks) (kind : CbKind) (accepted : Bool) : Callbacks × List Obs :=
  ({ s.put s.next (.new kind accepted) with next := s.next + 1 },
    [if accepted then .registered s.next else .refused s.next])

def fire (s : Callbacks) (id : ℕ) (c : CbShared) : Callbacks × List Obs :=
  let (rest, out, entry) := c.enter id
  ({ s.put id rest with
      stack := if entry = .runs then id :: s.stack else s.stack
      aborted := entry = .escapes }, .entered id :: out)

/-- The innermost trampoline goes on after its closure. -/
def finish (s : Callbacks) (id : ℕ) (below : List ℕ) (c : CbShared) : Callbacks × List Obs :=
  let (rest, out) := c.leave id
  ({ s.put id rest with stack := below }, out)

def step (s : Callbacks) (a : Act) : Option (Callbacks × List Obs) :=
  if s.aborted then none
  else match a with
    | .register kind accepted => some (s.register kind accepted)
    | .fire id => (s.shared id).bind fun c => if c.registered then some (s.fire id c) else none
    | .return =>
        match s.stack with
        | id :: below => (s.shared id).map fun c => s.finish id below c
        | [] => none
    | .panic msg =>
        match s.stack with
        | id :: below => (s.shared id).map fun c =>
            let (t, out) := s.finish id below c
            (t, .panicked id msg :: .reported id msg :: out)
        | [] => none
    | .dropHandle id =>
        (s.shared id).bind fun c =>
          if c.attached then
            let (rest, out) := c.dropHandle id
            some (s.put id rest, out)
          else none
    | .forget id =>
        (s.shared id).bind fun c =>
          if c.attached then
            let (rest, out) := c.forget id
            some (s.put id rest, out)
          else none

end Callbacks

/-- The callbacks of a process as a machine. -/
def callbacks : Machine Callbacks Act Obs where
  step := Callbacks.step

end Rustdv.Callback
