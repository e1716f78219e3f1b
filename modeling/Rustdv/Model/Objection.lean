import Rustdv.Model.Sync

/-! # The objection registry

Objections are counted; dropping the last one sets the drained event, raising one clears it. A guard
is a value that is dropped once, so a live guard is an identity with the description it was raised
under.
-/

namespace Rustdv.Objection

/-- The identity of a guard. -/
abbrev GuardRef := ℕ

/-- The registry that all clones of a context share, and the guards that are alive. -/
structure ObjectionRegistry where
  count : ℕ
  drained : Event
  raisedEver : Bool
  active : List String
  guards : List (GuardRef × String)
  fresh : GuardRef
deriving DecidableEq, Repr

def new : ObjectionRegistry := ⟨0, .new, false, [], [], 0⟩

/-- `ObjectionRegistry::raise`: a new guard, and no consensus any more. -/
def raise (reg : ObjectionRegistry) (description : String) : ObjectionRegistry :=
  { reg with
    count := reg.count + 1
    raisedEver := true
    drained := reg.drained.clear
    active := reg.active ++ [description]
    guards := reg.guards ++ [(reg.fresh, description)]
    fresh := reg.fresh + 1 }

/-- `ObjectionGuard::drop`, with the wakers it wakes; the first description that reads the same goes. -/
def dropGuard (reg : ObjectionRegistry) (guard : GuardRef) (description : String) : ObjectionRegistry × List Waker :=
  let lowered := { reg with
    active := reg.active.erase description
    count := reg.count - 1
    guards := reg.guards.erase (guard, description) }
  if lowered.count = 0 then
    let (drained, woken) := lowered.drained.set
    ({ lowered with drained }, woken)
  else (lowered, [])

/-- A poll of `wait_drained_event`. -/
def waitDrained (reg : ObjectionRegistry) (waker : Waker) : Poll Unit × ObjectionRegistry :=
  let (poll, drained) := reg.drained.wait waker
  (poll, { reg with drained })

/-- What code does to the registry. -/
inductive Op where
  | raise (description : String)
  | drop (guard : GuardRef)
deriving DecidableEq, Repr

/-- What is seen of it. -/
inductive Obs where
  /-- An objection was raised, with the drained event set or not. -/
  | raised (guard : GuardRef) (description : String) (drained : Bool)
  /-- A guard was dropped; the count may have reached zero. -/
  | lowered (guard : GuardRef) (drained : Bool)
  | woke (waker : Waker)
deriving DecidableEq, Repr

/-- One operation; there is nothing to drop of a guard that is gone. -/
def perform (reg : ObjectionRegistry) : Op → ObjectionRegistry × List Obs
  | .raise description => (raise reg description, [.raised reg.fresh description reg.drained.isSet])
  | .drop guard =>
      match reg.guards.find? fun g => g.1 = guard with
      | some (_, description) =>
          let (next, woken) := dropGuard reg guard description
          (next, .lowered guard (next.count = 0) :: woken.map .woke)
      | none => (reg, [])

/-- Operations in order. -/
def performAll (reg : ObjectionRegistry) : List Op → ObjectionRegistry × List Obs
  | [] => (reg, [])
  | op :: rest =>
      let (next, out) := perform reg op
      let (last, more) := performAll next rest
      (last, out ++ more)

end Rustdv.Objection
