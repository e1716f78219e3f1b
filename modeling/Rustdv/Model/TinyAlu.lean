import Mathlib.Data.Nat.Notation
import Rustdv.Machine.Run

/-! # The TinyALU and its testbench

The design computes additions and logical operations in one cycle and products in a pipeline. The bus
functional model has three loops that each wait for a falling edge: one drives commands with a
handshake, one observes commands and one observes results. What tasks schedule is applied in the
ReadWrite phase, before the clock moves again; within a time step the woken tasks run in any order.
Registers and pins have any values at power-up.
-/

namespace Rustdv.TinyAlu

/-! ## Transactions -/

inductive Ops where
  | add
  | and
  | xor
  | mul
deriving DecidableEq, Repr

/-- `Ops::ALL`. -/
def Ops.all : List Ops := [.add, .and, .xor, .mul]

def Ops.asU64 : Ops → ℕ
  | .add => 1
  | .and => 2
  | .xor => 3
  | .mul => 4

def Ops.fromU64 : ℕ → Option Ops
  | 1 => some .add
  | 2 => some .and
  | 3 => some .xor
  | 4 => some .mul
  | _ => none

theorem Ops.fromU64_asU64 (op : Ops) : fromU64 op.asU64 = some op := by
  cases op <;> rfl

structure AluCommand where
  a : BitVec 8
  b : BitVec 8
  op : Ops
deriving DecidableEq, Repr

structure AluResult where
  result : BitVec 16
deriving DecidableEq, Repr

/-- The golden model, in 16 bits. -/
def predict (cmd : AluCommand) : AluResult :=
  let a := cmd.a.setWidth 16
  let b := cmd.b.setWidth 16
  match cmd.op with
  | .add => ⟨a + b⟩
  | .and => ⟨a &&& b⟩
  | .xor => ⟨a ^^^ b⟩
  | .mul => ⟨a * b⟩

/-! ## The design -/

/-- The driven ports, without the clock. -/
structure Pins where
  a : BitVec 8
  b : BitVec 8
  op : BitVec 3
  resetN : Bool
  start : Bool
deriving DecidableEq, Repr

/-- The registers of `single_cycle`. -/
structure SingleCycle where
  done : Bool
  result : BitVec 16
deriving DecidableEq, Repr

def SingleCycle.posedge (pins : Pins) (start : Bool) : SingleCycle :=
  if !pins.resetN then ⟨false, 0⟩
  else
    { done := start && pins.op != 0
      result :=
        if pins.op = 1 then pins.a.setWidth 16 + pins.b.setWidth 16
        else if pins.op = 2 then pins.a.setWidth 16 &&& pins.b.setWidth 16
        else if pins.op = 3 then pins.a.setWidth 16 ^^^ pins.b.setWidth 16
        else pins.a ++ pins.b }

/-- The registers of `three_cycle`. -/
structure ThreeCycle where
  aInt : BitVec 8
  bInt : BitVec 8
  mult1 : BitVec 16
  mult2 : BitVec 16
  result : BitVec 16
  done3 : Bool
  done2 : Bool
  done1 : Bool
  done : Bool
deriving DecidableEq, Repr

def ThreeCycle.posedge (r : ThreeCycle) (pins : Pins) (start : Bool) : ThreeCycle :=
  if !pins.resetN then ⟨0, 0, 0, 0, 0, false, false, false, false⟩
  else
    { aInt := pins.a
      bInt := pins.b
      mult1 := r.aInt.setWidth 16 * r.bInt.setWidth 16
      mult2 := r.mult1
      result := r.mult2
      done3 := start && !r.done
      done2 := r.done3 && !r.done
      done1 := r.done2 && !r.done
      done := r.done1 && !r.done }

structure Rtl where
  aax : SingleCycle
  mult : ThreeCycle
deriving DecidableEq, Repr

/-- `op[2]` routes the start, the result and the done of a command. -/
def Pins.multiplies (pins : Pins) : Bool := pins.op.getLsbD 2

def Rtl.posedge (r : Rtl) (pins : Pins) : Rtl where
  aax := .posedge pins (pins.start && !pins.multiplies)
  mult := r.mult.posedge pins (pins.start && pins.multiplies)

def Rtl.done (r : Rtl) (pins : Pins) : Bool := if pins.multiplies then r.mult.done else r.aax.done

def Rtl.result (r : Rtl) (pins : Pins) : BitVec 16 :=
  if pins.multiplies then r.mult.result else r.aax.result

/-! ## The bus functional model -/

/-- A scheduled write. -/
inductive Write where
  | a (v : BitVec 8)
  | b (v : BitVec 8)
  | op (v : BitVec 3)
  | start (v : Bool)
  | resetN (v : Bool)
deriving DecidableEq, Repr

def Pins.apply (pins : Pins) : Write → Pins
  | .a v => { pins with a := v }
  | .b v => { pins with b := v }
  | .op v => { pins with op := v }
  | .start v => { pins with start := v }
  | .resetN v => { pins with resetN := v }

/-- Where `reset` is: with so many falling edges to come after the next, which may have woken it. -/
inductive ResetAt where
  | awaiting (left : ℕ) (due : Bool)
  | finished
deriving DecidableEq, Repr

/-- Where `wait_idle` is. -/
inductive IdleAt where
  /-- In its loop. -/
  | counting (idleEdges : ℕ) (due : Bool)
  /-- In the falling edge after the loop. -/
  | last (due : Bool)
deriving DecidableEq, Repr

/-- The design, what is scheduled, and the loops. -/
structure Bfm where
  clk : Bool
  pins : Pins
  rtl : Rtl
  writes : List Write
  /-- The variable of the command monitor's loop. -/
  prevStart : Bool
  /-- The falling edge has woken the driver's loop, which has not been polled since. -/
  driverDue : Bool
  cmdDue : Bool
  resultDue : Bool
  cmdQ : List AluCommand
  resultQ : List AluResult
deriving DecidableEq, Repr

structure Bench extends Bfm where
  driverQ : List AluCommand
  reset : ResetAt
  waitIdle : Option IdleAt
  /-- The logs of the scoreboard. -/
  cmdLog : List AluCommand
  resultLog : List AluResult
deriving DecidableEq, Repr

/-- Power-up, with the first lines of `reset` behind it. -/
def Bench.powerUp (pins : Pins) (rtl : Rtl) : Bench where
  clk := false
  pins
  rtl
  writes := [.resetN false, .start false, .a 0, .b 0, .op 0]
  prevStart := false
  driverDue := false
  cmdDue := false
  resultDue := false
  cmdQ := []
  resultQ := []
  driverQ := []
  reset := .awaiting 5 false
  waitIdle := none
  cmdLog := []
  resultLog := []

inductive Action where
  /-- `send_op`. -/
  | send (cmd : AluCommand)
  /-- A task calls `wait_idle`. -/
  | wait
  | pollDriver
  | pollCmdMon
  | pollResultMon
  | pollReset
  | pollWaitIdle
  /-- A monitor component takes an item and hands it to the scoreboard. -/
  | forwardCmd
  | forwardResult
  | readWrite
  /-- The clock toggles. -/
  | edge
deriving DecidableEq, Repr

inductive Obs where
  | sent (cmd : AluCommand)
  | waiting
  /-- `wait_idle` returns. -/
  | idle
deriving DecidableEq, Repr

/-- The driver's loop after a falling edge. -/
def Bench.pollDriver (s : Bench) : Bench :=
  if !s.pins.start && !s.rtl.done s.pins then
    match s.driverQ with
    | [] => { s with driverDue := false }
    | cmd :: rest =>
        { s with
          driverDue := false
          driverQ := rest
          writes := s.writes ++ [.a cmd.a, .b cmd.b, .op (.ofNat 3 cmd.op.asU64), .start true] }
  else if s.pins.start && s.rtl.done s.pins then
    { s with driverDue := false, writes := s.writes ++ [.start false] }
  else { s with driverDue := false }

def Bfm.pollCmdMon (s : Bfm) : Bfm :=
  let observed :=
    if s.pins.start && !s.prevStart then (Ops.fromU64 s.pins.op.toNat).map (⟨s.pins.a, s.pins.b, ·⟩) else none
  { s with cmdDue := false, cmdQ := s.cmdQ ++ observed.toList, prevStart := s.pins.start }

def Bfm.pollResultMon (s : Bfm) : Bfm :=
  let observed := if s.pins.start && s.rtl.done s.pins then some ⟨s.rtl.result s.pins⟩ else none
  { s with resultDue := false, resultQ := s.resultQ ++ observed.toList }

/-- `reset` after one of its falling edges. -/
def Bench.pollReset (s : Bench) : Option Bench :=
  match s.reset with
  | .awaiting 0 true => some { s with reset := .finished, cmdQ := [], resultQ := [] }
  | .awaiting 1 true => some { s with reset := .awaiting 0 false, writes := s.writes ++ [.resetN true] }
  | .awaiting (left + 2) true => some { s with reset := .awaiting (left + 1) false }
  | _ => none

/-- `wait_idle` after one of its falling edges. -/
def Bench.pollWaitIdle (s : Bench) : Option (Bench × List Obs) :=
  match s.waitIdle with
  | some (.counting idleEdges true) =>
      if s.driverQ.isEmpty && !s.pins.start && !s.rtl.done s.pins then
        some ({ s with waitIdle := some (if idleEdges + 1 < 2 then .counting (idleEdges + 1) false else .last false) }, [])
      else some ({ s with waitIdle := some (.counting 0 false) }, [])
  | some (.last true) => some ({ s with waitIdle := none }, [.idle])
  | _ => none

def ResetAt.due : ResetAt → Bool
  | .awaiting _ due => due
  | .finished => false

def ResetAt.wake : ResetAt → ResetAt
  | .awaiting left _ => .awaiting left true
  | .finished => .finished

def IdleAt.due : IdleAt → Bool
  | .counting _ due | .last due => due

def IdleAt.wake : IdleAt → IdleAt
  | .counting idleEdges _ => .counting idleEdges true
  | .last _ => .last true

/-- A task is woken and has not run yet; the monitor components wait for items. -/
def Bench.busy (s : Bench) : Bool :=
  s.driverDue || s.cmdDue || s.resultDue || s.reset.due || s.waitIdle.any IdleAt.due ||
    !s.cmdQ.isEmpty || !s.resultQ.isEmpty

/-- The clock falls and wakes everyone who waits for it. -/
def Bench.fall (s : Bench) : Bench :=
  { s with
    clk := false
    driverDue := true
    cmdDue := true
    resultDue := true
    reset := s.reset.wake
    waitIdle := s.waitIdle.map IdleAt.wake }

def Bench.rise (s : Bench) : Bench := { s with clk := true, rtl := s.rtl.posedge s.pins }

def Bench.step (s : Bench) : Action → Option (Bench × List Obs)
  | .send cmd =>
      if s.reset = .finished then some ({ s with driverQ := s.driverQ ++ [cmd] }, [.sent cmd]) else none
  | .wait =>
      if s.reset = .finished ∧ s.waitIdle = none then
        some ({ s with waitIdle := some (.counting 0 false) }, [.waiting])
      else none
  | .pollDriver => if s.driverDue then some (s.pollDriver, []) else none
  | .pollCmdMon => if s.cmdDue then some ({ s with toBfm := s.toBfm.pollCmdMon }, []) else none
  | .pollResultMon => if s.resultDue then some ({ s with toBfm := s.toBfm.pollResultMon }, []) else none
  | .pollReset => s.pollReset.map (·, [])
  | .pollWaitIdle => s.pollWaitIdle
  | .forwardCmd =>
      match s.cmdQ with
      | [] => none
      | cmd :: rest => some ({ s with cmdQ := rest, cmdLog := s.cmdLog ++ [cmd] }, [])
  | .forwardResult =>
      match s.resultQ with
      | [] => none
      | res :: rest => some ({ s with resultQ := rest, resultLog := s.resultLog ++ [res] }, [])
  | .readWrite =>
      if s.writes.isEmpty || s.busy then none
      else some ({ s with pins := s.writes.foldl Pins.apply s.pins, writes := [] }, [])
  | .edge =>
      if !s.writes.isEmpty || s.busy then none else some (if s.clk then s.fall else s.rise, [])

def bench : Machine Bench Action Obs := ⟨Bench.step⟩

end Rustdv.TinyAlu
