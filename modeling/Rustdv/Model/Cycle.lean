import Rustdv.Machine.Run
import Rustdv.Model.LogicArray

/-! # Cycle models and their two backends

A cycle model observes the inputs of the cycle just completed and prepares the outputs for the next.
The direct host evaluates the design in a loop and calls the model through the exported context. The
VPI adapter is an asynchronous program beside a clock task; its steps are those of the simulator's
callbacks and of the two tasks, in any order the simulator allows. The design is clocked on the rising
edge and never calls `$finish`; the host's RSS check is off.
-/

namespace Rustdv.Cycle

open Phase (Logic)

inductive CycleStatus where
  | continue_
  | pass
  | fail
deriving DecidableEq, Repr

/-- `status as u32`, also `kContinue`, `kPass` and `kFail` of the host. -/
def CycleStatus.raw : CycleStatus → ℕ
  | .continue_ => 0
  | .pass => 1
  | .fail => 2

/-- A model that does not panic. `new` and `step` are given the outputs to change. -/
structure CycleModel (M I O : Type) where
  new : O → Except String M × O
  step : M → I → O → Except String CycleStatus × M × O
  finish : M → Except String Unit

/-- A synchronous design: what a rising edge makes of its registers under the driven ports, and what
its own ports then show. -/
structure Dut (D I O : Type) where
  init : D
  posedge : D → O → D
  read : D → O → I

/-- The outputs struct that the binding generator emits twice: in Rust it derives `Default`, in C++ it
is value-initialised, and every field is an unsigned integer. -/
structure Bindings (O : Type) where
  default : O
  valueInit : O
  same : default = valueInit

/-- The bindings of a list of fields by their bits. -/
def Bindings.ofFields (bits : List ℕ) : Bindings ((i : Fin bits.length) → BitVec (bits.get i)) where
  default := fun _ => 0
  valueInit := fun _ => 0
  same := rfl

/-- The calls of a created model. -/
inductive Call (I O : Type) where
  /-- `step`, with the outputs it leaves. -/
  | step (inputs : I) (outputs : O)
  | finish
deriving DecidableEq, Repr

variable {M I O D : Type} (model : CycleModel M I O) (dut : Dut D I O) (bindings : Bindings O)

/-! ## The direct host -/

/-- The Verilated design: its registers, the clock port, the clock at the last `eval`, and the
driven ports. -/
structure Verilated (D O : Type) where
  state : D
  clk : Bool
  lastClk : Bool
  driven : O

def Verilated.eval (v : Verilated D O) : Verilated D O where
  state := if v.clk && !v.lastClk then dut.posedge v.state v.driven else v.state
  clk := v.clk
  lastClk := v.clk
  driven := v.driven

/-- `apply_outputs`, and an evaluation with the clock low and one with it high. -/
def Verilated.tick (v : Verilated D O) (outputs : O) : Verilated D O :=
  let applied := { v with driven := outputs }
  let low := Verilated.eval dut { applied with clk := false }
  Verilated.eval dut { low with clk := true }

/-- Whatever the clock was, the two evaluations make one rising edge. -/
theorem Verilated.tick_eq (v : Verilated D O) (outputs : O) :
    v.tick dut outputs = ⟨dut.posedge v.state outputs, true, true, outputs⟩ := by
  simp only [tick, eval, Bool.false_and, Bool.false_eq_true, ↓reduceIte, Bool.true_and, Bool.not_false]

/-- `create_context`: null when the model is not created. -/
def createContext (outputs : O) : Option M × O :=
  match model.new outputs with
  | (.ok m, outputs) => (some m, outputs)
  | (.error _, outputs) => (none, outputs)

/-- `step_context`: an error is the status `Fail`. -/
def stepContext (m : M) (inputs : I) (outputs : O) : ℕ × M × O :=
  match model.step m inputs outputs with
  | (.ok status, m, outputs) => (status.raw, m, outputs)
  | (.error _, m, outputs) => (CycleStatus.fail.raw, m, outputs)

def finishContext (m : M) : ℕ :=
  match model.finish m with
  | .ok _ => CycleStatus.pass.raw
  | .error _ => CycleStatus.fail.raw

/-- The host's loop variables. -/
structure Host (M I O D : Type) where
  dut : Verilated D O
  context : M
  outputs : O
  status : ℕ
  calls : List (Call I O)

/-- One iteration of the main loop. -/
def Host.cycle (h : Host M I O D) : Host M I O D :=
  let ticked := h.dut.tick dut h.outputs
  let inputs := dut.read ticked.state ticked.driven
  let (status, context, outputs) := stepContext model h.context inputs h.outputs
  let valid := status = CycleStatus.continue_.raw ∨ status = CycleStatus.pass.raw ∨
    status = CycleStatus.fail.raw
  { dut := ticked, context, outputs, status := if valid then status else CycleStatus.fail.raw,
    calls := h.calls ++ [.step inputs outputs] }

/-- `while (status == kContinue && cycles < max_cycles)`, with the cycles that are left. -/
def Host.loop : ℕ → Host M I O D → Host M I O D
  | 0, h => h
  | left + 1, h => if h.status = CycleStatus.continue_.raw then loop left (h.cycle model dut) else h

/-- The host before the first cycle. -/
def Host.start (context : M) (outputs : O) : Host M I O D :=
  ⟨⟨dut.init, false, false, bindings.valueInit⟩, context, outputs, CycleStatus.continue_.raw, []⟩

/-- What `main` leaves: the exit code and the calls of the model. -/
structure Exit (I O : Type) where
  code : ℕ
  calls : List (Call I O)

/-- The host once the loop is done. -/
def Host.conclude (h : Host M I O D) : Exit I O :=
  let status := if h.status = CycleStatus.continue_.raw then CycleStatus.fail.raw else h.status
  let status := if finishContext model h.context = CycleStatus.fail.raw then CycleStatus.fail.raw else status
  ⟨if status = CycleStatus.pass.raw then 0 else 1, h.calls ++ [.finish]⟩

/-- `main` of the direct host. -/
def hostMain (maxCycles : ℕ) : Exit I O :=
  match createContext model bindings.valueInit with
  | (none, _) => ⟨2, []⟩
  | (some context, outputs) => ((Host.start dut bindings context outputs).loop model dut maxCycles).conclude model

/-! ## The VPI adapter -/

/-- `Clock::new` refuses a period of less than two steps. -/
structure Clock where
  period : ℕ
  valid : 2 ≤ period

def Clock.high (clock : Clock) : ℕ := clock.period / 2

def Clock.low (clock : Clock) : ℕ := clock.period - clock.high

theorem Clock.high_pos (clock : Clock) : 0 < clock.high := by
  have valid := clock.valid
  rw [high]
  omega

theorem Clock.low_pos (clock : Clock) : 0 < clock.low := by
  have valid := clock.valid
  rw [low, high]
  omega

/-- Where the clock task is suspended. -/
inductive ClockAt where
  /-- Spawned and not yet polled. -/
  | queued
  /-- In the timer after `set_u64_now(1)`, until this time. -/
  | high (until_ : ℕ)
  /-- In the timer after `set_u64_now(0)`, until this time. -/
  | low (until_ : ℕ)
  | cancelled

def ClockAt.deadline : ClockAt → Option ℕ
  | .high t | .low t => some t
  | .queued | .cancelled => none

/-- Where the adapter is suspended. -/
inductive BodyAt where
  /-- In `rising_edge().await`; the value-change callback may have fired. -/
  | edge (fired : Bool)
  | readOnly
  /-- In `next_time_step().await`, awaited at this time. -/
  | nextStep (since : ℕ)
  | returned (result : Except String CycleStatus)

structure Vpi (M O D : Type) where
  now : ℕ
  clk : Logic
  dut : D
  driven : O
  model : M
  outputs : O
  clock : ClockAt
  body : BodyAt

/-- `set_u64_now` on the clock: the rising edge clocks the design, and the value-change callback of a
waiting `Edge` fires when it reads a one. -/
def Vpi.setClk (s : Vpi M O D) (v : Logic) : Vpi M O D :=
  if s.clk = v then s
  else
    match v, s.body with
    | .one, .edge false =>
        { s with clk := v, dut := dut.posedge s.dut s.driven, body := .edge true }
    | .one, _ => { s with clk := v, dut := dut.posedge s.dut s.driven }
    | _, _ => { s with clk := v }

/-- The adapter's closures: what `sample` makes of the ports as they are, and what `drive` puts on the
ports, at once, for some outputs. -/
structure Closures (I O : Type) where
  sample : I → Except String I
  drive : O → Except String O

/-- The adapter up to its first suspension: an error of `new` or of the first `drive` returns before
the clock runs. -/
def launch (closures : Closures I O) (now : ℕ) (clk : Logic) : Except String (Vpi M O D) :=
  match model.new bindings.default with
  | (.error e, _) => .error e
  | (.ok m, outputs) =>
      match closures.drive outputs with
      | .error e => .error e
      | .ok driven =>
          .ok { now, clk, dut := dut.init, driven, model := m, outputs, clock := .queued, body := .edge false }

inductive Event where
  | pollClock
  /-- The adapter is polled after its edge. -/
  | pollEdge
  | readOnly
  | nextStep
  /-- The simulator goes to a later time, no later than the clock's timer. -/
  | advance (t : ℕ)
deriving DecidableEq, Repr

/-- Something is still to be done at this time: a task to poll, a timer that is due, or a
next-time-step callback. -/
def Vpi.busy (s : Vpi M O D) : Bool :=
  (match s.clock with
    | .queued => true
    | .high t | .low t => t = s.now
    | .cancelled => false) ||
  match s.body with
    | .edge fired => fired
    | .nextStep since => since < s.now
    | .readOnly | .returned _ => false

/-- The adapter's last lines: an error of the loop goes before one of `finish`. -/
def combine (result : Except String CycleStatus) (finish : Except String Unit) :
    Except String CycleStatus :=
  match result, finish with
  | .error e, _ => .error e
  | .ok _, .error e => .error e
  | .ok status, .ok _ => .ok status

/-- After the loop: stop the clock, finish, return. -/
def Vpi.windUp (s : Vpi M O D) (result : Except String CycleStatus) : Vpi M O D :=
  { s with clock := .cancelled, body := .returned (combine result (model.finish s.model)) }

/-- The adapter in ReadOnly: sample and step, and then wait for the next time step or wind up. -/
def Vpi.sample (closures : Closures I O) (s : Vpi M O D) : Vpi M O D × List (Call I O) :=
  match closures.sample (dut.read s.dut s.driven) with
  | .error e => (s.windUp model (.error e), [.finish])
  | .ok inputs =>
      let (result, m, outputs) := model.step s.model inputs s.outputs
      let stepped := { s with model := m, outputs := outputs }
      match result with
      | .ok .continue_ => ({ stepped with body := .nextStep s.now }, [.step inputs outputs])
      | verdict => (stepped.windUp model verdict, [.step inputs outputs, .finish])

/-- The adapter in the next time step: drive, and wait for the rising edge. -/
def Vpi.drive (closures : Closures I O) (s : Vpi M O D) : Vpi M O D × List (Call I O) :=
  match closures.drive s.outputs with
  | .error e => (s.windUp model (.error e), [.finish])
  | .ok driven => ({ s with driven := driven, body := .edge false }, [])

/-- The clock task from one suspension to the next. -/
def Vpi.pollClock (clock : Clock) (s : Vpi M O D) : Option (Vpi M O D) :=
  match s.clock with
  | .queued => some ({ s with clock := .high (s.now + clock.high) }.setClk dut .one)
  | .high t =>
      if t = s.now then some ({ s with clock := .low (s.now + clock.low) }.setClk dut .zero) else none
  | .low t =>
      if t = s.now then some ({ s with clock := .high (s.now + clock.high) }.setClk dut .one) else none
  | .cancelled => none

def vpiStep (closures : Closures I O) (clock : Clock) (s : Vpi M O D) :
    Event → Option (Vpi M O D × List (Call I O))
  | .pollClock => (s.pollClock dut clock).map fun s => (s, [])
  | .pollEdge =>
      match s.body with
      | .edge true => some ({ s with body := .readOnly }, [])
      | _ => none
  | .readOnly =>
      match s.body with
      | .readOnly => if s.busy then none else some (s.sample model dut closures)
      | _ => none
  | .nextStep =>
      match s.body with
      | .nextStep since =>
          if since < s.now then some (s.drive model closures) else none
      | _ => none
  | .advance t =>
      match s.body with
      | .readOnly | .returned _ => none
      | .edge _ | .nextStep _ =>
          if s.busy || t ≤ s.now || s.clock.deadline.any (· < t) then none
          else some ({ s with now := t }, [])

/-- The adapter, its clock task and the simulator. -/
def vpi (closures : Closures I O) (clock : Clock) : Machine (Vpi M O D) Event (Call I O) where
  step := vpiStep model dut closures clock

end Rustdv.Cycle
