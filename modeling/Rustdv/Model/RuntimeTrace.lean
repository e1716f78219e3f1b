import Mathlib.Algebra.Group.Nat.Defs
import Rustdv.Machine.Run

/-! # Capturing a waveform at run time

The host has one recorder. Commands of the testbench start, flush and stop a capture in the middle of a
time step, and at the end of each step the host dumps the settled design. File operations may fail. The
recorder remembers when it dumped last beside what it reports.
-/

namespace Rustdv.Trace

/-- How the file operations of a start end. -/
structure FileOps where
  probeOpens : Bool
  probeCloses : Bool
  writerOpens : Bool
deriving DecidableEq, Repr

structure RuntimeTrace where
  /-- Whether there is a writer. -/
  tracep : Bool
  startTime : ℕ
  endTime : ℕ
  dumpCount : ℕ
  lastDumpTime : ℕ
  hasLastDumpTime : Bool
deriving DecidableEq, Repr

/-- What happens to files. -/
inductive FileObs where
  | truncated (path : String)
  | removed (path : String)
  | opened (path : String) (time : ℕ)
  | dumped (time : ℕ)
  | flushed
  | closed (time : ℕ)
deriving DecidableEq, Repr

namespace RuntimeTrace

def init : RuntimeTrace := ⟨false, 0, 0, 0, 0, false⟩

section Operations

variable (t : RuntimeTrace) (now : ℕ)

def dumpSettledTime : RuntimeTrace × List FileObs :=
  if !t.tracep then (t, [])
  else if t.hasLastDumpTime ∧ t.lastDumpTime = now then (t, [])
  else ({ t with lastDumpTime := now, hasLastDumpTime := true, endTime := now, dumpCount := t.dumpCount + 1 },
    [.dumped now])

/-- A start whose writer is open. -/
def begin (path : String) (dumpNow : Bool) : RuntimeTrace × List FileObs :=
  let opened : RuntimeTrace :=
    { t with tracep := true, startTime := now, endTime := now, dumpCount := 0, hasLastDumpTime := false }
  if dumpNow then
    let (dumped, out) := opened.dumpSettledTime now
    (dumped, [.truncated path, .opened path now] ++ out ++ [.flushed])
  else (opened, [.truncated path, .opened path now])

/-- `start` of a model built for tracing, with the message and the code of its failures. -/
def start (path : Option String) (files : FileOps) (dumpNow : Bool) :
    Except (String × ℕ) RuntimeTrace × List FileObs :=
  if t.tracep then (.error ("an FST capture is already active", 4), [])
  else match path with
    | none | some "" => (.error ("an FST capture path is required", 3), [])
    | some path =>
        if !files.probeOpens then (.error ("failed to create the requested FST capture file", 2), [])
        else if !files.probeCloses then
          (.error ("failed to close the requested FST capture file probe", 2), [.truncated path, .removed path])
        else if !files.writerOpens then
          (.error ("failed to open the requested FST capture path", 2), [.truncated path, .removed path])
        else
          let (next, out) := t.begin now path dumpNow
          (.ok next, out)

def flush : Except (String × ℕ) RuntimeTrace × List FileObs :=
  if !t.tracep then (.error ("no FST capture is active", 4), [])
  else
    let (dumped, out) := t.dumpSettledTime now
    (.ok dumped, out ++ [.flushed])

def stop : Except (String × ℕ) RuntimeTrace × List FileObs :=
  if !t.tracep then (.error ("no FST capture is active", 4), [])
  else
    let (dumped, out) := t.dumpSettledTime now
    (.ok { dumped with tracep := false, endTime := now }, out ++ [.closed now])

end Operations

end RuntimeTrace

/-- The host: whether the model was built for tracing, the simulation time, and the recorder. -/
structure Host where
  available : Bool
  time : ℕ
  trace : RuntimeTrace
deriving DecidableEq, Repr

structure TraceStatus where
  abiVersion : ℕ
  capability : ℕ
  state : ℕ
  startTimeSteps : ℕ
  endTimeSteps : ℕ
  dumpCount : ℕ
deriving DecidableEq, Repr

def Host.init (available : Bool) : Host := ⟨available, 0, .init⟩

/-- `fill_trace_status`. -/
def Host.fillTraceStatus (h : Host) : TraceStatus where
  abiVersion := 1
  capability := if h.available then 1 else 0
  state := if h.trace.tracep then 1 else 0
  startTimeSteps := h.trace.startTime
  endTimeSteps := h.trace.endTime
  dumpCount := h.trace.dumpCount

/-- The code of a command, with the status it fills in and the error it writes. -/
structure Answer where
  code : ℕ
  status : TraceStatus
  error : Option String
deriving DecidableEq, Repr

inductive Obs where
  | file (o : FileObs)
  | answered (answer : Answer)
deriving DecidableEq, Repr

def notBuilt : String := "this Verilator model was not built with --trace-fst"

/-- The end of `trace_control`: the status is filled in again. -/
def Host.conclude (h : Host) : Except (String × ℕ) RuntimeTrace × List FileObs → Host × List Obs
  | (.ok trace, out) =>
      let next := { h with trace }
      (next, out.map .file ++ [.answered ⟨0, next.fillTraceStatus, none⟩])
  | (.error (text, code), out) => (h, out.map .file ++ [.answered ⟨code, h.fillTraceStatus, some text⟩])

/-- `rustdv_simulator_trace_control`. -/
def Host.traceControl (h : Host) (command : ℕ) (path : Option String) (files : FileOps) : Host × List Obs :=
  if !h.available then (h, [.answered ⟨1, h.fillTraceStatus, some notBuilt⟩])
  else match command with
    | 0 => (h, [.answered ⟨0, h.fillTraceStatus, none⟩])
    | 1 => h.conclude (h.trace.start h.time path files true)
    | 2 => h.conclude (h.trace.stop h.time)
    | 3 => h.conclude (h.trace.flush h.time)
    | _ => (h, [.answered ⟨2, h.fillTraceStatus, some "unknown Verilator trace command"⟩])

/-- No event is left. -/
def noDeadline : ℕ := 2 ^ 64 - 1

inductive Action where
  | control (command : ℕ) (path : Option String) (files : FileOps)
  /-- The start that `main` makes of `RUSTDV_FST`, which does not dump. -/
  | environment (path : Option String) (files : FileOps)
  /-- The end of a time step. -/
  | dumpSettledTime
  /-- The scheduler goes on to a deadline, which does not lie behind. -/
  | advance (deadline : ℕ)
deriving DecidableEq, Repr

def Host.step (h : Host) : Action → Option (Host × List Obs)
  | .control command path files => some (h.traceControl command path files)
  | .environment path files =>
      if !h.available then some (h, [])
      else match h.trace.start h.time path files false with
        | (.ok trace, out) => some ({ h with trace }, out.map .file)
        | (.error _, out) => some (h, out.map .file)
  | .dumpSettledTime =>
      let (trace, out) := h.trace.dumpSettledTime h.time
      some ({ h with trace }, out.map .file)
  | .advance deadline =>
      if h.time ≤ deadline ∧ deadline < noDeadline then some ({ h with time := deadline }, []) else none

def host : Machine Host Action Obs := ⟨Host.step⟩

end Rustdv.Trace
