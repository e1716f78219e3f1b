import Rustdv.Model.StreamBench

/-! # The stream benchmark in C++

The comparison program has its own loop around the design and its own copies of the mixers; they are the
formulas of the Rust model, so only what differs is defined again. It reads the valid signals as booleans,
keeps its counters in local variables and returns from the loop at the first mismatch. Unlike the Rust
model it does not refuse a target of zero.
-/

namespace Rustdv.Stream.Cpp

open Rustdv.Cycle (Dut Verilated)

def traceDigestUpdate (digest cycle : UInt64) (inputs : BenchInputs) (outputs : BenchOutputs) : UInt64 :=
  let mValid := inputs.mValid != 0
  let sValid := outputs.sValid != 0
  let mData := if mValid then inputs.mData else 0
  let sData := if sValid then outputs.sData else 0
  let mId := if mValid then inputs.mId else 0
  let sId := if sValid then outputs.sId else 0
  let mLast := if mValid then inputs.mLast else 0
  let sLast := if sValid then outputs.sLast else 0
  let mUser := if mValid then inputs.mUser else 0
  let sUser := if sValid then outputs.sUser else 0
  let flags :=
    outputs.resetN.toUInt64 ||| (sValid.toUInt64 <<< 1) ||| (inputs.sReady.toUInt64 <<< 2) |||
      (mValid.toUInt64 <<< 3) ||| (outputs.mReady.toUInt64 <<< 4) ||| (mLast.toUInt64 <<< 5) |||
      (sLast.toUInt64 <<< 6) ||| (mUser.toUInt64 <<< 8) ||| (sUser.toUInt64 <<< 16)
  let sidebands := mId.toUInt64 ||| (sId.toUInt64 <<< 16) ||| (flags <<< 32)
  mix64 (digest ^^^ mix64 cycle ^^^ mix64 inputs.acceptedCount ^^^ mix64 mData ^^^ mix64 sData ^^^ mix64 sidebands)

def loadSource (outputs : BenchOutputs) (seed cycle transaction : UInt64) (injectError : Bool) : BenchOutputs :=
  let loaded :=
    if sourceOpen seed cycle then
      { outputs with
        sValid := 1
        sData := payload seed transaction
        sId := transaction.toUInt16
        sLast := (transaction &&& 0xff == 0xff).toUInt8
        sUser := userValue seed transaction }
    else { outputs with sValid := 0 }
  { loaded with injectError := injectError.toUInt8 }

/-- The local variables of `main`. -/
structure Locals where
  outputs : BenchOutputs
  cycles : UInt64
  transactions : UInt64
  digest : UInt64
  traceDigest : UInt64
deriving DecidableEq, Repr

def Locals.start (settings : Settings) : Locals :=
  ⟨{ BenchOutputs.default with injectError := settings.injectError.toUInt8 }, 0, 0, 0, 0⟩

/-- How `main` returns: what it prints, and its exit code. -/
inductive Exit where
  | pass (report : BenchReport)
  | fail (message : String)
deriving DecidableEq, Repr

def Exit.code : Exit → ℕ
  | .pass _ => 0
  | .fail _ => 1

def Exit.report : Exit → Option BenchReport
  | .pass report => some report
  | .fail _ => none

/-- The loop body from the check of `accepted_count` on. -/
def Locals.conclude (settings : Settings) (v : Locals) (inputs : BenchInputs) (accepted : Bool) : Except Exit Locals :=
  if inputs.acceptedCount ≠ v.transactions then .error (.fail "accepted_count mismatch")
  else if v.transactions = settings.target then
    .error (.pass ⟨v.transactions, v.cycles - resetCycles, v.digest, v.traceDigest⟩)
  else
    let activeCycle := v.cycles - resetCycles
    let outputs := { v.outputs with mReady := (readyOpen settings.seed activeCycle).toUInt8 }
    .ok { v with
      outputs :=
        if accepted || outputs.sValid = 0 then
          loadSource outputs settings.seed activeCycle v.transactions settings.injectError
        else outputs }

/-- The loop body after reset. -/
def Locals.active (settings : Settings) (v : Locals) (inputs : BenchInputs) : Except Exit Locals :=
  let accepted := v.outputs.sValid != 0 && inputs.sReady != 0
  let emitted := inputs.mValid != 0 && v.outputs.mReady != 0
  if accepted ≠ emitted ∨ inputs.sReady ≠ v.outputs.mReady ∨ inputs.mValid ≠ v.outputs.sValid then
    .error (.fail "ready/valid protocol mismatch")
  else if inputs.mValid ≠ 0 then
    let expectedId := v.transactions.toUInt16
    let expectedData := transformData (payload settings.seed v.transactions) expectedId
    let expectedLast := (v.transactions &&& 0xff == 0xff).toUInt8
    let expectedUser := userValue settings.seed v.transactions
    if inputs.mData ≠ expectedData ∨ inputs.mId ≠ expectedId ∨ inputs.mLast ≠ expectedLast ∨
        inputs.mUser ≠ expectedUser then
      .error (.fail "payload mismatch")
    else if emitted then
      { v with
        digest := digestUpdate v.digest inputs.mData inputs.mId inputs.mLast inputs.mUser
        transactions := v.transactions + 1 }.conclude settings inputs accepted
    else v.conclude settings inputs accepted
  else v.conclude settings inputs accepted

/-- The loop body in reset. -/
def Locals.inReset (settings : Settings) (v : Locals) (inputs : BenchInputs) : Except Exit Locals :=
  if inputs.mValid ≠ 0 ∨ inputs.acceptedCount ≠ 0 then .error (.fail "DUT active during reset")
  else if resetCycles ≤ v.cycles then
    let released := { v.outputs with resetN := 1, mReady := (readyOpen settings.seed 0).toUInt8 }
    .ok { v with outputs := loadSource released settings.seed 0 0 settings.injectError }
  else .ok v

/-- The loop body once the ports are captured. -/
def Locals.step (settings : Settings) (v : Locals) (inputs : BenchInputs) : Except Exit Locals :=
  let cycles := v.cycles + 1
  let v := { v with cycles, traceDigest := traceDigestUpdate v.traceDigest cycles inputs v.outputs }
  if v.outputs.resetN = 0 then v.inReset settings inputs else v.active settings inputs

variable {D : Type} (dut : Dut D BenchInputs BenchOutputs)

/-- The loop of `main`, as far as so many iterations go. -/
def loop (settings : Settings) : ℕ → Verilated D BenchOutputs → Locals → Option Exit
  | 0, _, _ => none
  | left + 1, design, v =>
      let ticked := design.tick dut v.outputs
      match v.step settings (dut.read ticked.state ticked.driven) with
      | .error exit => some exit
      | .ok v => loop settings left ticked v

/-- `main`, if it returns within so many iterations. -/
def main (settings : Settings) (limit : ℕ) : Option Exit :=
  loop dut settings limit ⟨dut.init, false, false, .default⟩ (.start settings)

end Rustdv.Stream.Cpp
