import Rustdv.Model.Cycle

/-! # The stream benchmark

A source drives pseudorandom payloads with pseudorandom gaps, a sink is ready at pseudorandom times, and
the design between them transforms every payload. The model watches the ports cycle by cycle: that both
sides transfer together, that the payload is the expected one and that the design counts. Both backends
wrap this model; counters wrap.
-/

namespace Rustdv.Stream

open Rustdv.Cycle (CycleModel CycleStatus Dut)

/-! ## Values -/

def resetCycles : UInt64 := 4

structure BenchInputs where
  sReady : UInt8
  mValid : UInt8
  mData : UInt64
  mId : UInt16
  mLast : UInt8
  mUser : UInt8
  acceptedCount : UInt64
deriving DecidableEq, Repr

structure BenchOutputs where
  resetN : UInt8
  sValid : UInt8
  sData : UInt64
  sId : UInt16
  sLast : UInt8
  sUser : UInt8
  mReady : UInt8
  injectError : UInt8
deriving DecidableEq, Repr

def BenchOutputs.default : BenchOutputs := ⟨0, 0, 0, 0, 0, 0, 0, 0⟩

structure BenchReport where
  transactions : UInt64
  cycles : UInt64
  digest : UInt64
  traceDigest : UInt64
deriving DecidableEq, Repr

inductive StepStatus where
  | continue_
  | pass (report : BenchReport)
  | fail (message : String)
deriving DecidableEq, Repr

def mix64 (value : UInt64) : UInt64 :=
  let value := value + 0x9e3779b97f4a7c15
  let value := (value ^^^ (value >>> 30)) * 0xbf58476d1ce4e5b9
  let value := (value ^^^ (value >>> 27)) * 0x94d049bb133111eb
  value ^^^ (value >>> 31)

def payload (seed index : UInt64) : UInt64 := mix64 (seed ^^^ (index * 0x9e3779b97f4a7c15))

def userValue (seed index : UInt64) : UInt8 := (mix64 (seed ^^^ index ^^^ 0x6a09e667f3bcc909) >>> 56).toUInt8

def sourceOpen (seed cycle : UInt64) : Bool := mix64 (seed ^^^ (cycle * 0xd1342543de82ef95)) &&& 0x7 != 0

def readyOpen (seed cycle : UInt64) : Bool :=
  mix64 (seed ^^^ (cycle * 0x94d049bb133111eb) ^^^ 0xa4093822299f31d0) &&& 0xf != 0

def rotateLeft (value amount : UInt64) : UInt64 := (value <<< amount) ||| (value >>> (64 - amount))

def transformData (data : UInt64) (id : UInt16) : UInt64 :=
  rotateLeft (data ^^^ 0xd6e8feb86659fd93) 13 + 0xa5a55a5a12345678 + id.toUInt64

def digestUpdate (digest data : UInt64) (id : UInt16) (last user : UInt8) : UInt64 :=
  let sidebands := id.toUInt64 ||| (last.toUInt64 <<< 16) ||| (user.toUInt64 <<< 24)
  rotateLeft digest 7 ^^^ data ^^^ (sidebands * 0x9e3779b97f4a7c15)

def traceDigestUpdate (digest cycle : UInt64) (inputs : BenchInputs) (outputs : BenchOutputs) : UInt64 :=
  let mData := if inputs.mValid ≠ 0 then inputs.mData else 0
  let sData := if outputs.sValid ≠ 0 then outputs.sData else 0
  let (mId, mLast, mUser) := if inputs.mValid ≠ 0 then (inputs.mId, inputs.mLast, inputs.mUser) else (0, 0, 0)
  let (sId, sLast, sUser) := if outputs.sValid ≠ 0 then (outputs.sId, outputs.sLast, outputs.sUser) else (0, 0, 0)
  let flags :=
    outputs.resetN.toUInt64 ||| (outputs.sValid.toUInt64 <<< 1) ||| (inputs.sReady.toUInt64 <<< 2) |||
      (inputs.mValid.toUInt64 <<< 3) ||| (outputs.mReady.toUInt64 <<< 4) ||| (mLast.toUInt64 <<< 5) |||
      (sLast.toUInt64 <<< 6) ||| (mUser.toUInt64 <<< 8) ||| (sUser.toUInt64 <<< 16)
  let sidebands := mId.toUInt64 ||| (sId.toUInt64 <<< 16) ||| (flags <<< 32)
  mix64 (digest ^^^ mix64 cycle ^^^ mix64 inputs.acceptedCount ^^^ mix64 mData ^^^ mix64 sData ^^^ mix64 sidebands)

/-! ## The model -/

/-- What the environment variables say. -/
structure Settings where
  target : UInt64
  seed : UInt64
  injectError : Bool
deriving DecidableEq, Repr

/-- Settings that `BenchModel::new` takes; it asserts that the target is positive. -/
structure Config extends Settings where
  positive : 0 < target

structure BenchModel where
  target : UInt64
  seed : UInt64
  injectError : Bool
  cycles : UInt64
  transactions : UInt64
  digest : UInt64
  traceDigest : UInt64
deriving DecidableEq, Repr

def BenchModel.new (config : Config) : BenchModel × BenchOutputs :=
  (⟨config.target, config.seed, config.injectError, 0, 0, 0, 0⟩,
    { BenchOutputs.default with resetN := 0, mReady := 0, injectError := config.injectError.toUInt8 })

/-- What is driven for a transfer. -/
def last (index : UInt64) : UInt8 := (index &&& 0xff == 0xff).toUInt8

def BenchModel.loadSourceForCycle (m : BenchModel) (activeCycle : UInt64) (outputs : BenchOutputs) : BenchOutputs :=
  let loaded :=
    if sourceOpen m.seed activeCycle then
      let index := m.transactions
      { outputs with
        sValid := 1
        sData := payload m.seed index
        sId := index.toUInt16
        sLast := last index
        sUser := userValue m.seed index }
    else { outputs with sValid := 0 }
  { loaded with injectError := m.injectError.toUInt8 }

/-- `{:0width$x}`. -/
def hex (width n : ℕ) : String := String.ofList ((Nat.toDigits 16 n).leftpad width '0')

def BenchModel.activeDuringReset (inputs : BenchInputs) : String :=
  "DUT was active during reset: m_valid=" ++ toString inputs.mValid.toNat ++ " accepted_count=" ++
    toString inputs.acceptedCount.toNat

def BenchModel.disagreement (m : BenchModel) (accepted emitted : Bool) : String :=
  "ready/valid transfer disagreement at cycle " ++ toString m.cycles.toNat ++ ": input=" ++ toString accepted ++
    " output=" ++ toString emitted

def BenchModel.readyMismatch (m : BenchModel) (inputs : BenchInputs) (outputs : BenchOutputs) : String :=
  "ready path mismatch at cycle " ++ toString m.cycles.toNat ++ ": s_ready=" ++ toString inputs.sReady.toNat ++
    " m_ready=" ++ toString outputs.mReady.toNat

def BenchModel.validMismatch (m : BenchModel) (inputs : BenchInputs) (outputs : BenchOutputs) : String :=
  "valid path mismatch at cycle " ++ toString m.cycles.toNat ++ ": m_valid=" ++ toString inputs.mValid.toNat ++
    " s_valid=" ++ toString outputs.sValid.toNat

def BenchModel.payloadMismatch (m : BenchModel) (inputs : BenchInputs) : String :=
  let index := m.transactions
  "payload mismatch for transfer " ++ toString index.toNat ++ ": got data=0x" ++ hex 16 inputs.mData.toNat ++
    " id=0x" ++ hex 4 inputs.mId.toNat ++ " last=" ++ toString inputs.mLast.toNat ++ " user=0x" ++
    hex 2 inputs.mUser.toNat ++ "; expected data=0x" ++
    hex 16 (transformData (payload m.seed index) index.toUInt16).toNat ++ " id=0x" ++ hex 4 index.toUInt16.toNat ++
    " last=" ++ toString (last index).toNat ++ " user=0x" ++ hex 2 (userValue m.seed index).toNat

def BenchModel.countMismatch (m : BenchModel) (inputs : BenchInputs) : String :=
  "DUT accepted_count mismatch at cycle " ++ toString m.cycles.toNat ++ ": got " ++
    toString inputs.acceptedCount.toNat ++ ", expected " ++ toString m.transactions.toNat

/-- The payload of the transfer the model waits for. -/
def BenchModel.expects (m : BenchModel) (inputs : BenchInputs) : Bool :=
  let index := m.transactions
  inputs.mData == transformData (payload m.seed index) index.toUInt16 && inputs.mId == index.toUInt16 &&
    inputs.mLast == last index && inputs.mUser == userValue m.seed index

/-- `step`, from the check of `accepted_count` on. -/
def BenchModel.conclude (m : BenchModel) (inputs : BenchInputs) (outputs : BenchOutputs) (accepted : Bool) :
    StepStatus × BenchModel × BenchOutputs :=
  if inputs.acceptedCount ≠ m.transactions then (.fail (m.countMismatch inputs), m, outputs)
  else if m.transactions = m.target then
    (.pass ⟨m.transactions, m.cycles - resetCycles, m.digest, m.traceDigest⟩, m, { outputs with sValid := 0 })
  else
    let activeCycle := m.cycles - resetCycles
    let outputs := { outputs with mReady := (readyOpen m.seed activeCycle).toUInt8 }
    (.continue_, m, if accepted || outputs.sValid = 0 then m.loadSourceForCycle activeCycle outputs else outputs)

/-- `step` after reset. -/
def BenchModel.active (m : BenchModel) (inputs : BenchInputs) (outputs : BenchOutputs) :
    StepStatus × BenchModel × BenchOutputs :=
  let accepted := outputs.sValid != 0 && inputs.sReady != 0
  let emitted := inputs.mValid != 0 && outputs.mReady != 0
  if accepted ≠ emitted then (.fail (m.disagreement accepted emitted), m, outputs)
  else if inputs.sReady ≠ outputs.mReady then (.fail (m.readyMismatch inputs outputs), m, outputs)
  else if inputs.mValid ≠ outputs.sValid then (.fail (m.validMismatch inputs outputs), m, outputs)
  else if inputs.mValid ≠ 0 && !m.expects inputs then (.fail (m.payloadMismatch inputs), m, outputs)
  else if inputs.mValid ≠ 0 && emitted then
    { m with
      digest := digestUpdate m.digest inputs.mData inputs.mId inputs.mLast inputs.mUser
      transactions := m.transactions + 1 }.conclude inputs outputs accepted
  else m.conclude inputs outputs accepted

/-- `step` in reset. -/
def BenchModel.inReset (m : BenchModel) (inputs : BenchInputs) (outputs : BenchOutputs) :
    StepStatus × BenchModel × BenchOutputs :=
  if inputs.mValid ≠ 0 ∨ inputs.acceptedCount ≠ 0 then (.fail (activeDuringReset inputs), m, outputs)
  else if resetCycles ≤ m.cycles then
    (.continue_, m, m.loadSourceForCycle 0 { outputs with resetN := 1, mReady := (readyOpen m.seed 0).toUInt8 })
  else (.continue_, m, outputs)

def BenchModel.step (m : BenchModel) (inputs : BenchInputs) (outputs : BenchOutputs) :
    StepStatus × BenchModel × BenchOutputs :=
  let cycles := m.cycles + 1
  let m := { m with cycles, traceDigest := traceDigestUpdate m.traceDigest cycles inputs outputs }
  if outputs.resetN = 0 then m.inReset inputs outputs else m.active inputs outputs

/-! ## Both wrappers -/

/-- The wrapper of either backend, with what it has printed. -/
structure StreamModel where
  model : BenchModel
  values : BenchOutputs
  printed : Option BenchReport
deriving DecidableEq, Repr

/-- The adapters differ in how the report names them. -/
def streamModel (config : Config) : CycleModel StreamModel BenchInputs BenchOutputs where
  new _ :=
    let (model, values) := BenchModel.new config
    (.ok ⟨model, values, none⟩, values)
  step s inputs outputs :=
    match s.model.step inputs s.values with
    | (.continue_, model, values) => (.ok .continue_, ⟨model, values, s.printed⟩, values)
    | (.pass report, model, values) => (.ok .pass, ⟨model, values, some report⟩, outputs)
    | (.fail message, model, values) => (.error message, ⟨model, values, s.printed⟩, outputs)
  finish _ := .ok ()

/-! ## The design -/

/-- `mixed_data` and `transformed_data`. -/
def transformed (sData : BitVec 64) (sId : BitVec 16) : BitVec 64 :=
  let mixed := sData ^^^ 0xd6e8feb86659fd93#64
  mixed.extractLsb 50 0 ++ mixed.extractLsb 63 51 + 0xa5a55a5a12345678#64 + sId.setWidth 64

/-- `stream_bench`, with what its register holds at power-up. -/
def streamDut (count : UInt64) : Dut UInt64 BenchInputs BenchOutputs where
  init := count
  posedge count driven :=
    if driven.resetN &&& 1 = 0 then 0
    else if driven.sValid &&& 1 ≠ 0 ∧ driven.mReady &&& 1 ≠ 0 then count + 1
    else count
  read count driven :=
    let data := transformed driven.sData.toBitVec driven.sId.toBitVec
    { sReady := driven.mReady &&& 1
      mValid := driven.sValid &&& 1
      mData := ⟨if driven.injectError &&& 1 ≠ 0 ∧ count = 127 then data ^^^ 1#64 else data⟩
      mId := driven.sId
      mLast := driven.sLast &&& 1
      mUser := driven.sUser
      acceptedCount := count }

/-! ## The closures of the VPI adapter -/

/-- `sample`: what comes with `m_valid` is only read when it is high. -/
def sample (ports : BenchInputs) : BenchInputs :=
  { ports with
    mData := if ports.mValid ≠ 0 then ports.mData else 0
    mId := if ports.mValid ≠ 0 then ports.mId else 0
    mLast := if ports.mValid ≠ 0 then ports.mLast else 0
    mUser := if ports.mValid ≠ 0 then ports.mUser else 0 }

/-- `drive`: only what changed is written. -/
def drive (values : BenchOutputs) (previous : Option BenchOutputs) (ports : BenchOutputs) :
    Option BenchOutputs × BenchOutputs :=
  let old := previous.getD
    ⟨~~~values.resetN, ~~~values.sValid, ~~~values.sData, ~~~values.sId, ~~~values.sLast, ~~~values.sUser,
      ~~~values.mReady, ~~~values.injectError⟩
  (some values,
    { resetN := if values.resetN ≠ old.resetN then values.resetN else ports.resetN
      sValid := if values.sValid ≠ old.sValid then values.sValid else ports.sValid
      sData := if values.sData ≠ old.sData then values.sData else ports.sData
      sId := if values.sId ≠ old.sId then values.sId else ports.sId
      sLast := if values.sLast ≠ old.sLast then values.sLast else ports.sLast
      sUser := if values.sUser ≠ old.sUser then values.sUser else ports.sUser
      mReady := if values.mReady ≠ old.mReady then values.mReady else ports.mReady
      injectError := if values.injectError ≠ old.injectError then values.injectError else ports.injectError })

/-- The closures of the adapter, as far as the design sees them: what is driven only when it changes is always on
the ports. -/
def closures : Cycle.Closures BenchInputs BenchOutputs := ⟨fun shown => .ok (sample shown), .ok⟩

/-- The adapter with what its `drive` remembers. -/
structure Adapter (D : Type) where
  vpi : Cycle.Vpi StreamModel BenchOutputs D
  previous : Option BenchOutputs

section Adapter

variable {D : Type} (config : Config) (dut : Dut D BenchInputs BenchOutputs)

/-- The adapter up to its first suspension; the ports show something before it drives them. -/
def Adapter.launch (now : ℕ) (clk : Phase.Logic) (ports : BenchOutputs) : Adapter D :=
  let (model, values) := BenchModel.new config
  let (previous, driven) := drive values none ports
  ⟨{ now, clk, dut := dut.init, driven, model := ⟨model, values, none⟩, outputs := values, clock := .queued,
     body := .edge false }, previous⟩

/-- The next time step of the adapter. -/
def Adapter.drive (a : Adapter D) : Adapter D :=
  let (previous, driven) := Stream.drive a.vpi.outputs a.previous a.vpi.driven
  ⟨{ a.vpi with driven, body := .edge false }, previous⟩

def adapterStep (clock : Cycle.Clock) (a : Adapter D) :
    Cycle.Event → Option (Adapter D × List (Cycle.Call BenchInputs BenchOutputs))
  | .nextStep =>
      match a.vpi.body with
      | .nextStep since => if since < a.vpi.now then some (a.drive, []) else none
      | _ => none
  | event =>
      (Cycle.vpiStep (streamModel config) dut closures clock a.vpi event).map fun (vpi, out) => ({ a with vpi }, out)

/-- The adapter of the benchmark with its own `drive`. -/
def adapter (clock : Cycle.Clock) : Machine (Adapter D) Cycle.Event (Cycle.Call BenchInputs BenchOutputs) where
  step := adapterStep config dut clock

end Adapter

end Rustdv.Stream
