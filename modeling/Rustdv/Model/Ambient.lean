import Mathlib.Logic.Function.Basic
import Rustdv.Model.Component
import Rustdv.Model.Log

/-! # What a test finds around it

The configuration database with the component overrides in it, the sequence overrides, the seed of
sequences and the logging configuration belong to the thread, not to a test. A test is a program that
calls on them and goes on according to the answers; how its tasks interleave is part of the program.
Before each test the runner clears the database and resets the logging configuration.
-/

namespace Rustdv.Isolation

open Component (Maker Node Slot Value overrideKey overrideTypeId overrideTypeName)
open Config (ConfigDb ConfigError Entry)
open Log (Emission Level LogConfig)

/-- The generator of a test and of a sequence; what it yields depends on its state alone. -/
structure Rng where
  state : UInt64
deriving DecidableEq, Repr

def Rng.new (seed : UInt64) : Rng := ⟨seed⟩

/-- The context of a test, as far as its path and its seed. -/
structure RustdvCtx where
  path : String
  seed : UInt64
deriving DecidableEq, Repr

/-- `RustdvCtx::rng`. -/
def RustdvCtx.rng (ctx : RustdvCtx) : Rng := .new ctx.seed

/-- What a sequence is handed when it is started. -/
structure SeqCtx where
  name : String
  /-- Whether it was started on a sequencer. -/
  sequencer : Bool
  seed : UInt64
deriving DecidableEq, Repr

/-- `SeqCtx::rng`. -/
def SeqCtx.rng (ctx : SeqCtx) : Rng := .new ctx.seed

variable (κ V σ : Type*)

/-- The thread-locals. `σ` are the types of sequences. -/
structure Ambient where
  db : ConfigDb (Value κ V)
  /-- `SEQ_OVERRIDES`. -/
  seqOverrides : σ → Option σ
  /-- `SEED`. -/
  seed : UInt64
  log : LogConfig

/-- What is fixed while the process runs: the sort of a lookup, the registered components, the names of
the sequences, and which log files can be opened. -/
structure Process where
  sort : (String × Entry (Value κ V) → String × Entry (Value κ V) → Bool) →
    List (String × Entry (Value κ V)) → Option (List (String × Entry (Value κ V)))
  registry : String → Option (Maker κ)
  seqName : σ → String
  opens : String → Bool → Bool

/-- The ways to start a sequence: directly or through a slot that may be empty, on a sequencer or not. -/
inductive Start where
  | start (s : σ)
  | startVirtual (s : σ)
  | slotStart (slot : Option σ)
  | slotStartVirtual (slot : Option σ)

inductive Call where
  | set (ctx : Option String) (offset field : String) (entry : Entry (Value κ V))
  | get (ctx : Option String) (offset field typeName : String) (typeId : ℕ)
  | exists (ctx : Option String) (offset field : String)
  | setTracing (on : Bool)
  | isTracing
  | dump
  | clearConfig
  /-- The build walk begins or ends. -/
  | setInBuild (active : Bool)
  | setTypeOverride (requested target : String) (make : Maker κ)
  | setTypeOverrideByName (requested target : String)
  | setInstOverride (ctx path requested target : String) (make : Maker κ)
  | createByName (name : String)
  /-- The build walk comes to a slot. -/
  | resolve (path : String) (slot : Slot) (inner : Option (Node κ))
  | setSeqOverride (requested target : σ)
  | clearSeqOverrides
  | createSeq (requested : σ)
  | setSequenceSeed (seed : UInt64)
  /-- The future of a start is polled for the first time. -/
  | start (how : Start σ)
  | setLevel (l : Level)
  | setLevelFor (above : String) (l : Level)
  | setConsoleFor (above : String) (enabled : Bool)
  | logToFile (file : String) (append : Bool)
  | removeLogFile
  | addFileFor (above file : String) (append : Bool)
  | resetLog
  | log (level : Level)
  | logAt (path : String) (level : Level)

inductive Answer where
  | done
  | bool (b : Bool)
  /-- Traced lines, and where they go. -/
  | traced (lines : List (String × Emission))
  | got (result : Except ConfigError (Value κ V)) (lines : List (String × Emission))
  /-- Path, field, and what is rendered by precedence, the highest first. -/
  | dumped (rows : List (String × String × List (ℤ × String)))
  | slot (slot : Slot) (inner : Option (Node κ))
  | sequence (s : σ)
  | seqCtx (ctx : SeqCtx)
  | emptySlot
  | emitted (line : Option Emission)
  | panicked

/-- A test's program. -/
inductive Script where
  | done
  | call (c : Call κ V σ) (next : Answer κ V σ → Script)

variable {κ V σ}

abbrev Event (κ V σ : Type*) := Call κ V σ × Answer κ V σ

namespace Ambient

variable (a : Ambient κ V σ)

/-- The thread-locals of a new thread. -/
def init : Ambient κ V σ := ⟨Config.init, fun _ => none, 1, .reset⟩

/-- What `run_one` does before a test. -/
def reset : Ambient κ V σ := { a with db := Config.clear, log := .reset }

/-- Lines logged by the database. -/
def traceLines (lines : List String) : List (String × Emission) :=
  lines.filterMap fun line => (a.log.log .info).map fun place => (line, place)

def setConfig (ctx : Option String) (offset field : String) (entry : Entry (Value κ V)) :
    Ambient κ V σ × Answer κ V σ :=
  let (db, lines) := Config.set a.db ctx offset field entry
  ({ a with db := db }, .traced (a.traceLines lines))

/-- `store_override`. -/
def storeOverride (ctx : Option String) (offset requested target : String) (make : Maker κ) :
    Ambient κ V σ × Answer κ V σ :=
  a.setConfig ctx offset (overrideKey requested)
    ⟨.override make target, overrideTypeName, overrideTypeId, s!"-> {target}"⟩

/-- What `create_seq` builds. -/
def createSeq (requested : σ) : σ := (a.seqOverrides requested).getD requested

/-- `SeqCtx::new` with `current_seed`. -/
def startSeq (p : Process κ V σ) : Start σ → Answer κ V σ
  | .start s => .seqCtx ⟨p.seqName s, true, a.seed⟩
  | .startVirtual s => .seqCtx ⟨p.seqName s, false, a.seed⟩
  | .slotStart (some s) => .seqCtx ⟨p.seqName s, true, a.seed⟩
  | .slotStartVirtual (some s) => .seqCtx ⟨p.seqName s, false, a.seed⟩
  | .slotStart none | .slotStartVirtual none => .emptySlot

/-- The rows of `ConfigDb::dump`. -/
def dump : List (String × String × List (ℤ × String)) :=
  a.db.store.toList.flatMap fun (path, fields) => fields.toList.map fun (field, byPrec) =>
    (path, field, byPrec.toList.reverse.map fun (prec, entry) => (prec, entry.rendered))

/-- A slot made by `create_by_name` holds the registered component and can be overridden. -/
def byName (p : Process κ V σ) (name : String) : Answer κ V σ :=
  match p.registry name with
  | some make => .slot ⟨"", .rustdvComp true (some name)⟩ (some make.1)
  | none => .panicked

def perform [DecidableEq σ] (p : Process κ V σ) : Call κ V σ → Ambient κ V σ × Answer κ V σ
  | .set ctx offset field entry => a.setConfig ctx offset field entry
  | .get ctx offset field typeName typeId =>
      match Config.get p.sort a.db ctx offset field typeName typeId with
      | some (result, lines) => (a, .got result (a.traceLines lines))
      | none => (a, .panicked)
  | .exists ctx offset field => (a, .bool (Config.exists a.db ctx offset field))
  | .setTracing on => ({ a with db := { a.db with tracing := on } }, .done)
  | .isTracing => (a, .bool a.db.tracing)
  | .dump => (a, .dumped a.dump)
  | .clearConfig => ({ a with db := Config.clear }, .done)
  | .setInBuild active => ({ a with db := { a.db with inBuild := active } }, .done)
  | .setTypeOverride requested target make => a.storeOverride none "*" requested target make
  | .setTypeOverrideByName requested target =>
      match p.registry target with
      | some make => a.storeOverride none "*" requested target make
      | none => (a, .panicked)
  | .setInstOverride ctx path requested target make => a.storeOverride (some ctx) path requested target make
  | .createByName name => (a, byName p name)
  | .resolve path slot inner =>
      match Component.resolve p.sort a.db path slot inner with
      | some (slot, inner) => (a, .slot slot inner)
      | none => (a, .panicked)
  | .setSeqOverride requested target =>
      ({ a with seqOverrides := Function.update a.seqOverrides requested (some target) }, .done)
  | .clearSeqOverrides => ({ a with seqOverrides := fun _ => none }, .done)
  | .createSeq requested => (a, .sequence (a.createSeq requested))
  | .setSequenceSeed seed => ({ a with seed := seed }, .done)
  | .start how => (a, a.startSeq p how)
  | .setLevel l => ({ a with log := a.log.setLevel l }, .done)
  | .setLevelFor above l => ({ a with log := a.log.setLevelFor above l }, .done)
  | .setConsoleFor above enabled => ({ a with log := a.log.setConsoleFor above enabled }, .done)
  | .logToFile file append =>
      if p.opens file append then ({ a with log := a.log.logToFile file }, .bool true) else (a, .bool false)
  | .removeLogFile => ({ a with log := a.log.removeLogFile }, .done)
  | .addFileFor above file append =>
      if p.opens file append then ({ a with log := a.log.addFileFor above file }, .bool true) else (a, .bool false)
  | .resetLog => ({ a with log := .reset }, .done)
  | .log level => (a, .emitted (a.log.log level))
  | .logAt path level => (a, .emitted (a.log.logAt path level))

end Ambient

/-- What a program calls and is answered, and what it leaves behind. -/
def Script.run [DecidableEq σ] (p : Process κ V σ) : Script κ V σ → Ambient κ V σ → List (Event κ V σ) × Ambient κ V σ
  | .done, a => ([], a)
  | .call c next, a =>
      let (b, answer) := a.perform p c
      let (events, last) := (next answer).run p b
      ((c, answer) :: events, last)

/-- A registered test. -/
structure Test (κ V σ : Type*) where
  name : String
  skip : Bool
  body : RustdvCtx → Script κ V σ

/-- The context that the runner makes for the test at an index; the sum wraps. -/
def testCtx (seed : UInt64) (i : ℕ) (t : Test κ V σ) : RustdvCtx := ⟨t.name, seed + UInt64.ofNat i⟩

/-- `run_one`, as far as these thread-locals. -/
def runOne [DecidableEq σ] (p : Process κ V σ) (ctx : RustdvCtx) (a : Ambient κ V σ) (t : Test κ V σ) :
    List (Event κ V σ) × Ambient κ V σ :=
  if t.skip then ([], a) else (t.body ctx).run p a.reset

/-- The loop of `regression`, from the test with this index on. -/
def runFrom [DecidableEq σ] (p : Process κ V σ) (seed : UInt64) (i : ℕ) (a : Ambient κ V σ) :
    List (Test κ V σ) → List (List (Event κ V σ))
  | [] => []
  | t :: rest =>
      let (events, b) := runOne p (testCtx seed i t) a t
      events :: runFrom p seed (i + 1) b rest

/-- What the tests of a regression call and are answered. -/
def regression [DecidableEq σ] (p : Process κ V σ) (seed : UInt64) (tests : List (Test κ V σ)) :
    List (List (Event κ V σ)) := runFrom p seed 0 .init tests

end Rustdv.Isolation
