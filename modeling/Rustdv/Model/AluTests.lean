import Rustdv.Model.Rng
import Rustdv.Model.TinyAlu

/-! # The tests of the TinyALU

A sequence walks over the operations and fills in the operands late. The scoreboard keeps the observed
commands and the observed results and compares them when the run is over; the coverage collector counts
the operations it saw.
-/

namespace Rustdv.TinyAlu

open Isolation (Rng)

/-! ## Sequences -/

/-- `Operands::set_operands`. -/
abbrev Operands := Rng → AluCommand → AluCommand × Rng

/-- `all_ops`: what is finished, in order, when the sequencer grants every item. -/
def allOps (setOperands : Operands) : Rng → ℕ → List AluCommand
  | _, 0 => []
  | rng, n + 1 =>
      let walk := Ops.all.foldl
        (fun (cmds, rng) op =>
          let (cmd, rng) := setOperands rng ⟨0, 0, op⟩
          (cmds ++ [cmd], rng))
        ([], rng)
      walk.1 ++ allOps setOperands walk.2 n

def BaseSeq.setOperands : Operands := fun rng cmd => (cmd, rng)

def RandomSeq.setOperands : Operands := fun rng cmd =>
  let (a, rng) := rng.u8
  let (b, rng) := rng.u8
  ({ cmd with a := a.toBitVec, b := b.toBitVec }, rng)

def MaxSeq.setOperands : Operands := fun rng cmd => ({ cmd with a := 0xFF, b := 0xFF }, rng)

def BaseSeq.body (rng : Rng) : List AluCommand := allOps BaseSeq.setOperands rng 1

def RandomSeq.body (rng : Rng) : List AluCommand := allOps RandomSeq.setOperands rng 5

def MaxSeq.body (rng : Rng) : List AluCommand := allOps MaxSeq.setOperands rng 1

/-! ## Scoreboard -/

/-- `{:?}`. -/
def Ops.debug : Ops → String
  | .add => "Add"
  | .and => "And"
  | .xor => "Xor"
  | .mul => "Mul"

def AluCommand.debug (cmd : AluCommand) : String :=
  "AluCommand \x7b a: " ++ toString cmd.a.toNat ++ ", b: " ++ toString cmd.b.toNat ++ ", op: " ++ cmd.op.debug ++ " \x7d"

def AluResult.debug (res : AluResult) : String := "AluResult \x7b result: " ++ toString res.result.toNat ++ " \x7d"

structure Scoreboard where
  /-- `CmdLog`. -/
  cmds : List AluCommand
  /-- `ResultLog`. -/
  results : List AluResult
  compared : ℕ
  mismatches : ℕ
deriving DecidableEq, Repr

/-- A scoreboard in `check`, with what it has logged and reported. -/
structure Checking where
  scoreboard : Scoreboard
  infos : List String
  errors : List String
deriving DecidableEq, Repr

/-- One round of the loop. -/
def Checking.compare (s : Checking) (cmd : AluCommand) (actual : AluResult) : Checking :=
  let expected := predict cmd
  let line := "scoreboard: in=" ++ cmd.debug ++ " out=" ++ actual.debug ++ " expected=" ++ expected.debug ++ " check="
  if expected ≠ actual then
    { scoreboard :=
        { s.scoreboard with compared := s.scoreboard.compared + 1, mismatches := s.scoreboard.mismatches + 1 }
      infos := s.infos ++ [line ++ "FAIL"]
      errors := s.errors ++
        ["scoreboard mismatch: " ++ cmd.debug ++ " -> got " ++ actual.debug ++ ", expected " ++ expected.debug] }
  else
    { s with
      scoreboard := { s.scoreboard with compared := s.scoreboard.compared + 1 }
      infos := s.infos ++ [line ++ "PASS"] }

/-- The lines after the loop. -/
def Checking.finish (looped : Checking) : Checking :=
  let cmds := looped.scoreboard.cmds
  let results := looped.scoreboard.results
  let counted :=
    if cmds.length ≠ results.length then
      { looped with
        errors := looped.errors ++
          ["scoreboard: saw " ++ toString cmds.length ++ " commands and " ++ toString results.length ++ " results"] }
    else looped
  if counted.scoreboard.compared = 0 then
    { counted with errors := counted.errors ++ ["scoreboard: nothing was compared"] }
  else counted

/-- The loop of `check`. -/
def Scoreboard.compareAll (s : Scoreboard) : Checking :=
  (s.cmds.zip s.results).foldl (fun t (cmd, actual) => Checking.compare t cmd actual) ⟨s, [], []⟩

def Scoreboard.check (s : Scoreboard) : Checking := s.compareAll.finish

/-- A scoreboard that was subscribed to the buses and has heard so much. -/
def Scoreboard.heard (cmds : List AluCommand) (results : List AluResult) : Scoreboard := ⟨cmds, results, 0, 0⟩

/-! ## Coverage -/

/-- `CovCollector`: how often each operation was seen, if it was. -/
abbrev CovCollector := Ops → Option ℕ

def CovCollector.write (seen : CovCollector) (cmd : AluCommand) : CovCollector :=
  Function.update seen cmd.op (some ((seen cmd.op).getD 0 + 1))

def CovCollector.heard (cmds : List AluCommand) : CovCollector := cmds.foldl CovCollector.write fun _ => none

/-- `Coverage::check`. -/
def Coverage.check (seen : CovCollector) : List String :=
  (Ops.all.filter fun op => (seen op).isNone).map fun op => "coverage: op " ++ op.debug ++ " was never exercised"

end Rustdv.TinyAlu
