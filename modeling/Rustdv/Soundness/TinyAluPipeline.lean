import Rustdv.Model.TinyAlu

/-! # What the TinyALU does with a held command

While a command is held on the ports with the start signal up, the registers take so many clock edges
to the answer that the golden model predicts. The edge after the start signal has dropped leaves no
done bit behind, and without a start signal none comes up.
-/

namespace Rustdv.TinyAlu

/-- The rising edges from the start signal to the done signal. -/
def Ops.latency : Ops → ℕ
  | .mul => 4
  | _ => 1

theorem Ops.latency_pos (op : Ops) : 0 < op.latency := by
  cases op <;> decide

theorem Ops.latency_ne_zero (op : Ops) : op.latency ≠ 0 := Nat.ne_of_gt op.latency_pos

/-- A command on the ports. -/
def AluCommand.pins (cmd : AluCommand) : Pins := ⟨cmd.a, cmd.b, .ofNat 3 cmd.op.asU64, true, true⟩

@[simp] theorem AluCommand.pins_multiplies (cmd : AluCommand) :
    cmd.pins.multiplies = decide (cmd.op = .mul) := by
  change (BitVec.ofNat 3 cmd.op.asU64).getLsbD 2 = decide (cmd.op = .mul)
  cases cmd.op <;> decide

/-- No done bit is up. -/
structure Rtl.Quiet (r : Rtl) : Prop where
  aax : r.aax.done = false
  done : r.mult.done = false
  done1 : r.mult.done1 = false
  done2 : r.mult.done2 = false
  done3 : r.mult.done3 = false

/-- The command has been held for so many rising edges. -/
structure Rtl.Working (r : Rtl) (cmd : AluCommand) (n : ℕ) : Prop where
  aax : r.aax.done = decide (cmd.op ≠ .mul ∧ 1 ≤ n)
  sum : cmd.op ≠ .mul → 1 ≤ n → r.aax.result = (predict cmd).result
  done : r.mult.done = decide (cmd.op = .mul ∧ 4 ≤ n)
  done1 : r.mult.done1 = decide (cmd.op = .mul ∧ 3 ≤ n)
  done2 : r.mult.done2 = decide (cmd.op = .mul ∧ 2 ≤ n)
  done3 : r.mult.done3 = decide (cmd.op = .mul ∧ 1 ≤ n)
  operands : cmd.op = .mul → 1 ≤ n → r.mult.aInt = cmd.a ∧ r.mult.bInt = cmd.b
  mult1 : cmd.op = .mul → 2 ≤ n → r.mult.mult1 = (predict cmd).result
  mult2 : cmd.op = .mul → 3 ≤ n → r.mult.mult2 = (predict cmd).result
  product : cmd.op = .mul → 4 ≤ n → r.mult.result = (predict cmd).result

theorem Rtl.Quiet.done_eq {r : Rtl} (quiet : r.Quiet) (pins : Pins) : r.done pins = false := by
  rw [Rtl.done, quiet.done, quiet.aax, ite_self]

/-- Without a start signal nothing comes up. -/
theorem Rtl.Quiet.posedge {r : Rtl} (quiet : r.Quiet) {pins : Pins} (start : pins.start = false) :
    (r.posedge pins).Quiet := by
  constructor <;> simp only [Rtl.posedge, SingleCycle.posedge, ThreeCycle.posedge, start] <;> split <;>
    simp [quiet.done1, quiet.done2, quiet.done3]

/-- Reset clears whatever was there. -/
theorem Rtl.quiet_of_reset (r : Rtl) {pins : Pins} (reset : pins.resetN = false) : (r.posedge pins).Quiet := by
  constructor <;> simp [Rtl.posedge, SingleCycle.posedge, ThreeCycle.posedge, reset]

theorem Rtl.Quiet.working {r : Rtl} (quiet : r.Quiet) (cmd : AluCommand) : r.Working cmd 0 where
  aax := by simp [quiet.aax]
  sum _ ran := absurd ran (by decide)
  done := by simp [quiet.done]
  done1 := by simp [quiet.done1]
  done2 := by simp [quiet.done2]
  done3 := by simp [quiet.done3]
  operands _ ran := absurd ran (by decide)
  mult1 _ ran := absurd ran (by decide)
  mult2 _ ran := absurd ran (by decide)
  product _ ran := absurd ran (by decide)

namespace Rtl.Working

variable {r : Rtl} {cmd : AluCommand} {n : ℕ}

/-- The done signal comes up at the latency of the operation. -/
theorem done_eq (working : r.Working cmd n) (le : n ≤ cmd.op.latency) :
    r.done cmd.pins = decide (n = cmd.op.latency) := by
  rw [Rtl.done, AluCommand.pins_multiplies, working.done, working.aax]
  generalize cmd.op = op at le ⊢
  cases op <;> simp [Ops.latency] at le ⊢ <;> exact decide_eq_decide.mpr (by omega)

/-- The answer is the predicted one. -/
theorem result_eq (working : r.Working cmd cmd.op.latency) : r.result cmd.pins = (predict cmd).result := by
  rw [Rtl.result, AluCommand.pins_multiplies]
  by_cases mul : cmd.op = .mul
  · rw [decide_eq_true mul, if_pos rfl]
    exact working.product mul (by rw [mul]; decide)
  · rw [decide_eq_false mul, if_neg Bool.false_ne_true]
    exact working.sum mul cmd.op.latency_pos

/-- `single_cycle` computes what the golden model does. -/
theorem single_eq (other : cmd.op ≠ .mul) : SingleCycle.posedge cmd.pins true = ⟨true, (predict cmd).result⟩ := by
  cases cmd with
  | mk a b op =>
    cases op with
    | mul => exact absurd rfl other
    | add | and | xor => rfl

/-- The next stage of the pipeline, as long as nothing is done. -/
theorem posedge (working : r.Working cmd n) (before : n < cmd.op.latency) :
    (r.posedge cmd.pins).Working cmd (n + 1) := by
  by_cases mul : cmd.op = .mul
  · have short : n < 4 := by rwa [mul] at before
    have undone : r.mult.done = false := by
      rw [working.done]
      exact decide_eq_false (by omega)
    have reset : cmd.pins.resetN = true := rfl
    have start : cmd.pins.start = true := rfl
    have product : (predict cmd).result = cmd.a.setWidth 16 * cmd.b.setWidth 16 := by rw [predict, mul]
    refine
      { aax := ?_, sum := fun other => absurd mul other, done := ?_, done1 := ?_, done2 := ?_, done3 := ?_,
        operands := fun _ _ => ⟨rfl, rfl⟩, mult1 := fun _ ran => ?_, mult2 := fun _ ran => ?_,
        product := fun _ ran => ?_ }
    · simp [Rtl.posedge, SingleCycle.posedge, mul, reset]
    · simp [Rtl.posedge, ThreeCycle.posedge, reset, undone, working.done1, mul]
    · simp [Rtl.posedge, ThreeCycle.posedge, reset, undone, working.done2, mul]
    · simp [Rtl.posedge, ThreeCycle.posedge, reset, undone, working.done3, mul]
    · simp [Rtl.posedge, ThreeCycle.posedge, reset, start, undone, mul]
    · obtain ⟨a, b⟩ := working.operands mul (by omega)
      simp [Rtl.posedge, ThreeCycle.posedge, reset, a, b, product]
    · simpa [Rtl.posedge, ThreeCycle.posedge, reset] using working.mult1 mul (by omega)
    · simpa [Rtl.posedge, ThreeCycle.posedge, reset] using working.mult2 mul (by omega)
  · have reset : cmd.pins.resetN = true := rfl
    have start : cmd.pins.start = true := rfl
    have aax : (r.posedge cmd.pins).aax = ⟨true, (predict cmd).result⟩ := by
      rw [← single_eq mul]
      simp [Rtl.posedge, mul, start]
    refine
      { aax := by simp [aax, mul], sum := fun _ _ => by rw [aax], done := ?_, done1 := ?_, done2 := ?_, done3 := ?_,
        operands := fun is => absurd is mul, mult1 := fun is => absurd is mul, mult2 := fun is => absurd is mul,
        product := fun is => absurd is mul }
    · simp [Rtl.posedge, ThreeCycle.posedge, reset, working.done1, mul]
    · simp [Rtl.posedge, ThreeCycle.posedge, reset, working.done2, mul]
    · simp [Rtl.posedge, ThreeCycle.posedge, reset, working.done3, mul]
    · simp [Rtl.posedge, ThreeCycle.posedge, reset, mul]

/-- Once the start signal has dropped, the next edge clears the done bits. -/
theorem settle (working : r.Working cmd cmd.op.latency) :
    (r.posedge { cmd.pins with start := false }).Quiet := by
  have reset : cmd.pins.resetN = true := rfl
  by_cases mul : cmd.op = .mul
  · have done : r.mult.done = true := by
      rw [working.done, mul]
      rfl
    constructor <;> simp [Rtl.posedge, SingleCycle.posedge, ThreeCycle.posedge, reset, done]
  · constructor <;>
      simp [Rtl.posedge, SingleCycle.posedge, ThreeCycle.posedge, reset, working.done1, working.done2,
        working.done3, mul]

end Rtl.Working

end Rustdv.TinyAlu
