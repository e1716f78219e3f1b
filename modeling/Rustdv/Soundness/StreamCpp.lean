import Rustdv.Model.StreamCpp
import Rustdv.Soundness.StreamBackends

/-! # The stream benchmark in C++ agrees with the Rust model

On every design whose `m_valid` is a single bit, the two programs go through the same cycles: they drive the
same outputs and keep the same counters and digests, so one returns when the other does, with the same exit
code and the same report.
-/

namespace Rustdv.Stream.Cpp

open Rustdv.Cycle (Dut Verilated Host HostAt CycleStatus hostMain statusOf statusOf_eq_continue_iff statusOf_eq_pass_iff)

/-! ## One cycle -/

/-- The local variables that the model keeps. -/
def Locals.ofModel (m : BenchModel) (outputs : BenchOutputs) : Locals :=
  ⟨outputs, m.cycles, m.transactions, m.digest, m.traceDigest⟩

@[simp]
theorem Locals.ofModel_outputs (m : BenchModel) (outputs : BenchOutputs) : (ofModel m outputs).outputs = outputs := rfl

/-- The answer of the model beside what the loop body comes to; the messages differ. -/
inductive Agree : StepStatus × BenchModel × BenchOutputs → Except Exit Locals → Prop
  | goes (m : BenchModel) (outputs : BenchOutputs) : Agree (.continue_, m, outputs) (.ok (.ofModel m outputs))
  | passes (report : BenchReport) (m : BenchModel) (outputs : BenchOutputs) :
      Agree (.pass report, m, outputs) (.error (.pass report))
  | fails (message text : String) (m : BenchModel) (outputs : BenchOutputs) :
      Agree (.fail message, m, outputs) (.error (.fail text))

/-- The model of these settings. -/
structure Of (settings : Settings) (m : BenchModel) : Prop where
  target : m.target = settings.target
  seed : m.seed = settings.seed
  injectError : m.injectError = settings.injectError

section Cycle

variable {settings : Settings} {m : BenchModel} {inputs : BenchInputs} {outputs : BenchOutputs}

theorem toUInt64_of_bit {x : UInt8} (bit : x ≤ 1) : x = 0 ∨ x = 1 := by
  have small : x.toNat ≤ 1 := bit
  rw [← UInt8.toNat_inj, ← UInt8.toNat_inj]
  change x.toNat = 0 ∨ x.toNat = 1
  omega

/-- A valid signal of one bit is its truth value. -/
theorem traceDigestUpdate_eq (digest cycle : UInt64) (mValid : inputs.mValid ≤ 1) (sValid : outputs.sValid ≤ 1) :
    traceDigestUpdate digest cycle inputs outputs = Stream.traceDigestUpdate digest cycle inputs outputs := by
  have shown (x : UInt8) (bit : x ≤ 1) : (x != 0).toUInt64 = x.toUInt64 := by
    rcases toUInt64_of_bit bit with rfl | rfl <;> rfl
  unfold traceDigestUpdate Stream.traceDigestUpdate
  dsimp only
  rw [shown _ mValid, shown _ sValid]
  by_cases given : inputs.mValid = 0 <;> by_cases taken : outputs.sValid = 0 <;>
    simp only [bne_iff_ne, ne_eq, given, taken, not_true_eq_false, not_false_eq_true, if_true, if_false]

theorem loadSource_eq (of : Of settings m) (outputs : BenchOutputs) (cycle : UInt64) :
    loadSource outputs settings.seed cycle m.transactions settings.injectError = m.loadSourceForCycle cycle outputs := by
  unfold loadSource BenchModel.loadSourceForCycle
  rw [of.seed, of.injectError]
  rfl

theorem agree_conclude (of : Of settings m) (accepted : Bool) :
    Agree (m.conclude inputs outputs accepted) ((Locals.ofModel m outputs).conclude settings inputs accepted) := by
  unfold BenchModel.conclude Locals.conclude
  change Agree _ (if inputs.acceptedCount ≠ m.transactions then _ else if m.transactions = settings.target then _ else _)
  by_cases count : inputs.acceptedCount = m.transactions
  · rw [if_neg (not_not.mpr count), if_neg (not_not.mpr count)]
    by_cases last : m.transactions = settings.target
    · rw [if_pos (last.trans of.target.symm), if_pos last]
      exact .passes _ _ _
    · rw [if_neg (of.target ▸ last), if_neg last]
      dsimp only
      rw [← loadSource_eq of, of.seed]
      exact .goes m _
  · rw [if_pos count, if_pos count]
    exact .fails _ _ _ _

theorem expects_iff (of : Of settings m) :
    m.expects inputs = true ↔
      ¬ (inputs.mData ≠ transformData (payload settings.seed m.transactions) m.transactions.toUInt16 ∨
        inputs.mId ≠ m.transactions.toUInt16 ∨ inputs.mLast ≠ (m.transactions &&& 0xff == 0xff).toUInt8 ∨
        inputs.mUser ≠ userValue settings.seed m.transactions) := by
  simp only [BenchModel.expects, of.seed, last, Bool.and_eq_true, beq_iff_eq, not_or, ne_eq, not_not, and_assoc]

theorem agree_active (of : Of settings m) :
    Agree (m.active inputs outputs) ((Locals.ofModel m outputs).active settings inputs) := by
  unfold BenchModel.active Locals.active Locals.ofModel
  dsimp only
  by_cases both : (outputs.sValid != 0 && inputs.sReady != 0) = (inputs.mValid != 0 && outputs.mReady != 0)
  swap
  · rw [if_pos both, if_pos (Or.inl both)]
    exact .fails _ _ _ _
  rw [if_neg (not_not.mpr both)]
  by_cases ready : inputs.sReady = outputs.mReady
  swap
  · rw [if_pos ready, if_pos (Or.inr (Or.inl ready))]
    exact .fails _ _ _ _
  rw [if_neg (not_not.mpr ready)]
  by_cases valid : inputs.mValid = outputs.sValid
  swap
  · rw [if_pos valid, if_pos (Or.inr (Or.inr valid))]
    exact .fails _ _ _ _
  rw [if_neg (not_not.mpr valid), if_neg (not_or.mpr ⟨not_not.mpr both, not_or.mpr ⟨not_not.mpr ready, not_not.mpr valid⟩⟩)]
  by_cases given : inputs.mValid = 0
  · have none (b : Bool) : ¬ ((decide (inputs.mValid ≠ 0) && b) = true) := by simp [given]
    rw [if_neg (none _), if_neg (none _), if_neg (not_not.mpr given)]
    exact agree_conclude of _
  · have some (b : Bool) : (decide (inputs.mValid ≠ 0) && b) = b := by simp [given]
    rw [some, some, if_pos (show inputs.mValid ≠ 0 from given)]
    by_cases expected : m.expects inputs = true
    · rw [if_neg (by simp [expected]), if_neg ((expects_iff of).mp expected)]
      by_cases emits : (inputs.mValid != 0 && outputs.mReady != 0) = true
      · rw [if_pos emits, if_pos emits]
        exact agree_conclude (m := m.transferred inputs) ⟨of.target, of.seed, of.injectError⟩ _
      · rw [if_neg emits, if_neg emits]
        exact agree_conclude of _
    · rw [if_pos (by simpa using expected), if_pos (not_not.mp (mt (expects_iff of).mpr expected))]
      exact .fails _ _ _ _

theorem agree_reset (of : Of settings m) (none : m.transactions = 0) :
    Agree (m.inReset inputs outputs) ((Locals.ofModel m outputs).inReset settings inputs) := by
  unfold BenchModel.inReset Locals.inReset
  by_cases busy : inputs.mValid ≠ 0 ∨ inputs.acceptedCount ≠ 0
  · rw [if_pos busy, if_pos busy]
    exact .fails _ _ _ _
  rw [if_neg busy, if_neg busy]
  by_cases late : resetCycles ≤ m.cycles
  · rw [if_pos late, if_pos (show resetCycles ≤ (Locals.ofModel m outputs).cycles from late)]
    dsimp only
    have loaded := loadSource_eq of { outputs with resetN := 1, mReady := (readyOpen settings.seed 0).toUInt8 } 0
    rw [none] at loaded
    rw [Locals.ofModel_outputs, loaded, of.seed]
    exact .goes m _
  · rw [if_neg late, if_neg (show ¬ resetCycles ≤ (Locals.ofModel m outputs).cycles from late)]
    exact .goes m _

/-- Both come to the same. -/
theorem agree_step (of : Of settings m) (mValid : inputs.mValid ≤ 1) (sValid : outputs.sValid ≤ 1)
    (none : outputs.resetN = 0 → m.transactions = 0) :
    Agree (m.step inputs outputs) ((Locals.ofModel m outputs).step settings inputs) := by
  unfold BenchModel.step Locals.step
  dsimp only
  rw [Locals.ofModel_outputs, traceDigestUpdate_eq _ _ mValid sValid]
  by_cases low : outputs.resetN = 0
  · rw [if_pos low, if_pos low]
    exact agree_reset ⟨of.target, of.seed, of.injectError⟩ (none low)
  · rw [if_neg low, if_neg low]
    exact agree_active ⟨of.target, of.seed, of.injectError⟩

/-- The model before a cycle: the valid signal is a bit, and nothing was transferred in reset. -/
structure Fit (settings : Settings) (m : BenchModel) (outputs : BenchOutputs) : Prop where
  of : Of settings m
  bit : outputs.sValid ≤ 1
  none : outputs.resetN = 0 → m.transactions = 0

theorem load_fit (m : BenchModel) (outputs : BenchOutputs) (cycle : UInt64) :
    (m.loadSourceForCycle cycle outputs).sValid ≤ 1 ∧ (m.loadSourceForCycle cycle outputs).resetN = outputs.resetN := by
  by_cases opens : sourceOpen m.seed cycle = true
  · rw [m.load_of_open cycle opens]
    exact ⟨show (1 : UInt8) ≤ 1 by decide, rfl⟩
  · rw [m.load_of_closed cycle opens]
    exact ⟨show (0 : UInt8) ≤ 1 by decide, rfl⟩

theorem Fit.step {m' : BenchModel} {outputs' : BenchOutputs} (fit : Fit settings m outputs)
    (goes : m.step inputs outputs = (.continue_, m', outputs')) : Fit settings m' outputs' := by
  have stepped := m.stepped inputs outputs
  rw [goes] at stepped
  cases stepped with
  | reset low => exact ⟨⟨fit.of.target, fit.of.seed, fit.of.injectError⟩, fit.bit, fun _ => fit.none low⟩
  | leave low =>
    obtain ⟨bit, -⟩ := load_fit (m.ticked inputs outputs)
      { outputs with resetN := 1, mReady := (readyOpen m.seed 0).toUInt8 } 0
    exact ⟨⟨fit.of.target, fit.of.seed, fit.of.injectError⟩, bit, fun _ => fit.none low⟩
  | active high _ advanced =>
    obtain ⟨target, seed, injectError, -⟩ := (m.ticked inputs outputs).advanced_target inputs outputs
    rw [← advanced] at target seed injectError
    have of : Of settings m' :=
      ⟨target.trans fit.of.target, seed.trans fit.of.seed, injectError.trans fit.of.injectError⟩
    unfold BenchModel.nextOutputs
    dsimp only
    split
    · obtain ⟨bit, same⟩ := load_fit m'
        { outputs with mReady := (readyOpen m'.seed (m'.cycles - resetCycles)).toUInt8 } (m'.cycles - resetCycles)
      exact ⟨of, bit, fun low => absurd (same.symm.trans low) high⟩
    · exact ⟨of, fit.bit, fun low => absurd low high⟩

end Cycle

/-! ## The loop -/

section Loop

variable {D : Type} {dut : Dut D BenchInputs BenchOutputs} {config : Config}

/-- The Rust host beside the loop of `main`. -/
structure Beside (config : Config) (h : Host StreamModel BenchInputs BenchOutputs D) (design : Verilated D BenchOutputs)
    (v : Locals) : Prop where
  design : h.dut.state = design.state
  locals : v = .ofModel h.context.model h.outputs
  values : h.context.values = h.outputs
  printed : h.context.printed = none
  fit : Fit config.toSettings h.context.model h.outputs
  going : h.status = CycleStatus.continue_.raw

/-- What the host comes to. -/
def Matches (h : Host StreamModel BenchInputs BenchOutputs D) : Option Exit → Prop
  | none => h.status = CycleStatus.continue_.raw ∧ h.context.printed = none
  | some (.pass report) => h.status = CycleStatus.pass.raw ∧ h.context.printed = some report
  | some (.fail _) => h.status = CycleStatus.fail.raw ∧ h.context.printed = none

theorem Beside.loop (narrow : ∀ d driven, (dut.read d driven).mValid ≤ 1)
    {h : Host StreamModel BenchInputs BenchOutputs D} {design : Verilated D BenchOutputs} {v : Locals} (left : ℕ)
    (beside : Beside config h design v) :
    Matches (h.loop (streamModel config) dut left) (Cpp.loop dut config.toSettings left design v) := by
  induction left generalizing h design v with
  | zero => exact ⟨beside.going, beside.printed⟩
  | succ left ih =>
    obtain ⟨design', rfl, values, printed, fit, going⟩ := beside
    rcases answered : h.context.model.step (dut.read (dut.posedge h.dut.state h.outputs) h.outputs) h.outputs with
      ⟨status, m, outputs⟩
    have agree := agree_step fit.of (narrow (dut.posedge h.dut.state h.outputs) h.outputs) fit.bit fit.none
    have ended (h : Host StreamModel BenchInputs BenchOutputs D) (stops : h.status ≠ CycleStatus.continue_.raw) :
        h.loop (streamModel config) dut left = h := by
      cases left with
      | zero => rfl
      | succ left => rw [Host.loop, if_neg stops]
    rw [answered] at agree
    rw [Host.loop, if_pos going, Cpp.loop]
    simp only [Verilated.tick_eq, Locals.ofModel_outputs, ← design']
    generalize came : Locals.step config.toSettings _ _ = result at agree ⊢
    cases agree with
    | goes =>
      have cycle : h.cycle (streamModel config) dut =
          ⟨h.dut.tick dut h.outputs, ⟨m, outputs, h.context.printed⟩, outputs, CycleStatus.continue_.raw,
            h.calls ++ [.step (dut.read (dut.posedge h.dut.state h.outputs) h.outputs) outputs]⟩ := by
        simp only [Host.cycle, Verilated.tick_eq, Rustdv.Cycle.stepContext, streamModel, values, answered]
        rfl
      rw [cycle, Verilated.tick_eq]
      exact ih ⟨rfl, rfl, rfl, printed, fit.step answered, rfl⟩
    | passes report =>
      have cycle : (h.cycle (streamModel config) dut).status = CycleStatus.pass.raw ∧
          (h.cycle (streamModel config) dut).context.printed = some report := by
        simp only [Host.cycle, Verilated.tick_eq, Rustdv.Cycle.stepContext, streamModel, values, answered]
        exact ⟨rfl, trivial⟩
      rw [ended _ (by rw [cycle.1]; decide)]
      exact cycle
    | fails message text =>
      have cycle : (h.cycle (streamModel config) dut).status = CycleStatus.fail.raw ∧
          (h.cycle (streamModel config) dut).context.printed = none := by
        simp only [Host.cycle, Verilated.tick_eq, Rustdv.Cycle.stepContext, streamModel, values, answered]
        exact ⟨rfl, printed⟩
      rw [ended _ (by rw [cycle.1]; decide)]
      exact cycle

/-- The Rust host before its first cycle. -/
def hostFirst (dut : Dut D BenchInputs BenchOutputs) (config : Config) (bindings : Rustdv.Cycle.Bindings BenchOutputs) :
    Host StreamModel BenchInputs BenchOutputs D :=
  Host.start dut bindings ⟨(BenchModel.new config).1, (BenchModel.new config).2, none⟩ (BenchModel.new config).2

/-- And when its loop is done. -/
def hostLeft (dut : Dut D BenchInputs BenchOutputs) (config : Config) (bindings : Rustdv.Cycle.Bindings BenchOutputs)
    (maxCycles : ℕ) : Host StreamModel BenchInputs BenchOutputs D :=
  (hostFirst dut config bindings).loop (streamModel config) dut maxCycles

theorem matches_left (narrow : ∀ d driven, (dut.read d driven).mValid ≤ 1)
    (bindings : Rustdv.Cycle.Bindings BenchOutputs) (limit : ℕ) :
    Matches (hostLeft dut config bindings limit) (Cpp.main dut config.toSettings limit) := by
  have start : Beside config (hostFirst dut config bindings) ⟨dut.init, false, false, .default⟩ (.start config.toSettings) :=
    ⟨rfl, rfl, rfl, rfl, ⟨⟨rfl, rfl, rfl⟩, show (0 : UInt8) ≤ 1 by decide, fun _ => rfl⟩, rfl⟩
  exact start.loop narrow limit

end Loop

/-! ## On the design of the benchmark -/

theorem streamDut_narrow (init d : UInt64) (driven : BenchOutputs) : ((streamDut init).read d driven).mValid ≤ 1 := by
  change driven.sValid &&& 1 ≤ 1
  rw [UInt8.le_iff_toNat_le, UInt8.toNat_and]
  exact Nat.and_le_right

/-- The loop has no limit of its own. No positive target and no seed keep it running; it passes unless an injected
error is reached, and what it reports is what was expected. -/
theorem cpp_returns {settings : Settings} (positive : 0 < settings.target) (init : UInt64) :
    ∃ n ≤ enough ⟨settings, positive⟩, ∀ limit,
      ((Cpp.main (streamDut init) settings limit).isSome ↔ n < limit) ∧
      ∀ exit, Cpp.main (streamDut init) settings limit = some exit →
        (exit.code = 0 ↔ settings.injectError = false ∨ settings.target < 127) ∧
        ∀ report, exit.report = some report → report.transactions = settings.target ∧
          report.digest = digestOf ((List.range settings.target.toNat).map (Transfer.expected settings.seed)) := by
  obtain ⟨n, early, pairs, result, last, verdict, passes, printed⟩ := settles ⟨settings, positive⟩ init
  have start : HostAt (hostFirst (streamDut init) ⟨settings, positive⟩ ⟨.default, .default, rfl⟩) []
      (firstCycle ⟨settings, positive⟩ init) := ⟨rfl, rfl, rfl, rfl⟩
  refine ⟨n, early, fun limit => ?_⟩
  have ended := @matches_left _ (streamDut init) ⟨settings, positive⟩ (streamDut_narrow init)
    ⟨.default, .default, rfl⟩ limit
  by_cases spare : n < limit
  · obtain ⟨left, status⟩ := start.loop_of_verdict verdict rfl spare
    rw [← hostLeft] at left status
    have passed := statusOf_eq_pass_iff result
    rcases came : Cpp.main (streamDut init) settings limit with - | report | message <;> rw [came] at ended
    · exact absurd ((statusOf_eq_continue_iff result).mp (status.symm.trans ended.1)) verdict.ends
    · have pass := passed.mp (status.symm.trans ended.1)
      refine ⟨iff_of_true rfl spare, fun exit is => ?_⟩
      cases is
      refine ⟨iff_of_true rfl (passes.mp pass), fun other same => ?_⟩
      cases same
      obtain ⟨_, stands, facts⟩ := printed pass
      rw [← left.context, ended.2] at stands
      cases stands
      exact facts
    · have fails : result ≠ .ok .pass := fun pass => by
        have := (status.symm.trans ended.1).symm.trans (passed.mpr pass)
        exact absurd this (by decide)
      refine ⟨iff_of_true rfl spare, fun exit is => ?_⟩
      cases is
      exact ⟨iff_of_false Nat.one_ne_zero (fun clean => fails (passes.mpr clean)), fun _ none => by cases none⟩
  · have stuck := start.loop_of_late (n := 0) limit verdict rfl rfl (by omega)
    rw [← hostLeft] at stuck
    rcases came : Cpp.main (streamDut init) settings limit with - | report | message <;> rw [came] at ended
    · exact ⟨iff_of_false (by decide) spare, fun _ is => by cases is⟩
    · exact absurd (stuck.symm.trans ended.1) (by decide)
    · exact absurd (stuck.symm.trans ended.1) (by decide)

theorem cpp_returns_three :
    ∃ n, ∃ exit, Cpp.main (streamDut 7) ⟨3, 1, false⟩ (n + 1) = some exit ∧ exit.code = 0 ∧
      Cpp.main (streamDut 7) ⟨3, 1, false⟩ n = none := by
  obtain ⟨n, -, returns⟩ := @cpp_returns ⟨3, 1, false⟩ (by decide) 7
  obtain ⟨exit, returned⟩ := Option.isSome_iff_exists.mp ((returns (n + 1)).1.mpr n.lt_succ_self)
  refine ⟨n, exit, returned, ((returns (n + 1)).2 exit returned).1.mpr (.inl rfl), ?_⟩
  exact Option.not_isSome_iff_eq_none.mp fun some => absurd ((returns n).1.mp some) (lt_irrefl n)

end Rustdv.Stream.Cpp
