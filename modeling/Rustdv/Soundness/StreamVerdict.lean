import Rustdv.Soundness.CycleBackends
import Rustdv.Soundness.StreamPass

/-! # The verdict on the stream design

With the design as it is, the benchmark passes unless an error is injected and the run is long enough to
reach it. A cycle without a transfer is one in which the source or the sink is closed; as the mixer
visits every word once, these are few enough for every target to be reached.
-/

namespace Rustdv.Stream

open Rustdv.Cycle (CycleModel CycleStatus Dut Lockstep Verdict before)

/-! ## Closed cycles -/

/-- The source or the sink is closed in this active cycle. -/
def Closed (seed : UInt64) (cycle : ℕ) : Prop :=
  sourceOpen seed (.ofNat cycle) = false ∨ readyOpen seed (.ofNat cycle) = false

instance (seed : UInt64) : DecidablePred (Closed seed) := fun _ => inferInstanceAs (Decidable (_ ∨ _))

theorem mix64_mul_eq_iff (seed c d : UInt64) (odd : c.toNat % 2 = 1) {i j : ℕ}
    (same : mix64 (seed ^^^ (.ofNat i * c) ^^^ d) = mix64 (seed ^^^ (.ofNat j * c) ^^^ d)) : i ≡ j [MOD 2 ^ 64] := by
  have unmixed := UInt64.xor_right_inj seed |>.mp (UInt64.xor_left_inj d |>.mp (mix64_injective same))
  rw [← UInt64.ofNat_mod_size (x := i), ← UInt64.ofNat_mod_size (x := j)] at unmixed
  refine BitVec.add_mul_injOn_of_odd (w := 64) 0 (c := c.toBitVec) odd (Nat.mod_lt i (by decide))
    (Nat.mod_lt j (by decide)) ?_
  exact congrArg (fun z : UInt64 => 0 + z.toBitVec) unmixed

theorem count_source (seed : UInt64) :
    Nat.count (fun i => sourceOpen seed (.ofNat i) = false) (2 ^ 64) = 2 ^ 61 := by
  have distinct (i j : ℕ) (same : mix64 (seed ^^^ (.ofNat i * 0xd1342543de82ef95)) =
      mix64 (seed ^^^ (.ofNat j * 0xd1342543de82ef95))) : i ≡ j [MOD 2 ^ 64] := by
    refine mix64_mul_eq_iff seed 0xd1342543de82ef95 0 (by decide) ?_
    rwa [UInt64.xor_zero, UInt64.xor_zero]
  have low (k : ℕ) (hk : k < 2 ^ 64) : (UInt64.ofNat k &&& 0x7 != 0) = false ↔ k ≡ 0 [MOD 8] := by
    have low : (UInt64.ofNat k &&& 0x7).toNat = k % 8 := UInt64.toNat_ofNat_and_low (w := 3) hk (by decide)
    rw [bne_eq_false_iff_eq, ← UInt64.toNat_inj, low]
    rfl
  exact (UInt64.count_residue_of_modEq distinct (fun z => (z &&& 0x7 != 0) = false) (by decide) low).trans (by norm_num)

theorem count_ready (seed : UInt64) :
    Nat.count (fun i => readyOpen seed (.ofNat i) = false) (2 ^ 64) = 2 ^ 60 := by
  have distinct (i j : ℕ) := mix64_mul_eq_iff seed 0x94d049bb133111eb 0xa4093822299f31d0 (by decide) (i := i) (j := j)
  have low (k : ℕ) (hk : k < 2 ^ 64) : (UInt64.ofNat k &&& 0xf != 0) = false ↔ k ≡ 0 [MOD 16] := by
    have low : (UInt64.ofNat k &&& 0xf).toNat = k % 16 := UInt64.toNat_ofNat_and_low (w := 4) hk (by decide)
    rw [bne_eq_false_iff_eq, ← UInt64.toNat_inj, low]
    rfl
  exact (UInt64.count_residue_of_modEq distinct (fun z => (z &&& 0xf != 0) = false) (by decide) low).trans (by norm_num)

/-- At most three cycles in sixteen are closed, over two periods. -/
theorem count_closed_le (seed : UInt64) : Nat.count (Closed seed) (2 ^ 65) ≤ 2 ^ 62 + 2 ^ 61 := by
  have one : Nat.count (Closed seed) (2 ^ 64) ≤ 2 ^ 61 + 2 ^ 60 := by
    rw [← count_source seed, ← count_ready seed, Nat.count_eq_card_filter_range, Nat.count_eq_card_filter_range,
      Nat.count_eq_card_filter_range]
    refine le_trans (le_of_eq ?_) (Finset.card_union_le _ _)
    rw [← Finset.filter_or]
    rfl
  have periodic (k : ℕ) : Closed seed (2 ^ 64 + k) = Closed seed k := by
    have same : UInt64.ofNat (2 ^ 64 + k) = .ofNat k := by
      rw [← UInt64.ofNat_mod_size, Nat.add_mod_left, UInt64.ofNat_mod_size]
    rw [Closed, Closed, same]
  have two : (2 ^ 65 : ℕ) = 2 ^ 64 + 2 ^ 64 := by norm_num
  rw [two, Nat.count_add]
  simp only [periodic]
  exact (Nat.add_le_add one one).trans (by norm_num)

/-! ## The design under the model -/

theorem transformed_eq (data : UInt64) (id : UInt16) :
    (⟨transformed data.toBitVec id.toBitVec⟩ : UInt64) = transformData data id := by
  have rotated (x : BitVec 64) : (x.extractLsb 50 0 ++ x.extractLsb 63 51 : BitVec 64) = x.rotateLeft 13 := by
    refine BitVec.eq_of_getLsbD_eq fun i hi => ?_
    rw [BitVec.getLsbD_rotateLeft_of_le (by decide), BitVec.getLsbD_append]
    simp only [BitVec.getLsbD_extractLsb]
    grind
  refine UInt64.toBitVec_inj.mp ?_
  change (_ : BitVec 64).extractLsb 50 0 ++ (_ : BitVec 64).extractLsb 63 51 + _ + _ = _
  rw [rotated]
  rfl

/-- What is driven in an active cycle. -/
def activeOutputs (config : Config) (valid ready : Bool) (item : Transfer) : BenchOutputs :=
  ⟨1, valid.toUInt8, item.data, item.id, item.last, item.user, ready.toUInt8, config.injectError.toUInt8⟩

theorem toUInt8_and_one (b : Bool) : b.toUInt8 &&& 1 = b.toUInt8 := by
  cases b <;> decide

theorem toUInt8_ne_zero_iff (b : Bool) : b.toUInt8 ≠ 0 ↔ b = true := by
  cases b <;> decide

theorem posedge_active (config : Config) (init count : UInt64) (valid ready : Bool) (item : Transfer) :
    (streamDut init).posedge count (activeOutputs config valid ready item) =
      if valid && ready then count + 1 else count := by
  simp only [streamDut, activeOutputs, toUInt8_and_one, toUInt8_ne_zero_iff, Bool.and_eq_true]
  exact if_neg (by decide)

/-- What the ports show then. -/
theorem read_active (config : Config) (init count : UInt64) (valid ready : Bool) (item : Transfer) :
    (streamDut init).read count (activeOutputs config valid ready item) =
      { sReady := ready.toUInt8
        mValid := valid.toUInt8
        mData :=
          if config.injectError = true ∧ count = 127 then transformData item.data item.id ^^^ 1
          else transformData item.data item.id
        mId := item.id
        mLast := item.last &&& 1
        mUser := item.user
        acceptedCount := count } := by
  simp only [streamDut, activeOutputs, toUInt8_and_one, toUInt8_ne_zero_iff, ← transformed_eq]
  split <;> rfl

/-! ## Lockstep -/

/-- The model and the design before the first cycle. -/
def firstCycle (config : Config) (init : UInt64) : Lockstep StreamModel BenchOutputs UInt64 :=
  ⟨init, ⟨(BenchModel.new config).1, (BenchModel.new config).2, none⟩, (BenchModel.new config).2⟩

section Lockstep

variable {config : Config} {init : UInt64} {c : Lockstep StreamModel BenchOutputs UInt64} {k n : ℕ}

/-- The ports after the rising edge of a cycle. -/
def ports (init : UInt64) (c : Lockstep StreamModel BenchOutputs UInt64) : BenchInputs :=
  (streamDut init).read ((streamDut init).posedge c.dut c.outputs) c.outputs

theorem cycle_of_continue {m : BenchModel} {values : BenchOutputs}
    (answer : c.model.model.step (ports init c) c.model.values = (.continue_, m, values)) :
    c.cycle (streamModel config) (streamDut init) =
      (ports init c, .ok .continue_, ⟨(streamDut init).posedge c.dut c.outputs, ⟨m, values, c.model.printed⟩, values⟩) := by
  unfold ports at answer ⊢
  simp only [Lockstep.cycle, streamModel, answer]

theorem cycle_of_pass {m : BenchModel} {values : BenchOutputs} {report : BenchReport}
    (answer : c.model.model.step (ports init c) c.model.values = (.pass report, m, values)) :
    c.cycle (streamModel config) (streamDut init) =
      (ports init c, .ok .pass,
        ⟨(streamDut init).posedge c.dut c.outputs, ⟨m, values, some report⟩, c.outputs⟩) := by
  unfold ports at answer ⊢
  simp only [Lockstep.cycle, streamModel, answer]

theorem cycle_of_fail {m : BenchModel} {values : BenchOutputs} {message : String}
    (answer : c.model.model.step (ports init c) c.model.values = (.fail message, m, values)) :
    c.cycle (streamModel config) (streamDut init) =
      (ports init c, .error message,
        ⟨(streamDut init).posedge c.dut c.outputs, ⟨m, values, c.model.printed⟩, c.outputs⟩) := by
  unfold ports at answer ⊢
  simp only [Lockstep.cycle, streamModel, answer]

/-- The model after so many cycles and transfers. -/
def modelAt (config : Config) (cycles n : ℕ) (trace : UInt64) : BenchModel :=
  ⟨config.target, config.seed, config.injectError, .ofNat cycles, .ofNat n,
    digestOf ((List.range n).map (Transfer.expected config.seed)), trace⟩

/-- In reset, after so many cycles. -/
structure Resetting (config : Config) (k : ℕ) (c : Lockstep StreamModel BenchOutputs UInt64) : Prop where
  early : k < 4
  outputs : c.outputs = (BenchModel.new config).2
  values : c.model.values = c.outputs
  model : ∃ trace, c.model.model = modelAt config k 0 trace

/-- After so many active cycles and so many transfers. -/
structure Running (config : Config) (k n : ℕ) (c : Lockstep StreamModel BenchOutputs UInt64) : Prop where
  count : c.dut = .ofNat n
  few : n < config.target.toNat
  values : c.model.values = c.outputs
  model : ∃ trace, c.model.model = modelAt config (4 + k) n trace
  driven : ∃ valid item, c.outputs = activeOutputs config valid (readyOpen config.seed (.ofNat k)) item ∧
    (valid = true → item = .driven config.seed n) ∧ (valid = false → sourceOpen config.seed (.ofNat k) = false)
  /-- The injected error has not been reached. -/
  clean : config.injectError = true → n < 127
  progress : k ≤ n + Nat.count (Closed config.seed) k

/-- What a source loads. -/
theorem load_eq (trace : UInt64) (cycles : ℕ) (cycle : UInt64) (valid ready : Bool) (item : Transfer) :
    ∃ valid' item', (modelAt config cycles n trace).loadSourceForCycle cycle (activeOutputs config valid ready item) =
        activeOutputs config valid' ready item' ∧
      (valid' = true → item' = .driven config.seed n) ∧ (valid' = false → sourceOpen config.seed cycle = false) := by
  by_cases opens : sourceOpen config.seed cycle = true
  · refine ⟨true, .driven config.seed n, ?_, fun _ => rfl, fun none => by cases none⟩
    exact BenchModel.load_of_open _ cycle opens
  · refine ⟨false, item, ?_, (by simp), fun _ => by simpa using opens⟩
    exact BenchModel.load_of_closed _ cycle opens

theorem wraps_iff {k : ℕ} (hk : k < 2 ^ 64) : resetCycles ≤ UInt64.ofNat k ↔ 4 ≤ k := by
  rw [UInt64.le_iff_toNat_le, UInt64.toNat_ofNat_of_lt' hk]
  rfl

theorem Resetting.cycle (init : UInt64) (resetting : Resetting config k c) :
    ∃ next, c.cycle (streamModel config) (streamDut init) = (ports init c, .ok .continue_, next) ∧
      (Resetting config (k + 1) next ∨ k = 3 ∧ Running config 0 0 next) := by
  obtain ⟨trace, model⟩ := resetting.model
  have early := resetting.early
  have count : (streamDut init).posedge c.dut c.outputs = 0 := by
    rw [resetting.outputs]
    exact if_pos (show (0 : UInt8) &&& 1 = 0 by decide)
  have quiet : (ports init c).mValid = 0 ∧ (ports init c).acceptedCount = 0 := by
    rw [ports, count, resetting.outputs]
    exact ⟨show (0 : UInt8) &&& 1 = 0 by decide, rfl⟩
  have low : c.model.values.resetN = 0 := by
    rw [resetting.values, resetting.outputs]
    rfl
  have answer := c.model.model.step_of_quiet low quiet
  have cycles : c.model.model.cycles + 1 = .ofNat (k + 1) := by
    rw [model, UInt64.ofNat_add]
    rfl
  have ticked : c.model.model.ticked (ports init c) c.model.values =
      modelAt config (k + 1) 0 (traceDigestUpdate trace (.ofNat (k + 1)) (ports init c) c.model.values) := by
    rw [BenchModel.ticked, cycles, model]
    rfl
  have left : { c.model.values with resetN := 1, mReady := (readyOpen c.model.model.seed 0).toUInt8 } =
      activeOutputs config false (readyOpen config.seed 0) ⟨0, 0, 0, 0⟩ := by
    rw [resetting.values, resetting.outputs, model]
    rfl
  rw [cycles, ticked, left] at answer
  by_cases late : 4 ≤ k + 1
  · rw [if_pos ((wraps_iff (by omega)).mpr late)] at answer
    obtain rfl : k = 3 := by omega
    obtain ⟨valid, item, loaded, offered, closed⟩ :=
      load_eq (n := 0) (traceDigestUpdate trace (.ofNat (3 + 1)) (ports init c) c.model.values) (3 + 1) 0 false
        (readyOpen config.seed 0) ⟨0, 0, 0, 0⟩
    rw [loaded] at answer
    exact ⟨_, cycle_of_continue answer, .inr <| .intro rfl
      { count := count, few := config.positive, values := rfl, model := ⟨_, rfl⟩
        driven := ⟨valid, item, rfl, offered, closed⟩, clean := fun _ => by decide, progress := Nat.zero_le _ }⟩
  · rw [if_neg (late ∘ (wraps_iff (by omega)).mp)] at answer
    exact ⟨_, cycle_of_continue answer, .inl ⟨by omega, resetting.values.trans resetting.outputs, rfl, _, rfl⟩⟩

/-- The transfers after a cycle. -/
def movedTo (n : ℕ) (valid ready : Bool) : ℕ := if valid && ready then n + 1 else n

theorem movedTo_le (n : ℕ) (valid ready : Bool) : movedTo n valid ready ≤ n + 1 := by
  unfold movedTo
  split <;> omega

/-- What a running model is shown; the injected error hits one transfer. -/
structure Shown (config : Config) (n : ℕ) (valid ready : Bool) (inputs : BenchInputs) : Prop where
  sReady : inputs.sReady = ready.toUInt8
  mValid : inputs.mValid = valid.toUInt8
  count : inputs.acceptedCount = .ofNat (movedTo n valid ready)
  item : valid = true → (⟨inputs.mData, inputs.mId, inputs.mLast, inputs.mUser⟩ : Transfer) =
    if config.injectError = true ∧ movedTo n valid ready = 127 then
      { Transfer.expected config.seed n with data := (Transfer.expected config.seed n).data ^^^ 1 }
    else .expected config.seed n

theorem last_and_one (index : UInt64) : last index &&& 1 = last index := toUInt8_and_one _

theorem posedge_of_driven (init : UInt64) {valid ready : Bool} {item : Transfer} (count : c.dut = .ofNat n)
    (outputs : c.outputs = activeOutputs config valid ready item) :
    (streamDut init).posedge c.dut c.outputs = .ofNat (movedTo n valid ready) := by
  rw [outputs, posedge_active, count, movedTo]
  split
  · rw [UInt64.ofNat_add]
    rfl
  · rfl

theorem shown_of_driven {valid ready : Bool} {item : Transfer} (few : n < config.target.toNat) (count : c.dut = .ofNat n)
    (outputs : c.outputs = activeOutputs config valid ready item) (offered : valid = true → item = .driven config.seed n) :
    Shown config n valid ready (ports init c) := by
  have bound := config.target.toNat_lt
  have step := movedTo_le n valid ready
  have small : movedTo n valid ready < 2 ^ 64 := by omega
  rw [ports, posedge_of_driven init count outputs, outputs, read_active]
  refine ⟨rfl, rfl, rfl, fun is => ?_⟩
  have hit : UInt64.ofNat (movedTo n valid ready) = 127 ↔ movedTo n valid ready = 127 := by
    rw [← UInt64.toNat_inj, UInt64.toNat_ofNat_of_lt' small]
    rfl
  rw [offered is]
  simp only [hit]
  split <;> simp only [Transfer.driven, Transfer.expected, last_and_one]

/-- What a cycle with the design running comes to. -/
inductive Next (config : Config) (init : UInt64) (k n : ℕ) (c : Lockstep StreamModel BenchOutputs UInt64) : Prop
  | goes {n' : ℕ} {next : Lockstep StreamModel BenchOutputs UInt64}
      (answers : c.cycle (streamModel config) (streamDut init) = (ports init c, .ok .continue_, next))
      (running : Running config (k + 1) n' next)
  | passes {next : Lockstep StreamModel BenchOutputs UInt64} {report : BenchReport}
      (answers : c.cycle (streamModel config) (streamDut init) = (ports init c, .ok .pass, next))
      (clean : config.injectError = false ∨ config.target < 127) (printed : next.model.printed = some report)
      (transactions : report.transactions = config.target)
      (digest : report.digest = digestOf ((List.range config.target.toNat).map (Transfer.expected config.seed)))
  | fails {next : Lockstep StreamModel BenchOutputs UInt64} {message : String}
      (answers : c.cycle (streamModel config) (streamDut init) = (ports init c, .error message, next))
      (inject : config.injectError = true) (far : 127 ≤ config.target)

theorem expects_of_item {inputs : BenchInputs} {trace : UInt64} {cycles : ℕ}
    (item : (⟨inputs.mData, inputs.mId, inputs.mLast, inputs.mUser⟩ : Transfer) = .expected config.seed n) :
    (modelAt config cycles n trace).expects inputs = true := by
  simp only [Transfer.expected, Transfer.driven, Transfer.mk.injEq] at item
  simp [BenchModel.expects, modelAt, item]

theorem not_expects_of_flipped {inputs : BenchInputs} {trace : UInt64} {cycles : ℕ}
    (item : (⟨inputs.mData, inputs.mId, inputs.mLast, inputs.mUser⟩ : Transfer) =
      { Transfer.expected config.seed n with data := (Transfer.expected config.seed n).data ^^^ 1 }) :
    (modelAt config cycles n trace).expects inputs = false := by
  have data : inputs.mData = (Transfer.expected config.seed n).data ^^^ 1 := congrArg Transfer.data item
  have flips : (Transfer.expected config.seed n).data ^^^ 1 ≠ (Transfer.expected config.seed n).data := by
    generalize (Transfer.expected config.seed n).data = x
    intro same
    have one : x ^^^ 1 = x ^^^ 0 := same.trans UInt64.xor_zero.symm
    exact absurd (UInt64.xor_right_inj x |>.mp one) (by decide)
  have first : (inputs.mData == transformData (payload config.seed (.ofNat n)) (UInt64.ofNat n).toUInt16) = false := by
    rw [data]
    exact beq_eq_false_iff_ne.mpr flips
  simp only [BenchModel.expects, modelAt, first, Bool.false_and]

theorem closed_of_unmoved {valid ready : Bool} (unmoved : (valid && ready) = false)
    (closed : valid = false → sourceOpen config.seed (.ofNat k) = false) (isReady : readyOpen config.seed (.ofNat k) = ready) :
    Closed config.seed k := by
  cases valid with
  | false => exact .inl (closed rfl)
  | true => exact .inr (isReady.trans unmoved)

theorem advanced_modelAt {inputs : BenchInputs} {values : BenchOutputs} {valid ready : Bool} (trace : UInt64) (cycles : ℕ)
    (transfers : values.transfers = (valid && ready))
    (item : valid = true →
      (⟨inputs.mData, inputs.mId, inputs.mLast, inputs.mUser⟩ : Transfer) = .expected config.seed n) :
    (modelAt config cycles n trace).advanced inputs values = modelAt config cycles (movedTo n valid ready) trace := by
  rw [BenchModel.advanced, transfers, movedTo]
  by_cases moves : (valid && ready) = true
  · have received := item (Bool.and_eq_true_iff.mp moves).1
    have counted : UInt64.ofNat n + 1 = .ofNat (n + 1) := by
      rw [UInt64.ofNat_add]
      rfl
    have digested : digestUpdate (digestOf ((List.range n).map (Transfer.expected config.seed))) inputs.mData inputs.mId
        inputs.mLast inputs.mUser = digestOf ((List.range (n + 1)).map (Transfer.expected config.seed)) := by
      rw [List.range_succ, List.map_append, List.map_singleton, ← received, digestOf, digestOf, List.foldl_append]
      rfl
    rw [if_pos moves, if_pos moves, BenchModel.transferred, modelAt, counted, digested, modelAt]
  · rw [if_neg moves, if_neg moves]

theorem nextOutputs_modelAt {valid ready : Bool} {item : Transfer} (trace : UInt64) (k : ℕ)
    (offered : valid = true → item = .driven config.seed n) :
    ∃ valid' item', (modelAt config (4 + k) (movedTo n valid ready) trace).nextOutputs
        (activeOutputs config valid ready item) (valid && ready) =
        activeOutputs config valid' (readyOpen config.seed (.ofNat k)) item' ∧
      (valid' = true → item' = .driven config.seed (movedTo n valid ready)) ∧
      (valid' = false → sourceOpen config.seed (.ofNat k) = false) := by
  have active : UInt64.ofNat (4 + k) - resetCycles = .ofNat k := by
    rw [UInt64.ofNat_add, UInt64.add_comm]
    exact UInt64.add_sub_cancel _ _
  have seed (k : ℕ) : (modelAt config (4 + k) (movedTo n valid ready) trace).seed = config.seed := rfl
  have cycles : (modelAt config (4 + k) (movedTo n valid ready) trace).cycles - resetCycles = .ofNat k := active
  unfold BenchModel.nextOutputs
  rw [cycles, seed]
  by_cases loads : (valid && ready) = true ∨ valid = false
  · rw [if_pos ?_]
    · exact load_eq trace (4 + k) (.ofNat k) valid (readyOpen config.seed (.ofNat k)) item
    · rcases loads with both | invalid
      · rw [both]
        rfl
      · rw [invalid]
        exact Bool.or_true _
  · obtain ⟨still, high⟩ := not_or.mp loads
    obtain rfl : valid = true := by simpa using high
    obtain rfl : ready = false := by simpa using still
    exact ⟨true, item, rfl, offered, fun none => by cases none⟩

theorem Running.cycle (init : UInt64) (running : Running config k n c) : Next config init k n c := by
  obtain ⟨trace, model⟩ := running.model
  obtain ⟨valid, item, outputs, offered, closed⟩ := running.driven
  generalize isReady : readyOpen config.seed (.ofNat k) = ready at *
  have values : c.model.values = activeOutputs config valid ready item := running.values.trans outputs
  have high : c.model.values.resetN ≠ 0 := by
    rw [values]
    exact show (1 : UInt8) ≠ 0 by decide
  have shown : Shown config n valid ready (ports init c) := shown_of_driven running.few running.count outputs offered
  have transfers : c.model.values.transfers = (valid && ready) := by
    rw [values]
    cases valid <;> cases ready <;> rfl
  have cycles : c.model.model.cycles + 1 = .ofNat (4 + (k + 1)) := by
    rw [model, ← Nat.add_assoc, UInt64.ofNat_add]
    rfl
  have ticked : c.model.model.ticked (ports init c) c.model.values =
      modelAt config (4 + (k + 1)) n (traceDigestUpdate trace (.ofNat (4 + (k + 1))) (ports init c) c.model.values) := by
    rw [BenchModel.ticked, cycles, model]
    rfl
  by_cases flipped : valid = true ∧ config.injectError = true ∧ movedTo n valid ready = 127
  · -- the injected error hits this transfer
    obtain ⟨is, inject, at_⟩ := flipped
    have item := shown.item is
    rw [if_pos ⟨inject, at_⟩] at item
    have wrong : ¬ Agrees c.model.model (ports init c) c.model.values := by
      intro agrees
      have expects := agrees.payload (by rw [values, is]; exact show (1 : UInt8) ≠ 0 by decide)
      rw [model, not_expects_of_flipped item] at expects
      cases expects
    obtain ⟨message, failed⟩ := c.model.model.step_fails high fun agrees => absurd agrees wrong
    have far := movedTo_le n valid ready
    refine .fails (cycle_of_fail (Prod.ext failed rfl)) inject ?_
    rw [UInt64.le_iff_toNat_le]
    have few := running.few
    change 127 ≤ _
    omega
  · have item (is : valid = true) := (shown.item is).trans (if_neg fun hit => flipped ⟨is, hit⟩)
    have agrees : Agrees c.model.model (ports init c) c.model.values := by
      refine ⟨?_, ?_, fun is => ?_⟩
      · rw [shown.sReady, values]
        rfl
      · rw [shown.mValid, values]
        rfl
      · rw [values] at is
        rw [model]
        exact expects_of_item (item ((toUInt8_ne_zero_iff valid).mp is))
    have advanced := advanced_modelAt (traceDigestUpdate trace (.ofNat (4 + (k + 1))) (ports init c) c.model.values)
      (4 + (k + 1)) transfers item
    rw [← ticked] at advanced
    have answer := agrees.step_eq high advanced.symm shown.count
    have few := running.few
    have step := movedTo_le n valid ready
    have bound := config.target.toNat_lt
    have small : movedTo n valid ready < 2 ^ 64 := by omega
    have last : UInt64.ofNat (movedTo n valid ready) = c.model.model.target ↔
        movedTo n valid ready = config.target.toNat := by
      rw [model, ← UInt64.toNat_inj, UInt64.toNat_ofNat_of_lt' small]
      rfl
    have clean (inject : config.injectError = true) : movedTo n valid ready < 127 := by
      have before := running.clean inject
      have : movedTo n valid ready ≠ 127 := by
        intro hit
        cases valid with
        | true => exact flipped ⟨rfl, inject, hit⟩
        | false => exact absurd (hit.symm.trans (if_neg (by simp))) (by omega)
      omega
    change _ = if UInt64.ofNat (movedTo n valid ready) = _ then _ else _ at answer
    by_cases full : movedTo n valid ready = config.target.toNat
    · rw [if_pos (last.mpr full)] at answer
      refine .passes (cycle_of_pass answer) ?_ rfl ?_ ?_
      · cases inject : config.injectError with
        | false => exact .inl rfl
        | true => exact .inr (UInt64.lt_iff_toNat_lt.mpr (full ▸ clean inject))
      · exact (last.mpr full).trans (by rw [model]; rfl)
      · rw [← full]
        rfl
    · rw [if_neg (full ∘ last.mp), transfers] at answer
      obtain ⟨valid', item', outputs', offered', closed'⟩ := nextOutputs_modelAt
        (traceDigestUpdate trace (.ofNat (4 + (k + 1))) (ports init c) c.model.values) (k + 1) offered
      rw [← values] at outputs'
      rw [outputs'] at answer
      refine @Next.goes _ _ _ _ _ (movedTo n valid ready) _ (cycle_of_continue answer)
        { count := ?_, few := by omega, values := rfl, model := ⟨_, rfl⟩, driven := ⟨valid', item', rfl, offered', closed'⟩
          clean := clean, progress := ?_ }
      · exact posedge_of_driven init running.count outputs
      · have progress := running.progress
        rw [Nat.count_succ]
        by_cases moves : (valid && ready) = true
        · rw [movedTo, if_pos moves]
          omega
        · rw [movedTo, if_neg moves, if_pos (closed_of_unmoved (by simpa using moves) closed isReady)]
          omega

/-- A verdict of the kind the design can come to. -/
def Settles (config : Config) (init : UInt64) (n : ℕ) : Prop :=
  ∃ pairs result last, Verdict (streamModel config) (streamDut init) (firstCycle config init) n pairs result last ∧
    (result = .ok .pass ↔ config.injectError = false ∨ config.target < 127) ∧
    (result = .ok .pass → ∃ report, last.model.printed = some report ∧ report.transactions = config.target ∧
      report.digest = digestOf ((List.range config.target.toNat).map (Transfer.expected config.seed)))

/-- The cycles before the verdict, one after the other. -/
theorem settles_or (config : Config) (init : UInt64) (n : ℕ) :
    (∃ k < n, Settles config init k) ∨
      ∃ pairs c, before (streamModel config) (streamDut init) (firstCycle config init) n = some (pairs, c) ∧
        (Resetting config n c ∨ ∃ k t, n = 4 + k ∧ Running config k t c) := by
  induction n with
  | zero => exact .inr ⟨[], _, rfl, .inl ⟨by decide, rfl, rfl, 0, rfl⟩⟩
  | succ n ih =>
    obtain ⟨k, earlier, settles⟩ | ⟨pairs, c, reached, resetting | ⟨k, t, rfl, running⟩⟩ := ih
    · exact .inl ⟨k, by omega, settles⟩
    · obtain ⟨next, answers, at_⟩ := resetting.cycle init
      refine .inr ⟨_, next, Cycle.before_succ reached answers, ?_⟩
      obtain again | ⟨rfl, running⟩ := at_
      · exact .inl again
      · exact .inr ⟨0, 0, rfl, running⟩
    · cases running.cycle init with
      | goes answers running => exact .inr ⟨_, _, Cycle.before_succ reached answers, .inr ⟨k + 1, _, rfl, running⟩⟩
      | passes answers clean printed transactions digest =>
        refine .inl ⟨4 + k, by omega, _, _, _, ⟨⟨pairs, c, _, reached, answers, rfl⟩, by simp⟩, ?_, ?_⟩
        · exact iff_of_true rfl clean
        · exact fun _ => ⟨_, printed, transactions, digest⟩
      | fails answers inject far =>
        refine .inl ⟨4 + k, by omega, _, _, _, ⟨⟨pairs, c, _, reached, answers, rfl⟩, by simp⟩, ?_, ?_⟩
        · refine iff_of_false (by simp) ?_
          rintro (clean | near)
          · exact absurd (clean.symm.trans inject) (by decide)
          · exact absurd far (UInt64.not_le.mpr near)
        · exact fun passes => by cases passes

/-- The cycles in which a verdict is reached. -/
def enough (config : Config) : ℕ := 4 + (config.target.toNat + 2 ^ 62 + 2 ^ 61)

theorem settles (config : Config) (init : UInt64) : ∃ n ≤ enough config, Settles config init n := by
  obtain ⟨k, early, settles⟩ | ⟨pairs, c, -, late⟩ := settles_or config init (enough config + 1)
  · exact ⟨k, by omega, settles⟩
  have bound := config.target.toNat_lt
  have many : enough config = 4 + (config.target.toNat + 2 ^ 62 + 2 ^ 61) := rfl
  obtain resetting | ⟨k, t, at_, running⟩ := late
  · have := resetting.early
    omega
  · -- by then the closed cycles are used up
    have few := running.few
    have progress := running.progress
    have closed : Nat.count (Closed config.seed) k ≤ Nat.count (Closed config.seed) (2 ^ 65) :=
      Nat.count_monotone _ (by omega)
    have := count_closed_le config.seed
    omega

end Lockstep

end Rustdv.Stream
