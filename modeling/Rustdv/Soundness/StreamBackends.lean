import Rustdv.Soundness.StreamVerdict

/-! # The stream benchmark on both backends

The VPI adapter of the benchmark reads the payload only when it is valid. A model that does not look at
the rest cannot tell: the adapter behaves as an exact one on a design that shows less. So both backends
come to the same verdict with the same digests, and the exit code says whether an error was injected.
-/

namespace Rustdv.Cycle

/-! ## Adapters that read less -/

section Masked

variable {M I O D : Type}

/-- The design as far as an adapter shows it. -/
def Dut.masked (dut : Dut D I O) (mask : I → I) : Dut D I O := { dut with read := fun d o => mask (dut.read d o) }

variable {model : CycleModel M I O} {dut : Dut D I O} {mask : I → I} {first : Lockstep M O D}

theorem vpi_masked (clock : Clock) :
    vpi model dut ⟨fun ports => .ok (mask ports), .ok⟩ clock = vpi model (dut.masked mask) ⟨.ok, .ok⟩ clock := rfl

variable (blind : ∀ m inputs outputs, model.step m (mask inputs) outputs = model.step m inputs outputs)

include blind

theorem cycle_masked (c : Lockstep M O D) :
    c.cycle model (dut.masked mask) = (mask (c.cycle model dut).1, (c.cycle model dut).2) := by
  simp only [Lockstep.cycle, Dut.masked, blind]

theorem before_masked (n : ℕ) :
    before model (dut.masked mask) first n =
      (before model dut first n).map fun (pairs, c) => (pairs.map fun (inputs, outputs) => (mask inputs, outputs), c) := by
  induction n with
  | zero => rfl
  | succ n ih =>
    rw [before, before, ih]
    rcases before model dut first n with - | ⟨pairs, c⟩
    · rfl
    · simp only [Option.map_some, cycle_masked blind]
      rcases c.cycle model dut with ⟨inputs, _ | _ | _ | _, next⟩ <;> simp

theorem Verdict.masked {n : ℕ} {pairs : List (I × O)} {result : Except String CycleStatus} {last : Lockstep M O D}
    (verdict : Verdict model dut first n pairs result last) :
    Verdict model (dut.masked mask) first n (pairs.map fun (inputs, outputs) => (mask inputs, outputs)) result last := by
  obtain ⟨earlier, c, inputs, reached, answers, rfl⟩ := verdict.reached
  refine ⟨⟨_, c, mask inputs, by rw [before_masked blind, reached]; rfl, ?_, by simp⟩, verdict.ends⟩
  rw [cycle_masked blind, answers]

end Masked

/-! ## Verdicts that are known -/

section Known

variable {M I O D : Type} {model : CycleModel M I O} {dut : Dut D I O} {first last : Lockstep M O D} {m : ℕ}
  {pairs : List (I × O)} {result : Except String CycleStatus}

theorem HostAt.before_of_stuck {h : Host M I O D} {n : ℕ} {earlier : List (I × O)} {c : Lockstep M O D} (left : ℕ)
    (reached : before model dut first n = some (earlier, c)) (here : HostAt h earlier c)
    (going : h.status = CycleStatus.continue_.raw)
    (stuck : (h.loop model dut left).status = CycleStatus.continue_.raw) :
    ∃ later c', before model dut first (n + left) = some (later, c') := by
  induction left generalizing h n earlier c with
  | zero => exact ⟨earlier, c, reached⟩
  | succ left ih =>
    rcases answers : c.cycle model dut with ⟨inputs, answer, next⟩
    obtain ⟨after, status⟩ := here.cycle answers
    rw [Host.loop, if_pos going] at stuck
    by_cases goes : answer = .ok .continue_
    · rw [goes] at answers status
      rw [Nat.add_comm left, ← Nat.add_assoc]
      exact ih (before_succ reached answers) after status stuck
    · -- the loop ends, and not with a status to continue
      have stopped : (h.cycle model dut).status ≠ CycleStatus.continue_.raw := by
        rw [status]
        exact fun same => goes ((statusOf_eq_continue_iff answer).mp same)
      have done : (h.cycle model dut).loop model dut left = h.cycle model dut := by
        cases left with
        | zero => rfl
        | succ left => rw [Host.loop, if_neg stopped]
      exact absurd (done ▸ stuck) stopped

/-- With cycles to spare, the loop ends where the verdict is. -/
theorem HostAt.loop_of_verdict {h : Host M I O D} (verdict : Verdict model dut first m pairs result last)
    (here : HostAt h [] first) (going : h.status = CycleStatus.continue_.raw) {left : ℕ} (spare : m < left) :
    HostAt (h.loop model dut left) pairs last ∧ (h.loop model dut left).status = statusOf result := by
  obtain stuck | ⟨k, pairs', result', last', found, ended, status⟩ := here.loop (n := 0) left rfl going
  · obtain ⟨later, c, reached⟩ := here.before_of_stuck (n := 0) left rfl going stuck
    have := verdict.le reached
    omega
  · obtain ⟨rfl, rfl, rfl⟩ := verdict.unique found
    exact ⟨ended, status⟩

theorem Verdict.before_of_le (verdict : Verdict model dut first m pairs result last) {n : ℕ} (le : n ≤ m) :
    ∃ earlier c, before model dut first n = some (earlier, c) := by
  obtain ⟨earlier, c, inputs, reached, -, -⟩ := verdict.reached
  induction le using Nat.decreasingInduction generalizing earlier c with
  | self => exact ⟨earlier, c, reached⟩
  | of_succ k _ ih =>
    obtain ⟨later, c', reached⟩ := ih earlier c reached
    rw [before] at reached
    split at reached
    · contradiction
    · exact ⟨_, _, ‹_›⟩

/-- With too few cycles, the loop ends before the verdict. -/
theorem HostAt.loop_of_late {h : Host M I O D} {n : ℕ} {earlier : List (I × O)} {c : Lockstep M O D} (left : ℕ)
    (verdict : Verdict model dut first m pairs result last) (reached : before model dut first n = some (earlier, c))
    (here : HostAt h earlier c) (going : h.status = CycleStatus.continue_.raw) (short : n + left ≤ m) :
    (h.loop model dut left).status = CycleStatus.continue_.raw := by
  induction left generalizing h n earlier c with
  | zero => exact going
  | succ left ih =>
    rcases answers : c.cycle model dut with ⟨inputs, answer, next⟩
    obtain ⟨after, status⟩ := here.cycle answers
    obtain ⟨later, c', on⟩ := verdict.before_of_le (n := n + 1) (by omega)
    have goes : answer = .ok .continue_ := by
      rw [before, reached] at on
      dsimp only at on
      rw [answers] at on
      split at on
      · next same => exact congrArg (fun answer => answer.2.1) same
      · contradiction
    rw [goes] at answers status
    rw [Host.loop, if_pos going]
    exact ih (before_succ reached answers) after status (by omega)

/-- A host that runs out of cycles does not exit with 0. -/
theorem conclude_of_continue {h : Host M I O D} (going : h.status = CycleStatus.continue_.raw) :
    (h.conclude model).code ≠ 0 := by
  simp only [Host.conclude, going, ↓reduceIte, ite_self]
  decide

/-- The adapter with the model it leaves. -/
def Left (model : CycleModel M I O) (dut : Dut D I O) (first : Lockstep M O D) (clock : Clock) (s : Vpi M O D)
    (seen : List (Call I O)) : Prop :=
  Tracks model dut first clock s seen ∧ ∀ answer, s.body = .returned answer →
    ∃ n pairs result last, Verdict model dut first n pairs result last ∧ s.model = last.model

variable {clock : Clock} {closures : Closures I O}

theorem Left.step (exact : closures.Exact) {s t : Vpi M O D} {seen out : List (Call I O)} {event : Event}
    (left : Left model dut first clock s seen) (stepped : vpiStep model dut closures clock s event = some (t, out)) :
    Left model dut first clock t (seen ++ out) := by
  obtain ⟨tracks, -⟩ := left
  refine ⟨tracks.step exact stepped, fun answer body => ?_⟩
  cases tracks with
  | returned _ _ at_clock body => cases event <;> simp [vpiStep, Vpi.pollClock, at_clock, body] at stepped
  | @going _ _ c reached calls context outputs place =>
    have moves := moves_of_step stepped
    by_cases settled : s.body = .readOnly
    · have sampled := place.samples settled moves
      cases place with
      | waiting other => cases settled.symm.trans other
      | stepped other => cases settled.symm.trans other
      | clocked _ state driven =>
        rcases answered : model.step c.model (dut.read (dut.posedge c.dut c.outputs) c.outputs) c.outputs with
          ⟨result, m, next⟩
        have answers : c.cycle model dut =
            (dut.read (dut.posedge c.dut c.outputs) c.outputs, result, ⟨dut.posedge c.dut c.outputs, m, next⟩) := by
          simp only [Lockstep.cycle, answered]
        simp only [Vpi.sample, exact.1, state, driven, context, outputs, answered] at sampled
        by_cases goes : result = .ok .continue_
        · rw [goes] at sampled
          cases sampled
          cases body
        · refine ⟨_, _, result, _, ⟨⟨_, c, _, reached, answers, rfl⟩, goes⟩, ?_⟩
          rcases result with e | _ | _ | _
          · cases sampled
            rfl
          · exact absurd rfl goes
          · cases sampled
            rfl
          · cases sampled
            rfl
    · exfalso
      cases moves with
      | pollClock polled => exact (place.pollClock polled).not_returned answer body
      | pollEdge _ next =>
        rw [next] at body
        cases body
      | readOnly other => exact settled other
      | nextStep _ _ drives =>
        rw [exact.drives] at drives
        cases drives
        cases body
      | advance _ _ _ _ next =>
        rw [next] at body
        exact place.not_returned answer body

theorem Left.run (exact : closures.Exact) {s t : Vpi M O D} {events : List Event} {seen : List (Call I O)}
    (initial : Left model dut first clock s []) (ran : (vpi model dut closures clock).run s events = some (t, seen)) :
    Left model dut first clock t seen :=
  (vpi model dut closures clock).run_invariant_nil (Left model dut first clock) initial (Left.step exact) ran

/-- Only `drive` changes what is on the ports. -/
theorem driven_of_step {s t : Vpi M O D} {event : Event} {out : List (Call I O)}
    (stepped : vpiStep model dut closures clock s event = some (t, out)) (other : event ≠ .nextStep) :
    t.driven = s.driven := by
  have setClk (s : Vpi M O D) (v : Phase.Logic) : (s.setClk dut v).driven = s.driven := by
    unfold Vpi.setClk
    split
    · rfl
    · split <;> rfl
  cases event with
  | nextStep => exact absurd rfl other
  | pollClock =>
    obtain ⟨next, polled, same⟩ := Option.map_eq_some_iff.mp stepped
    cases same
    unfold Vpi.pollClock at polled
    split at polled
    · rw [← Option.some.inj polled, setClk]
    · obtain ⟨-, same⟩ := Option.ite_none_right_eq_some.mp polled
      rw [← Option.some.inj same, setClk]
    · obtain ⟨-, same⟩ := Option.ite_none_right_eq_some.mp polled
      rw [← Option.some.inj same, setClk]
    · contradiction
  | pollEdge =>
    simp only [vpiStep] at stepped
    split at stepped
    · cases stepped
      rfl
    · contradiction
  | readOnly =>
    simp only [vpiStep] at stepped
    split at stepped
    · obtain ⟨-, sampled⟩ := Option.ite_none_left_eq_some.mp stepped
      have same : (s.sample model dut closures).1 = t := congrArg Prod.fst (Option.some.inj sampled)
      rw [← same]
      unfold Vpi.sample
      split
      · rfl
      · dsimp only
        split <;> rfl
    · contradiction
  | advance u =>
    simp only [vpiStep] at stepped
    split at stepped
    · contradiction
    · contradiction
    · obtain ⟨-, same⟩ := Option.ite_none_left_eq_some.mp stepped
      cases same
      rfl
    · obtain ⟨-, same⟩ := Option.ite_none_left_eq_some.mp stepped
      cases same
      rfl

end Known

end Rustdv.Cycle

namespace Rustdv.Stream

open Rustdv.Cycle (CycleModel CycleStatus Dut Lockstep Verdict Call HostAt Host hostMain createContext combine_eq_pass_iff
  before)

/-! ## What the adapter of the benchmark reads -/

section Sampled

variable (m : BenchModel) {inputs : BenchInputs} (outputs : BenchOutputs)

theorem sample_of_valid (valid : inputs.mValid ≠ 0) : sample inputs = inputs := by
  unfold sample
  rw [if_pos valid, if_pos valid, if_pos valid, if_pos valid]

theorem sample_of_invalid (invalid : inputs.mValid = 0) :
    sample inputs = { inputs with mData := 0, mId := 0, mLast := 0, mUser := 0 } := by
  have low : ¬ inputs.mValid ≠ 0 := not_not.mpr invalid
  unfold sample
  rw [if_neg low, if_neg low, if_neg low, if_neg low]

theorem traceDigestUpdate_sample (invalid : inputs.mValid = 0) (digest cycle : UInt64) :
    traceDigestUpdate digest cycle (sample inputs) outputs = traceDigestUpdate digest cycle inputs outputs := by
  have low : ¬ inputs.mValid ≠ 0 := not_not.mpr invalid
  rw [sample_of_invalid invalid]
  unfold traceDigestUpdate
  dsimp only
  simp only [if_neg low]

theorem active_sample (invalid : inputs.mValid = 0) : m.active (sample inputs) outputs = m.active inputs outputs := by
  have low : ¬ inputs.mValid ≠ 0 := not_not.mpr invalid
  rw [sample_of_invalid invalid]
  unfold BenchModel.active
  simp only [low, decide_false, Bool.false_and, Bool.false_eq_true, if_false]
  rfl

/-- The model does not look at the rest. -/
theorem step_sample : m.step (sample inputs) outputs = m.step inputs outputs := by
  by_cases valid : inputs.mValid = 0
  · unfold BenchModel.step
    dsimp only
    rw [traceDigestUpdate_sample outputs valid, active_sample _ outputs valid]
    rfl
  · rw [sample_of_valid valid]

end Sampled

/-- What is driven only when it changes is always what the ports show. -/
theorem drive_eq {values ports : BenchOutputs} {previous : Option BenchOutputs}
    (known : previous = none ∨ previous = some ports) : drive values previous ports = (some values, values) := by
  have kept {α : Type} [DecidableEq α] (x y : α) : (if x ≠ y then x else y) = x := by
    by_cases same : x = y
    · rw [if_neg (not_not.mpr same), same]
    · rw [if_pos same]
  obtain rfl | rfl := known
  · simp [drive]
  · simp only [drive, Option.getD_some, kept]

/-! ## What the adapter of the benchmark drives -/

section Driven

variable {D : Type} {config : Config} {dut : Dut D BenchInputs BenchOutputs} {clock : Cycle.Clock}

/-- The adapter remembers what is on the ports. -/
def Adapter.of (s : Cycle.Vpi StreamModel BenchOutputs D) : Adapter D := ⟨s, some s.driven⟩

theorem launch_adapter (bindings : Cycle.Bindings BenchOutputs) (now : ℕ) (clk : Phase.Logic) (ports : BenchOutputs) :
    Cycle.launch (streamModel config) dut bindings closures now clk = .ok (Adapter.launch config dut now clk ports).vpi ∧
      Adapter.launch config dut now clk ports = .of (Adapter.launch config dut now clk ports).vpi := by
  have first := @drive_eq (BenchModel.new config).2 ports none (.inl rfl)
  constructor
  · simp only [Adapter.launch, first]
    rfl
  · simp only [Adapter.launch, Adapter.of, first]

@[simp]
theorem Adapter.of_vpi (s : Cycle.Vpi StreamModel BenchOutputs D) : (Adapter.of s).vpi = s := rfl

theorem Adapter.of_drive (s : Cycle.Vpi StreamModel BenchOutputs D) :
    (Adapter.of s).drive = .of (s.drive (streamModel config) closures).1 := by
  have shown := @drive_eq s.outputs s.driven (some s.driven) (.inr rfl)
  simp only [Adapter.drive, Adapter.of, shown]
  rfl

/-- Its own `drive` does what the closures say. -/
theorem adapterStep_of (s : Cycle.Vpi StreamModel BenchOutputs D) (event : Cycle.Event) :
    adapterStep config dut clock (.of s) event =
      (Cycle.vpiStep (streamModel config) dut closures clock s event).map fun (t, out) => (.of t, out) := by
  by_cases drives : event = .nextStep
  · subst drives
    rcases body : s.body with fired | _ | since | result
    · simp only [adapterStep, Cycle.vpiStep, Adapter.of_vpi, body, Option.map_none]
    · simp only [adapterStep, Cycle.vpiStep, Adapter.of_vpi, body, Option.map_none]
    · simp only [adapterStep, Cycle.vpiStep, Adapter.of_vpi, body, @Adapter.of_drive _ config]
      split <;> rfl
    · simp only [adapterStep, Cycle.vpiStep, Adapter.of_vpi, body, Option.map_none]
  · have others : adapterStep config dut clock (.of s) event =
        (Cycle.vpiStep (streamModel config) dut closures clock s event).map fun (t, out) =>
          ({ Adapter.of s with vpi := t }, out) := by
      cases event with
      | nextStep => exact absurd rfl drives
      | _ => rfl
    rw [others]
    refine Option.map_congr fun next stepped => ?_
    simp only [Adapter.of, Cycle.driven_of_step stepped drives]

theorem adapter_run (s : Cycle.Vpi StreamModel BenchOutputs D) (events : List Cycle.Event) :
    (adapter config dut clock).run (.of s) events =
      ((Cycle.vpi (streamModel config) dut closures clock).run s events).map fun (t, seen) => (.of t, seen) := by
  induction events generalizing s with
  | nil => rfl
  | cons event rest ih =>
    have stepped : (adapter config dut clock).step (.of s) event =
        ((Cycle.vpi (streamModel config) dut closures clock).step s event).map fun (t, out) => (.of t, out) :=
      adapterStep_of s event
    rw [Machine.run, Machine.run, stepped]
    rcases (Cycle.vpi (streamModel config) dut closures clock).step s event with - | ⟨t, out⟩
    · rfl
    · simp only [Option.map_some, Option.bind_some, ih, Option.map_map]
      rfl

end Driven

/-! ## Agreement -/

section Agreement

/-- A call of the host as the adapter makes it. -/
def sampled : Cycle.Call BenchInputs BenchOutputs → Cycle.Call BenchInputs BenchOutputs
  | .step inputs outputs => .step (sample inputs) outputs
  | .finish => .finish

theorem streamModel_blind (config : Config) (s : StreamModel) (inputs : BenchInputs) (outputs : BenchOutputs) :
    (streamModel config).step s (sample inputs) outputs = (streamModel config).step s inputs outputs := by
  simp only [streamModel, step_sample]

variable (config : Config) (init : UInt64) (bindings : Cycle.Bindings BenchOutputs)

/-- The host that has cycles to spare. -/
theorem host_of_verdict {n maxCycles : ℕ} {pairs : List (BenchInputs × BenchOutputs)} {result : Except String CycleStatus}
    {last : Lockstep StreamModel BenchOutputs UInt64}
    (verdict : Verdict (streamModel config) (streamDut init) (firstCycle config init) n pairs result last) :
    ((hostMain (streamModel config) (streamDut init) bindings maxCycles).code = 0 ↔ result = .ok .pass ∧ n < maxCycles) ∧
      (n < maxCycles →
        (hostMain (streamModel config) (streamDut init) bindings maxCycles).calls = pairs.map Call.ofPair ++ [.finish]) := by
  have start : HostAt (Host.start (streamDut init) bindings ⟨(BenchModel.new config).1, (BenchModel.new config).2, none⟩
      (BenchModel.new config).2) [] (firstCycle config init) := ⟨rfl, rfl, rfl, rfl⟩
  by_cases spare : n < maxCycles
  · obtain ⟨ended, status⟩ := start.loop_of_verdict verdict rfl spare
    obtain ⟨calls, code⟩ := ended.conclude status verdict.ends
    refine ⟨code.trans ?_, fun _ => calls⟩
    rw [combine_eq_pass_iff]
    simp [streamModel, spare]
  · have stuck := start.loop_of_late (n := 0) maxCycles verdict rfl rfl (by omega)
    refine ⟨iff_of_false ?_ (by simp [spare]), fun room => absurd room spare⟩
    exact Cycle.conclude_of_continue stuck

/-- The verdict falls in one cycle, the same for both backends, and says whether an error was injected. The adapter,
with its own `drive`, makes the runs of the one that puts the outputs on the ports. -/
theorem stream_backends (clock : Cycle.Clock) (now : ℕ) {clk : Phase.Logic} (not_high : clk ≠ .one) :
    let model := streamModel config
    let dut := streamDut init
    let clean := config.injectError = false ∨ config.target < 127
    ∃ n ≤ enough config,
      (∀ maxCycles, (hostMain model dut bindings maxCycles).code = 0 ↔ clean ∧ n < maxCycles) ∧
      ∃ s₀, Cycle.launch model dut bindings closures now clk = .ok s₀ ∧
        (∀ ports events, (adapter config dut clock).run (.launch config dut now clk ports) events =
          ((Cycle.vpi model dut closures clock).run s₀ events).map fun (s, seen) => (.of s, seen)) ∧
        ∃ bound, ∀ events s seen, (Cycle.vpi model dut closures clock).run s₀ events = some (s, seen) →
          events.length ≤ bound ∧
          ((∃ result, s.body = .returned result) ∨
            ∃ event, ((Cycle.vpi model dut closures clock).step s event).isSome) ∧
          ∀ result, s.body = .returned result →
            (result = .ok .pass ↔ clean) ∧
            (∀ maxCycles, n < maxCycles → seen = (hostMain model dut bindings maxCycles).calls.map sampled) ∧
            (result = .ok .pass → ∃ report, s.model.printed = some report ∧ report.transactions = config.target ∧
              report.digest = digestOf ((List.range config.target.toNat).map (Transfer.expected config.seed))) := by
  intro model dut clean
  obtain ⟨n, early, pairs, result, last, verdict, passes, printed⟩ := settles config init
  have blind := streamModel_blind config
  have masked : Verdict model (dut.masked sample) (firstCycle config init) n _ result last := verdict.masked blind
  refine ⟨n, early, fun maxCycles => ?_, ⟨now, clk, init, (BenchModel.new config).2, _, _, .queued, .edge false⟩, rfl,
    fun ports events => ?_, ?_⟩
  · rw [(host_of_verdict config init bindings verdict).1, passes]
  · obtain ⟨launched, remembers⟩ := @launch_adapter _ config dut bindings now clk ports
    rw [remembers, adapter_run, ← Except.ok.inj launched]
    rfl
  let s₀ : Cycle.Vpi StreamModel BenchOutputs UInt64 :=
    ⟨now, clk, init, (BenchModel.new config).2, ⟨(BenchModel.new config).1, (BenchModel.new config).2, none⟩,
      (BenchModel.new config).2, .queued, .edge false⟩
  have exact : Cycle.Closures.Exact (I := BenchInputs) (O := BenchOutputs) ⟨.ok, .ok⟩ := ⟨fun _ => rfl, fun _ => rfl⟩
  have same : Cycle.vpi model dut closures clock = Cycle.vpi model (dut.masked sample) ⟨.ok, .ok⟩ clock :=
    Cycle.vpi_masked clock
  have initial : Cycle.Left model (dut.masked sample) (firstCycle config init) clock s₀ [] :=
    ⟨.going (n := 0) rfl rfl rfl rfl (.waiting rfl rfl rfl (.queued rfl not_high)), fun _ body => by cases body⟩
  rw [same]
  refine ⟨s₀.potential clock n 0, fun events s seen ran => ?_⟩
  obtain ⟨tracks, left⟩ := initial.run exact ran
  refine ⟨initial.1.run_length exact masked ran, tracks.progress, fun answer body => ?_⟩
  cases tracks with
  | going _ _ _ _ place => exact absurd body (place.not_returned answer)
  | returned found calls _ body' =>
    obtain ⟨rfl, rfl, rfl⟩ := masked.unique found
    obtain ⟨_, _, _, _, found', context⟩ := left answer body
    obtain ⟨-, -, rfl⟩ := masked.unique found'
    have finished : answer = result := by
      rw [Cycle.BodyAt.returned.inj (body.symm.trans body')]
      rcases result with - | - <;> rfl
    refine ⟨?_, fun maxCycles spare => ?_, fun pass => ?_⟩
    · rw [finished, passes]
    · rw [calls, (host_of_verdict config init bindings verdict).2 spare]
      simp [Function.comp_def, sampled, Call.ofPair]
    · rw [context]
      exact printed (finished ▸ pass)

/-- Three transfers, and a VPI run that passes if it returns. -/
theorem stream_backends_three :
    ∃ s₀, Cycle.launch (streamModel ⟨⟨3, 1, false⟩, by decide⟩) (streamDut 7) ⟨.default, .default, rfl⟩ closures 0 .zero =
        .ok s₀ ∧
      ∀ events s seen, (Cycle.vpi (streamModel ⟨⟨3, 1, false⟩, by decide⟩) (streamDut 7) closures ⟨10, by decide⟩).run
          s₀ events = some (s, seen) →
        ∀ result, s.body = .returned result → result = .ok .pass := by
  obtain ⟨n, -, -, s₀, launched, -, bound, runs⟩ :=
    stream_backends ⟨⟨3, 1, false⟩, by decide⟩ 7 ⟨.default, .default, rfl⟩ ⟨10, by decide⟩ 0
      (show Phase.Logic.zero ≠ .one by decide)
  refine ⟨s₀, launched, fun events s seen ran result returned => ?_⟩
  obtain ⟨-, -, verdict⟩ := runs events s seen ran
  exact (verdict result returned).1.mpr (.inl rfl)

end Agreement

end Rustdv.Stream
