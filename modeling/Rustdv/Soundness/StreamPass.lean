import Rustdv.Model.StreamBench
import Rustdv.Soundness.RngPeriod

/-! # What a passing stream benchmark certifies

Whatever the design answers, a pass means that exactly the expected transfers were made, in order, at
cycles in which both sides transfer, and that the digest is theirs. Two expected transfers always
differ, so a design that loses, doubles or swaps one does not pass.
-/

namespace Rustdv.Stream

open Isolation (Rng)

/-! ## One step -/

section Step

variable {m m' : BenchModel} {inputs : BenchInputs} {outputs outputs' : BenchOutputs} {status : StepStatus}

/-- The model with the counters of a new cycle. -/
def BenchModel.ticked (m : BenchModel) (inputs : BenchInputs) (outputs : BenchOutputs) : BenchModel :=
  { m with
    cycles := m.cycles + 1
    traceDigest := traceDigestUpdate m.traceDigest (m.cycles + 1) inputs outputs }

/-- The model after a transfer. -/
def BenchModel.transferred (m : BenchModel) (inputs : BenchInputs) : BenchModel :=
  { m with
    digest := digestUpdate m.digest inputs.mData inputs.mId inputs.mLast inputs.mUser
    transactions := m.transactions + 1 }

/-- What the ports have to show in an active cycle. -/
structure Agrees (m : BenchModel) (inputs : BenchInputs) (outputs : BenchOutputs) : Prop where
  ready : inputs.sReady = outputs.mReady
  valid : inputs.mValid = outputs.sValid
  payload : outputs.sValid ≠ 0 → m.expects inputs = true

/-- Both sides transfer in such a cycle. -/
def BenchOutputs.transfers (outputs : BenchOutputs) : Bool := outputs.sValid != 0 && outputs.mReady != 0

/-- The model after an active cycle, as far as the transfer. -/
def BenchModel.advanced (m : BenchModel) (inputs : BenchInputs) (outputs : BenchOutputs) : BenchModel :=
  if outputs.transfers then m.transferred inputs else m

theorem Agrees.active_eq (agrees : Agrees m inputs outputs) :
    m.active inputs outputs = (m.advanced inputs outputs).conclude inputs outputs outputs.transfers := by
  have payload := agrees.payload
  unfold BenchModel.active
  rw [agrees.ready, agrees.valid]
  simp only [ne_eq, not_true_eq_false, ↓reduceIte]
  by_cases valid : outputs.sValid = 0
  · simp [valid, BenchModel.advanced, BenchOutputs.transfers]
  · by_cases ready : outputs.mReady = 0
    · simp [valid, ready, payload valid, BenchModel.advanced, BenchOutputs.transfers]
    · simp [valid, ready, payload valid, BenchModel.advanced, BenchOutputs.transfers, BenchModel.transferred]

/-- An active cycle fails, or the ports agree. -/
theorem BenchModel.active_cases (m : BenchModel) (inputs : BenchInputs) (outputs : BenchOutputs) :
    (∃ message, (m.active inputs outputs).1 = .fail message) ∨ Agrees m inputs outputs := by
  by_cases ready : inputs.sReady = outputs.mReady
  · by_cases valid : inputs.mValid = outputs.sValid
    · by_cases payload : outputs.sValid ≠ 0 → m.expects inputs = true
      · exact .inr ⟨ready, valid, payload⟩
      · obtain ⟨high, wrong⟩ := Classical.not_imp.mp payload
        left
        unfold active
        rw [ready, valid]
        simp only [ne_eq, not_true_eq_false, ↓reduceIte]
        rw [if_pos (by simpa [high] using wrong)]
        exact ⟨_, rfl⟩
    · left
      unfold active
      simp only [ready]
      split
      · exact ⟨_, rfl⟩
      · rw [if_neg (not_not.mpr rfl)]
        exact ⟨_, rfl⟩
  · left
    unfold active
    dsimp only
    split
    · exact ⟨_, rfl⟩
    · exact ⟨_, rfl⟩

/-- What is driven in the next cycle. -/
def BenchModel.nextOutputs (m : BenchModel) (outputs : BenchOutputs) (accepted : Bool) : BenchOutputs :=
  let activeCycle := m.cycles - resetCycles
  let outputs := { outputs with mReady := (readyOpen m.seed activeCycle).toUInt8 }
  if accepted || outputs.sValid = 0 then m.loadSourceForCycle activeCycle outputs else outputs

/-- The report of a pass. -/
def BenchModel.report (m : BenchModel) : BenchReport :=
  ⟨m.transactions, m.cycles - resetCycles, m.digest, m.traceDigest⟩

/-- What a step can do. -/
inductive Stepped (m : BenchModel) (inputs : BenchInputs) (outputs : BenchOutputs) :
    StepStatus × BenchModel × BenchOutputs → Prop
  | fail (message : String) (m' : BenchModel) (outputs' : BenchOutputs) :
      Stepped m inputs outputs (.fail message, m', outputs')
  | reset (low : outputs.resetN = 0) (quiet : inputs.mValid = 0 ∧ inputs.acceptedCount = 0)
      (early : m.cycles + 1 < resetCycles) :
      Stepped m inputs outputs (.continue_, m.ticked inputs outputs, outputs)
  | leave (low : outputs.resetN = 0) (quiet : inputs.mValid = 0 ∧ inputs.acceptedCount = 0)
      (late : resetCycles ≤ m.cycles + 1) :
      Stepped m inputs outputs
        (.continue_, m.ticked inputs outputs,
          (m.ticked inputs outputs).loadSourceForCycle 0
            { outputs with resetN := 1, mReady := (readyOpen m.seed 0).toUInt8 })
  | pass {m' : BenchModel} (high : outputs.resetN ≠ 0) (agrees : Agrees m inputs outputs)
      (advanced : m' = (m.ticked inputs outputs).advanced inputs outputs)
      (count : inputs.acceptedCount = m'.transactions) (last : m'.transactions = m.target) :
      Stepped m inputs outputs (.pass m'.report, m', { outputs with sValid := 0 })
  | active {m' : BenchModel} (high : outputs.resetN ≠ 0) (agrees : Agrees m inputs outputs)
      (advanced : m' = (m.ticked inputs outputs).advanced inputs outputs)
      (count : inputs.acceptedCount = m'.transactions) (more : m'.transactions ≠ m.target) :
      Stepped m inputs outputs (.continue_, m', m'.nextOutputs outputs outputs.transfers)

theorem BenchModel.advanced_target (m : BenchModel) (inputs : BenchInputs) (outputs : BenchOutputs) :
    (m.advanced inputs outputs).target = m.target ∧ (m.advanced inputs outputs).seed = m.seed ∧
      (m.advanced inputs outputs).injectError = m.injectError ∧ (m.advanced inputs outputs).cycles = m.cycles := by
  unfold advanced transferred
  split <;> exact ⟨rfl, rfl, rfl, rfl⟩

theorem BenchModel.step_of_quiet (m : BenchModel) (low : outputs.resetN = 0)
    (quiet : inputs.mValid = 0 ∧ inputs.acceptedCount = 0) :
    m.step inputs outputs =
      if resetCycles ≤ m.cycles + 1 then
        (.continue_, m.ticked inputs outputs,
          (m.ticked inputs outputs).loadSourceForCycle 0
            { outputs with resetN := 1, mReady := (readyOpen m.seed 0).toUInt8 })
      else (.continue_, m.ticked inputs outputs, outputs) := by
  unfold step
  dsimp only
  rw [if_pos low]
  unfold inReset
  exact if_neg (by simp [quiet])

theorem Agrees.step_eq (high : outputs.resetN ≠ 0) (agrees : Agrees m inputs outputs)
    (advanced : m' = (m.ticked inputs outputs).advanced inputs outputs) (count : inputs.acceptedCount = m'.transactions) :
    m.step inputs outputs =
      if m'.transactions = m.target then (.pass m'.report, m', { outputs with sValid := 0 })
      else (.continue_, m', m'.nextOutputs outputs outputs.transfers) := by
  have target := ((m.ticked inputs outputs).advanced_target inputs outputs).1
  rw [← advanced] at target
  have ticked : Agrees (m.ticked inputs outputs) inputs outputs := ⟨agrees.ready, agrees.valid, agrees.payload⟩
  unfold BenchModel.step
  dsimp only
  rw [if_neg high]
  change (m.ticked inputs outputs).active inputs outputs = _
  rw [ticked.active_eq, ← advanced]
  unfold BenchModel.conclude
  rw [if_neg (not_not.mpr count), target]
  rfl

/-- In an active cycle the model fails unless the ports agree and the design counts. -/
theorem BenchModel.step_fails (m : BenchModel) (high : outputs.resetN ≠ 0)
    (wrong : Agrees m inputs outputs →
      inputs.acceptedCount ≠ ((m.ticked inputs outputs).advanced inputs outputs).transactions) :
    ∃ message, (m.step inputs outputs).1 = .fail message := by
  unfold step
  dsimp only
  rw [if_neg high]
  change ∃ message, ((m.ticked inputs outputs).active inputs outputs).1 = _
  obtain failed | agrees := (m.ticked inputs outputs).active_cases inputs outputs
  · exact failed
  · rw [agrees.active_eq]
    unfold conclude
    rw [if_pos (wrong ⟨agrees.ready, agrees.valid, agrees.payload⟩)]
    exact ⟨_, rfl⟩

theorem BenchModel.stepped (m : BenchModel) (inputs : BenchInputs) (outputs : BenchOutputs) :
    Stepped m inputs outputs (m.step inputs outputs) := by
  have fails {result : StepStatus × BenchModel × BenchOutputs} (failed : ∃ message, result.1 = .fail message) :
      Stepped m inputs outputs result := by
    obtain ⟨status, m', outputs'⟩ := result
    obtain ⟨message, rfl⟩ := failed
    exact .fail message m' outputs'
  by_cases low : outputs.resetN = 0
  · by_cases quiet : inputs.mValid = 0 ∧ inputs.acceptedCount = 0
    · rw [m.step_of_quiet low quiet]
      by_cases late : resetCycles ≤ m.cycles + 1
      · rw [if_pos late]
        exact .leave low quiet late
      · rw [if_neg late]
        exact .reset low quiet (UInt64.not_le.mp late)
    · refine fails ?_
      unfold step
      dsimp only
      rw [if_pos low]
      unfold inReset
      rw [if_pos (Decidable.not_and_iff_or_not.mp quiet)]
      exact ⟨_, rfl⟩
  · by_cases right : Agrees m inputs outputs ∧
        inputs.acceptedCount = ((m.ticked inputs outputs).advanced inputs outputs).transactions
    · obtain ⟨agrees, count⟩ := right
      rw [agrees.step_eq low rfl count]
      by_cases last : ((m.ticked inputs outputs).advanced inputs outputs).transactions = m.target
      · rw [if_pos last]
        exact .pass low agrees rfl count last
      · rw [if_neg last]
        exact .active low agrees rfl count last
    · exact fails (m.step_fails low fun agrees count => right ⟨agrees, count⟩)

end Step

/-! ## Transfers -/

/-- What comes with `valid` on either side. -/
structure Transfer where
  data : UInt64
  id : UInt16
  last : UInt8
  user : UInt8
deriving DecidableEq, Repr

/-- The transfer with this number, as the source drives it. -/
def Transfer.driven (seed : UInt64) (i : ℕ) : Transfer :=
  let index := UInt64.ofNat i
  ⟨payload seed index, index.toUInt16, Stream.last index, userValue seed index⟩

/-- And as the sink is to receive it. -/
def Transfer.expected (seed : UInt64) (i : ℕ) : Transfer :=
  let t := driven seed i
  { t with data := transformData t.data t.id }

/-- The digest of what was received. -/
def digestOf (received : List Transfer) : UInt64 :=
  received.foldl (fun digest t => digestUpdate digest t.data t.id t.last t.user) 0

/-- A cycle: what the ports showed, what was driven meanwhile, and the answer. -/
structure Observed where
  inputs : BenchInputs
  driven : BenchOutputs
  status : StepStatus
deriving DecidableEq, Repr

/-- What the design took from the source in this cycle. -/
def Observed.taken (o : Observed) : Option Transfer :=
  if o.driven.resetN ≠ 0 ∧ o.driven.sValid ≠ 0 ∧ o.inputs.sReady ≠ 0 then
    some ⟨o.driven.sData, o.driven.sId, o.driven.sLast, o.driven.sUser⟩
  else none

/-- What the design gave to the sink. -/
def Observed.given (o : Observed) : Option Transfer :=
  if o.driven.resetN ≠ 0 ∧ o.inputs.mValid ≠ 0 ∧ o.driven.mReady ≠ 0 then
    some ⟨o.inputs.mData, o.inputs.mId, o.inputs.mLast, o.inputs.mUser⟩
  else none

structure Watch where
  model : BenchModel
  values : BenchOutputs
  going : Bool
deriving DecidableEq, Repr

/-- The model beside a design of which nothing is known: any inputs may come until it answers. -/
def watch : Machine Watch BenchInputs Observed where
  step s inputs :=
    if s.going then
      let (status, model, values) := s.model.step inputs s.values
      some (⟨model, values, status = .continue_⟩, [⟨inputs, s.values, status⟩])
    else none

def Watch.start (config : Config) : Watch :=
  let (model, values) := BenchModel.new config
  ⟨model, values, true⟩

/-- The books after so many transfers. -/
structure Books (config : Config) (m : BenchModel) (seen : List Observed) (n : ℕ) : Prop where
  target : m.target = config.target
  seed : m.seed = config.seed
  transactions : m.transactions = .ofNat n
  digest : m.digest = digestOf ((List.range n).map (Transfer.expected config.seed))
  taken : seen.filterMap Observed.taken = (List.range n).map (Transfer.driven config.seed)
  given : seen.filterMap Observed.given = (List.range n).map (Transfer.expected config.seed)

/-- What is driven with `s_valid` is the next transfer, until it is taken. -/
def Offers (config : Config) (values : BenchOutputs) (n : ℕ) : Prop :=
  values.resetN ≠ 0 → values.sValid ≠ 0 →
    (⟨values.sData, values.sId, values.sLast, values.sUser⟩ : Transfer) = .driven config.seed n

section Books

variable {config : Config} {m m' : BenchModel} {inputs : BenchInputs} {values : BenchOutputs} {seen : List Observed} {n : ℕ}

theorem BenchModel.load_of_open (m : BenchModel) (cycle : UInt64) (opens : sourceOpen m.seed cycle = true) :
    m.loadSourceForCycle cycle values =
      { resetN := values.resetN, sValid := 1, sData := payload m.seed m.transactions, sId := m.transactions.toUInt16
        sLast := last m.transactions, sUser := userValue m.seed m.transactions, mReady := values.mReady
        injectError := m.injectError.toUInt8 } := by
  unfold loadSourceForCycle
  rw [if_pos opens]

theorem BenchModel.load_of_closed (m : BenchModel) (cycle : UInt64) (closed : ¬ sourceOpen m.seed cycle = true) :
    m.loadSourceForCycle cycle values = { values with sValid := 0, injectError := m.injectError.toUInt8 } := by
  unfold loadSourceForCycle
  rw [if_neg closed]

theorem Offers.load (seed : m.seed = config.seed) (transactions : m.transactions = .ofNat n) (cycle : UInt64) :
    Offers config (m.loadSourceForCycle cycle values) n := by
  intro _ valid
  by_cases opens : sourceOpen m.seed cycle = true
  · rw [m.load_of_open cycle opens, seed, transactions]
    rfl
  · rw [m.load_of_closed cycle opens] at valid
    exact absurd rfl valid

theorem Offers.next (offers : Offers config values n) (seed : m.seed = config.seed) {n' : ℕ}
    (transactions : m.transactions = .ofNat n') (same : values.transfers = false → n' = n) :
    Offers config (m.nextOutputs values values.transfers) n' := by
  unfold BenchModel.nextOutputs
  dsimp only
  split
  · exact Offers.load seed transactions _
  · next held =>
    simp only [Bool.or_eq_true, decide_eq_true_eq, not_or, Bool.not_eq_true] at held
    rw [same held.1]
    intro high valid
    exact offers high valid

/-- The expected payload is the expected transfer. -/
theorem expected_of_expects (seed : m.seed = config.seed) (transactions : m.transactions = .ofNat n)
    (expects : m.expects inputs = true) :
    (⟨inputs.mData, inputs.mId, inputs.mLast, inputs.mUser⟩ : Transfer) = .expected config.seed n := by
  simp only [BenchModel.expects, Bool.and_eq_true, beq_iff_eq, seed, transactions] at expects
  obtain ⟨⟨⟨data, id⟩, last⟩, user⟩ := expects
  rw [data, id, last, user]
  rfl

theorem Books.advance (books : Books config m seen n) (offers : Offers config values n) (high : values.resetN ≠ 0)
    (agrees : Agrees m inputs values) (status : StepStatus) :
    Books config ((m.ticked inputs values).advanced inputs values) (seen ++ [⟨inputs, values, status⟩])
      (if values.transfers then n + 1 else n) := by
  obtain ⟨target, seed, -, -⟩ := (m.ticked inputs values).advanced_target inputs values
  cases transfers : values.transfers with
  | true =>
    obtain ⟨valid, ready⟩ : values.sValid ≠ 0 ∧ values.mReady ≠ 0 := by
      simpa [BenchOutputs.transfers] using transfers
    have received := expected_of_expects books.seed books.transactions (agrees.payload valid)
    have taken : Observed.taken ⟨inputs, values, status⟩ = some (.driven config.seed n) := by
      rw [← offers high valid]
      exact if_pos ⟨high, valid, by rwa [agrees.ready]⟩
    have given : Observed.given ⟨inputs, values, status⟩ = some (.expected config.seed n) := by
      rw [← received]
      exact if_pos ⟨high, by rwa [agrees.valid], ready⟩
    have advanced : (m.ticked inputs values).advanced inputs values = (m.ticked inputs values).transferred inputs :=
      if_pos transfers
    refine ⟨target.trans books.target, seed.trans books.seed, ?_, ?_, ?_, ?_⟩
    · rw [advanced, if_pos rfl]
      change m.transactions + 1 = _
      rw [books.transactions, UInt64.ofNat_add]
      rfl
    · rw [advanced, if_pos rfl, List.range_succ, List.map_append, digestOf, List.foldl_append, ← digestOf, ← books.digest]
      change digestUpdate m.digest inputs.mData inputs.mId inputs.mLast inputs.mUser = _
      rw [List.map_singleton, ← received]
      rfl
    · rw [List.filterMap_append, books.taken, if_pos rfl, List.range_succ, List.map_append]
      simp [taken]
    · rw [List.filterMap_append, books.given, if_pos rfl, List.range_succ, List.map_append]
      simp [given]
  | false =>
    have idle : values.sValid = 0 ∨ values.mReady = 0 := by
      simpa [BenchOutputs.transfers, Decidable.or_iff_not_imp_left] using transfers
    have taken : Observed.taken ⟨inputs, values, status⟩ = none := by
      refine if_neg fun both => ?_
      rcases idle with invalid | unready
      · exact both.2.1 invalid
      · exact both.2.2 (agrees.ready.trans unready)
    have given : Observed.given ⟨inputs, values, status⟩ = none := by
      refine if_neg fun both => ?_
      rcases idle with invalid | unready
      · exact both.2.1 (agrees.valid.trans invalid)
      · exact both.2.2 unready
    have advanced : (m.ticked inputs values).advanced inputs values = m.ticked inputs values :=
      if_neg (by simp [transfers])
    refine ⟨target.trans books.target, seed.trans books.seed, ?_, ?_, ?_, ?_⟩
    · rw [advanced]
      exact books.transactions
    · rw [advanced]
      exact books.digest
    · rw [List.filterMap_append, books.taken]
      simp [taken]
    · rw [List.filterMap_append, books.given]
      simp [given]

end Books

/-- The books of a run: it goes on, or it is over with a report. -/
inductive Watched (config : Config) (s : Watch) (seen : List Observed) : Prop
  | going {n : ℕ} (going : s.going = true) (books : Books config s.model seen n) (few : n < config.target.toNat)
      (offers : Offers config s.values n) (on : ∀ report, seen.getLast?.map Observed.status ≠ some (.pass report))
  | passed (stopped : s.going = false) (books : Books config s.model seen config.target.toNat)
      (report : seen.getLast?.map Observed.status = some (.pass s.model.report))
  | failed (message : String) (stopped : s.going = false) (report : seen.getLast?.map Observed.status = some (.fail message))

section Watch

variable {config : Config} {s t : Watch} {inputs : BenchInputs} {seen out : List Observed}

theorem Watched.start (config : Config) : Watched config (.start config) [] :=
  .going (n := 0) rfl ⟨rfl, rfl, rfl, rfl, rfl, rfl⟩ config.positive (fun high => absurd rfl high) (by simp)

theorem Watch.step_cases (stepped : watch.step s inputs = some (t, out)) :
    s.going = true ∧ ∃ status model values, s.model.step inputs s.values = (status, model, values) ∧
      t = ⟨model, values, status = .continue_⟩ ∧ out = [⟨inputs, s.values, status⟩] := by
  obtain ⟨going, same⟩ := Option.ite_none_right_eq_some.mp stepped
  obtain ⟨rfl, rfl⟩ := Prod.mk.inj (Option.some.inj same)
  exact ⟨going, _, _, _, rfl, rfl, rfl⟩

/-- A cycle in reset moves nothing. -/
theorem Books.idle {m m' : BenchModel} {n : ℕ} (books : Books config m seen n) (values : BenchOutputs) (low : values.resetN = 0)
    (same : m'.target = m.target ∧ m'.seed = m.seed ∧ m'.transactions = m.transactions ∧ m'.digest = m.digest) :
    Books config m' (seen ++ [⟨inputs, values, .continue_⟩]) n := by
  have taken : Observed.taken ⟨inputs, values, .continue_⟩ = none := if_neg fun both => both.1 low
  have given : Observed.given ⟨inputs, values, .continue_⟩ = none := if_neg fun both => both.1 low
  refine ⟨same.1.trans books.target, same.2.1.trans books.seed, same.2.2.1.trans books.transactions,
    same.2.2.2.trans books.digest, ?_, ?_⟩
  · rw [List.filterMap_append, books.taken]
    simp [taken]
  · rw [List.filterMap_append, books.given]
    simp [given]

theorem Books.target_iff {m : BenchModel} {n : ℕ} (books : Books config m seen n) (le : n ≤ config.target.toNat) :
    m.transactions = config.target ↔ n = config.target.toNat := by
  rw [books.transactions, ← UInt64.toNat_inj, UInt64.toNat_ofNat_of_lt' (Nat.lt_of_le_of_lt le config.target.toNat_lt)]

theorem Watched.step (watched : Watched config s seen) (stepped : watch.step s inputs = some (t, out)) :
    Watched config t (seen ++ out) := by
  obtain ⟨going, status, model, values, answer, rfl, rfl⟩ := Watch.step_cases stepped
  cases watched with
  | passed stopped | failed _ stopped => exact absurd (stopped.symm.trans going) (by decide)
  | @going n _ books few offers _ =>
    have next := s.model.stepped inputs s.values
    rw [answer] at next
    have on (report : BenchReport) :
        (seen ++ [(⟨inputs, s.values, .continue_⟩ : Observed)]).getLast?.map Observed.status ≠ some (.pass report) := by
      simp
    cases next with
    | fail message => exact .failed message rfl (by rw [List.getLast?_concat]; rfl)
    | reset low => exact .going rfl (books.idle s.values low ⟨rfl, rfl, rfl, rfl⟩) few offers on
    | leave low =>
      exact .going rfl (books.idle s.values low ⟨rfl, rfl, rfl, rfl⟩) few (Offers.load books.seed books.transactions 0) on
    | pass high agrees advanced count last =>
      have booked := books.advance offers high agrees (.pass model.report)
      rw [← advanced] at booked
      have le : (if s.values.transfers = true then n + 1 else n) ≤ config.target.toNat := by
        split <;> omega
      rw [(booked.target_iff le).mp (last.trans books.target)] at booked
      exact .passed rfl booked (by rw [List.getLast?_concat]; rfl)
    | active high agrees advanced count more =>
      have booked := books.advance offers high agrees .continue_
      rw [← advanced] at booked
      have le : (if s.values.transfers = true then n + 1 else n) ≤ config.target.toNat := by
        split <;> omega
      have fewer := Nat.lt_of_le_of_ne le fun all => more (((booked.target_iff le).mpr all).trans books.target.symm)
      exact .going rfl booked fewer
        (offers.next booked.seed booked.transactions fun unmoved => if_neg (by simp [unmoved])) on

theorem mix64_injective : Function.Injective mix64 := by
  intro x y same
  exact (UInt64.add_left_inj Rng.gamma).mp (Rng.mix_injective same)

theorem transformData_injective (id : UInt16) : Function.Injective fun data => transformData data id := by
  intro x y same
  have rotated := (UInt64.add_left_inj _).mp ((UInt64.add_left_inj _).mp same)
  have mixed := BitVec.rotateLeft_injective (w := 64) (r := 13) (by decide) (congrArg UInt64.toBitVec rotated)
  exact UInt64.toBitVec_inj.mp (BitVec.xor_left_inj 0xd6e8feb86659fd93#64 |>.mp mixed)

theorem payload_eq_iff (seed : UInt64) {i j : ℕ} :
    payload seed (.ofNat i) = payload seed (.ofNat j) ↔ i ≡ j [MOD 2 ^ 64] := by
  rw [payload, payload, mix64_injective.eq_iff, UInt64.xor_right_inj, ← Rng.counter_eq_iff 0, UInt64.zero_add,
    UInt64.zero_add]
  rfl

/-- Two expected transfers are never the same. -/
theorem Transfer.expected_injOn (seed : UInt64) {i j : ℕ} (hi : i < 2 ^ 64) (hj : j < 2 ^ 64)
    (same : expected seed i = expected seed j) : i = j := by
  have ids : (UInt64.ofNat i).toUInt16 = (UInt64.ofNat j).toUInt16 := congrArg Transfer.id same
  have data : transformData (payload seed (.ofNat i)) (UInt64.ofNat i).toUInt16 =
      transformData (payload seed (.ofNat j)) (UInt64.ofNat j).toUInt16 := congrArg Transfer.data same
  rw [ids] at data
  exact Nat.ModEq.eq_of_lt_of_lt ((payload_eq_iff seed).mp (transformData_injective _ data)) hi hj

/-- A pass certifies the transfers: the design took what the source drives and gave what the sink expects, all of
it, in order and without repetition, and the report is about them. -/
theorem pass_certifies {config : Config} {inputs : List BenchInputs} {s : Watch} {seen : List Observed}
    {report : BenchReport} (ran : watch.run (.start config) inputs = some (s, seen))
    (passed : seen.getLast?.map Observed.status = some (.pass report)) :
    let n := config.target.toNat
    seen.filterMap Observed.taken = (List.range n).map (Transfer.driven config.seed) ∧
      seen.filterMap Observed.given = (List.range n).map (Transfer.expected config.seed) ∧
      (seen.filterMap Observed.given).Nodup ∧ report.transactions = config.target ∧
      report.digest = digestOf (seen.filterMap Observed.given) := by
  have watched : Watched config s seen :=
    watch.run_invariant_nil (Watched config) (.start config) (fun watched stepped => watched.step stepped) ran
  cases watched with
  | going _ _ _ _ on => exact absurd passed (on report)
  | failed message stopped failed =>
    rw [failed] at passed
    cases passed
  | passed stopped books same =>
    rw [same] at passed
    cases passed
    refine ⟨books.taken, books.given, ?_, ?_, ?_⟩
    · rw [books.given]
      refine List.Nodup.map_on (fun i hi j hj => ?_) List.nodup_range
      have small := config.target.toNat_lt
      exact Transfer.expected_injOn config.seed (Nat.lt_trans (List.mem_range.mp hi) small)
        (Nat.lt_trans (List.mem_range.mp hj) small)
    · exact books.transactions.trans UInt64.ofNat_toNat
    · rw [books.given]
      exact books.digest

end Watch

/-- Four cycles in reset and two transfers; the second payload is held for a cycle until the sink is ready. -/
def held : List BenchInputs :=
  let second := transformData (payload 22 1) 1
  List.replicate 4 ⟨0, 0, 0, 0, 0, 0, 0⟩ ++
    [⟨1, 1, transformData (payload 22 0) 0, 0, 0, userValue 22 0, 1⟩, ⟨0, 1, second, 1, 0, userValue 22 1, 1⟩,
      ⟨1, 1, second, 1, 0, userValue 22 1, 2⟩]

theorem pass_certifies_held :
    ∃ s seen, watch.run (.start ⟨⟨2, 22, false⟩, by decide⟩) held = some (s, seen) ∧
      seen.filterMap Observed.taken = [Transfer.driven 22 0, Transfer.driven 22 1] ∧
      seen.filterMap Observed.given = [Transfer.expected 22 0, Transfer.expected 22 1] ∧
      digestOf [Transfer.expected 22 0, Transfer.expected 22 1] = 14758780351807485542 := by
  have accepted : (watch.run (.start ⟨⟨2, 22, false⟩, by decide⟩) held).isSome := by decide +kernel
  have passed : ((watch.run (.start ⟨⟨2, 22, false⟩, by decide⟩) held).map fun run => run.2.getLast?.map Observed.status) =
      some (some (.pass ⟨2, 3, 14758780351807485542, 18025696488774215892⟩)) := by decide +kernel
  obtain ⟨⟨s, seen⟩, ran⟩ := Option.isSome_iff_exists.mp accepted
  rw [ran] at passed
  obtain ⟨taken, given, -, -, digest⟩ := pass_certifies ran (Option.some.inj passed)
  have received : seen.filterMap Observed.given = [Transfer.expected 22 0, Transfer.expected 22 1] := given
  rw [received] at digest
  exact ⟨s, seen, ran, taken, received, digest.symm⟩

end Rustdv.Stream
