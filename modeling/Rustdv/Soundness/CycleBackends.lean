import Rustdv.Model.Cycle

/-! # The two cycle backends agree

Both backends are the same lockstep composition of design and model: clock the design under the
outputs, read its ports, step the model. The direct host runs it directly. In the adapter every rising
edge finds the outputs of the last step driven and the adapter waiting for it, because the next time
step comes no later than the clock's falling edge; so the n-th sample is the n-th cycle, whatever order
the simulator chooses within a time step. Each event brings the adapter closer to its verdict.
-/

namespace Rustdv.Cycle

open Phase (Logic)

variable {M I O D : Type}

/-! ## Lockstep -/

/-- Design and model before a cycle. -/
structure Lockstep (M O D : Type) where
  dut : D
  model : M
  outputs : O

section Lockstep

variable (model : CycleModel M I O) (dut : Dut D I O) (first : Lockstep M O D)

/-- One cycle: the inputs it shows, the model's answer, and what is left. -/
def Lockstep.cycle (c : Lockstep M O D) : I × Except String CycleStatus × Lockstep M O D :=
  let state := dut.posedge c.dut c.outputs
  let inputs := dut.read state c.outputs
  let (result, m, outputs) := model.step c.model inputs c.outputs
  (inputs, result, ⟨state, m, outputs⟩)

/-- The first `n` cycles, if all of them continue: their inputs and outputs, and what is left. -/
def before : ℕ → Option (List (I × O) × Lockstep M O D)
  | 0 => some ([], first)
  | n + 1 =>
      match before n with
      | none => none
      | some (pairs, c) =>
          match c.cycle model dut with
          | (inputs, .ok .continue_, next) => some (pairs ++ [(inputs, next.outputs)], next)
          | _ => none

/-- The verdict is the answer of cycle `n`; the pairs include that cycle's. -/
structure Verdict (n : ℕ) (pairs : List (I × O)) (result : Except String CycleStatus)
    (last : Lockstep M O D) : Prop where
  reached : ∃ earlier c inputs, before model dut first n = some (earlier, c) ∧
    c.cycle model dut = (inputs, result, last) ∧ pairs = earlier ++ [(inputs, last.outputs)]
  ends : result ≠ .ok .continue_

end Lockstep

section Lockstep

variable {model : CycleModel M I O} {dut : Dut D I O} {first : Lockstep M O D}

theorem before_succ {n : ℕ} {pairs : List (I × O)} {c next : Lockstep M O D} {inputs : I}
    (here : before model dut first n = some (pairs, c))
    (goes : c.cycle model dut = (inputs, .ok .continue_, next)) :
    before model dut first (n + 1) = some (pairs ++ [(inputs, next.outputs)], next) := by
  rw [before, here]
  dsimp only
  rw [goes]

theorem length_before {n : ℕ} {pairs : List (I × O)} {c : Lockstep M O D}
    (here : before model dut first n = some (pairs, c)) : pairs.length = n := by
  induction n generalizing pairs c with
  | zero =>
    cases here
    rfl
  | succ n ih =>
    rw [before] at here
    split at here
    · contradiction
    · next earlier prior at_n =>
      split at here
      · cases here
        rw [List.length_append, ih at_n]
        rfl
      · contradiction

/-- Nothing comes after a verdict. -/
theorem Verdict.le {n m : ℕ} {pairs earlier : List (I × O)} {result : Except String CycleStatus}
    {last c : Lockstep M O D} (verdict : Verdict model dut first n pairs result last)
    (here : before model dut first m = some (earlier, c)) : m ≤ n := by
  by_contra! after
  have beyond : before model dut first (n + 1) = none := by
    obtain ⟨earlier, prior, inputs, reached, answers, rfl⟩ := verdict.reached
    rw [before, reached]
    dsimp only
    rw [answers]
    have ends := verdict.ends
    split
    · next same =>
      cases same
      exact absurd rfl ends
    · rfl
  have none_from (k : ℕ) : before model dut first (n + 1 + k) = none := by
    induction k with
    | zero => exact beyond
    | succ k ih => rw [← Nat.add_assoc, before, ih]
  have late := none_from (m - (n + 1))
  rw [Nat.add_sub_cancel' after, here] at late
  contradiction

/-- There is one verdict. -/
theorem Verdict.unique {n m : ℕ} {pairs pairs' : List (I × O)} {result result' : Except String CycleStatus}
    {last last' : Lockstep M O D} (one : Verdict model dut first n pairs result last)
    (other : Verdict model dut first m pairs' result' last') :
    pairs = pairs' ∧ result = result' ∧ last = last' := by
  obtain ⟨earlier, c, inputs, reached, answers, rfl⟩ := one.reached
  obtain ⟨earlier', c', inputs', reached', answers', rfl⟩ := other.reached
  obtain rfl : n = m := Nat.le_antisymm (other.le reached) (one.le reached')
  obtain ⟨rfl, rfl⟩ := Prod.mk.inj (Option.some.inj (reached.symm.trans reached'))
  obtain ⟨rfl, rest⟩ := Prod.mk.inj (answers.symm.trans answers')
  obtain ⟨rfl, rfl⟩ := Prod.mk.inj rest
  exact ⟨rfl, rfl, rfl⟩

theorem before_extends {n : ℕ} {earlier : List (I × O)} {c : Lockstep M O D}
    (here : before model dut first n = some (earlier, c)) (k : ℕ) {later : List (I × O)}
    {c' : Lockstep M O D} (there : before model dut first (n + k) = some (later, c')) :
    earlier <+: later := by
  induction k generalizing later c' with
  | zero =>
    rw [Nat.add_zero, here] at there
    cases there
    exact List.prefix_rfl
  | succ k ih =>
    rw [← Nat.add_assoc, before] at there
    split at there
    · contradiction
    · next prior _ reached =>
      split at there
      · cases there
        exact (ih reached).trans (List.prefix_append ..)
      · contradiction

/-- The pairs of the earlier cycles come first in those of the verdict. -/
theorem Verdict.prefix_of {n m : ℕ} {pairs earlier : List (I × O)} {result : Except String CycleStatus}
    {last c : Lockstep M O D} (verdict : Verdict model dut first n pairs result last)
    (here : before model dut first m = some (earlier, c)) : earlier <+: pairs := by
  have le := verdict.le here
  obtain ⟨prior, c', inputs, reached, -, rfl⟩ := verdict.reached
  rw [← Nat.add_sub_cancel' le] at reached
  exact (before_extends here _ reached).trans (List.prefix_append ..)

end Lockstep

/-! ## The direct host -/

/-- A call of `step` by its inputs and outputs. -/
def Call.ofPair (pair : I × O) : Call I O := .step pair.1 pair.2

/-- The host before a cycle. -/
structure HostAt (h : Host M I O D) (pairs : List (I × O)) (c : Lockstep M O D) : Prop where
  dut : h.dut.state = c.dut
  context : h.context = c.model
  outputs : h.outputs = c.outputs
  calls : h.calls = pairs.map Call.ofPair

/-- `status as u32` of a step, an error being `Fail`. -/
def statusOf : Except String CycleStatus → ℕ
  | .ok status => status.raw
  | .error _ => CycleStatus.fail.raw

theorem statusOf_eq_continue_iff (result : Except String CycleStatus) :
    statusOf result = CycleStatus.continue_.raw ↔ result = .ok .continue_ := by
  rcases result with _ | status
  · simp [statusOf, CycleStatus.raw]
  · cases status <;> simp [statusOf, CycleStatus.raw]

theorem statusOf_eq_pass_iff (result : Except String CycleStatus) :
    statusOf result = CycleStatus.pass.raw ↔ result = .ok .pass := by
  rcases result with _ | status
  · simp [statusOf, CycleStatus.raw]
  · cases status <;> simp [statusOf, CycleStatus.raw]

theorem statusOf_valid (result : Except String CycleStatus) :
    statusOf result = CycleStatus.continue_.raw ∨ statusOf result = CycleStatus.pass.raw ∨
      statusOf result = CycleStatus.fail.raw := by
  rcases result with _ | status
  · exact .inr (.inr rfl)
  · cases status <;> decide

section Host

variable {model : CycleModel M I O} {dut : Dut D I O} {first : Lockstep M O D}

theorem stepContext_eq (m : M) (inputs : I) (outputs : O) :
    stepContext model m inputs outputs =
      (statusOf (model.step m inputs outputs).1, (model.step m inputs outputs).2) := by
  rcases answer : model.step m inputs outputs with ⟨_ | status, m', outputs'⟩ <;>
    simp only [stepContext, answer, statusOf]

/-- An iteration of the main loop is a cycle. -/
theorem HostAt.cycle {h : Host M I O D} {pairs : List (I × O)} {c next : Lockstep M O D} {inputs : I}
    {result : Except String CycleStatus} (here : HostAt h pairs c)
    (answers : c.cycle model dut = (inputs, result, next)) :
    HostAt (h.cycle model dut) (pairs ++ [(inputs, next.outputs)]) next ∧
      (h.cycle model dut).status = statusOf result := by
  obtain ⟨rfl, rest⟩ := Prod.mk.inj answers
  obtain ⟨rfl, rfl⟩ := Prod.mk.inj rest
  simp only [Host.cycle, Verilated.tick_eq, here.dut, here.context, here.outputs, stepContext_eq]
  refine ⟨⟨rfl, rfl, rfl, ?_⟩, if_pos (statusOf_valid _)⟩
  rw [here.calls, List.map_append, List.map_singleton]
  rfl

/-- The loop goes through the cycles until one does not continue, or the limit is reached. -/
theorem HostAt.loop {h : Host M I O D} {n : ℕ} {pairs : List (I × O)} {c : Lockstep M O D} (left : ℕ)
    (reached : before model dut first n = some (pairs, c)) (here : HostAt h pairs c)
    (going : h.status = CycleStatus.continue_.raw) :
    (h.loop model dut left).status = CycleStatus.continue_.raw ∨
      ∃ k pairs' result last, Verdict model dut first k pairs' result last ∧
        HostAt (h.loop model dut left) pairs' last ∧
        (h.loop model dut left).status = statusOf result := by
  induction left generalizing h n pairs c with
  | zero => exact .inl going
  | succ left ih =>
    rcases answers : c.cycle model dut with ⟨inputs, result, next⟩
    obtain ⟨after, status⟩ := here.cycle answers
    rw [Host.loop, if_pos going]
    by_cases goes : result = .ok .continue_
    · rw [goes] at answers status
      exact ih (before_succ reached answers) after status
    · have stops : (h.cycle model dut).status ≠ CycleStatus.continue_.raw := by
        rw [status]
        exact fun same => goes ((statusOf_eq_continue_iff result).mp same)
      have done : (h.cycle model dut).loop model dut left = h.cycle model dut := by
        cases left with
        | zero => rfl
        | succ left => rw [Host.loop, if_neg stops]
      rw [done]
      exact .inr ⟨n, _, result, next, ⟨⟨pairs, c, inputs, reached, answers, rfl⟩, goes⟩, after, status⟩

theorem combine_eq_pass_iff (result : Except String CycleStatus) (finish : Except String Unit) :
    combine result finish = .ok .pass ↔ result = .ok .pass ∧ finish = .ok () := by
  rcases result with _ | status <;> rcases finish with _ | ⟨⟩ <;> simp [combine]

/-- After a verdict the host finishes once, and its exit code says whether all passed. -/
theorem HostAt.conclude {h : Host M I O D} {pairs : List (I × O)} {last : Lockstep M O D}
    {result : Except String CycleStatus} (here : HostAt h pairs last)
    (status : h.status = statusOf result) (ends : result ≠ .ok .continue_) :
    (h.conclude model).calls = pairs.map Call.ofPair ++ [.finish] ∧
      ((h.conclude model).code = 0 ↔ combine result (model.finish last.model) = .ok .pass) := by
  have stopped : statusOf result ≠ CycleStatus.continue_.raw :=
    fun same => ends ((statusOf_eq_continue_iff result).mp same)
  rw [combine_eq_pass_iff, ← statusOf_eq_pass_iff]
  simp only [Host.conclude, status, stopped, ↓reduceIte, here.calls, here.context, finishContext,
    true_and]
  rcases model.finish last.model with _ | ⟨⟩
  · simp [CycleStatus.raw]
  · simp [CycleStatus.raw]

end Host

/-! ## The VPI adapter -/

section Vpi

variable {model : CycleModel M I O} {dut : Dut D I O} {first : Lockstep M O D} {clock : Clock}
  {closures : Closures I O}

/-- The clock between two rising edges: the next one is not in the past. -/
inductive Waits (s : Vpi M O D) : Prop
  | queued (at_clock : s.clock = .queued) (level : s.clk ≠ .one)
  | high {t : ℕ} (at_clock : s.clock = .high t) (level : s.clk = .one) (ahead : s.now ≤ t)
  | low {t : ℕ} (at_clock : s.clock = .low t) (level : s.clk = .zero) (ahead : s.now ≤ t)

/-- Where the adapter is in cycle `c`. -/
inductive Place (dut : Dut D I O) (clock : Clock) (c : Lockstep M O D) (s : Vpi M O D) : Prop
  /-- Waiting for the rising edge, the outputs driven. -/
  | waiting (body : s.body = .edge false) (state : s.dut = c.dut) (driven : s.driven = c.outputs)
      (waits : Waits s)
  /-- At the rising edge's time, the design clocked and not yet sampled. -/
  | clocked (body : s.body = .edge true ∨ s.body = .readOnly) (state : s.dut = dut.posedge c.dut c.outputs)
      (driven : s.driven = c.outputs) (at_clock : s.clock = .high (s.now + clock.high))
      (level : s.clk = .one)
  /-- The previous cycle sampled; the next time step comes no later than the falling edge. -/
  | stepped {since : ℕ} (body : s.body = .nextStep since) (state : s.dut = c.dut)
      (falls : (∃ t, s.clock = .high t ∧ s.clk = .one ∧ since < t ∧ since ≤ s.now ∧ s.now ≤ t) ∨
        ∃ t, s.clock = .low t ∧ s.clk = .zero ∧ since < s.now ∧ s.now < t)

/-- The adapter is in the lockstep cycle that its calls have led to, or has returned the verdict. -/
inductive Tracks (model : CycleModel M I O) (dut : Dut D I O) (first : Lockstep M O D) (clock : Clock)
    (s : Vpi M O D) (seen : List (Call I O)) : Prop
  | going {n : ℕ} {pairs : List (I × O)} {c : Lockstep M O D}
      (reached : before model dut first n = some (pairs, c)) (calls : seen = pairs.map Call.ofPair)
      (context : s.model = c.model) (outputs : s.outputs = c.outputs) (place : Place dut clock c s)
  | returned {n : ℕ} {pairs : List (I × O)} {result : Except String CycleStatus} {last : Lockstep M O D}
      (verdict : Verdict model dut first n pairs result last)
      (calls : seen = pairs.map Call.ofPair ++ [.finish]) (at_clock : s.clock = .cancelled)
      (body : s.body = .returned (combine result (model.finish last.model)))

theorem setClk_zero {s : Vpi M O D} (level : s.clk = .one) :
    s.setClk dut .zero = { s with clk := .zero } := by
  have other : s.clk ≠ .zero := by rw [level]; decide
  simp only [Vpi.setClk, if_neg other]

theorem setClk_one {s : Vpi M O D} (level : s.clk ≠ .one) (body : s.body = .edge false) :
    s.setClk dut .one =
      { s with clk := .one, dut := dut.posedge s.dut s.driven, body := .edge true } := by
  simp only [Vpi.setClk, if_neg level, body]

theorem setClk_keeps (s : Vpi M O D) (v : Logic) :
    (s.setClk dut v).model = s.model ∧ (s.setClk dut v).outputs = s.outputs := by
  simp only [Vpi.setClk]
  split_ifs
  · exact ⟨rfl, rfl⟩
  · split <;> exact ⟨rfl, rfl⟩

theorem pollClock_keeps {s t : Vpi M O D} (polled : s.pollClock dut clock = some t) :
    t.model = s.model ∧ t.outputs = s.outputs := by
  simp only [Vpi.pollClock] at polled
  split at polled
  · cases polled
    exact setClk_keeps _ _
  · split_ifs at polled
    cases polled
    exact setClk_keeps _ _
  · split_ifs at polled
    cases polled
    exact setClk_keeps _ _
  · contradiction

/-- The clock rises only where the adapter waits for it; otherwise it falls. -/
theorem Place.polls {c : Lockstep M O D} {s t : Vpi M O D} (place : Place dut clock c s)
    (polled : s.pollClock dut clock = some t) :
    (s.body = .edge false ∧ s.dut = c.dut ∧ s.driven = c.outputs ∧
      t = { s with clock := .high (s.now + clock.high), clk := .one, dut := dut.posedge s.dut s.driven,
                   body := .edge true }) ∨
      (s.clock = .high s.now ∧ s.clk = .one ∧ (s.body = .edge false ∨ ∃ since, s.body = .nextStep since) ∧
        t = { s with clock := .low (s.now + clock.low), clk := .zero }) := by
  have high := clock.high_pos
  cases place with
  | waiting body state driven waits =>
    cases waits with
    | queued at_clock level =>
      simp only [Vpi.pollClock, at_clock, Option.some.injEq] at polled
      rw [setClk_one (s := { s with clock := .high (s.now + clock.high) }) level body] at polled
      exact .inl ⟨body, state, driven, polled.symm⟩
    | high at_clock level =>
      simp only [Vpi.pollClock, at_clock] at polled
      split_ifs at polled with due
      rw [setClk_zero (s := { s with clock := .low (s.now + clock.low) }) level, Option.some.injEq] at polled
      exact .inr ⟨due ▸ at_clock, level, .inl body, polled.symm⟩
    | low at_clock level =>
      have rises : s.clk ≠ .one := by rw [level]; decide
      simp only [Vpi.pollClock, at_clock] at polled
      split_ifs at polled
      rw [setClk_one (s := { s with clock := .high (s.now + clock.high) }) rises body,
        Option.some.injEq] at polled
      exact .inl ⟨body, state, driven, polled.symm⟩
  | clocked body state driven at_clock level =>
    simp only [Vpi.pollClock, at_clock] at polled
    split_ifs at polled
    omega
  | stepped body state falls =>
    rcases falls with ⟨t, at_clock, level, -, -, -⟩ | ⟨t, at_clock, -, -, ahead⟩
    · simp only [Vpi.pollClock, at_clock] at polled
      split_ifs at polled with due
      rw [setClk_zero (s := { s with clock := .low (s.now + clock.low) }) level, Option.some.injEq] at polled
      exact .inr ⟨due ▸ at_clock, level, .inr ⟨_, body⟩, polled.symm⟩
    · simp only [Vpi.pollClock, at_clock] at polled
      split_ifs at polled
      omega

theorem Place.pollClock {c : Lockstep M O D} {s t : Vpi M O D} (place : Place dut clock c s)
    (polled : s.pollClock dut clock = some t) : Place dut clock c t := by
  have low := clock.low_pos
  rcases place.polls polled with ⟨-, state, driven, rfl⟩ | ⟨at_clock, -, -, rfl⟩
  · exact .clocked (.inl rfl) (by rw [← state, ← driven]) driven rfl rfl
  · cases place with
    | waiting body state driven => exact .waiting body state driven (.low rfl rfl (Nat.le_add_right ..))
    | clocked _ _ _ other =>
      have same := ClockAt.high.inj (at_clock.symm.trans other)
      have high := clock.high_pos
      omega
    | stepped body state falls =>
      rcases falls with ⟨t, other, -, ahead, -, -⟩ | ⟨t, other, -, -, -⟩
      · have due := ClockAt.high.inj (other.symm.trans at_clock)
        exact .stepped body state (.inr ⟨_, rfl, rfl, due ▸ ahead, Nat.lt_add_of_pos_right low⟩)
      · cases other.symm.trans at_clock

/-- What an event does. -/
inductive Moves (model : CycleModel M I O) (dut : Dut D I O) (closures : Closures I O) (clock : Clock)
    (s t : Vpi M O D) (out : List (Call I O)) : Prop
  | pollClock (polled : s.pollClock dut clock = some t) (quiet : out = [])
  | pollEdge (body : s.body = .edge true) (next : t = { s with body := .readOnly }) (quiet : out = [])
  | readOnly (body : s.body = .readOnly) (sampled : s.sample model dut closures = (t, out))
  | nextStep {since : ℕ} (body : s.body = .nextStep since) (later : since < s.now)
      (driven : s.drive model closures = (t, out))
  | advance {u : ℕ} (idle : ¬ s.busy = true) (later : s.now < u)
      (ahead : ∀ d, s.clock.deadline = some d → u ≤ d) (unsettled : s.body ≠ .readOnly)
      (next : t = { s with now := u }) (quiet : out = [])

theorem moves_of_step {s t : Vpi M O D} {out : List (Call I O)} {event : Event}
    (stepped : vpiStep model dut closures clock s event = some (t, out)) : Moves model dut closures clock s t out := by
  cases event with
  | pollClock =>
    obtain ⟨next, polled, same⟩ := Option.map_eq_some_iff.mp stepped
    cases same
    exact .pollClock polled rfl
  | pollEdge =>
    simp only [vpiStep] at stepped
    split at stepped
    · next body =>
      cases stepped
      exact .pollEdge body rfl rfl
    · contradiction
  | readOnly =>
    simp only [vpiStep] at stepped
    split at stepped
    · next body =>
      split_ifs at stepped
      exact .readOnly body (Option.some.inj stepped)
    · contradiction
  | nextStep =>
    simp only [vpiStep] at stepped
    split at stepped
    · next body =>
      split_ifs at stepped with later
      exact .nextStep body later (Option.some.inj stepped)
    · contradiction
  | advance u =>
    have unsettled : s.body ≠ .readOnly := by
      intro body
      simp [vpiStep, body] at stepped
    have allowed : ¬ (s.busy || u ≤ s.now || s.clock.deadline.any (· < u)) = true ∧
        some ({ s with now := u }, []) = some (t, out) := by
      simp only [vpiStep] at stepped
      split at stepped
      · contradiction
      · contradiction
      · split_ifs at stepped with refused
        exact ⟨refused, stepped⟩
      · split_ifs at stepped with refused
        exact ⟨refused, stepped⟩
    obtain ⟨free, same⟩ := allowed
    cases same
    simp only [Bool.or_eq_true, not_or, decide_eq_true_eq, Option.any_eq_true, not_exists, not_and,
      Nat.not_lt, Nat.not_le] at free
    exact .advance free.1.1 free.1.2 free.2 unsettled rfl rfl

/-- Nothing is left to be done at this time. -/
theorem not_busy {s : Vpi M O D} (idle : ¬ s.busy = true) :
    s.clock ≠ .queued ∧ s.clock.deadline ≠ some s.now ∧ s.body ≠ .edge true ∧
      ∀ since, s.body = .nextStep since → s.now ≤ since := by
  rw [Vpi.busy, Bool.or_eq_true, not_or] at idle
  obtain ⟨clock, body⟩ := idle
  refine ⟨?_, ?_, ?_, ?_⟩
  · intro at_clock
    simp [at_clock] at clock
  · intro due
    cases at_clock : s.clock <;> simp_all [ClockAt.deadline]
  · intro at_edge
    simp [at_edge] at body
  · intro since at_next
    simpa [at_next] using body

/-- Time passes up to the clock's timer, and not while the adapter has something to do. -/
theorem Place.advance {c : Lockstep M O D} {s : Vpi M O D} {u : ℕ} (place : Place dut clock c s)
    (idle : ¬ s.busy = true) (later : s.now < u) (ahead : ∀ d, s.clock.deadline = some d → u ≤ d)
    (unsettled : s.body ≠ .readOnly) : Place dut clock c { s with now := u } := by
  obtain ⟨polled, -, unfired, fresh⟩ := not_busy idle
  cases place with
  | waiting body state driven waits =>
    refine .waiting body state driven ?_
    cases waits with
    | queued at_clock => exact absurd at_clock polled
    | high at_clock level => exact .high at_clock level (ahead _ (by rw [at_clock]; rfl))
    | low at_clock level => exact .low at_clock level (ahead _ (by rw [at_clock]; rfl))
  | clocked body => exact (body.elim unfired unsettled).elim
  | stepped body state falls =>
    have now := fresh _ body
    rcases falls with ⟨t, at_clock, level, falling, since, -⟩ | ⟨t, -, -, since, -⟩
    · have reach : u ≤ t := ahead t (by rw [at_clock]; rfl)
      exact .stepped body state (.inl ⟨t, at_clock, level, falling, since.trans later.le, reach⟩)
    · omega

/-- `sample` reads the ports as they are, and `drive` puts the outputs on them. -/
def Closures.Exact (closures : Closures I O) : Prop :=
  (∀ ports, closures.sample ports = .ok ports) ∧ ∀ outputs, closures.drive outputs = .ok outputs

theorem Closures.Exact.drives (exact : closures.Exact) (s : Vpi M O D) :
    s.drive model closures = ({ s with driven := s.outputs, body := .edge false }, []) := by
  simp only [Vpi.drive, exact.2]

/-- Sampling at the settled rising edge is the cycle: its call, and the next cycle or the verdict. -/
theorem Tracks.sample (exact : closures.Exact) {s : Vpi M O D} {n : ℕ} {pairs : List (I × O)} {c : Lockstep M O D}
    (reached : before model dut first n = some (pairs, c)) (context : s.model = c.model)
    (outputs : s.outputs = c.outputs) (state : s.dut = dut.posedge c.dut c.outputs)
    (driven : s.driven = c.outputs) (at_clock : s.clock = .high (s.now + clock.high))
    (level : s.clk = .one) :
    Tracks model dut first clock (s.sample model dut closures).1
      (pairs.map Call.ofPair ++ (s.sample model dut closures).2) := by
  have high := clock.high_pos
  rcases answer : model.step c.model (dut.read (dut.posedge c.dut c.outputs) c.outputs) c.outputs with
    ⟨result, m, next⟩
  have answers : c.cycle model dut =
      (dut.read (dut.posedge c.dut c.outputs) c.outputs, result, ⟨dut.posedge c.dut c.outputs, m, next⟩) := by
    simp only [Lockstep.cycle, answer]
  have ends (stops : result ≠ .ok .continue_) : Verdict model dut first n _ result _ :=
    ⟨⟨pairs, c, _, reached, answers, rfl⟩, stops⟩
  simp only [Vpi.sample, exact.1, state, driven, context, outputs, answer]
  rcases result with e | _ | _ | _
  · exact .returned (ends (by simp)) (by simp [Call.ofPair]) rfl rfl
  · have later : s.now < s.now + clock.high := by omega
    refine .going (before_succ reached answers) (by simp [Call.ofPair]) rfl rfl ?_
    exact .stepped rfl rfl (.inl ⟨_, at_clock, level, later, Nat.le_refl _, Nat.le_add_right ..⟩)
  · exact .returned (ends (by simp)) (by simp [Call.ofPair]) rfl rfl
  · exact .returned (ends (by simp)) (by simp [Call.ofPair]) rfl rfl

/-- Each event keeps the adapter on the lockstep track. -/
theorem Tracks.step (exact : closures.Exact) {s t : Vpi M O D} {seen out : List (Call I O)} {event : Event}
    (tracks : Tracks model dut first clock s seen)
    (stepped : vpiStep model dut closures clock s event = some (t, out)) :
    Tracks model dut first clock t (seen ++ out) := by
  cases tracks with
  | returned verdict calls at_clock body =>
    -- An adapter that has returned takes no event.
    cases event <;> simp [vpiStep, Vpi.pollClock, at_clock, body] at stepped
  | going reached calls context outputs place =>
    cases moves_of_step stepped with
    | pollClock polled quiet =>
      have keeps := pollClock_keeps polled
      rw [quiet, List.append_nil]
      exact .going reached calls (keeps.1.trans context) (keeps.2.trans outputs) (place.pollClock polled)
    | pollEdge body next quiet =>
      rw [quiet, List.append_nil, next]
      cases place with
      | waiting other => cases other.symm.trans body
      | clocked _ state driven at_clock level =>
        exact .going reached calls context outputs (.clocked (.inr rfl) state driven at_clock level)
      | stepped other => cases other.symm.trans body
    | readOnly body sampled =>
      cases place with
      | waiting other => cases other.symm.trans body
      | clocked _ state driven at_clock level =>
        have track := Tracks.sample exact reached context outputs state driven at_clock level
        rwa [sampled, ← calls] at track
      | stepped other => cases other.symm.trans body
    | nextStep body later drives =>
      rw [exact.drives] at drives
      cases drives
      rw [List.append_nil]
      cases place with
      | waiting other => cases other.symm.trans body
      | clocked other => rcases other with other | other <;> cases other.symm.trans body
      | stepped _ state falls =>
        refine .going reached calls context outputs (.waiting rfl state outputs ?_)
        rcases falls with ⟨t, at_clock, level, -, -, ahead⟩ | ⟨t, at_clock, level, -, ahead⟩
        · exact .high at_clock level ahead
        · exact .low at_clock level ahead.le
    | advance idle later ahead unsettled next quiet =>
      rw [quiet, List.append_nil, next]
      exact .going reached calls context outputs (place.advance idle later ahead unsettled)

/-- A run of the adapter stays on the track. -/
theorem Tracks.run (exact : closures.Exact) {s t : Vpi M O D} {events : List Event} {seen : List (Call I O)}
    (initial : Tracks model dut first clock s [])
    (ran : (vpi model dut closures clock).run s events = some (t, seen)) :
    Tracks model dut first clock t seen :=
  (vpi model dut closures clock).run_invariant_nil (Tracks model dut first clock) initial (Tracks.step exact) ran

/-! ### The adapter returns -/

/-- An event is possible until the adapter has returned. -/
theorem Tracks.progress {s : Vpi M O D} {seen : List (Call I O)}
    (tracks : Tracks model dut first clock s seen) :
    (∃ result, s.body = .returned result) ∨ ∃ event, (vpiStep model dut closures clock s event).isSome := by
  have high := clock.high_pos
  cases tracks with
  | returned _ _ _ body => exact .inl ⟨_, body⟩
  | going _ _ _ _ place =>
    right
    cases place with
    | waiting body _ _ waits =>
      cases waits with
      | queued at_clock => exact ⟨.pollClock, by simp [vpiStep, Vpi.pollClock, at_clock]⟩
      | @high t at_clock _ ahead | @low t at_clock _ ahead =>
        rcases ahead.eq_or_lt with due | early
        · exact ⟨.pollClock, by simp [vpiStep, Vpi.pollClock, at_clock, due]⟩
        · refine ⟨.advance t, ?_⟩
          simp [vpiStep, body, Vpi.busy, at_clock, ClockAt.deadline, early, early.ne']
    | clocked body _ _ at_clock _ =>
      rcases body with body | body
      · exact ⟨.pollEdge, by simp [vpiStep, body]⟩
      · have undue : clock.high ≠ 0 := by omega
        exact ⟨.readOnly, by simp [vpiStep, body, Vpi.busy, at_clock, undue]⟩
    | @stepped since body _ falls =>
      rcases Nat.lt_or_ge since s.now with due | fresh
      · exact ⟨.nextStep, by simp [vpiStep, body, due]⟩
      · rcases falls with ⟨t, at_clock, -, falling, -, -⟩ | ⟨t, -, -, past, -⟩
        · have early : s.now < t := by omega
          refine ⟨.advance t, ?_⟩
          simp [vpiStep, body, Vpi.busy, at_clock, ClockAt.deadline, early, early.ne', fresh]
        · omega

/-- The time and the falling edge that are left before the next rising edge. -/
def ClockAt.toRise (clock : Clock) (now : ℕ) : ClockAt → ℕ
  | .queued | .cancelled => 0
  | .high t => t - now + clock.low + 1
  | .low t => t - now

/-- A bound on the events left before the next sample. -/
def Vpi.distance (clock : Clock) (s : Vpi M O D) : ℕ :=
  match s.body with
  | .returned _ => 0
  | .readOnly => 1
  | .edge true => 2
  | .edge false => 3 + s.clock.toRise clock s.now
  | .nextStep _ => 4 + s.clock.toRise clock s.now

theorem Place.not_cancelled {c : Lockstep M O D} {s : Vpi M O D} (place : Place dut clock c s) :
    s.clock ≠ .cancelled := by
  intro cancelled
  cases place with
  | waiting _ _ _ waits => cases waits <;> simp_all
  | clocked _ _ _ at_clock => cases cancelled.symm.trans at_clock
  | stepped _ _ falls =>
    rcases falls with ⟨_, at_clock, -⟩ | ⟨_, at_clock, -⟩ <;> cases cancelled.symm.trans at_clock

/-- An event that is not a sample brings the next one closer. -/
theorem Place.closer (exact : closures.Exact) {c : Lockstep M O D} {s t : Vpi M O D} {out : List (Call I O)}
    (place : Place dut clock c s) (moves : Moves model dut closures clock s t out)
    (unsettled : s.body ≠ .readOnly) :
    t.distance clock < s.distance clock ∧ out = [] := by
  cases moves with
  | pollClock polled quiet =>
    refine ⟨?_, quiet⟩
    rcases place.polls polled with ⟨body, -, -, rfl⟩ | ⟨at_clock, -, body | ⟨since, body⟩, rfl⟩
    · simp only [Vpi.distance, body]
      omega
    · simp only [Vpi.distance, body, ClockAt.toRise, at_clock]
      omega
    · simp only [Vpi.distance, body, ClockAt.toRise, at_clock]
      omega
  | pollEdge body next quiet =>
    refine ⟨?_, quiet⟩
    simp only [next, Vpi.distance, body]
    omega
  | readOnly body => exact absurd body unsettled
  | nextStep body later drives =>
    rw [exact.drives] at drives
    cases drives
    refine ⟨?_, rfl⟩
    simp only [Vpi.distance, body]
    omega
  | @advance u idle later ahead _ next quiet =>
    refine ⟨?_, quiet⟩
    obtain ⟨polled, -, unfired, -⟩ := not_busy idle
    have nearer : s.clock.toRise clock u < s.clock.toRise clock s.now := by
      cases at_clock : s.clock with
      | queued => exact absurd at_clock polled
      | high t | low t =>
        have reach := ahead t (by rw [at_clock]; rfl)
        simp only [ClockAt.toRise]
        omega
      | cancelled => exact absurd at_clock place.not_cancelled
    rw [next]
    cases place with
    | waiting body | stepped body =>
      simp only [Vpi.distance, body]
      omega
    | clocked body => exact (body.elim unfired unsettled).elim

/-- The adapter after a sample. -/
theorem sample_cases (exact : closures.Exact) {s t : Vpi M O D} {out : List (Call I O)}
    (sampled : s.sample model dut closures = (t, out)) :
    (∃ result, t.body = .returned result) ∨
      (t.body = .nextStep s.now ∧ t.clock = s.clock ∧ t.now = s.now ∧ out.length = 1) := by
  simp only [Vpi.sample, exact.1] at sampled
  split at sampled
  · cases sampled
    exact .inr ⟨rfl, rfl, rfl, rfl⟩
  · cases sampled
    exact .inl ⟨_, rfl⟩

/-- A bound on the events left before the adapter returns, with a verdict in cycle `n`. -/
def Vpi.potential (clock : Clock) (n calls : ℕ) (s : Vpi M O D) : ℕ :=
  match s.body with
  | .returned _ => 0
  | _ => (n + 1 - calls) * (clock.high + clock.low + 6) + s.distance clock

theorem potential_of_going {n calls : ℕ} {s : Vpi M O D} (going : ∀ result, s.body ≠ .returned result) :
    s.potential clock n calls = (n + 1 - calls) * (clock.high + clock.low + 6) + s.distance clock := by
  rw [Vpi.potential]
  split
  · next body => exact absurd body (going _)
  · rfl

theorem Place.not_returned {c : Lockstep M O D} {s : Vpi M O D} (place : Place dut clock c s)
    (result : Except String CycleStatus) : s.body ≠ .returned result := by
  intro returned
  cases place with
  | waiting body => cases body.symm.trans returned
  | clocked body => rcases body with body | body <;> cases body.symm.trans returned
  | stepped body => cases body.symm.trans returned

theorem potential_le (clock : Clock) (n calls : ℕ) (s : Vpi M O D) :
    s.potential clock n calls ≤ (n + 1 - calls) * (clock.high + clock.low + 6) + s.distance clock := by
  rw [Vpi.potential]
  split
  · exact Nat.zero_le _
  · exact Nat.le_refl _

/-- In ReadOnly the clock has just risen. -/
theorem Place.risen {c : Lockstep M O D} {s : Vpi M O D} (place : Place dut clock c s)
    (settled : s.body = .readOnly) : s.clock = .high (s.now + clock.high) := by
  cases place with
  | waiting body => cases settled.symm.trans body
  | clocked _ _ _ at_clock => exact at_clock
  | stepped body => cases settled.symm.trans body

/-- In ReadOnly the only event is the sample. -/
theorem Place.samples {c : Lockstep M O D} {s t : Vpi M O D} {out : List (Call I O)}
    (place : Place dut clock c s) (settled : s.body = .readOnly)
    (moves : Moves model dut closures clock s t out) : s.sample model dut closures = (t, out) := by
  cases moves with
  | pollClock polled =>
    rcases place.polls polled with ⟨body, -⟩ | ⟨-, -, body | ⟨_, body⟩, -⟩ <;>
      cases settled.symm.trans body
  | pollEdge body => cases settled.symm.trans body
  | readOnly _ sampled => exact sampled
  | nextStep body => cases settled.symm.trans body
  | advance _ _ _ unsettled => exact absurd settled unsettled

/-- An adapter that has not returned has made no more calls than there are cycles before the verdict. -/
theorem Tracks.length_le {n : ℕ} {pairs : List (I × O)} {result : Except String CycleStatus}
    {last : Lockstep M O D} (verdict : Verdict model dut first n pairs result last) {s : Vpi M O D}
    {seen : List (Call I O)} (tracks : Tracks model dut first clock s seen)
    (going : ∀ result, s.body ≠ .returned result) : seen.length ≤ n := by
  cases tracks with
  | returned _ _ _ body => exact absurd body (going _)
  | going reached calls =>
    rw [calls, List.length_map, length_before reached]
    exact verdict.le reached

/-- Each event uses up some of the bound. -/
theorem Tracks.closer (exact : closures.Exact) {n : ℕ} {pairs : List (I × O)} {result : Except String CycleStatus}
    {last : Lockstep M O D} (verdict : Verdict model dut first n pairs result last)
    {s t : Vpi M O D} {seen out : List (Call I O)} {event : Event}
    (tracks : Tracks model dut first clock s seen)
    (stepped : vpiStep model dut closures clock s event = some (t, out)) :
    t.potential clock n (seen ++ out).length < s.potential clock n seen.length := by
  have after := tracks.step exact stepped
  cases tracks with
  | returned _ _ at_clock body =>
    cases event <;> simp [vpiStep, Vpi.pollClock, at_clock, body] at stepped
  | going reached calls context outputs place =>
    rw [potential_of_going place.not_returned]
    have moves := moves_of_step stepped
    by_cases settled : s.body = .readOnly
    · have near : s.distance clock = 1 := by rw [Vpi.distance, settled]
      rcases sample_cases exact (place.samples settled moves) with ⟨_, body⟩ | ⟨body, at_clock, now, one⟩
      · simp only [Vpi.potential, body]
        omega
      · -- One more cycle, and at most a whole period to its sample.
        have far : t.distance clock = 4 + (clock.high + clock.low + 1) := by
          simp only [Vpi.distance, body, at_clock, place.risen settled, now, ClockAt.toRise]
          omega
        have going : ∀ result, t.body ≠ .returned result := by
          intro result returned
          cases body.symm.trans returned
        have room := after.length_le verdict going
        have fewer : n + 1 - seen.length = n + 1 - (seen ++ out).length + 1 := by
          rw [List.length_append, one] at room ⊢
          omega
        rw [potential_of_going going, fewer, Nat.succ_mul, far, near]
        omega
    · obtain ⟨nearer, rfl⟩ := place.closer exact moves settled
      have bound := potential_le clock n seen.length t
      rw [List.append_nil]
      omega

theorem Tracks.run_length (exact : closures.Exact) {n : ℕ} {pairs : List (I × O)} {result : Except String CycleStatus}
    {last : Lockstep M O D} (verdict : Verdict model dut first n pairs result last)
    {s t : Vpi M O D} {seen out : List (Call I O)} {events : List Event}
    (tracks : Tracks model dut first clock s seen)
    (ran : (vpi model dut closures clock).run s events = some (t, out)) :
    events.length ≤ s.potential clock n seen.length := by
  induction events generalizing s seen out with
  | nil => exact Nat.zero_le _
  | cons event rest ih =>
    obtain ⟨mid, head, later, stepped, suffix, rfl⟩ :=
      (vpi model dut closures clock).run_cons_eq_some_iff.mp ran
    have closer := tracks.closer exact verdict stepped
    have left := ih (tracks.step exact stepped) suffix
    rw [List.length_cons]
    omega

end Vpi

/-! ## Agreement -/

variable (model : CycleModel M I O) (dut : Dut D I O) (bindings : Bindings O)
  (closures : Closures I O)

/-- What the adapter has called is a prefix of what the host calls. It returns after boundedly many events, and then
with all of these calls and the host's verdict. -/
theorem cycle_backends_agree (clock : Clock) (maxCycles now : ℕ) {clk : Logic} (not_high : clk ≠ .one)
    (exact : closures.Exact)
    (limit : ∀ context outputs, createContext model bindings.valueInit = (some context, outputs) →
      ((Host.start dut bindings context outputs).loop model dut maxCycles).status ≠
        CycleStatus.continue_.raw) :
    let exit := hostMain model dut bindings maxCycles
    match launch model dut bindings closures now clk with
    | .error _ => exit.code = 2 ∧ exit.calls = []
    | .ok s₀ =>
        (∃ pairs : List (I × O), exit.calls = pairs.map Call.ofPair ++ [.finish]) ∧
        (∀ events s seen, (vpi model dut closures clock).run s₀ events = some (s, seen) →
          seen <+: exit.calls ∧
            ∀ result, s.body = .returned result →
              seen = exit.calls ∧ (result = .ok .pass ↔ exit.code = 0)) ∧
        ∃ bound, ∀ events s seen, (vpi model dut closures clock).run s₀ events = some (s, seen) →
          events.length ≤ bound ∧
            ((∃ result, s.body = .returned result) ∨
              ∃ event, ((vpi model dut closures clock).step s event).isSome) := by
  intro exit
  rcases created : model.new bindings.default with ⟨e | context, outputs⟩
  · have null : createContext model bindings.valueInit = (none, outputs) := by
      simp only [createContext, ← bindings.same, created]
    simp only [launch, created, exit, hostMain, null, and_self]
  · have context_some : createContext model bindings.valueInit = (some context, outputs) := by
      simp only [createContext, ← bindings.same, created]
    have start : HostAt (Host.start dut bindings context outputs : Host M I O D) []
        ⟨dut.init, context, outputs⟩ := ⟨rfl, rfl, rfl, rfl⟩
    obtain stuck | ⟨n, pairs, result, last, verdict, ended, status⟩ :=
      start.loop (n := 0) maxCycles rfl rfl
    · exact absurd stuck (limit context outputs context_some)
    · have left : exit = ((Host.start dut bindings context outputs).loop model dut maxCycles).conclude model := by
        simp only [exit, hostMain, context_some]
      obtain ⟨calls, code⟩ := ended.conclude status verdict.ends
      rw [← left] at calls code
      simp only [launch, created, exact.2]
      let s₀ : Vpi M O D := ⟨now, clk, dut.init, outputs, context, outputs, .queued, .edge false⟩
      have initial : Tracks model dut ⟨dut.init, context, outputs⟩ clock s₀ [] :=
        .going (n := 0) rfl rfl rfl rfl (.waiting rfl rfl rfl (.queued rfl not_high))
      refine ⟨⟨pairs, calls⟩, ?_, ?_⟩
      · intro events s seen ran
        rw [calls]
        cases initial.run exact ran with
        | going reached same context' outputs' place =>
          refine ⟨?_, fun result returned => absurd returned (place.not_returned result)⟩
          rw [same]
          exact ((verdict.prefix_of reached).map _).trans (List.prefix_append ..)
        | returned found same at_clock body =>
          obtain ⟨rfl, rfl, rfl⟩ := verdict.unique found
          refine ⟨same ▸ List.prefix_rfl, fun result' returned => ⟨same, ?_⟩⟩
          rw [code, ← BodyAt.returned.inj (body.symm.trans returned)]
      · refine ⟨s₀.potential clock n 0, fun events s seen ran => ?_⟩
        exact ⟨initial.run_length exact verdict ran, (initial.run exact ran).progress⟩

/-- A design that adds what it is driven. -/
def adder : Dut (BitVec 8) (BitVec 8) (BitVec 8) where
  init := 0
  posedge sum driven := sum + driven
  read sum _ := sum

/-- A model that drives 1, 2, 3 and so on until it reads more than 2. -/
def counter : CycleModel Unit (BitVec 8) (BitVec 8) where
  new _ := (.ok (), 1)
  step _ sum outputs := (.ok (if 2 < sum then .pass else .continue_), (), outputs + 1)
  finish _ := .ok ()

/-- Two cycles of the adder: the host exits with 0, and so the adapter passes. -/
theorem cycle_backends_agree_counter :
    (hostMain counter adder ⟨0, 0, rfl⟩ 3).code = 0 ∧
      ∀ events s seen, (vpi counter adder ⟨.ok, .ok⟩ ⟨10, by decide⟩).run
          ⟨0, .zero, 0, 1, (), 1, .queued, .edge false⟩ events = some (s, seen) →
        ∀ result, s.body = .returned result → result = .ok .pass := by
  have exits : (hostMain counter adder ⟨0, 0, rfl⟩ 3).code = 0 := by decide
  have agree := cycle_backends_agree counter adder ⟨0, 0, rfl⟩ ⟨.ok, .ok⟩ ⟨10, by decide⟩ 3 0
    (show Logic.zero ≠ .one by decide) ⟨fun _ => rfl, fun _ => rfl⟩ (by
      rintro ⟨⟩ outputs created
      cases created
      decide)
  refine ⟨exits, fun events s seen ran result returned => ?_⟩
  exact ((agree.2.1 events s seen ran).2 result returned).2.mpr exits

end Rustdv.Cycle
