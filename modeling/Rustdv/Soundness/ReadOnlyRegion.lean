import Rustdv.Soundness.PhaseWaits
import Rustdv.Soundness.RegionInvariant

/-! # No write in ReadOnly, and no ReadOnly for the next test

Every put is preceded by a look at the phase, and nothing changes the phase in between. Every test's
body is first polled where writing is legal, whatever the phase in which the test before it has ended.
-/

namespace Rustdv.Region

open Phase (Hub Simulator SetCall WriteTarget WriteVal PhaseKind)
open Phase.Drain (Draining)
open Runner (Bench Notice TestRegistration regressionTask)
open Component (TestResult)
open Executor (Frame Thread Move Secured Stuck Gone Entries Sound Stepped Meddled Due)

variable {σ Val : Type*} {env : Simulator σ Val}

/-- The write that is attempted. -/
def Act.write : Act → Option SetCall
  | .hub (.set call) | .hub (.setNow call) => some call
  | .clock signal high => some (clockWrite signal high)
  | _ => none

/-- The regions of the simulator are kept by a step after these observations. -/
structure RegionsKept (env : Simulator σ Val) (log : List Sight) (s : World σ) (a : Act) (t : World σ)
    (out : List Sight) : Prop where
  /-- A put is issued in a phase where writing is legal. -/
  puts : ∀ target val, .hub (.applied target val) ∈ out → s.phase ≠ .readOnly ∧ t.phase = s.phase
  sim : s.phase = .readOnly → t.drain.hub.sim = s.drain.hub.sim
  /-- In ReadOnly a write panics, and nothing is buffered. -/
  denied : s.phase = .readOnly → ∀ call, a.write = some call →
    .hub (.panicked (Phase.denied env call.target)) ∈ out ∧
      t.bench.thread = (s.bench.thread.panic (Phase.denied env call.target)).1 ∧
      t.drain.hub.writes = s.drain.hub.writes ∧ t.drain.remaining = s.drain.remaining
  /-- The body of a test is first polled where writing is legal. -/
  bodies : ∀ reg body, .bench (.began reg body) ∈ log → .bench (.exec (.pollBegan body)) ∉ log →
    .bench (.exec (.pollBegan body)) ∈ out → s.phase ≠ .readOnly ∧ t.phase = s.phase

section Kept

variable {s t : World σ} {log out : List Sight}

/-- A panic touches neither the phase nor the writes, and is nothing that the hub shows. -/
theorem panic_frame (s : World σ) (message : String) :
    (s.panic message).1.phase = s.phase ∧ (s.panic message).1.drain.hub.sim = s.drain.hub.sim ∧
      (s.panic message).1.drain.hub.writes = s.drain.hub.writes ∧
      (s.panic message).1.drain.remaining = s.drain.remaining ∧
      (s.panic message).1.bench.thread = (s.bench.thread.panic message).1 ∧
      (∀ o, .hub o ∉ (s.panic message).2) ∧ ∀ id, .bench (.exec (.pollBegan id)) ∉ (s.panic message).2 := by
  have silent : (s.bench.thread.panic message).2 = [] := by
    rcases Executor.panic_cases s.bench.thread message with ⟨upper, id, below, -, -, same⟩ | ⟨-, same⟩
    · rw [same]
    · rw [same]
  unfold World.panic
  dsimp only
  split_ifs
  · exact ⟨rfl, rfl, rfl, rfl, rfl, by simp [World.heed, Bench.heed], by simp [World.heed, Bench.heed, silent]⟩
  · exact ⟨rfl, rfl, rfl, rfl, rfl, by simp [World.heed, Bench.heed, World.abandon],
      by simp [World.heed, Bench.heed, World.abandon, silent]⟩

theorem settle_frame (s : World σ) (result : Hub σ × List Phase.Obs) :
    (s.settle result).1.phase = result.1.phase ∧ (s.settle result).1.drain.hub.sim = result.1.sim ∧
      (∀ o, .hub o ∈ (s.settle result).2 → o ∈ result.2) ∧
      ∀ id, .bench (.exec (.pollBegan id)) ∉ (s.settle result).2 := by
  unfold World.settle
  dsimp only
  split
  · exact ⟨rfl, rfl, by simp, by simp⟩
  · next text _ =>
    obtain ⟨phase, sim, -, -, -, hub, unpolled⟩ :=
      panic_frame { s with drain := { s.drain with hub := result.1 } } text
    refine ⟨phase, sim, fun o member => ?_, fun id member => ?_⟩
    · have shown := (List.mem_append.mp member).resolve_right (hub o)
      simpa using shown
    · have shown := (List.mem_append.mp member).resolve_right (unpolled id)
      simp at shown

/-- A denied write. -/
theorem settle_denied (s : World σ) (text : String) :
    .hub (.panicked text) ∈ (s.settle (s.drain.hub, [.panicked text])).2 ∧
      (s.settle (s.drain.hub, [.panicked text])).1.bench.thread = (s.bench.thread.panic text).1 ∧
      (s.settle (s.drain.hub, [.panicked text])).1.drain.hub.writes = s.drain.hub.writes ∧
      (s.settle (s.drain.hub, [.panicked text])).1.drain.remaining = s.drain.remaining := by
  obtain ⟨-, -, writes, remaining, thread, -, -⟩ := panic_frame s text
  exact ⟨List.mem_cons_self, thread, writes, remaining⟩

/-- Nothing is put, attempted or polled. -/
theorem regionsKept_quiet {a : Act} (dry : ∀ target val, .hub (.applied target val) ∉ out)
    (sim : t.drain.hub.sim = s.drain.hub.sim) (write : a.write = none)
    (unpolled : ∀ id, .bench (.exec (.pollBegan id)) ∉ out) : RegionsKept env log s a t out where
  puts target val member := absurd member (dry target val)
  sim _ := sim
  denied _ call attempted := by cases write.symm.trans attempted
  bodies _ body _ _ polled := absurd polled (unpolled body)

theorem mem_heed {result : Thread TestResult × List (Executor.Obs TestResult)} {o : Executor.Obs TestResult} :
    .bench (.exec o) ∈ (s.heed result).2 ↔ o ∈ result.2 := by
  simp [World.heed, Bench.heed]

theorem runTasks_quiet (s : World σ) (woken : List Waker) :
    (∀ o, .hub o ∉ (s.runTasks woken).2) ∧ ∀ id, .bench (.exec (.pollBegan id)) ∉ (s.runTasks woken).2 := by
  refine ⟨by simp [World.runTasks, World.heed, Bench.heed], fun id member => ?_⟩
  have shown := mem_heed.mp member
  unfold Thread.runUntilIdle Executor.runUntilIdle at shown
  split_ifs at shown <;> simp at shown

/-- Waiters are fired, and nothing is put. -/
theorem fireAndRun_kept {a : Act} {hub : Hub σ} (first : List Phase.Obs) (kind : PhaseKind)
    (dry : ∀ target val, .applied target val ∉ first) (sim : hub.sim = s.drain.hub.sim) (write : a.write = none) :
    RegionsKept env log s a
      (s.fireAndRun ((Phase.fireWaiters hub kind).1, first ++ (Phase.fireWaiters hub kind).2)).1
      (s.fireAndRun ((Phase.fireWaiters hub kind).1, first ++ (Phase.fireWaiters hub kind).2)).2 := by
  obtain ⟨silent, unpolled⟩ := runTasks_quiet
    { s with drain := ⟨(Phase.fireWaiters hub kind).1, none⟩ }
    (wakers (first ++ (Phase.fireWaiters hub kind).2))
  refine regionsKept_quiet ?_ ((Phase.Drain.fireWaiters_frame hub kind).1.trans sim) write ?_
  · intro target val member
    obtain ⟨o, shown, same⟩ := List.mem_map.mp ((List.mem_append.mp member).resolve_right (silent _))
    cases same
    rcases List.mem_append.mp shown with early | fired
    · exact dry target val early
    · rcases Phase.fireAll_out _ _ fired with ⟨fut, same⟩ | ⟨waker, same⟩
      · cases same
      · cases same
  · intro id member
    have shown := (List.mem_append.mp member).resolve_right (unpolled id)
    simp at shown

theorem enter_kept (kind : PhaseKind) :
    RegionsKept env log s (.enter kind) (s.enter env kind).1 (s.enter env kind).2 := by
  cases kind with
  | readWrite => exact regionsKept_quiet (by simp [World.enter]) rfl rfl (by simp [World.enter])
  | readOnly => exact fireAndRun_kept [.callback .readOnly] .readOnly (by simp) rfl rfl
  | nextTimeStep => exact fireAndRun_kept [.callback .nextTimeStep] .nextTimeStep (by simp) rfl rfl

theorem Contained.next_kept (c : Contained s log) {left : List (WriteTarget × WriteVal)}
    (remaining : s.drain.remaining = some left) :
    RegionsKept env log s .next (s.next env left).1 (s.next env left).2 := by
  obtain ⟨-, phase⟩ := c.draining (by simp [remaining])
  have writable : s.phase ≠ .readOnly := by simp [phase]
  cases left with
  | nil => exact fireAndRun_kept [] .readWrite (by simp) rfl rfl
  | cons w rest =>
    have frames := apply_frames env s.drain.hub w.1 w.2 writable
    unfold World.next
    dsimp only
    split
    · refine ⟨fun _ _ _ => ⟨writable, frames.phase⟩, fun readOnly => absurd readOnly writable,
        fun readOnly => absurd readOnly writable, fun _ body _ _ polled => ?_⟩
      simp at polled
    · refine ⟨fun _ _ _ => ⟨writable, frames.phase⟩, fun readOnly => absurd readOnly writable,
        fun readOnly => absurd readOnly writable, fun _ body _ _ polled => ?_⟩
      simp [World.abandon] at polled

theorem settle_kept {a : Act} {result : Hub σ × List Phase.Obs} (frames : Frames s.drain.hub result.1 result.2)
    (denied : s.phase = .readOnly → ∀ call, a.write = some call →
      result = (s.drain.hub, [.panicked (Phase.denied env call.target)])) :
    RegionsKept env log s a (s.settle result).1 (s.settle result).2 := by
  obtain ⟨phase, sim, shown, unpolled⟩ := settle_frame s result
  refine ⟨fun target val member => ⟨fun readOnly => ?_, phase.trans frames.phase⟩,
    fun readOnly => sim.trans (frames.sim readOnly), fun readOnly call attempted => ?_,
    fun _ body _ _ polled => absurd polled (unpolled body)⟩
  · exact frames.dry readOnly target val (shown _ member)
  · rw [denied readOnly call attempted]
    exact settle_denied s _

/-- A poll that begins is the loop's. -/
theorem Contained.exec_kept (c : Contained s log) {move : Move TestResult} (moved : s.exec move = some (t, out)) :
    RegionsKept env log s (.bench (.exec move)) t out := by
  rcases exec_cases moved with ⟨message, rfl, same⟩ | ⟨-, result, stepped, same⟩
  · obtain ⟨-, sim, -, -, -, silent, unpolled⟩ := panic_frame s message
    have kept : RegionsKept env log s (.bench (.exec (.panic message))) (s.panic message).1 (s.panic message).2 :=
      regionsKept_quiet (fun target val => silent _) sim rfl unpolled
    rwa [same] at kept
  · cases same
    refine ⟨fun target val member => (by simp at member), fun _ => rfl,
      fun _ call attempted => (by cases attempted), fun reg body began unpolled polled => ⟨?_, rfl⟩⟩
    have stepped := Executor.stepped_of_step stepped
    exact (c.bodies reg body began unpolled).of_polled c.sound stepped ((mem_heed (s := s)).mp polled)

/-- The regression begins no poll in its own. -/
theorem chore_kept {a : Runner.Act} {b : Bench} {notices : List Notice} {leaving : Leaving}
    (chore : Chore s.bench a b notices) (own : ∀ move, a ≠ .exec move) :
    RegionsKept env log s (.bench a) { s with bench := b, leaving := leaving } (notices.map .bench) := by
  refine regionsKept_quiet (by simp) rfl (by cases a <;> rfl) fun id member => ?_
  obtain ⟨notice, shown, same⟩ := List.mem_map.mp member
  cases same
  cases chore with
  | note thread stage calm => cases calm _ shown
  | poll body polls control running quiet =>
    obtain ⟨o, seen, same⟩ := List.mem_map.mp shown
    cases same
    cases quiet _ seen
  | begin reg rest turn => simp [Bench.begin, Thread.lift, Executor.spawnNamed, Bench.heed] at shown

theorem Contained.kept (c : Contained s log) {dut : Except String Unit} {a : Act}
    (moved : s.step env dut a = some (t, out)) : RegionsKept env log s a t out := by
  cases a with
  | hub a =>
    obtain ⟨-, moved⟩ := Option.ite_none_right_eq_some.mp moved
    obtain ⟨result, performed, same⟩ := Option.map_eq_some_iff.mp moved
    have kept : RegionsKept env log s (.hub a) (s.settle result).1 (s.settle result).2 := by
      refine settle_kept (perform_frames performed) fun readOnly call attempted => ?_
      cases a with
      | set call' =>
        cases attempted
        exact (Option.some.inj performed).symm.trans (set_denied readOnly call)
      | setNow call' =>
        cases attempted
        exact (Option.some.inj performed).symm.trans (setNow_denied readOnly call)
      | _ => cases attempted
    rwa [same] at kept
  | clock signal high =>
    obtain ⟨-, same⟩ := Option.ite_none_right_eq_some.mp moved
    have kept : RegionsKept env log s (.clock signal high)
        (s.settle (Phase.setNow env s.drain.hub (clockWrite signal high))).1
        (s.settle (Phase.setNow env s.drain.hub (clockWrite signal high))).2 := by
      refine settle_kept (setNow_frames env s.drain.hub _) fun readOnly call attempted => ?_
      cases attempted
      exact setNow_denied readOnly _
    rwa [Option.some.inj same] at kept
  | bench a =>
    cases a with
    | exec move => exact c.exec_kept (Option.ite_none_right_eq_some.mp moved).2
    | begin =>
      obtain ⟨-, moved⟩ := Option.ite_none_right_eq_some.mp moved
      obtain ⟨⟨bench, notices⟩, taken, same⟩ := Option.map_eq_some_iff.mp moved
      cases same
      exact chore_kept (chore_of_step (by simp) taken) (by simp)
    | _ =>
      obtain ⟨⟨bench, notices⟩, taken, same⟩ := Option.map_eq_some_iff.mp moved
      cases same
      exact chore_kept (chore_of_step (by simp) taken) (by simp)
  | hold =>
    cases (Option.ite_none_right_eq_some.mp moved).2
    exact regionsKept_quiet (by simp) rfl rfl (by simp)
  | timer =>
    obtain ⟨-, same⟩ := Option.ite_none_right_eq_some.mp moved
    obtain ⟨silent, unpolled⟩ := runTasks_quiet { s with leaving := .fired } [.task regressionTask]
    cases same
    exact regionsKept_quiet (fun target val => silent _) rfl rfl unpolled
  | enter kind =>
    obtain ⟨-, same⟩ := Option.ite_none_right_eq_some.mp moved
    have kept : RegionsKept env log s (.enter kind) (s.enter env kind).1 (s.enter env kind).2 := enter_kept kind
    rwa [Option.some.inj same] at kept
  | next =>
    obtain ⟨-, moved⟩ := Option.ite_none_right_eq_some.mp moved
    obtain ⟨left, remaining, same⟩ := Option.map_eq_some_iff.mp moved
    have kept : RegionsKept env log s .next (s.next env left).1 (s.next env left).2 := c.next_kept remaining
    rwa [same] at kept
  | finish =>
    obtain ⟨-, moved⟩ := Option.ite_none_right_eq_some.mp moved
    obtain ⟨kind, inside, same⟩ := Option.map_eq_some_iff.mp moved
    cases same
    refine regionsKept_quiet ?_ ?_ rfl (by simp)
    · cases kind <;> simp
    · cases kind <;> rfl

end Kept

/-- In every run no put is issued while the phase is ReadOnly, a write attempted there panics and leaves the
buffer as it is, and the body of every test is first polled where writing is legal. -/
theorem read_only_contained {sim : σ} {tests : List TestRegistration} {dut : Except String Unit} {acts : List Act}
    {s t : World σ} {a : Act} {log out : List Sight}
    (ran : (world env dut).run (World.init sim tests) acts = some (s, log))
    (moved : (world env dut).step s a = some (t, out)) : RegionsKept env log s a t out :=
  (contained_of_run ran).kept moved

/-- Two tests. -/
def settling : TestRegistration := ⟨"settling", "tests.rs", 10, none, false, false, none⟩
def following : TestRegistration := ⟨"following", "tests.rs", 20, none, false, false, none⟩

/-- The first test awaits ReadOnly, writes there and fails; the regression leaves the region and begins the
second one. -/
def endsInReadOnly : List Act :=
  [.bench (.exec .runUntilIdle), .bench (.exec .turn), .bench .begin, .bench .await, .bench (.exec .pollPending),
    .bench (.exec .next),
    .bench (.exec .turn), .hub (.make .readOnly), .hub (.poll 0 (.task 2)), .bench (.exec .pollPending),
    .bench (.exec .next), .bench (.exec .turn),
    .enter .readOnly, .bench (.exec .turn), .hub (.setNow ⟨.logic ⟨3, 8⟩, .u8 9, rfl⟩), .bench (.exec .dropped),
    .bench (.exec .turn), .bench (.finish []), .bench (.exec .next), .bench .score,
    .hold, .bench (.exec .pollPending), .bench (.exec .next), .bench (.exec .turn), .finish,
    .timer, .bench (.exec .turn), .bench .begin, .bench .await, .bench (.exec .pollPending), .bench (.exec .next)]

theorem read_only_contained_endsInReadOnly :
    ∃ s log t, (world Phase.noSimulator (.ok ())).run (World.init () [settling, following]) endsInReadOnly = some (s, log) ∧
      (world Phase.noSimulator (.ok ())).step s (.bench (.exec .turn)) =
        some (t, [.bench (.exec (.pollBegan 3))]) ∧
      RegionsKept Phase.noSimulator log s (.bench (.exec .turn)) t [.bench (.exec (.pollBegan 3))] := by
  obtain ⟨s, log, t, ran, moved⟩ : ∃ s log t,
      (world Phase.noSimulator (.ok ())).run (World.init () [settling, following]) endsInReadOnly = some (s, log) ∧
      (world Phase.noSimulator (.ok ())).step s (.bench (.exec .turn)) =
        some (t, [.bench (.exec (.pollBegan 3))]) := ⟨_, _, _, rfl, rfl⟩
  exact ⟨s, log, t, ran, moved, read_only_contained ran moved⟩

end Rustdv.Region
