import Rustdv.Model.PhaseRegions
import Rustdv.Soundness.DrainOrder
import Rustdv.Soundness.DueTasks

/-! # The regression and the phase

The phase changes only outside of the executor's loop. ReadOnly outlives its callback only if a panic
has left the loop, and then nothing is polled any more. So the timer for which the regression waits
finds the phase restored, and the body of a test, which is spawned where writing is legal, is due in a
loop that runs there.
-/

namespace Rustdv.Region

open Phase (Hub Simulator SetCall WriteTarget WriteVal PhaseKind)
open Phase.Drain (Draining)
open Runner (Bench Notice TestRegistration regressionTask)
open Component (TestResult)
open Executor (Frame Thread Move Secured Stuck Gone Entries Sound Stepped Meddled Due)

variable {σ Val : Type*} {env : Simulator σ Val}

/-! ## The hub -/

section Hub

variable {s t : Hub σ} {out : List Phase.Obs}

/-- What an operation leaves alone in the hub, and what it does not do in ReadOnly. -/
structure Frames (s t : Hub σ) (out : List Phase.Obs) : Prop where
  phase : t.phase = s.phase
  inside : t.inside = s.inside
  sim : s.phase = .readOnly → t.sim = s.sim
  writes : s.phase = .readOnly → t.writes = s.writes
  dry : s.phase = .readOnly → ∀ target val, .applied target val ∉ out

theorem apply_frames (env : Simulator σ Val) (s : Hub σ) (target : WriteTarget) (val : WriteVal)
    (writable : s.phase ≠ .readOnly) :
    Frames s (Phase.apply env s target val).1 (Phase.apply env s target val).2 := by
  unfold Phase.apply
  split
  all_goals exact ⟨rfl, rfl, fun readOnly => absurd readOnly writable, fun _ => rfl, fun readOnly => absurd readOnly writable⟩

theorem schedule_frames (env : Simulator σ Val) (s : Hub σ) (target : WriteTarget) (val : WriteVal) :
    Frames s (Phase.schedule env s target val).1 (Phase.schedule env s target val).2 := by
  unfold Phase.schedule
  split
  · exact ⟨rfl, rfl, fun _ => rfl, fun _ => rfl, by simp⟩
  · next now => exact apply_frames env s target val (by simp [now])
  · next now => exact ⟨rfl, rfl, fun _ => rfl, fun readOnly => (by cases now.symm.trans readOnly), by simp⟩

theorem setNow_frames (env : Simulator σ Val) (s : Hub σ) (call : SetCall) :
    Frames s (Phase.setNow env s call).1 (Phase.setNow env s call).2 := by
  unfold Phase.setNow
  split_ifs with readOnly
  · exact ⟨rfl, rfl, fun _ => rfl, fun _ => rfl, by simp⟩
  · exact ⟨rfl, rfl, fun _ => rfl, fun _ => rfl, by simp⟩
  · exact apply_frames env s call.target call.val readOnly

theorem perform_frames {a : Phase.Action} (performed : perform env s a = some (t, out)) : Frames s t out := by
  have result {result : Hub σ × List Phase.Obs} (same : some result = some (t, out))
      (frames : Frames s result.1 result.2) : Frames s t out := by
    rwa [Option.some.inj same] at frames
  cases a with
  | make kind => exact result performed ⟨rfl, rfl, fun _ => rfl, fun _ => rfl, by simp⟩
  | poll fut waker =>
    obtain ⟨⟨kind, shared⟩, -, same⟩ := Option.map_eq_some_iff.mp performed
    refine result (congrArg some same) ?_
    cases shared with
    | none =>
      simp only [Phase.poll, Phase.register]
      split_ifs <;> exact ⟨rfl, rfl, fun _ => rfl, fun _ => rfl, by simp⟩
    | some cell =>
      simp only [Phase.poll]
      split_ifs <;> exact ⟨rfl, rfl, fun _ => rfl, fun _ => rfl, by simp⟩
  | drop fut =>
    obtain ⟨state, -, same⟩ := Option.map_eq_some_iff.mp performed
    exact result (congrArg some same) ⟨rfl, rfl, fun _ => rfl, fun _ => rfl, by simp⟩
  | set call =>
    refine result performed ?_
    unfold Phase.set
    split_ifs
    · exact ⟨rfl, rfl, fun _ => rfl, fun _ => rfl, by simp⟩
    · exact ⟨rfl, rfl, fun _ => rfl, fun _ => rfl, by simp⟩
    · exact schedule_frames env s call.target call.val
  | setNow call => exact result performed (setNow_frames env s call)
  | fire kind => cases performed
  | finish => cases performed

/-- In ReadOnly both paths deny the write. -/
theorem set_denied (readOnly : s.phase = .readOnly) (call : SetCall) :
    Phase.set env s call = (s, [.panicked (Phase.denied env call.target)]) := by
  unfold Phase.set
  split_ifs
  · rfl
  · simp only [Phase.schedule, readOnly]

theorem setNow_denied (readOnly : s.phase = .readOnly) (call : SetCall) :
    Phase.setNow env s call = (s, [.panicked (Phase.denied env call.target)]) := if_pos readOnly

end Hub

/-! ## What holds in every state -/

/-- What the executor is seen to do. -/
def Sight.exec : Sight → Option (Executor.Obs TestResult)
  | .bench (.exec o) => some o
  | _ => none

theorem Sight.eq_of_exec {sight : Sight} {o : Executor.Obs TestResult} (exec : sight.exec = some o) :
    sight = .bench (.exec o) := by
  unfold Sight.exec at exec
  split at exec
  · rw [Option.some.inj exec]
  · cases exec

/-- Nothing that the executor does, and no test that begins. -/
def Sight.calm : Sight → Bool
  | .bench (.exec _) | .bench (.began ..) => false
  | _ => true

namespace World

def phase (s : World σ) : Phase.SimPhase := s.drain.hub.phase

/-- The task is polled where writing is legal, if ever. -/
def Safe (s : World σ) (id : TaskId) : Prop := Secured (s.phase ≠ .readOnly) s.bench.thread id

end World

/-- The regression and the tests' bodies in the regions of the simulator. -/
structure Contained (s : World σ) (log : List Sight) : Prop where
  sound : Sound s.bench.thread
  entries : Entries s.bench.thread
  born : regressionTask < s.bench.thread.inner.nextId
  draining : s.drain.remaining.isSome = true → s.drain.hub.inside = some .readWrite ∧ s.phase = .readWrite
  /-- ReadOnly outlives its callback only if the loop is stuck. -/
  region : s.phase = .readOnly → s.drain.hub.inside = some .readOnly ∨ Stuck s.bench.thread
  stage : s.leaving ≠ .out → s.bench.stage = .between
  fired : s.leaving = .fired →
    s.bench.thread.inner.control = .polling regressionTask ∧ s.phase ≠ .readOnly ∨ s.Safe regressionTask
  bodies : ∀ reg body, .bench (.began reg body) ∈ log → .bench (.exec (.pollBegan body)) ∉ log → s.Safe body

/-- The executor of a regression that has not run yet. -/
theorem init_sound (tests : List TestRegistration) :
    Sound (Bench.init tests).thread ∧ Entries (Bench.init tests).thread := by
  have ran : (Executor.threads TestResult).run (Thread.init TestResult)
      [.setFailureSink, .spawnNamed "rustdv_regression"] =
        some ((Bench.init tests).thread, [.spawned regressionTask "rustdv_regression"]) := rfl
  refine (Executor.threads TestResult).run_invariant_nil (fun s _ => Sound s ∧ Entries s)
    ⟨Executor.sound_init, fun id entry live => (by cases live)⟩ (fun holds moved => ?_) ran
  have stepped := Executor.stepped_of_step moved
  exact ⟨holds.1.stepped stepped, holds.2.stepped holds.1 stepped⟩

theorem contained_init (sim : σ) (tests : List TestRegistration) : Contained (World.init sim tests) [] where
  sound := (init_sound tests).1
  entries := (init_sound tests).2
  born := Nat.lt_succ_self _
  draining remaining := by cases remaining
  region readOnly := by cases readOnly
  stage leaving := absurd rfl leaving
  fired leaving := by cases leaving
  bodies _ _ member := by cases member

section Regression

variable {b : Bench}

theorem control_of_ownTurn (sound : Sound b.thread) (own : b.ownTurn = true) :
    b.thread.inner.control = .polling regressionTask := by
  have top : b.thread.stack.head? = some (.polling regressionTask) := by simpa [Bench.ownTurn] using own
  obtain ⟨below, stack⟩ := List.head?_eq_some_iff.mp top
  have cut : b.thread.stack = [] ++ .polling regressionTask :: below := stack
  exact (sound.of_polling cut (by simp)).1

/-- The three things that the regression can do in its own poll. -/
inductive Chore (b : Bench) : Runner.Act → Bench → List Notice → Prop where
  | note {a : Runner.Act} {b' : Bench} {notices : List Notice} (thread : b'.thread = b.thread)
      (stage : b.stage = .between → b'.stage = .between) (calm : ∀ n ∈ notices, (Sight.bench n).calm = true) :
      Chore b a b' notices
  | poll {a : Runner.Act} {b' : Bench} {shown : List (Executor.Obs TestResult)} (body : TaskId)
      (polls : Stepped b.thread (.pollHandle body (.task regressionTask)) b'.thread shown)
      (control : b'.thread.inner.control = b.thread.inner.control) (running : b.stage ≠ .between)
      (quiet : ∀ o ∈ shown, o.ofTurn = false) : Chore b a b' (shown.map .exec)
  | begin (reg : TestRegistration) (rest : List TestRegistration) (own : b.ownTurn = true) :
      Chore b .begin (b.begin (.ok ()) reg rest).1 (b.begin (.ok ()) reg rest).2

theorem chore_of_step {dut : Except String Unit} {a : Runner.Act} {b' : Bench} {notices : List Notice}
    (own : ∀ move, a ≠ .exec move) (moved : b.step dut a = some (b', notices)) : Chore b a b' notices := by
  cases a with
  | exec move => exact absurd rfl (own move)
  | callbackPanic msg =>
    cases (Option.ite_none_right_eq_some.mp moved).2
    exact .note rfl (·) (by simp [Sight.calm])
  | skip =>
    simp only [Bench.step] at moved
    split at moved
    · cases (Option.ite_none_right_eq_some.mp moved).2
      exact .note rfl (·) (by simp [Sight.calm])
    · cases moved
  | begin =>
    simp only [Bench.step] at moved
    split at moved
    · next reg rest between more =>
      obtain ⟨⟨turn, -⟩, same⟩ := Option.ite_none_right_eq_some.mp moved
      cases dut with
      | error e =>
        cases same
        exact .note rfl (·) (by simp [Sight.calm])
      | ok _ =>
        cases same
        exact .begin reg rest turn
    · cases moved
  | await =>
    simp only [Bench.step] at moved
    split at moved
    · next reg body running =>
      have polled := Executor.pollHandle_meddled b.thread.inner body (.task regressionTask)
      cases (Option.ite_none_right_eq_some.mp moved).2
      exact .poll body (.meddle (by simp) polled rfl) polled.control (by simp [running]) polled.quiet
    · cases moved
  | finish order =>
    simp only [Bench.step] at moved
    split at moved
    · next reg body running =>
      obtain ⟨raw, -, same⟩ := Option.map_eq_some_iff.mp (Option.ite_none_right_eq_some.mp moved).2
      have polled := Executor.pollHandle_meddled b.thread.inner body (.task regressionTask)
      cases same
      refine .poll body (.meddle (by simp) polled ?_) polled.control (by simp [running]) polled.quiet
      exact List.filter_cons_of_neg (by simp [Executor.Frame.ofLoop])
    · cases moved
  | score =>
    simp only [Bench.step] at moved
    split at moved
    · cases (Option.ite_none_right_eq_some.mp moved).2
      exact .note rfl (fun _ => rfl) (by simp [Sight.calm])
    · cases moved

end Regression

section Steps

variable {s t : World σ} {log out : List Sight}

/-- The executor makes a step. -/
theorem Contained.advance (c : Contained s log) {move : Move TestResult}
    (stepped : Stepped s.bench.thread move t.bench.thread (out.filterMap Sight.exec)) (drain : t.drain = s.drain)
    (leaving : t.leaving = s.leaving) (stage : s.leaving ≠ .out → t.bench.stage = .between)
    (unbegun : ∀ reg body, .bench (.began reg body) ∉ out)
    (own : s.leaving = .fired → s.bench.thread.inner.control = .polling regressionTask →
      t.bench.thread.inner.control = .polling regressionTask ∨ Gone t.bench.thread regressionTask) :
    Contained t (log ++ out) := by
  have phase : t.phase = s.phase := by rw [World.phase, drain, World.phase]
  refine ⟨c.sound.stepped stepped, c.entries.stepped c.sound stepped, ?_, ?_, ?_, leaving ▸ stage, ?_, ?_⟩
  · exact Nat.lt_of_lt_of_le c.born stepped.nextId_le
  · rw [phase, drain]
    exact c.draining
  · rw [phase, drain]
    exact fun readOnly => (c.region readOnly).imp_right fun stuck => (stuck.step c.sound stepped).1
  · rw [leaving]
    intro fired
    rw [World.Safe, phase]
    rcases c.fired fired with ⟨polling, writable⟩ | safe
    · rcases own fired polling with still | gone
      · exact .inl ⟨still, writable⟩
      · exact .inr (.inr (.inl gone))
    · exact (safe.stepped c.sound stepped).imp_left fun ⟨_, writable, control⟩ => ⟨control, writable⟩
  · intro reg body began unpolled
    rw [World.Safe, phase]
    have before := (List.mem_append.mp began).resolve_right (unbegun reg body)
    have safe := c.bodies reg body before (mt (List.mem_append_left _) unpolled)
    refine (safe.stepped c.sound stepped).resolve_left fun ⟨polled, _⟩ => ?_
    obtain ⟨o, member, exec⟩ := List.mem_filterMap.mp polled
    refine unpolled (List.mem_append_right _ ?_)
    rwa [← Sight.eq_of_exec exec]

/-- Nobody polls. -/
theorem Contained.keep (c : Contained s log) (calm : ∀ o ∈ out, o.calm = true)
    (thread : t.bench.thread = s.bench.thread)
    (phase : t.phase = s.phase ∨ s.bench.thread.inner.control = .outside)
    (draining : t.drain.remaining.isSome = true → t.drain.hub.inside = some .readWrite ∧ t.phase = .readWrite)
    (region : t.phase = .readOnly → t.drain.hub.inside = some .readOnly ∨ Stuck s.bench.thread)
    (stage : t.leaving ≠ .out → t.bench.stage = .between) (leaving : t.leaving = .fired → s.leaving = .fired) :
    Contained t (log ++ out) := by
  have safe {id : TaskId} (safe : s.Safe id) : t.Safe id := by
    rw [World.Safe, thread]
    rcases phase with same | outside
    · rwa [same]
    · exact safe.outside outside
  refine ⟨thread ▸ c.sound, thread ▸ c.entries, thread ▸ c.born, draining, thread ▸ region, stage, ?_, ?_⟩
  · intro fired
    rcases c.fired (leaving fired) with ⟨polling, writable⟩ | secured
    · refine .inl ⟨thread ▸ polling, ?_⟩
      rcases phase with same | outside
      · rwa [same]
      · cases outside.symm.trans polling
    · exact .inr (safe secured)
  · intro reg body began unpolled
    have before : .bench (.began reg body) ∈ log := by
      refine (List.mem_append.mp began).resolve_right fun now => ?_
      cases calm _ now
    exact safe (c.bodies reg body before (mt (List.mem_append_left _) unpolled))

/-- What is observed of a step of the executor is what the executor shows. -/
theorem filterMap_exec (shown : List (Executor.Obs TestResult)) :
    ((shown.map Notice.exec).map Sight.bench).filterMap Sight.exec = shown := by
  rw [List.map_map, List.filterMap_map]
  exact List.filterMap_some

theorem unbegun_exec (shown : List (Executor.Obs TestResult)) (reg : TestRegistration) (body : TaskId) :
    .bench (.began reg body) ∉ (shown.map Notice.exec).map Sight.bench := by
  simp

theorem Contained.heed (c : Contained s log) {move : Move TestResult}
    {result : Thread TestResult × List (Executor.Obs TestResult)}
    (stepped : Stepped s.bench.thread move result.1 result.2)
    (own : s.leaving = .fired → s.bench.thread.inner.control = .polling regressionTask →
      result.1.inner.control = .polling regressionTask ∨ Gone result.1 regressionTask) :
    Contained (s.heed result).1 (log ++ (s.heed result).2) := by
  have seen : Stepped s.bench.thread move result.1 ((s.heed result).2.filterMap Sight.exec) := by
    rwa [show (s.heed result).2.filterMap Sight.exec = result.2 from filterMap_exec result.2]
  exact c.advance seen rfl rfl c.stage (unbegun_exec result.2) own

/-- A panic that leaves the loop leaves the callback that has run it. -/
theorem Contained.panic (c : Contained s log)
    (runs : s.bench.thread.inner.control ≠ .outside ∨ s.outsideRuns = true) (message : String) :
    Contained (s.panic message).1 (log ++ (s.panic message).2) := by
  have stepped := Executor.panic_stepped s.bench.thread message
  have heeded := c.heed stepped fun _ polling => .inr (c.sound.panic_gone polling message)
  unfold World.panic
  dsimp only
  split_ifs with polled
  · exact heeded
  · have clear : ∀ frame ∈ s.bench.thread.stack, frame.isPolling = false := by simpa using polled
    rw [← List.append_assoc]
    refine heeded.keep (by simp [World.abandon, Sight.calm]) rfl (.inl rfl) ?_ ?_ heeded.stage (·)
    · intro remaining
      obtain ⟨inside, phase⟩ := c.draining remaining
      exact ⟨(if_pos remaining).trans inside, phase⟩
    · intro readOnly
      rcases c.region readOnly with inside | stuck
      · have busy : s.bench.thread.inner.control ≠ .outside := by
          refine runs.resolve_right fun nested => ?_
          simp only [World.outsideRuns, inside, Option.isNone_some, Bool.false_or] at nested
          cases readOnly.symm.trans (c.draining nested).2
        exact .inr (c.sound.stuck_of_escape clear busy message)
      · exact .inr (stuck.step c.sound stepped).1

/-- The observations of the hub are calm. -/
theorem calm_hub (shown : List Phase.Obs) : ∀ o ∈ shown.map Sight.hub, o.calm = true := by
  simp [Sight.calm]

theorem Contained.settle (c : Contained s log) {result : Hub σ × List Phase.Obs}
    (frames : Frames s.drain.hub result.1 result.2) (runs : s.codeRuns = true) :
    Contained (s.settle result).1 (log ++ (s.settle result).2) := by
  have kept : Contained { s with drain := { s.drain with hub := result.1 } } (log ++ result.2.map .hub) := by
    refine c.keep (calm_hub result.2) rfl (.inl frames.phase) ?_ ?_ c.stage (·)
    · rw [World.phase, frames.phase, frames.inside]
      exact c.draining
    · rw [World.phase, frames.phase, frames.inside]
      exact c.region
  unfold World.settle
  dsimp only
  split
  · exact kept
  · next text found =>
    rw [← List.append_assoc]
    refine kept.panic ?_ text
    have runs := (Bool.and_eq_true_iff.mp runs).2
    simpa only [World.outsideRuns, frames.inside, Bool.or_eq_true, decide_eq_true_iff] using runs

/-- A move is a panic, or a step of the executor. -/
theorem exec_cases {move : Move TestResult} (moved : s.exec move = some (t, out)) :
    (∃ message, move = .panic message ∧ s.panic message = (t, out)) ∨
      (∀ message, move ≠ .panic message) ∧
        ∃ result, s.bench.thread.step move = some result ∧ s.heed result = (t, out) := by
  cases move with
  | panic message => exact .inl ⟨message, rfl, Option.some.inj (Option.ite_none_right_eq_some.mp moved).2⟩
  | _ => exact .inr ⟨by simp, Option.map_eq_some_iff.mp moved⟩

theorem Contained.exec (c : Contained s log) {move : Move TestResult} (permitted : s.permits move = true)
    (moved : s.exec move = some (t, out)) : Contained t (log ++ out) := by
  rcases exec_cases moved with ⟨message, rfl, same⟩ | ⟨calm, result, stepped, same⟩
  · have reached : s.bench.thread.inner.control ≠ .outside ∨ s.outsideRuns = true := by
      unfold World.permits at permitted
      split_ifs at permitted with own
      · exact .inl (by simp [control_of_ownTurn c.sound own])
      · simpa using permitted
    have panicked := c.panic reached message
    rwa [same] at panicked
  · have heeded := c.heed (Executor.stepped_of_step stepped) ?_
    · rwa [same] at heeded
    · intro fired polling
      rcases c.sound.control_of_step polling stepped with still | ⟨value, rfl⟩ | rfl | ⟨message, rfl⟩
      · exact .inl still
      · exact .inr (c.sound.ready_gone polling stepped)
      · -- `leave_read_only` does not wait any more when its timer has fired
        have own : s.bench.ownTurn = true := decide_eq_true (c.sound.top_of_pending polling stepped)
        simp [World.permits, own, c.stage (by simp [fired]), fired] at permitted
      · exact absurd rfl (calm message)

/-- A callback ends with `run_until_idle`. -/
theorem Contained.runTasks (c : Contained s log) (top : s.bench.thread.stack = []) (woken : List Waker) :
    Contained (s.runTasks woken).1 (log ++ (s.runTasks woken).2) := by
  have outside := c.sound.outside_of_nil top
  let woke : Thread TestResult := ⟨Executor.wake s.bench.thread.inner woken, s.bench.thread.stack⟩
  have first : Stepped s.bench.thread .runUntilIdle woke [] := by
    refine .meddle (by simp) ?_ rfl
    exact ⟨rfl, rfl, rfl, Nat.le_refl _, fun _ => (·), fun _ => List.mem_append_left _, fun _ => .inl rfl, by simp⟩
  have second : Stepped woke .runUntilIdle woke.runUntilIdle.1 woke.runUntilIdle.2 := by
    have runs : woke.userRuns = true := by simp [woke, Thread.userRuns, top]
    exact Executor.stepped_of_step (if_pos runs)
  have mid : Contained (s.heed (woke, [])).1 (log ++ (s.heed (woke, [])).2) :=
    c.heed first fun _ polling => by cases outside.symm.trans polling
  have seen : Stepped woke .runUntilIdle woke.runUntilIdle.1 ((s.runTasks woken).2.filterMap Sight.exec) := by
    rwa [show (s.runTasks woken).2.filterMap Sight.exec = woke.runUntilIdle.2 from filterMap_exec _]
  have last := mid.advance (t := (s.runTasks woken).1) seen rfl rfl c.stage (unbegun_exec woke.runUntilIdle.2)
    fun _ polling => by cases outside.symm.trans polling
  simpa only [World.heed, Bench.heed, List.map_nil, List.append_nil] using last

/-- The timer's callback finds the regression, or it will never be polled. -/
theorem Contained.timer (c : Contained s log) (waiting : s.leaving = .waiting) (rest : s.atRest = true) :
    Contained (World.runTasks { s with leaving := .fired } [.task regressionTask]).1
      (log ++ (World.runTasks { s with leaving := .fired } [.task regressionTask]).2) := by
  obtain ⟨top, inside⟩ : s.bench.thread.stack = [] ∧ s.drain.hub.inside = none := by
    simpa [World.atRest] using rest
  have outside := c.sound.outside_of_nil top
  have ran := c.runTasks top [.task regressionTask]
  refine { ran with fired := fun _ => .inr ?_, stage := fun _ => c.stage (by simp [waiting]) }
  have thread : (World.runTasks { s with leaving := .fired } [.task regressionTask]).1.bench.thread =
      (Thread.runUntilIdle ⟨Executor.wake s.bench.thread.inner [.task regressionTask], s.bench.thread.stack⟩).1 := rfl
  rw [World.Safe, thread]
  unfold Thread.runUntilIdle Executor.runUntilIdle
  cases running : s.bench.thread.inner.running with
  | true =>
    rw [show (Executor.wake s.bench.thread.inner [.task regressionTask]).running = true from running]
    exact .inl ⟨running, outside⟩
  | false =>
    rw [show (Executor.wake s.bench.thread.inner [.task regressionTask]).running = false from running]
    have writable : s.phase ≠ .readOnly := by
      intro readOnly
      rcases c.region readOnly with callback | stuck
      · cases inside.symm.trans callback
      · cases running.symm.trans stuck.1
    have woken : regressionTask ∈ (Executor.wake s.bench.thread.inner [.task regressionTask]).woken :=
      List.mem_append_right _ (List.mem_singleton.mpr rfl)
    exact Executor.secured_of_woken
      (s := ⟨Executor.wake s.bench.thread.inner [.task regressionTask], s.bench.thread.stack⟩)
      c.entries c.born outside woken writable

theorem Contained.fireAndRun (c : Contained s log) (top : s.bench.thread.stack = [])
    {result : Hub σ × List Phase.Obs}
    (region : result.1.phase = .readOnly → result.1.inside = some .readOnly ∨ Stuck s.bench.thread) :
    Contained (s.fireAndRun result).1 (log ++ (s.fireAndRun result).2) := by
  have kept : Contained { s with drain := ⟨result.1, none⟩ } (log ++ result.2.map .hub) :=
    c.keep (calm_hub result.2) rfl (.inr (c.sound.outside_of_nil top)) (fun remaining => by cases remaining) region
      c.stage (·)
  unfold World.fireAndRun
  dsimp only
  rw [← List.append_assoc]
  exact kept.runTasks top (wakers result.2)

theorem Contained.enter (c : Contained s log) (rest : s.atRest = true) (kind : PhaseKind) :
    Contained (s.enter env kind).1 (log ++ (s.enter env kind).2) := by
  obtain ⟨top, inside⟩ : s.bench.thread.stack = [] ∧ s.drain.hub.inside = none := by
    simpa [World.atRest] using rest
  have outside := c.sound.outside_of_nil top
  cases kind with
  | readWrite =>
    refine c.keep (by simp [World.enter, Sight.calm]) rfl (.inr outside) (fun _ => ⟨rfl, rfl⟩) ?_ c.stage (·)
    intro readOnly
    cases readOnly
  | readOnly =>
    exact c.fireAndRun top fun _ => .inl (Phase.Drain.fireWaiters_frame _ _).2.2.1
  | nextTimeStep =>
    refine c.fireAndRun top fun readOnly => .inr ?_
    have same : (Phase.fire env s.drain.hub .nextTimeStep).1.phase = s.phase :=
      (Phase.Drain.fireWaiters_frame { s.drain.hub with
        cb := Function.update s.drain.hub.cb .nextTimeStep false, inside := some .nextTimeStep } _).2.1
    refine (c.region (same.symm.trans readOnly)).resolve_left fun callback => ?_
    cases inside.symm.trans callback

theorem Contained.next (c : Contained s log) (top : s.bench.thread.stack = []) {left : List (WriteTarget × WriteVal)}
    (remaining : s.drain.remaining = some left) : Contained (s.next env left).1 (log ++ (s.next env left).2) := by
  obtain ⟨inside, phase⟩ := c.draining (by simp [remaining])
  have writable : s.phase ≠ .readOnly := by simp [phase]
  cases left with
  | nil =>
    refine c.fireAndRun top fun readOnly => ?_
    exact absurd ((Phase.Drain.fireWaiters_frame _ _).2.1.symm.trans readOnly) writable
  | cons w rest =>
    have frames := apply_frames env s.drain.hub w.1 w.2 writable
    unfold World.next
    dsimp only
    split
    · refine c.keep (calm_hub _) rfl (.inl frames.phase) (fun _ => ?_) (fun readOnly => ?_) c.stage (·)
      · exact ⟨frames.inside.trans inside, frames.phase.trans phase⟩
      · exact absurd (frames.phase.symm.trans readOnly) writable
    · next text found =>
      -- the callback of the drain is left with the phase ReadWrite
      refine c.keep ?_ rfl (.inl frames.phase) (fun remaining => by cases remaining) (fun readOnly => ?_) c.stage (·)
      · intro o member
        rcases List.mem_append.mp member with shown | reported
        · exact calm_hub _ o shown
        · rw [List.mem_singleton.mp reported]
          rfl
      · exact absurd (frames.phase.symm.trans readOnly) writable

theorem Contained.finish (c : Contained s log) (top : s.bench.thread.stack = []) (kind : PhaseKind)
    (inside : s.drain.hub.inside = some kind) :
    Contained { s with drain := ⟨(Phase.finish s.drain.hub kind).1, none⟩ }
      (log ++ (Phase.finish s.drain.hub kind).2.map .hub) := by
  refine c.keep (calm_hub _) rfl (.inr (c.sound.outside_of_nil top)) (fun remaining => by cases remaining) ?_ c.stage (·)
  intro readOnly
  cases kind with
  | nextTimeStep =>
    refine .inr ((c.region readOnly).resolve_left fun callback => ?_)
    cases inside.symm.trans callback
  | _ => cases readOnly

/-- A body that is spawned where writing is legal is due there. -/
theorem Contained.begin (c : Contained s log) (left : s.hasLeft = true) (own : s.bench.ownTurn = true)
    (reg : TestRegistration) (rest : List TestRegistration) :
    Contained { s with bench := (s.bench.begin (.ok ()) reg rest).1, leaving := .out }
      (log ++ (s.bench.begin (.ok ()) reg rest).2.map .bench) := by
  have polling := control_of_ownTurn c.sound own
  have writable : s.phase ≠ .readOnly := by
    unfold World.hasLeft at left
    split at left
    · simpa [World.phase] using left
    · cases left
    · next fired =>
      rcases c.fired fired with ⟨-, writable⟩ | stuck | gone | ⟨-, writable, -⟩
      · exact writable
      · cases polling.symm.trans stuck.2
      · exact absurd polling gone.2.2
      · exact writable
  have spawns : Stepped s.bench.thread (.spawnNamed reg.name)
      (s.bench.thread.lift (Executor.spawnNamed s.bench.thread.inner reg.name)).1
      (s.bench.thread.lift (Executor.spawnNamed s.bench.thread.inner reg.name)).2 :=
    .meddle (by simp) (Executor.spawnNamed_meddled s.bench.thread.inner reg.name) rfl
  have spawned := c.heed spawns fun _ _ => .inl polling
  refine ⟨spawned.sound, spawned.entries, spawned.born, spawned.draining, spawned.region,
    fun leaving => absurd rfl leaving, fun fired => (by cases fired), ?_⟩
  intro reg' body began unpolled
  unfold Bench.begin at began unpolled
  rw [List.map_append, ← List.append_assoc] at began unpolled
  rcases List.mem_append.mp began with earlier | now
  · exact spawned.bodies reg' body earlier (mt (List.mem_append_left _) unpolled)
  · cases List.mem_singleton.mp now
    refine .inr (.inr ⟨fun outside => ?_, writable, _, Function.update_self .., .inl rfl⟩)
    cases polling.symm.trans outside

/-- What the regression does in its own poll. -/
theorem Contained.chore (c : Contained s log) {a : Runner.Act} {b : Bench} {notices : List Notice} {leaving : Leaving}
    (chore : Chore s.bench a b notices) (left : a = .begin → s.hasLeft = true)
    (leaves : leaving = .out ∨ a ≠ .begin ∧ leaving = s.leaving) :
    Contained { s with bench := b, leaving := leaving } (log ++ notices.map .bench) := by
  have staying (between : leaving ≠ .out) : leaving = s.leaving := (leaves.resolve_left between).2
  cases chore with
  | note thread stage calm =>
    refine c.keep ?_ thread (.inl rfl) c.draining c.region (fun still => ?_) fun fired => ?_
    · simpa using calm
    · exact stage (c.stage (staying still ▸ still))
    · have still : leaving ≠ .out := by simp [show leaving = .fired from fired]
      exact (staying still).symm.trans fired
  | @poll _ _ shown body polls control running quiet =>
    have out : s.leaving = .out := by
      by_contra still
      exact running (c.stage still)
    have same : leaving = s.leaving := leaves.elim (fun now => now.trans out.symm) And.right
    have seen : Stepped s.bench.thread (.pollHandle body (.task regressionTask)) b.thread
        (((shown.map Notice.exec).map Sight.bench).filterMap Sight.exec) := by
      rwa [filterMap_exec]
    exact c.advance seen rfl same (fun still => absurd out still) (unbegun_exec shown) fun fired =>
      (by cases out.symm.trans fired)
  | begin reg rest own =>
    obtain rfl := leaves.resolve_right fun still => still.1 rfl
    exact c.begin (left rfl) own reg rest

theorem Contained.step (c : Contained s log) {dut : Except String Unit} {a : Act}
    (moved : s.step env dut a = some (t, out)) : Contained t (log ++ out) := by
  cases a with
  | hub a =>
    obtain ⟨runs, moved⟩ := Option.ite_none_right_eq_some.mp moved
    obtain ⟨result, performed, same⟩ := Option.map_eq_some_iff.mp moved
    have settled := c.settle (perform_frames performed) runs
    rwa [same] at settled
  | clock signal high =>
    obtain ⟨runs, same⟩ := Option.ite_none_right_eq_some.mp moved
    have settled := c.settle (setNow_frames env s.drain.hub (clockWrite signal high)) runs
    rwa [Option.some.inj same] at settled
  | bench a =>
    cases a with
    | exec move =>
      obtain ⟨permitted, moved⟩ := Option.ite_none_right_eq_some.mp moved
      exact c.exec permitted moved
    | begin =>
      obtain ⟨left, moved⟩ := Option.ite_none_right_eq_some.mp moved
      obtain ⟨⟨bench, notices⟩, taken, same⟩ := Option.map_eq_some_iff.mp moved
      cases same
      exact c.chore (chore_of_step (by simp) taken) (fun _ => left) (.inl rfl)
    | _ =>
      obtain ⟨⟨bench, notices⟩, taken, same⟩ := Option.map_eq_some_iff.mp moved
      cases same
      exact c.chore (chore_of_step (by simp) taken) (by simp) (.inr ⟨by simp, rfl⟩)
  | hold =>
    obtain ⟨⟨test, -, readOnly⟩, same⟩ := Option.ite_none_right_eq_some.mp moved
    have between : s.bench.stage = .between := by
      simp only [World.atTest, Bool.and_eq_true, decide_eq_true_iff] at test
      exact test.1.2
    cases same
    exact c.keep (by simp) rfl (.inl rfl) c.draining c.region (fun _ => between) (fun fired => by cases fired)
  | timer =>
    obtain ⟨⟨waiting, rest⟩, same⟩ := Option.ite_none_right_eq_some.mp moved
    have timed := c.timer waiting rest
    rwa [Option.some.inj same] at timed
  | enter kind =>
    obtain ⟨⟨-, rest⟩, same⟩ := Option.ite_none_right_eq_some.mp moved
    have entered : Contained (s.enter env kind).1 (log ++ (s.enter env kind).2) := c.enter rest kind
    rwa [Option.some.inj same] at entered
  | next =>
    obtain ⟨top, moved⟩ := Option.ite_none_right_eq_some.mp moved
    obtain ⟨left, remaining, same⟩ := Option.map_eq_some_iff.mp moved
    have went : Contained (s.next env left).1 (log ++ (s.next env left).2) :=
      c.next (List.isEmpty_iff.mp top) remaining
    rwa [same] at went
  | finish =>
    obtain ⟨⟨top, -⟩, moved⟩ := Option.ite_none_right_eq_some.mp moved
    obtain ⟨kind, inside, same⟩ := Option.map_eq_some_iff.mp moved
    have finished := c.finish (List.isEmpty_iff.mp top) kind inside
    cases same
    exact finished

theorem contained_of_run {sim : σ} {tests : List TestRegistration} {dut : Except String Unit} {acts : List Act}
    (ran : (world env dut).run (World.init sim tests) acts = some (s, log)) : Contained s log :=
  (world env dut).run_invariant_nil Contained (contained_init sim tests) (fun c moved => c.step moved) ran

end Steps

end Rustdv.Region
