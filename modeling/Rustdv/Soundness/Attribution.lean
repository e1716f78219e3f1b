import Mathlib.Data.List.DropRight
import Rustdv.Model.TestRun
import Rustdv.Soundness.CallStack

/-! # Whose failure a panic is

The failure slot is emptied when a test is scored, so at that moment it holds the first report since
the last scoring, and the outcome depends on nothing older. A panic that is reported fails the test,
unless the test is told to expect an error and returned just that one: then the slot is not looked at.
-/

namespace Rustdv.Executor

variable {V : Type*}

/-- What a step tells: a result that is there was there before or is stored now, and a stored panic is
reported to the sink. -/
structure Told (s t : ExecInner V) (out : List (Obs V)) : Prop where
  sink : t.failureSink = s.failureSink
  cells : ∀ id result, (t.shared id).result = some result →
    (s.shared id).result = some result ∨ ∃ joiners, .stored id result joiners ∈ out
  reported : ∀ id message joiners, .stored id (.error (.panicked message)) joiners ∈ out →
    s.failureSink = true → ∃ text, .sank text ∈ out

section Telling

variable {s t u : ExecInner V} {out more : List (Obs V)}

/-- Only the result cells of the executor and its sink matter. -/
theorem Told.of_eq (shared : ∀ id, (t.shared id).result = (s.shared id).result)
    (sink : t.failureSink = s.failureSink) (silent : ∀ id result joiners, .stored id result joiners ∉ out) :
    Told s t out where
  sink := sink
  cells id _ there := .inl ((shared id).symm.trans there)
  reported id _ joiners member := absurd member (silent id _ joiners)

theorem Told.trans (first : Told s t out) (second : Told t u more) : Told s u (out ++ more) where
  sink := second.sink.trans first.sink
  cells id result there := by
    rcases second.cells id result there with before | ⟨joiners, now⟩
    · rcases first.cells id result before with earlier | ⟨joiners, now⟩
      · exact .inl earlier
      · exact .inr ⟨joiners, List.mem_append_left _ now⟩
    · exact .inr ⟨joiners, List.mem_append_right _ now⟩
  reported id message joiners member on := by
    rcases List.mem_append.mp member with early | late
    · obtain ⟨text, told⟩ := first.reported id message joiners early on
      exact ⟨text, List.mem_append_left _ told⟩
    · obtain ⟨text, told⟩ := second.reported id message joiners late (first.sink.trans on)
      exact ⟨text, List.mem_append_right _ told⟩

@[simp] theorem setState_result (s : ExecInner V) (id other : TaskId) (state : TaskState) :
    ((s.setState id state).shared other).result = (s.shared other).result := by
  simp only [ExecInner.setState, ExecInner.setShared, Function.update_apply]
  split_ifs with same
  · rw [same]
  · rfl

@[simp] theorem setEntry_shared (s : ExecInner V) (id : TaskId) (entry : Option TaskEntry) :
    (s.setEntry id entry).shared = s.shared := rfl

section Operations

variable (s : ExecInner V) (id : TaskId)

theorem complete_cells (result : Except TaskError V) {other : TaskId} {stored : Except TaskError V}
    (there : ((complete s id result).1.shared other).result = some stored) :
    (s.shared other).result = some stored ∨ ∃ joiners, .stored other stored joiners ∈ (complete s id result).2 := by
  simp only [complete, wake, ExecInner.setShared, Function.update_apply] at there
  split_ifs at there with here
  · refine .inr ⟨(s.shared id).joiners, ?_⟩
    rw [here, ← Option.some.inj there]
    exact List.mem_cons_self
  · exact .inl there

theorem mem_complete {result : Except TaskError V} {other : TaskId} {stored : Except TaskError V} {joiners : List Waker}
    (member : .stored other stored joiners ∈ (complete s id result).2) : stored = result := by
  rcases List.mem_cons.mp member with same | woken
  · exact (Obs.stored.inj same).2.1
  · obtain ⟨waker, -, same⟩ := List.mem_map.mp woken
    cases same

theorem complete_told {result : Except TaskError V} (calm : ∀ message, result ≠ .error (.panicked message)) :
    Told s (complete s id result).1 (complete s id result).2 where
  sink := rfl
  cells _ _ := complete_cells s id result
  reported _ message _ member := absurd (mem_complete s id member).symm (calm message)

theorem failTask_told (name message : String) :
    Told s (failTask s id name message).1 (failTask s id name message).2 where
  sink := rfl
  cells other stored there := by
    refine ((complete_cells _ id _ there).imp_left ?_).imp_right ?_
    · simp
    · rintro ⟨joiners, member⟩
      exact ⟨joiners, List.mem_append_left _ member⟩
  reported _ _ _ _ on := by
    refine ⟨s!"task '{name}' panicked: {message}", List.mem_append_right _ (List.mem_singleton.mpr ?_)⟩
    exact (if_pos on).symm

theorem finish_told (state : TaskState) {result : Except TaskError V}
    (calm : ∀ message, result ≠ .error (.panicked message)) :
    Told s (finish s id state result).1 (finish s id state result).2 := by
  have marked : Told s ((s.setEntry id none).setState id state) [] := .of_eq (by simp) rfl (by simp)
  exact marked.trans (complete_told _ id calm)

theorem cancel_told : Told s (cancel s id).1 (cancel s id).2 := by
  by_cases self : s.currentlyPolling = some id
  · rw [cancel, if_pos self]
    exact .of_eq (fun _ => rfl) rfl (by simp)
  · cases there : s.tasks id with
    | none =>
      have same : cancel s id = (s, []) := by simp only [cancel, self, ↓reduceIte, there]
      rw [same]
      exact .of_eq (fun _ => rfl) rfl (by simp)
    | some entry =>
      rw [cancel_of_live self there]
      exact finish_told s id .cancelled (by simp)

theorem pollReady_told (value : V) : Told s (pollReady s id value).1 (pollReady s id value).2 := by
  rw [pollReady_eq]
  have calm : ∀ message, (.ok value : Except TaskError V) ≠ .error (.panicked message) := by simp
  exact { finish_told s id .finished calm with }

theorem takeResult_told : Told s (takeResult s id).1 [.joined id (takeResult s id).2] := by
  refine ⟨?_, ?_, by simp⟩
  · unfold takeResult
    dsimp only
    split <;> rfl
  · intro other stored there
    left
    unfold takeResult at there
    dsimp only at there
    split at there
    · simp only [ExecInner.setShared, Function.update_apply] at there
      split_ifs at there
      exact there
    · exact there

theorem pollHandle_told (waker : Waker) : Told s (pollHandle s id waker).1 (pollHandle s id waker).2 := by
  unfold pollHandle
  dsimp only
  split_ifs
  · exact takeResult_told s id
  · refine .of_eq ?_ rfl (by simp)
    intro other
    simp only [ExecInner.setShared, Function.update_apply]
    split_ifs with here
    · rw [here]
    · rfl

theorem spawnNamed_told (name : Option String) : Told s (spawnNamed s name).1 (spawnNamed s name).2 := by
  refine ⟨rfl, ?_, by simp [spawnNamed]⟩
  intro other stored there
  simp only [spawnNamed, setEntry_shared, ExecInner.setShared, Function.update_apply] at there
  split_ifs at there
  exact .inl there

theorem park_told : Told s (park s id) [] := by
  unfold park
  dsimp only
  split
  · exact .of_eq (by simp) rfl (by simp)
  · exact .of_eq (fun _ => rfl) rfl (by simp)

theorem drainOne_told : Told s (drainOne s id) [] := by
  unfold drainOne
  split
  · split_ifs
    · exact .of_eq (by simp) rfl (by simp)
    · exact .of_eq (fun _ => rfl) rfl (by simp)
  · exact .of_eq (fun _ => rfl) rfl (by simp)

theorem drainWoken_told : Told s (drainWoken s) [] := by
  have taken : Told s { s with woken := [] } [] := .of_eq (fun _ => rfl) rfl (by simp)
  suffices all : ∀ (ids : List TaskId) (s : ExecInner V), Told s (ids.foldl drainOne s) [] from
    taken.trans (all s.woken { s with woken := [] })
  intro ids
  induction ids with
  | nil => exact fun s => .of_eq (fun _ => rfl) rfl (by simp)
  | cons id rest ih => exact fun s => (drainOne_told s id).trans (ih _)

theorem turn_told : Told s (turn s).1 (turn s).2 := by
  have woken := drainWoken_told s
  cases front : (drainWoken s).runQueue with
  | nil =>
    rw [turn_of_nil front]
    exact woken.trans (.of_eq (fun _ => rfl) rfl (by simp))
  | cons id rest =>
    rw [turn_of_cons front]
    refine woken.trans ?_
    rcases pollTask_cases { drainWoken s with runQueue := rest } id with ⟨same, -⟩ | ⟨entry, -, -, same⟩
    · rw [same]
      exact .of_eq (fun _ => rfl) rfl (by simp)
    · rw [same]
      exact .of_eq (by simp [restate]) rfl (by simp)

end Operations

/-- Every step but a change of the sink is of this kind. -/
theorem told_of_step {s t : Thread V} {a : Move V} {out : List (Obs V)} (other : a ≠ .setFailureSink)
    (moved : s.step a = some (t, out)) : Told s.inner t.inner out := by
  have still {t : ExecInner V} (shared : t.shared = s.inner.shared) (sink : t.failureSink = s.inner.failureSink) :
      Told s.inner t [] := .of_eq (by simp [shared]) sink (by simp)
  cases a with
  | spawnNamed name =>
    cases (Option.ite_none_right_eq_some.mp moved).2
    exact spawnNamed_told s.inner name
  | wake waker =>
    cases (Option.ite_none_right_eq_some.mp moved).2
    exact .of_eq (fun _ => rfl) rfl (by simp)
  | cancel id =>
    cases (Option.ite_none_right_eq_some.mp moved).2
    exact cancel_told s.inner id
  | cancelAfter watermark order =>
    cases (Option.ite_none_right_eq_some.mp moved).2
    exact still rfl rfl
  | pollHandle id waker =>
    cases (Option.ite_none_right_eq_some.mp moved).2
    exact pollHandle_told s.inner id waker
  | takeResult id =>
    cases (Option.ite_none_right_eq_some.mp moved).2
    exact takeResult_told s.inner id
  | setFailureSink => exact absurd rfl other
  | runUntilIdle =>
    have same := Option.some.inj (Option.ite_none_right_eq_some.mp moved).2
    unfold Thread.runUntilIdle Executor.runUntilIdle at same
    split_ifs at same
    · cases same
      exact .of_eq (fun _ => rfl) rfl (by simp)
    · cases same
      exact still rfl rfl
  | turn =>
    simp only [Thread.step] at moved
    split at moved
    · cases moved
      exact turn_told s.inner
    · cases moved
  | next =>
    simp only [Thread.step] at moved
    split at moved
    · cases moved
      exact still rfl rfl
    · next id rest below top =>
      cases moved
      exact cancel_told s.inner id
    · cases moved
  | dropped =>
    simp only [Thread.step] at moved
    split at moved
    · cases moved
      exact still rfl rfl
    · next id name message below top =>
      cases moved
      exact failTask_told s.inner id name message
    · cases moved
  | pollReady value =>
    simp only [Thread.step] at moved
    split at moved
    · next id below top =>
      cases moved
      exact pollReady_told s.inner id value
    · cases moved
  | pollPending =>
    simp only [Thread.step] at moved
    split at moved
    · next id below top =>
      cases moved
      exact park_told s.inner id
    · cases moved
  | panic message =>
    have same := Option.some.inj (Option.ite_none_right_eq_some.mp moved).2
    unfold Thread.panic at same
    split at same
    · cases same
      exact still rfl rfl
    · cases same
      exact still rfl rfl

end Telling

end Rustdv.Executor

namespace Rustdv.Runner

open Component (TestResult)
open Executor (Thread Move Told)

def Notice.isEnd : Notice → Bool
  | .ended .. => true
  | _ => false

def Notice.isStart : Notice → Bool
  | .began .. => true
  | _ => false

/-- What has been noticed since a test was last scored. -/
def window (obs : List Notice) : List Notice := obs.rtakeWhile fun n => !n.isEnd

/-- The report that the failure slot keeps. -/
def firstReport (w : List Notice) : Option String := (w.filterMap Notice.report).head?

/-- A task panicked. -/
def Panicked (id : TaskId) (w : List Notice) : Prop :=
  ∃ message joiners, .exec (.stored id (.error (.panicked message)) joiners) ∈ w

/-- The test is told to expect an error, and its body returned one of that kind. -/
def ReturnsExpected (reg : TestRegistration) (raw : Option (Except TaskError TestResult)) : Prop :=
  ∃ cause e, reg.expectError = some cause ∧ raw = some (.ok (.error e)) ∧ e.kind = some cause

/-- The test began in this window, and what awaiting its task comes to was stored since. -/
structure Ran (w : List Notice) (reg : TestRegistration) (body : TaskId) (during : List Notice) : Prop where
  began : ∃ gap, w = gap ++ .began reg body :: during ∧ ∀ n ∈ gap, n.isStart = false
  alone : ∀ n ∈ during, n.isStart = false

/-- How a test that was scored with this window behind it stands to what happened in it. -/
structure Scored (w : List Notice) (reg : TestRegistration) (raw : Option (Except TaskError TestResult))
    (outcome : Outcome) : Prop where
  ran : ∃ body during, Ran w reg body during ∧ ∀ r, raw = some r →
    ∃ result joiners, awaited result = some r ∧ .exec (.stored body result joiners) ∈ during
  /-- The outcome depends on the window alone. -/
  verdict : outcome = expected reg (withBackground (firstReport w) (rawOutcome reg raw))
  /-- A panic in the window fails the test exactly if the expected error does not come in its way. -/
  panics : (∃ id, Panicked id w) → reg.expectFail = false → (outcome.isFail = true ↔ ¬ ReturnsExpected reg raw)

section Windows

variable {obs out w : List Notice}

theorem window_append (unended : ∀ n ∈ out, n.isEnd = false) : window (obs ++ out) = window obs ++ out := by
  have kept : ∀ n ∈ out.reverse, (!n.isEnd) = true := by
    intro n member
    rw [unended n (List.mem_reverse.mp member)]
    rfl
  unfold window List.rtakeWhile
  rw [List.reverse_append, List.takeWhile_append_of_pos kept, List.reverse_append, List.reverse_reverse]

theorem window_concat {reg : TestRegistration} {raw : Option (Except TaskError TestResult)} {outcome : Outcome} :
    window (obs ++ [.ended reg raw outcome]) = [] := List.rtakeWhile_concat_neg _ _ _ (by simp [Notice.isEnd])

theorem firstReport_append : firstReport (w ++ out) = sink (firstReport w) (out.filterMap Notice.report) := by
  rw [firstReport, List.filterMap_append, List.head?_append, sink, firstReport]

theorem Ran.append {reg : TestRegistration} {body : TaskId} {during : List Notice} (ran : Ran w reg body during)
    (alone : ∀ n ∈ out, n.isStart = false) : Ran (w ++ out) reg body (during ++ out) := by
  obtain ⟨⟨gap, rfl, quiet⟩, rest⟩ := ran
  refine ⟨⟨gap, by simp, quiet⟩, ?_⟩
  intro n member
  exact (List.mem_append.mp member).elim (rest n) (alone n)

end Windows

/-- With something in the slot, a test that is not expected to fail passes only through the expected
error. -/
theorem expected_isFail_iff {reg : TestRegistration} (text : String) (raw : Option (Except TaskError TestResult))
    (plain : reg.expectFail = false) :
    (expected reg (withBackground (some text) (rawOutcome reg raw))).isFail = true ↔ ¬ ReturnsExpected reg raw := by
  unfold ReturnsExpected expected withBackground
  cases expects : reg.expectError with
  | none =>
    rcases raw with - | e | e | result <;> simp [rawOutcome, fail, Outcome.isFail, plain]
  | some cause =>
    rcases raw with - | e | e | result
    · simp [rawOutcome, fail, Outcome.isFail]
    · simp [rawOutcome, fail, Outcome.isFail]
    · by_cases same : e.kind = some cause <;> simp [rawOutcome, fail, Outcome.isFail, same]
    · simp [rawOutcome, fail, Outcome.isFail]

/-- Every test that was scored is scored by its own window. -/
def AllScored (obs : List Notice) : Prop :=
  ∀ before reg raw outcome later, obs = before ++ .ended reg raw outcome :: later →
    Scored (window before) reg raw outcome

theorem AllScored.append {obs out : List Notice} (past : AllScored obs) (unended : ∀ n ∈ out, n.isEnd = false) :
    AllScored (obs ++ out) := by
  intro before reg raw outcome later split
  rcases List.append_eq_append_iff.mp split with ⟨mid, -, rest⟩ | ⟨mid, rfl, rest⟩
  · have ended := unended (.ended reg raw outcome) (by simp [rest])
    cases ended
  · cases mid with
    | nil =>
      have ended := unended (.ended reg raw outcome) (by rw [← List.nil_append out, ← rest]; exact List.mem_cons_self)
      cases ended
    | cons n tail =>
      cases rest
      exact past before reg raw outcome tail rfl

theorem AllScored.concat {obs : List Notice} {reg : TestRegistration} {raw : Option (Except TaskError TestResult)}
    {outcome : Outcome} (past : AllScored obs) (scored : Scored (window obs) reg raw outcome) :
    AllScored (obs ++ [.ended reg raw outcome]) := by
  intro before reg' raw' outcome' later split
  rcases List.append_eq_append_iff.mp split with ⟨mid, rfl, rest⟩ | ⟨mid, rfl, rest⟩
  · rcases List.singleton_eq_append_iff.mp rest with ⟨rfl, same⟩ | ⟨-, same⟩
    · obtain ⟨same, -⟩ := List.cons.inj same
      cases same
      rwa [List.append_nil]
    · cases same
  · cases mid with
    | nil =>
      obtain ⟨same, -⟩ := List.cons.inj rest
      cases same
      rwa [List.append_nil] at scored
    | cons n tail =>
      cases rest
      exact past before reg' raw' outcome' tail rfl

/-- What the stage of the regression says about the window. -/
def Fits (inner : Executor.ExecInner TestResult) (w : List Notice) : Stage → Prop
  | .between => ∀ n ∈ w, n.isStart = false
  | .running reg body => ∃ during, Ran w reg body during ∧ ∀ result, (inner.shared body).result = some result →
      ∃ joiners, .exec (.stored body result joiners) ∈ during
  | .ending reg raw => ∃ body during, Ran w reg body during ∧ ∀ r, raw = some r →
      ∃ result joiners, awaited result = some r ∧ .exec (.stored body result joiners) ∈ during

theorem Fits.append {inner inner' : Executor.ExecInner TestResult} {w out : List Notice} {stage : Stage}
    (fits : Fits inner w stage) (alone : ∀ n ∈ out, n.isStart = false)
    (cells : ∀ id result, (inner'.shared id).result = some result →
      (inner.shared id).result = some result ∨ ∃ joiners, .exec (.stored id result joiners) ∈ out) :
    Fits inner' (w ++ out) stage := by
  cases stage with
  | between =>
    intro n member
    exact (List.mem_append.mp member).elim (fits n) (alone n)
  | running reg body =>
    obtain ⟨during, ran, stored⟩ := fits
    refine ⟨_, ran.append alone, fun result there => ?_⟩
    rcases cells body result there with before | ⟨joiners, now⟩
    · obtain ⟨joiners, member⟩ := stored result before
      exact ⟨joiners, List.mem_append_left _ member⟩
    · exact ⟨joiners, List.mem_append_right _ now⟩
  | ending reg raw =>
    obtain ⟨body, during, ran, stored⟩ := fits
    refine ⟨body, _, ran.append alone, fun r same => ?_⟩
    obtain ⟨result, joiners, result', member⟩ := stored r same
    exact ⟨result, joiners, result', List.mem_append_left _ member⟩

/-- The slot holds the first report of the window, and a panic in the window is reported. -/
structure Attributed (s : Bench) (obs : List Notice) : Prop where
  failureSink : s.thread.inner.failureSink = true
  slot : s.slot = firstReport (window obs)
  told : (∃ id, Panicked id (window obs)) → ∃ text, s.slot = some text
  fits : Fits s.thread.inner (window obs) s.stage
  past : AllScored obs

section Steps

variable {s : Bench} {obs : List Notice}

theorem sink_isSome {slot : Option String} {texts : List String} (held : (∃ text, slot = some text) ∨ texts ≠ []) :
    ∃ text, sink slot texts = some text := by
  unfold sink
  rcases held with ⟨text, rfl⟩ | nonempty
  · exact ⟨text, rfl⟩
  · cases slot with
    | some text => exact ⟨text, rfl⟩
    | none => exact ⟨texts.head nonempty, List.head?_eq_some_head nonempty⟩

/-- A step of the executor keeps the slot. -/
theorem Attributed.heed (attributed : Attributed s obs) {u : Thread TestResult × List (Executor.Obs TestResult)}
    (told : Told s.thread.inner u.1.inner u.2) : Attributed (s.heed u).1 (obs ++ (s.heed u).2) := by
  have unended : ∀ n ∈ u.2.map Notice.exec, n.isEnd = false := by simp [Notice.isEnd]
  have alone : ∀ n ∈ u.2.map Notice.exec, n.isStart = false := by simp [Notice.isStart]
  unfold Bench.heed
  refine ⟨told.sink.trans attributed.failureSink, ?_, ?_, ?_, attributed.past.append unended⟩
  · rw [window_append unended, firstReport_append, ← attributed.slot]
  · rw [window_append unended]
    rintro ⟨id, message, joiners, member⟩
    refine sink_isSome ?_
    rcases List.mem_append.mp member with earlier | now
    · exact .inl (attributed.told ⟨id, message, joiners, earlier⟩)
    · obtain ⟨o, inside, same⟩ := List.mem_map.mp now
      cases same
      obtain ⟨text, sank⟩ := told.reported id message joiners inside attributed.failureSink
      refine .inr (List.ne_nil_of_mem (a := text) (List.mem_filterMap.mpr ⟨.exec (.sank text), ?_, rfl⟩))
      exact List.mem_map_of_mem sank
  · rw [window_append unended]
    refine attributed.fits.append alone fun id stored there => (told.cells id stored there).imp_right ?_
    rintro ⟨joiners, now⟩
    exact ⟨joiners, List.mem_map_of_mem now⟩

/-- A notice that is neither the executor's nor a test's beginning or end goes to the slot. -/
theorem Attributed.note (attributed : Attributed s obs) {n : Notice} (unended : n.isEnd = false)
    (alone : n.isStart = false) (silent : ∀ o, n ≠ .exec o) (tests : List TestRegistration) :
    Attributed { s with slot := sink s.slot n.report.toList, tests := tests } (obs ++ [n]) := by
  have unended' : ∀ m ∈ [n], m.isEnd = false := by simp [unended]
  have alone' : ∀ m ∈ [n], m.isStart = false := by simp [alone]
  have texts : [n].filterMap Notice.report = n.report.toList := by
    cases told : n.report <;> simp [told]
  refine ⟨attributed.failureSink, ?_, ?_, ?_, attributed.past.append unended'⟩
  · rw [window_append unended', firstReport_append, ← attributed.slot, texts]
  · rw [window_append unended']
    rintro ⟨id, message, joiners, member⟩
    rcases List.mem_append.mp member with earlier | now
    · exact sink_isSome (.inl (attributed.told ⟨id, message, joiners, earlier⟩))
    · exact absurd (List.mem_singleton.mp now).symm (silent _)
  · rw [window_append unended']
    exact attributed.fits.append alone' fun _ _ => .inl

/-- A test's task has been spawned. -/
theorem Attributed.start (attributed : Attributed s obs) (between : s.stage = .between) {reg : TestRegistration}
    {body : TaskId} (fresh : (s.thread.inner.shared body).result = none) (rest : List TestRegistration) :
    Attributed { s with stage := .running reg body, tests := rest } (obs ++ [.began reg body]) := by
  have unended : ∀ n ∈ [Notice.began reg body], n.isEnd = false := by simp [Notice.isEnd]
  have fits := attributed.fits
  rw [between] at fits
  refine ⟨attributed.failureSink, ?_, ?_, ?_, attributed.past.append unended⟩
  · rw [window_append unended, firstReport_append, ← attributed.slot]
    exact (Option.or_none ..).symm
  · rw [window_append unended]
    rintro ⟨id, message, joiners, member⟩
    refine attributed.told ⟨id, message, joiners, ?_⟩
    exact (List.mem_append.mp member).resolve_right (by simp)
  · rw [window_append unended]
    refine ⟨[], ⟨⟨_, rfl, fits⟩, by simp⟩, fun result there => ?_⟩
    cases fresh.symm.trans there

theorem Attributed.begin (attributed : Attributed s obs) (between : s.stage = .between) (dut : Except String Unit)
    (reg : TestRegistration) (rest : List TestRegistration) :
    Attributed (s.begin dut reg rest).1 (obs ++ (s.begin dut reg rest).2) := by
  cases dut with
  | error e =>
    have noted := attributed.note (n := .refused reg (fail s!"no DUT: {e}")) rfl rfl (by simp) rest
    simp only [Notice.report, Option.toList_none, sink, List.head?_nil, Option.or_none] at noted
    exact noted
  | ok there =>
    have spawned := attributed.heed (u := s.thread.lift (Executor.spawnNamed s.thread.inner reg.name))
      (Executor.spawnNamed_told s.thread.inner reg.name)
    unfold Bench.begin
    dsimp only
    rw [← List.append_assoc]
    refine spawned.start between ?_ rest
    simp [Bench.heed, Thread.lift, Executor.spawnNamed, Executor.ExecInner.setShared]

/-- What awaiting a task comes to is what its cell holds. -/
theorem waited_some {reg : TestRegistration} {body : TaskId} {r : Except TaskError TestResult}
    (waited : s.waited reg body = some (some r)) :
    ∃ result, awaited result = some r ∧ (s.thread.inner.shared body).result = some result := by
  unfold Bench.waited Executor.takeResult at waited
  split_ifs at waited
  · obtain ⟨r', taken, same⟩ := Option.map_eq_some_iff.mp waited
    obtain rfl := Option.some.inj same
    dsimp only at taken
    split at taken
    · next result there => exact ⟨result, taken, there⟩
    · cases taken
  · cases waited

theorem Attributed.finish (attributed : Attributed s obs) {reg : TestRegistration} {body : TaskId}
    (running : s.stage = .running reg body) {raw : Option (Except TaskError TestResult)}
    (waited : s.waited reg body = some raw) (order : List TaskId) :
    Attributed ((s.pollBody body).1.finish reg raw order) (obs ++ (s.pollBody body).2) := by
  have polled := attributed.heed (u := s.thread.lift (Executor.pollHandle s.thread.inner body (.task regressionTask)))
    (Executor.pollHandle_told s.thread.inner body _)
  refine ⟨polled.failureSink, polled.slot, polled.told, ?_, polled.past⟩
  have fits := attributed.fits
  rw [running] at fits
  obtain ⟨during, ran, stored⟩ := fits
  have alone : ∀ n ∈ (s.pollBody body).2, n.isStart = false := by simp [Bench.pollBody, Bench.heed, Notice.isStart]
  have unended : ∀ n ∈ (s.pollBody body).2, n.isEnd = false := by simp [Bench.pollBody, Bench.heed, Notice.isEnd]
  rw [window_append unended]
  refine ⟨body, _, ran.append alone, ?_⟩
  rintro r rfl
  obtain ⟨result, taken, there⟩ := waited_some waited
  obtain ⟨joiners, member⟩ := stored result there
  exact ⟨result, joiners, taken, List.mem_append_left _ member⟩

theorem Attributed.score (attributed : Attributed s obs) {reg : TestRegistration}
    {raw : Option (Except TaskError TestResult)} (ending : s.stage = .ending reg raw) :
    Attributed (s.score reg raw).1 (obs ++ (s.score reg raw).2) := by
  have fits := attributed.fits
  rw [ending] at fits
  refine ⟨attributed.failureSink, ?_, ?_, ?_, attributed.past.concat ⟨fits, ?_, ?_⟩⟩
  · exact (congrArg firstReport window_concat).symm
  · rw [show (s.score reg raw).2 = [.ended reg raw _] from rfl, window_concat]
    rintro ⟨id, message, joiners, member⟩
    cases member
  · rw [show (s.score reg raw).2 = [.ended reg raw _] from rfl, window_concat]
    exact fun n member => by cases member
  · rw [attributed.slot]
  · intro panicked plain
    obtain ⟨text, told⟩ := attributed.told panicked
    rw [told]
    exact expected_isFail_iff text raw plain

/-- Every step keeps the slot to its window. -/
theorem Attributed.step {t : Bench} {out : List Notice} {a : Act} {dut : Except String Unit}
    (attributed : Attributed s obs) (moved : s.step dut a = some (t, out)) : Attributed t (obs ++ out) := by
  cases a with
  | exec move =>
    obtain ⟨permitted, moved⟩ := Option.ite_none_right_eq_some.mp moved
    obtain ⟨result, stepped, same⟩ := Option.map_eq_some_iff.mp moved
    have other : move ≠ .setFailureSink := by
      rintro rfl
      unfold Bench.permits at permitted
      split_ifs at permitted
      split at permitted <;> simp_all
    have heeded := attributed.heed (Executor.told_of_step other stepped)
    rwa [same] at heeded
  | callbackPanic msg =>
    obtain ⟨-, same⟩ := Option.ite_none_right_eq_some.mp moved
    cases same
    exact attributed.note (n := .sankCallback _) rfl rfl (by simp) s.tests
  | skip =>
    simp only [Bench.step] at moved
    split at moved
    · next reg rest between more =>
      obtain ⟨-, same⟩ := Option.ite_none_right_eq_some.mp moved
      cases same
      have noted := attributed.note (n := .skipped reg) rfl rfl (by simp) rest
      simp only [Notice.report, Option.toList_none, sink, List.head?_nil, Option.or_none] at noted
      exact noted
    · cases moved
  | begin =>
    simp only [Bench.step] at moved
    split at moved
    · next reg rest between more =>
      have begun := attributed.begin between dut reg rest
      rwa [Option.some.inj (Option.ite_none_right_eq_some.mp moved).2] at begun
    · cases moved
  | await =>
    simp only [Bench.step] at moved
    split at moved
    · next reg body running =>
      have polled : Attributed (s.pollBody body).1 (obs ++ (s.pollBody body).2) :=
        attributed.heed (Executor.pollHandle_told s.thread.inner body _)
      rwa [Option.some.inj (Option.ite_none_right_eq_some.mp moved).2] at polled
    · cases moved
  | finish order =>
    simp only [Bench.step] at moved
    split at moved
    · next reg body running =>
      obtain ⟨raw, waited, same⟩ := Option.map_eq_some_iff.mp (Option.ite_none_right_eq_some.mp moved).2
      have finished := attributed.finish running waited order
      cases same
      exact finished
    · cases moved
  | score =>
    simp only [Bench.step] at moved
    split at moved
    · next reg raw ending =>
      have scored := attributed.score ending
      rwa [Option.some.inj (Option.ite_none_right_eq_some.mp moved).2] at scored
    · cases moved

end Steps

theorem attributed_init (tests : List TestRegistration) : Attributed (Bench.init tests) [] where
  failureSink := rfl
  slot := rfl
  told := by
    rintro ⟨id, message, joiners, member⟩
    cases member
  fits _ member := by cases member
  past before reg raw outcome later split := by simp at split

/-- In every run every test is scored by what happened since the one before was, and a panic in that
time fails it unless it is expected to fail or returned the error that is expected of it. -/
theorem panic_attribution {dut : Except String Unit} {tests : List TestRegistration} {actions : List Act} {s : Bench}
    {before later : List Notice} {reg : TestRegistration} {raw : Option (Except TaskError TestResult)}
    {outcome : Outcome}
    (ran : (bench dut).run (Bench.init tests) actions = some (s, before ++ .ended reg raw outcome :: later)) :
    Scored (window before) reg raw outcome := by
  have attributed := (bench dut).run_invariant_nil Attributed (attributed_init tests)
    (fun attributed moved => attributed.step moved) ran
  exact attributed.past before reg raw outcome later rfl

/-- The body spawns a task, waits for it and returns; the task panics. -/
def childPanics (result : TestResult) : List Act :=
  [.exec .runUntilIdle, .exec .turn, .begin, .await, .exec .pollPending, .exec .next,
    .exec .turn, .exec (.spawnNamed (some "child")), .exec (.pollHandle 3 (.task 2)), .exec .pollPending, .exec .next,
    .exec .turn, .exec (.panic "boom"), .exec .dropped,
    .exec .turn, .exec (.pollReady result), .exec .dropped,
    .exec .turn, .finish [], .exec .next, .score]

def unguarded : TestRegistration := ⟨"t", "tests.rs", 10, none, false, false, none⟩

/-- What such a run shows up to the scoring. -/
def childPanicked (reg : TestRegistration) (result : TestResult) : List Notice :=
  [.exec (.pollBegan 1), .exec (.spawned 2 "t"), .began reg 2, .exec (.registered 2 (.task 1)),
    .exec (.pollBegan 2), .exec (.spawned 3 "child"), .exec (.registered 3 (.task 2)),
    .exec (.pollBegan 3), .exec (.stored 3 (.error (.panicked "boom")) [.task 2]), .exec (.woke (.task 2)),
    .exec (.sank "task 'child' panicked: boom"),
    .exec (.pollBegan 2), .exec (.stored 2 (.ok result) [.task 1]), .exec (.woke (.task 1)),
    .exec (.pollBegan 1), .exec (.joined 2 (.ok result))]

theorem panic_attribution_childPanics :
    ∃ s, (bench (.ok ())).run (Bench.init [unguarded]) (childPanics (.ok ())) =
        some (s, childPanicked unguarded (.ok ()) ++
          [.ended unguarded (some (.ok (.ok ()))) (fail "task 'child' panicked: boom")]) ∧
      Scored (window (childPanicked unguarded (.ok ()))) unguarded (some (.ok (.ok ())))
        (fail "task 'child' panicked: boom") := by
  obtain ⟨s, ran⟩ : ∃ s, (bench (.ok ())).run (Bench.init [unguarded]) (childPanics (.ok ())) =
      some (s, childPanicked unguarded (.ok ()) ++
        [.ended unguarded (some (.ok (.ok ()))) (fail "task 'child' panicked: boom")]) := ⟨_, rfl⟩
  exact ⟨s, ran, panic_attribution ran⟩

/-- The test is to fail with a full FIFO, and it does. -/
def expectsFull : TestRegistration := ⟨"t", "tests.rs", 10, none, false, false, some "full"⟩

def full : TestResult := .error ⟨"no room", some "full"⟩

/-- The child's panic does not keep the test from passing. -/
theorem childPanics_passes :
    ∃ s, (bench (.ok ())).run (Bench.init [expectsFull]) (childPanics full) =
        some (s, childPanicked expectsFull full ++ [.ended expectsFull (some (.ok full)) .pass]) ∧
      Panicked 3 (window (childPanicked expectsFull full)) ∧ expectsFull.expectFail = false ∧
        Outcome.pass.isFail = false := by
  refine ⟨_, rfl, ⟨"boom", [.task 2], ?_⟩, rfl, rfl⟩
  rw [show window (childPanicked expectsFull full) = childPanicked expectsFull full from rfl]
  simp [childPanicked]

end Rustdv.Runner
