import Rustdv.Model.Runner

/-! # When the regression reaches its verdict

A test's own misbehaviour ends up in its outcome. The regression goes on to its verdict exactly when
nothing panics in its own task and no wait is endless: the timeouts can be made into timers, a test
without one ends, and the tasks left behind can be dropped.
-/

namespace Rustdv.Runner

open Time (Clockwork)

variable {clockwork : Clockwork}

namespace Fate

variable {α β : Type*}

theorem bind_eq_returned_iff {fate : Fate α} {next : α → Fate β} {b : β} :
    fate.bind next = .returned b ↔ ∃ a, fate = .returned a ∧ next a = .returned b := by
  cases fate <;> simp [bind]

theorem map_eq_returned_iff {fate : Fate α} {f : α → β} {b : β} :
    fate.map f = .returned b ↔ ∃ a, fate = .returned a ∧ f a = b := by
  simp [map, bind_eq_returned_iff]

theorem call_eq_returned_iff {result : Except String α} {a : α} :
    call result = .returned a ↔ result = .ok a := by
  cases result <;> simp [call]

/-- The computation returns. -/
def Returns (fate : Fate α) : Prop := ∃ a, fate = .returned a

theorem returns_map_iff {fate : Fate α} {f : α → β} : (fate.map f).Returns ↔ fate.Returns := by
  simp [Returns, map_eq_returned_iff]

theorem returns_call_iff {result : Except String α} : (call result).Returns ↔ ∃ a, result = .ok a := by
  simp [Returns, call_eq_returned_iff]

end Fate

/-- Nothing that a test does reaches the regression's own task: its timeout can be made into a timer,
or else its task ends, and the tasks it leaves behind can be dropped. -/
structure Contained (clockwork : Clockwork) (reg : TestRegistration) (conduct : Conduct) : Prop where
  timed : ∀ n unit, reg.timeout = some (n, unit) → Time.Timed clockwork n unit
  ends : reg.timeout = none → ∀ destructor, conduct.body ≠ .alive destructor
  droppable : ∀ msg, some msg ∉ conduct.leftovers

theorem cancelAfter_ok_iff {leftovers : List (Option String)} :
    cancelAfter leftovers = .ok () ↔ ∀ msg, some msg ∉ leftovers := by
  induction leftovers with
  | nil => simp [cancelAfter]
  | cons destructor rest ih =>
    cases destructor with
    | none => simp [cancelAfter, ih]
    | some msg =>
      simp only [cancelAfter, reduceCtorEq, false_iff]
      intro calm
      exact calm msg List.mem_cons_self

variable (clockwork) in
theorem awaitBody_returns_iff (reg : TestRegistration) (conduct : Conduct) :
    (awaitBody clockwork reg conduct).Returns ↔
      (∀ n unit, reg.timeout = some (n, unit) → Time.Timed clockwork n unit) ∧
        (reg.timeout = none → ∀ destructor, conduct.body ≠ .alive destructor) := by
  unfold awaitBody
  cases timeout : reg.timeout with
  | some time =>
    obtain ⟨n, unit⟩ := time
    simp only [Fate.returns_map_iff, Fate.returns_call_iff, Time.timer_ok_iff_timed]
    constructor
    · intro timed
      refine ⟨?_, by simp⟩
      intro n' unit' same
      cases same
      exact timed
    · rintro ⟨timed, -⟩
      exact timed n unit rfl
  | none =>
    cases body : conduct.body with
    | alive destructor => simp [Fate.Returns]
    | _ => simp [Fate.Returns]

/-- A test returns to the regression exactly when it is contained, or when there is no DUT to run it on. -/
theorem runOne_returns_iff (slot : Option String) {reg : TestRegistration} {conduct : Conduct} :
    (runOne clockwork slot reg conduct).Returns ↔ (conduct.dut = .ok () → Contained clockwork reg conduct) := by
  unfold runOne
  cases conduct.dut with
  | error e => simp [Fate.Returns]
  | ok found =>
    have waits := awaitBody_returns_iff clockwork reg conduct
    simp only [forall_const]
    constructor
    · rintro ⟨last, returned⟩
      obtain ⟨raw, awaited, rest⟩ := Fate.bind_eq_returned_iff.mp returned
      obtain ⟨done, dropped, -⟩ := Fate.map_eq_returned_iff.mp rest
      obtain ⟨timed, ends⟩ := waits.mp ⟨raw, awaited⟩
      exact ⟨timed, ends, cancelAfter_ok_iff.mp (Fate.call_eq_returned_iff.mp dropped)⟩
    · rintro ⟨timed, ends, droppable⟩
      obtain ⟨raw, awaited⟩ := waits.mpr ⟨timed, ends⟩
      have dropped := Fate.call_eq_returned_iff.mpr (cancelAfter_ok_iff.mpr droppable)
      exact ⟨_, Fate.bind_eq_returned_iff.mpr ⟨raw, awaited, Fate.map_eq_returned_iff.mpr ⟨_, dropped, rfl⟩⟩⟩

section Loop

variable {conduct : ℕ → Conduct}

/-- Every test that is run is contained. -/
def AllContained (clockwork : Clockwork) (conduct : ℕ → Conduct) (first : ℕ) (tests : List TestRegistration) : Prop :=
  ∀ i reg, tests[i]? = some reg → reg.skip = false → (conduct (first + i)).dut = .ok () →
    Contained clockwork reg (conduct (first + i))

theorem allContained_cons {first : ℕ} {reg : TestRegistration} {rest : List TestRegistration} :
    AllContained clockwork conduct first (reg :: rest) ↔
      (reg.skip = false → (conduct first).dut = .ok () → Contained clockwork reg (conduct first)) ∧
        AllContained clockwork conduct (first + 1) rest := by
  constructor
  · intro all
    refine ⟨fun run dut => all 0 reg rfl run dut, ?_⟩
    intro i reg' there run dut
    rw [Nat.add_right_comm] at dut ⊢
    exact all (i + 1) reg' there run dut
  · rintro ⟨now, later⟩ i reg' there run dut
    cases i with
    | zero =>
      cases there
      exact now run dut
    | succ i =>
      rw [Nat.add_succ, ← Nat.succ_add] at dut ⊢
      exact later i reg' there run dut

/-- The loop records one result for each test, in order. -/
theorem runFrom_names {i : ℕ} {slot : Option String} {tests : List TestRegistration}
    {results : List (String × Outcome)} (returned : runFrom clockwork conduct i slot tests = .returned results) :
    results.map Prod.fst = tests.map TestRegistration.name := by
  induction tests generalizing i slot results with
  | nil =>
    cases returned
    rfl
  | cons reg rest ih =>
    rw [runFrom] at returned
    split at returned
    · obtain ⟨later, ran, rfl⟩ := Fate.map_eq_returned_iff.mp returned
      simp only [List.map_cons, ih ran]
    · obtain ⟨⟨outcome, slot'⟩, -, continued⟩ := Fate.bind_eq_returned_iff.mp returned
      obtain ⟨later, ran, rfl⟩ := Fate.map_eq_returned_iff.mp continued
      simp only [List.map_cons, ih ran]

/-- It goes through exactly when every test that is run is contained. -/
theorem runFrom_returns_iff {i : ℕ} (slot : Option String) {tests : List TestRegistration} :
    (runFrom clockwork conduct i slot tests).Returns ↔ AllContained clockwork conduct i tests := by
  induction tests generalizing i slot with
  | nil => simp [runFrom, Fate.Returns, AllContained]
  | cons reg rest ih =>
    rw [runFrom, allContained_cons]
    split
    · next skipped => simp [Fate.returns_map_iff, ih, skipped]
    · next run =>
      simp only [Bool.not_eq_true] at run
      simp only [run, forall_const]
      rw [← runOne_returns_iff slot]
      constructor
      · rintro ⟨results, returned⟩
        obtain ⟨⟨outcome, slot'⟩, ran, continued⟩ := Fate.bind_eq_returned_iff.mp returned
        obtain ⟨later, went, -⟩ := Fate.map_eq_returned_iff.mp continued
        exact ⟨⟨_, ran⟩, (ih slot').mp ⟨later, went⟩⟩
      · rintro ⟨⟨⟨outcome, slot'⟩, ran⟩, contained⟩
        obtain ⟨later, went⟩ := (ih slot').mpr contained
        exact ⟨_, Fate.bind_eq_returned_iff.mpr ⟨_, ran, Fate.map_eq_returned_iff.mpr ⟨later, went, rfl⟩⟩⟩

end Loop

/-- The tests that are to be run: those the filter keeps. -/
def selected (testcase : Option String) (regs : List TestRegistration) : List TestRegistration :=
  match applyTestcaseFilter testcase (collectTests regs) with
  | .ok tests => tests
  | .error _ => []

/-- The regression records one result for each selected test, in (file, line) order, prints its line
and calls `finish`; the line says FAIL exactly if a recorded outcome is a failure. -/
def ReachesVerdict (clockwork : Clockwork) (conduct : ℕ → Conduct) (testcase : Option String)
    (regs : List TestRegistration) : Prop :=
  (selected testcase regs).Pairwise (fun a b => byPlace a b = true) ∧
    ∃ results line, regression clockwork conduct testcase regs = .returned ⟨results, [.line line, .finish]⟩ ∧
      results.map Prod.fst = (selected testcase regs).map TestRegistration.name ∧
      (line = "REGRESSION: PASS" ∨ line = "REGRESSION: FAIL") ∧
      (line = "REGRESSION: FAIL" ↔ ∃ r ∈ results, r.2.isFail = true)

theorem pairwise_collectTests (regs : List TestRegistration) :
    (collectTests regs).Pairwise fun a b => byPlace a b = true := by
  refine List.pairwise_mergeSort ?_ ?_ regs
  · intro a b c first second
    exact Std.TransCmp.isLE_trans first second
  · intro a b
    let place := compareLex (compareOn TestRegistration.file) (compareOn TestRegistration.line)
    have swap : place b a = (place a b).swap := Std.OrientedCmp.eq_swap
    change ((place a b).isLE || (place b a).isLE) = true
    rw [swap]
    cases place a b <;> rfl

/-- A filter that keeps something keeps a part of the tests, in order. -/
theorem applyTestcaseFilter_sublist {testcase : Option String} {tests kept : List TestRegistration}
    (filtered : applyTestcaseFilter testcase tests = .ok kept) : kept.Sublist tests := by
  cases testcase with
  | none =>
    cases filtered
    exact List.Sublist.refl _
  | some raw =>
    simp only [applyTestcaseFilter] at filtered
    split_ifs at filtered
    · cases filtered
      exact List.Sublist.refl _
    · cases filtered
      exact List.filter_sublist

theorem pairwise_selected (testcase : Option String) (regs : List TestRegistration) :
    (selected testcase regs).Pairwise fun a b => byPlace a b = true := by
  unfold selected
  split
  · next tests filtered => exact (pairwise_collectTests regs).sublist (applyTestcaseFilter_sublist filtered)
  · exact List.Pairwise.nil

/-- The verdict is reached exactly when the filter selects something and every selected test that is
run is contained. -/
theorem verdict_iff_contained (clockwork : Clockwork) (conduct : ℕ → Conduct) (testcase : Option String)
    (regs : List TestRegistration) :
    ReachesVerdict clockwork conduct testcase regs ↔
      ∃ tests, applyTestcaseFilter testcase (collectTests regs) = .ok tests ∧
        AllContained clockwork conduct 0 tests := by
  unfold ReachesVerdict
  rw [and_iff_right (pairwise_selected testcase regs)]
  cases filtered : applyTestcaseFilter testcase (collectTests regs) with
  | error e =>
    simp only [regression, filtered, reduceCtorEq, false_and, exists_false, iff_false, not_exists]
    -- FAIL is printed although nothing is recorded
    rintro results line ⟨returned, -, -, failed⟩
    cases returned
    obtain ⟨r, member, -⟩ := failed.mp rfl
    cases member
  | ok tests =>
    simp only [selected, filtered, regression, Except.ok.injEq, exists_eq_left']
    rw [← runFrom_returns_iff none]
    constructor
    · rintro ⟨results, line, returned, -⟩
      obtain ⟨results', ran, -⟩ := Fate.map_eq_returned_iff.mp returned
      exact ⟨results', ran⟩
    · rintro ⟨results, ran⟩
      refine ⟨results, _, Fate.map_eq_returned_iff.mpr ⟨results, ran, rfl⟩, runFrom_names ran, ?_, ?_⟩
      · split_ifs <;> simp
      · rw [← List.any_eq_true]
        split_ifs with failed <;> simp [failed]

/-- A test that returns at once and leaves nothing behind. -/
def wellBehaved : Conduct := ⟨.ok (), .finished (.ok ()), []⟩

/-- Two tests, the first with a timeout in a unit that there is not. -/
def wrongUnit : List TestRegistration :=
  [⟨"first", "tests.rs", 10, some (5, "min"), false, false, none⟩,
    ⟨"second", "tests.rs", 20, none, false, false, none⟩]

/-- Two tests without timeouts. -/
def untimed : List TestRegistration :=
  [⟨"first", "tests.rs", 10, none, false, false, none⟩, ⟨"second", "tests.rs", 20, none, false, false, none⟩]

/-- A test that passes and leaves a task behind whose destructor panics. -/
def leavesGuard : Conduct :=
  ⟨.ok (), .finished (.ok ()), [.task "monitor" (.alive (some "guard dropped while armed"))]⟩

def nanoseconds : Clockwork := ⟨-9, by decide, by decide, true⟩

/-- A timeout in an unknown unit, or a destructor that panics at the end of a test, ends the regression
before the second test. -/
theorem regression_without_verdict :
    ¬ ReachesVerdict nanoseconds (fun _ => wellBehaved) none wrongUnit ∧
      ¬ ReachesVerdict nanoseconds (fun _ => leavesGuard) none untimed := by
  have unit : regression nanoseconds (fun _ => wellBehaved) none wrongUnit = .panicked "unknown time unit 'min'" := by
    have order : collectTests wrongUnit = wrongUnit := List.mergeSort_of_pairwise (by decide +kernel)
    rw [regression, order]
    decide +kernel
  have guard : regression nanoseconds (fun _ => leavesGuard) none untimed = .panicked "guard dropped while armed" := by
    have order : collectTests untimed = untimed := List.mergeSort_of_pairwise (by decide +kernel)
    rw [regression, order]
    decide +kernel
  constructor
  · rintro ⟨-, results, line, returned, -⟩
    rw [unit] at returned
    cases returned
  · rintro ⟨-, results, line, returned, -⟩
    rw [guard] at returned
    cases returned

end Rustdv.Runner
