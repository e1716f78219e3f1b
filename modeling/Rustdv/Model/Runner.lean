import Mathlib.Data.List.Infix
import Mathlib.Data.List.Sort
import Rustdv.Model.Component
import Rustdv.Model.Time

/-! # The regression manager

The regression is one task of the executor; every test runs in a task of its own. What happens in a
test's tasks comes to the regression as a result or a message, since the executor catches their panics.
What the regression does itself, it does in its own task: making a test's timeout into a timer, and
dropping the tasks that a test leaves behind. A panic there ends the regression.
-/

namespace Rustdv.Runner

open Component (TestError TestResult)
open Time (Clockwork)

/-- A registered test; what it does is told apart. -/
structure TestRegistration where
  name : String
  file : String
  line : ℕ
  timeout : Option (UInt64 × String)
  skip : Bool
  expectFail : Bool
  expectError : Option String
deriving DecidableEq, Repr

inductive Outcome where
  | pass
  | fail (msg : String) (kind : Option String)
  | skip
deriving DecidableEq, Repr

/-- `fail`: without a cause. -/
def fail (msg : String) : Outcome := .fail msg none

def Outcome.isFail : Outcome → Bool
  | .fail .. => true
  | _ => false

inductive TaskError where
  | cancelled
  | panicked (msg : String)
deriving DecidableEq, Repr

def TaskError.text : TaskError → String
  | .cancelled => "task was cancelled"
  | .panicked msg => s!"task panicked: {msg}"

/-- How a task stands at the end of a test. -/
inductive TaskEnd (α : Type*) where
  | finished (value : α)
  | panicked (msg : String)
  | cancelled
  /-- Still alive; dropping its future may panic. -/
  | alive (destructor : Option String)
deriving DecidableEq, Repr

/-- What happens while a test runs, besides its own task. -/
inductive Background where
  | task (name : String) (ending : TaskEnd Unit)
  /-- A panic in a simulator callback. -/
  | callback (msg : String)
deriving DecidableEq, Repr

/-- What a test does: how its own task and the others stand when the wait for it is over, in the order in
which they panicked or are cancelled. With a timeout the wait is over when the timer fires at the
latest. -/
structure Conduct where
  /-- `top_module`. -/
  dut : Except String Unit
  body : TaskEnd TestResult
  others : List Background

/-- The fate of an async computation. -/
inductive Fate (α : Type*) where
  | returned (value : α)
  /-- It panicked, and its task with it. -/
  | panicked (msg : String)
  /-- It waits for something that does not happen. -/
  | waiting
deriving DecidableEq, Repr

namespace Fate

variable {α β : Type*}

def bind (fate : Fate α) (next : α → Fate β) : Fate β :=
  match fate with
  | .returned value => next value
  | .panicked msg => .panicked msg
  | .waiting => .waiting

def map (f : α → β) (fate : Fate α) : Fate β := fate.bind fun value => .returned (f value)

/-- A call that may panic. -/
def call : Except String α → Fate α
  | .ok value => .returned value
  | .error msg => .panicked msg

end Fate

section RunOne

/-- What the failure sink of the executor and the panic sink of the callbacks are told. -/
def Background.report : Background → Option String
  | .task name (.panicked msg) => some s!"task '{name}' panicked: {msg}"
  | .task .. => none
  | .callback msg => some s!"panic in simulator callback: {msg}"

/-- The failure slot keeps the first message. -/
def sink (slot : Option String) (reports : List String) : Option String := slot.or reports.head?

/-- All that is reported while a test runs. -/
def Conduct.reports (conduct : Conduct) (name : String) : List String :=
  (Background.task name (match conduct.body with
    | .panicked msg => .panicked msg
    | _ => .cancelled) :: conduct.others).filterMap Background.report

/-- The destructors of the tasks that are still alive. -/
def Conduct.leftovers (conduct : Conduct) : List (Option String) :=
  let body := match conduct.body with
    | .alive destructor => [destructor]
    | _ => []
  body ++ conduct.others.filterMap fun
    | .task _ (.alive destructor) => some destructor
    | _ => none

/-- `cancel_after`, as far as destructors panic: the first one unwinds. -/
def cancelAfter : List (Option String) → Except String Unit
  | [] => .ok ()
  | none :: rest => cancelAfter rest
  | some msg :: _ => .error msg

/-- What awaiting the test's task comes to; `none` is a timeout. -/
def awaitBody (clockwork : Clockwork) (reg : TestRegistration) (conduct : Conduct) :
    Fate (Option (Except TaskError TestResult)) :=
  let ended : Option (Except TaskError TestResult) := match conduct.body with
    | .finished result => some (.ok result)
    | .panicked msg => some (.error (.panicked msg))
    | .cancelled => some (.error .cancelled)
    | .alive _ => none
  match reg.timeout with
  | some (n, unit) => (Fate.call ((Time.fromUnit clockwork n unit).bind Time.newTimer)).map fun _ => ended
  | none =>
      match ended with
      | some result => .returned (some result)
      | none => .waiting

/-- The outcome before it is compared with what is expected. -/
def rawOutcome (reg : TestRegistration) : Option (Except TaskError TestResult) → Outcome
  | none =>
      let (n, unit) := reg.timeout.getD (0, "")
      fail s!"timeout after {n}{unit}"
  | some (.error e) => fail s!"test task: {e.text}"
  | some (.ok (.error e)) => .fail e.msg e.kind
  | some (.ok (.ok ())) => .pass

/-- A panic in a child task fails the test even if the body passed. -/
def withBackground (background : Option String) (outcome : Outcome) : Outcome :=
  match background with
  | some bg => if outcome = .pass then fail bg else outcome
  | none => outcome

/-- `expect_error` and `expect_fail`. -/
def expected (reg : TestRegistration) (outcome : Outcome) : Outcome :=
  match reg.expectError with
  | some cause =>
      match outcome with
      | .pass => fail s!"expected error '{cause}' but test passed"
      | .fail msg kind =>
          if kind = some cause then .pass
          else
            let got := kind.getD "an unclassified failure"
            fail s!"expected error '{cause}', got {got}: {msg}"
      | .skip => .skip
  | none =>
      if reg.expectFail then
        match outcome with
        | .pass => fail "expected failure but test passed"
        | .fail .. => .pass
        | .skip => .skip
      else outcome

/-- `run_one`, with the failure slot. -/
def runOne (clockwork : Clockwork) (slot : Option String) (reg : TestRegistration) (conduct : Conduct) :
    Fate (Outcome × Option String) :=
  match conduct.dut with
  | .error e => .returned (fail s!"no DUT: {e}", slot)
  | .ok () =>
      (awaitBody clockwork reg conduct).bind fun raw =>
        (Fate.call (cancelAfter conduct.leftovers)).map fun _ =>
          (expected reg (withBackground (sink slot (conduct.reports reg.name)) (rawOutcome reg raw)), none)

end RunOne

section Regression

/-- The order of `collect_tests`. -/
def byPlace (a b : TestRegistration) : Bool :=
  (compareLex (compareOn TestRegistration.file) (compareOn TestRegistration.line) a b).isLE

/-- All registered tests, in (file, line) order. -/
def collectTests (regs : List TestRegistration) : List TestRegistration := regs.mergeSort byPlace

/-- `char::is_whitespace`. -/
def isWhitespace (c : Char) : Bool :=
  (0x9 ≤ c.toNat && c.toNat ≤ 0xd) || (0x2000 ≤ c.toNat && c.toNat ≤ 0x200a) ||
    [0x20, 0x85, 0xa0, 0x1680, 0x2028, 0x2029, 0x202f, 0x205f, 0x3000].contains c.toNat

/-- `str::trim`. -/
def trim (text : List Char) : List Char :=
  ((text.dropWhile isWhitespace).reverse.dropWhile isWhitespace).reverse

/-- `to_ascii_lowercase`. -/
def toAsciiLowercase (text : List Char) : List Char := text.map Char.toLower

/-- The patterns of `RUSTDV_TESTCASE`. -/
def patterns (raw : String) : List (List Char) :=
  ((raw.toList.splitOn ',').map fun part => toAsciiLowercase (trim part)).filter (· ≠ [])

/-- `apply_testcase_filter`. -/
def applyTestcaseFilter (testcase : Option String) (tests : List TestRegistration) :
    Except String (List TestRegistration) :=
  match testcase with
  | none => .ok tests
  | some raw =>
      if patterns raw = [] then .ok tests
      else
        let kept := tests.filter fun t => (patterns raw).any fun p => decide (p <:+: toAsciiLowercase t.name.toList)
        if kept = [] then .error s!"RUSTDV_TESTCASE={raw} matched no test" else .ok kept

/-- What leaves the regression. -/
inductive Output where
  | line (text : String)
  /-- `gpi::finish`. -/
  | finish
deriving DecidableEq, Repr

structure Report where
  results : List (String × Outcome)
  output : List Output
deriving DecidableEq, Repr

variable (clockwork : Clockwork) (conduct : ℕ → Conduct)

/-- The loop of `regression`, from one test on. -/
def runFrom : ℕ → Option String → List TestRegistration → Fate (List (String × Outcome))
  | _, _, [] => .returned []
  | i, slot, reg :: rest =>
      if reg.skip then (runFrom (i + 1) slot rest).map ((reg.name, .skip) :: ·)
      else
        (runOne clockwork slot reg (conduct i)).bind fun (outcome, slot) =>
          (runFrom (i + 1) slot rest).map ((reg.name, outcome) :: ·)

/-- `regression`, when the tests conduct themselves so, in the order in which they come up. -/
def regression (testcase : Option String) (regs : List TestRegistration) : Fate Report :=
  match applyTestcaseFilter testcase (collectTests regs) with
  | .error _ => .returned ⟨[], [.line "REGRESSION: FAIL", .finish]⟩
  | .ok tests =>
      (runFrom clockwork conduct 0 none tests).map fun results =>
        ⟨results, [.line (if results.any (·.2.isFail) then "REGRESSION: FAIL" else "REGRESSION: PASS"), .finish]⟩

end Regression

end Rustdv.Runner
