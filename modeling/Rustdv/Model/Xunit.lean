import Rustdv.Model.Runner

/-! # The xUnit report

The results of a regression are written down by hand, as text with the names, times and messages put
into it. A message has three of its characters replaced by others before.
-/

namespace Rustdv.Xunit

open Runner (Outcome)

/-- A floating-point number as `{:.2}` prints it. -/
inductive Fixed2 where
  | finite (negative : Bool) (hundredths : ℕ)
  | infinite (negative : Bool)
  | nan
deriving DecidableEq, Repr

def sign (negative : Bool) : String := if negative then "-" else ""

def Fixed2.text : Fixed2 → String
  | .finite negative hundredths =>
      sign negative ++ toString (hundredths / 100) ++ "." ++ toString (hundredths / 10 % 10) ++
        toString (hundredths % 10)
  | .infinite negative => sign negative ++ "inf"
  | .nan => "NaN"

structure TestResult where
  name : String
  outcome : Outcome
  /-- `sim_ns`. -/
  simNs : Fixed2
deriving DecidableEq, Repr

def replace (old new : Char) (text : String) : String := text.map fun c => if c = old then new else c

/-- The replacements in a message. -/
def neutralise (msg : String) : String :=
  replace '>' ')' (replace '<' '(' (replace (Char.ofNat 0x22) (Char.ofNat 0x27) msg))

def failures (results : List TestResult) : ℕ := (results.filter fun r => r.outcome.isFail).length

def skipped (results : List TestResult) : ℕ := (results.filter fun r => decide (r.outcome = .skip)).length

section Texts

/-! What `write_xunit` pushes, in order. -/

def declarationText : String := "<?xml version=\"1.0\" encoding=\"UTF-8\"?>\n"

def suiteText (results : List TestResult) : String :=
  "<testsuites>\n<testsuite name=\"rustdv\" tests=\"" ++ toString results.length ++ "\" failures=\"" ++
    toString (failures results) ++ "\" skipped=\"" ++ toString (skipped results) ++ "\">\n"

def testcaseText (r : TestResult) : String :=
  "  <testcase name=\"" ++ r.name ++ "\" time=\"" ++ r.simNs.text ++ "\""

def failureText (m : String) : String := "><failure message=\"" ++ neutralise m ++ "\"/></testcase>\n"

def outcomeText : Outcome → String
  | .pass => "/>\n"
  | .skip => "><skipped/></testcase>\n"
  | .fail m _ => failureText m

def closingText : String := "</testsuite>\n</testsuites>\n"

end Texts

/-- The loop over the results. -/
def pushAll : String → List TestResult → String
  | xml, [] => xml
  | xml, r :: results => pushAll (xml ++ testcaseText r ++ outcomeText r.outcome) results

/-- The document. -/
def report (results : List TestResult) : String :=
  pushAll (declarationText ++ suiteText results) results ++ closingText

/-- `write_xunit`: the file and its content, if the environment names one. -/
def writeXunit (path : Option String) (results : List TestResult) : Option (String × String) :=
  path.map fun path => (path, report results)

end Rustdv.Xunit
