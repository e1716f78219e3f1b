import Mathlib.Data.List.Forall2
import Rustdv.Soundness.XunitTree
import Rustdv.Xml.Decode

/-! # The xUnit report as a document of XML

A parser finds the tree of the report again, and what it makes of a message depends on the characters of
the message: three are replaced before, and any other that means something in an attribute stands there as
it is.
-/

namespace Rustdv.Xunit

open Runner (Outcome)
open Xml (Tag Forest Element isPlain)

section Specification

/-- What a test case says of a result. -/
structure Testcase (r : TestResult) (testcase : Element) : Prop where
  tag_name : testcase.tag.name = "testcase".toList
  name_eq : testcase.tag.attr "name".toList = some r.name.toList
  time_eq : testcase.tag.attr "time".toList = some r.simNs.text.toList
  passed : r.outcome = .pass → testcase.children.elements = []
  skipped : r.outcome = .skip →
    ∃ skipped, testcase.children.elements = [skipped] ∧ skipped.tag.name = "skipped".toList
  failed : ∀ m kind, r.outcome = .fail m kind →
    ∃ failure, testcase.children.elements = [failure] ∧ failure.tag.name = "failure".toList ∧
      failure.tag.attr "message".toList = some (neutralise m).toList

/-- One suite that counts the results and has a test case for each of them, in order. -/
structure WellReported (results : List TestResult) (suites suite : Element) : Prop where
  suites_name : suites.tag.name = "testsuites".toList
  suites_eq : suites.children.elements = [suite]
  suite_name : suite.tag.name = "testsuite".toList
  tests_eq : suite.tag.attr "tests".toList = some (toString results.length).toList
  failures_eq : suite.tag.attr "failures".toList =
    some (toString (results.countP fun r => r.outcome.isFail)).toList
  skipped_eq : suite.tag.attr "skipped".toList =
    some (toString (results.countP fun r => r.outcome = .skip)).toList
  testcases : List.Forall₂ Testcase results suite.children.elements

/-- The document is well-formed, and it reports the results. -/
def Reports (document : String) (results : List TestResult) : Prop :=
  ∃ suites suite, Xml.parse document.toList = some suites ∧ WellReported results suites suite

end Specification

section Elements

def testcaseElement (r : TestResult) : Element := ⟨testcaseTag r, outcomeForest r.outcome⟩

def suiteElement (results : List TestResult) : Element := ⟨suiteTag results, chars "\n" (casesForest results)⟩

def suitesElement (results : List TestResult) : Element :=
  ⟨tag "testsuites" [],
    chars "\n" (.element (suiteTag results) (chars "\n" (casesForest results)) (chars "\n" .nil))⟩

theorem elements_chars (text : String) (rest : Forest) : (chars text rest).elements = rest.elements := by
  unfold chars
  induction text.toList with
  | nil => rfl
  | cons c cs ih => exact ih

theorem elements_casesForest (results : List TestResult) :
    (casesForest results).elements = results.map testcaseElement := by
  induction results with
  | nil => rfl
  | cons r results ih =>
    rw [casesForest, elements_chars, Forest.elements, elements_chars, ih]
    rfl

theorem elements_suite (results : List TestResult) :
    (suiteElement results).children.elements = results.map testcaseElement := by
  rw [suiteElement, elements_chars, elements_casesForest]

theorem elements_suites (results : List TestResult) :
    (suitesElement results).children.elements = [suiteElement results] := rfl

theorem elements_reportForest (results : List TestResult) :
    (reportForest results).elements = [suitesElement results] := rfl

end Elements

section Legible

theorem legible_chars {text : String} {rest : Forest} (allowed : text.toList.all Xml.isText = true)
    (legible : rest.Legible) : (chars text rest).Legible := by
  unfold chars
  generalize text.toList = cs at allowed
  induction cs with
  | nil => exact legible
  | cons c cs ih =>
    rw [List.all_cons, Bool.and_eq_true] at allowed
    exact ⟨allowed.1, ih allowed.2⟩

variable {results : List TestResult}

theorem legible_tag {name : String} {attrs : List (String × String)} (named : Xml.isName name.toList)
    (legible : ∀ attr ∈ attrs, Xml.isName attr.1.toList ∧ attr.2.toList.all Xml.isQuotable) :
    Xml.isName (tag name attrs).name ∧
      ∀ attr ∈ (tag name attrs).attrs, Xml.isName attr.1 ∧ attr.2.all Xml.isQuotable :=
  ⟨named, List.forall_mem_map.mpr legible⟩

theorem legible_outcomeForest (outcome : Outcome) : (outcomeForest outcome).Legible := by
  cases outcome with
  | pass => trivial
  | skip =>
    obtain ⟨named, attrs⟩ := @legible_tag "skipped" [] (by decide) (by simp)
    exact ⟨named, attrs, trivial, trivial⟩
  | fail m kind =>
    have message : Xml.isName "message".toList := by decide
    obtain ⟨named, attrs⟩ := @legible_tag "failure" [("message", neutralise m)] (by decide)
      (List.forall_mem_singleton.mpr ⟨message, neutralise_quotable m⟩)
    exact ⟨named, attrs, trivial, trivial⟩

theorem legible_casesForest (identifiers : ∀ r ∈ results, IsIdentifier r.name) : (casesForest results).Legible := by
  have newline : "\n".toList.all Xml.isText = true := by decide
  induction results with
  | nil => trivial
  | cons r results ih =>
    obtain ⟨identifier, rest⟩ := List.forall_mem_cons.mp identifiers
    have name : Xml.isName "name".toList := by decide
    have time : Xml.isName "time".toList := by decide
    obtain ⟨named, attrs⟩ := @legible_tag "testcase" [("name", r.name), ("time", r.simNs.text)] (by decide)
      (List.forall_mem_cons.mpr ⟨⟨name, identifier.clean.quotable⟩,
        List.forall_mem_singleton.mpr ⟨time, r.simNs.clean.quotable⟩⟩)
    exact legible_chars (by decide)
      ⟨named, attrs, legible_outcomeForest r.outcome, legible_chars newline (ih rest)⟩

theorem legible_reportForest (identifiers : ∀ r ∈ results, IsIdentifier r.name) : (reportForest results).Legible := by
  have newline : "\n".toList.all Xml.isText = true := by decide
  have name : Xml.isName "name".toList := by decide
  have counts : Xml.isName "tests".toList ∧ Xml.isName "failures".toList ∧ Xml.isName "skipped".toList := by decide
  have title : "rustdv".toList.all Xml.isQuotable = true := by decide
  obtain ⟨suitesNamed, suitesAttrs⟩ := @legible_tag "testsuites" [] (by decide) (by simp)
  obtain ⟨named, attrs⟩ := @legible_tag "testsuite" [("name", "rustdv"), ("tests", toString results.length),
    ("failures", toString (failures results)), ("skipped", toString (skipped results))] (by decide) (by
      simp only [List.forall_mem_cons, name, counts, title, (clean_nat _).quotable, true_and, List.not_mem_nil,
        false_implies, implies_true])
  exact legible_chars newline ⟨suitesNamed, suitesAttrs,
    legible_chars newline ⟨named, attrs, legible_chars newline (legible_casesForest identifiers),
      legible_chars newline trivial⟩, legible_chars newline trivial⟩

end Legible

section Plain

variable {results : List TestResult}

/-- The condition on a result: a message is made of characters that stand for themselves in an attribute. -/
def PlainMessage (r : TestResult) : Prop := ∀ m kind, r.outcome = .fail m kind → ∀ c ∈ m.toList, isPlain c

theorem plain_chars {text : String} {rest : Forest} (plain : rest.Plain) : (chars text rest).Plain := by
  unfold chars
  induction text.toList with
  | nil => exact plain
  | cons c cs ih => exact ih

theorem plain_tag {name : String} {attrs : List (String × String)} (distinct : (attrs.map Prod.fst).Nodup)
    (plain : ∀ attr ∈ attrs, ∀ c ∈ attr.2.toList, isPlain c) : (tag name attrs).Plain := by
  refine ⟨?_, List.forall_mem_map.mpr plain⟩
  have keys : (tag name attrs).attrs.map Prod.fst = (attrs.map Prod.fst).map String.toList := by
    simp only [tag, List.map_map]
    rfl
  rw [keys]
  exact distinct.map fun a b => String.toList_inj.mp

theorem plain_outcomeForest {r : TestResult} (plain : PlainMessage r) : (outcomeForest r.outcome).Plain := by
  cases outcome : r.outcome with
  | pass => trivial
  | skip => exact ⟨plain_tag (by simp) (by simp), trivial, trivial⟩
  | fail m kind =>
    have message := (neutralise_plain_iff m).mpr (plain m kind outcome)
    exact ⟨plain_tag (by simp) (List.forall_mem_singleton.mpr message), trivial, trivial⟩

theorem plain_casesForest (identifiers : ∀ r ∈ results, IsIdentifier r.name)
    (plain : ∀ r ∈ results, PlainMessage r) : (casesForest results).Plain := by
  induction results with
  | nil => trivial
  | cons r results ih =>
    obtain ⟨identifier, identifiers⟩ := List.forall_mem_cons.mp identifiers
    obtain ⟨message, plain⟩ := List.forall_mem_cons.mp plain
    have attrs : (testcaseTag r).Plain := plain_tag (by simp)
      (List.forall_mem_cons.mpr ⟨identifier.clean.plain, List.forall_mem_singleton.mpr r.simNs.clean.plain⟩)
    exact plain_chars ⟨attrs, plain_outcomeForest message, plain_chars (ih identifiers plain)⟩

theorem plain_reportForest (identifiers : ∀ r ∈ results, IsIdentifier r.name)
    (plain : ∀ r ∈ results, PlainMessage r) : (reportForest results).Plain := by
  have title : Clean "rustdv" := rfl
  have attrs : (suiteTag results).Plain := plain_tag (by simp) (by
    refine List.forall_mem_cons.mpr ⟨title.plain, List.forall_mem_cons.mpr ⟨(clean_nat _).plain, ?_⟩⟩
    exact List.forall_mem_cons.mpr ⟨(clean_nat _).plain, List.forall_mem_singleton.mpr (clean_nat _).plain⟩)
  exact plain_chars ⟨plain_tag (by simp) (by simp),
    plain_chars ⟨attrs, plain_chars (plain_casesForest identifiers plain), plain_chars trivial⟩, plain_chars trivial⟩

end Plain

section Reports

variable {results : List TestResult}

theorem attr_tag (name key : String) (attrs : List (String × String)) :
    (tag name attrs).attr key.toList = (attrs.lookup key).map String.toList := by
  unfold tag Tag.attr
  induction attrs with
  | nil => rfl
  | cons attr attrs ih =>
    have same : (key.toList == attr.1.toList) = (key == attr.1) := by
      rw [Bool.eq_iff_iff, beq_iff_eq, beq_iff_eq, String.toList_inj]
    rw [List.map_cons, List.lookup_cons, List.lookup_cons, same]
    cases key == attr.1 with
    | true => rfl
    | false => exact ih

theorem testcase_self (r : TestResult) : Testcase r (testcaseElement r) where
  tag_name := rfl
  name_eq := attr_tag ..
  time_eq := attr_tag ..
  passed := by
    intro outcome
    rw [testcaseElement, outcome]
    rfl
  skipped := by
    intro outcome
    rw [testcaseElement, outcome]
    exact ⟨_, rfl, rfl⟩
  failed := by
    intro m kind outcome
    rw [testcaseElement, outcome]
    exact ⟨_, rfl, rfl, attr_tag ..⟩

theorem wellReported_self (results : List TestResult) :
    WellReported results (suitesElement results) (suiteElement results) where
  suites_name := rfl
  suites_eq := elements_suites results
  suite_name := rfl
  tests_eq := attr_tag ..
  failures_eq := by
    rw [List.countP_eq_length_filter]
    exact attr_tag ..
  skipped_eq := by
    rw [List.countP_eq_length_filter]
    exact attr_tag ..
  testcases := by
    rw [elements_suite, List.forall₂_map_right_iff, List.forall₂_same]
    exact fun r _ => testcase_self r

theorem parse_report (identifiers : ∀ r ∈ results, IsIdentifier r.name) :
    Xml.parse (report results).toList = (reportForest results).decode.bind Forest.root := by
  rw [report_eq, Xml.parse_render (legible_reportForest identifiers)]

/-- A message that a parser reads as it was written is plain. -/
theorem plainMessage_of_decode {r : TestResult} {testcase : Element}
    (decoded : (testcaseElement r).decode = some testcase) (said : Testcase r testcase) : PlainMessage r := by
  intro m kind outcome
  rw [← neutralise_plain_iff, ← Xml.decodeValue_eq_self_iff]
  obtain ⟨failure, only, -, message⟩ := said.failed m kind outcome
  have children := Forest.decode_elements (Xml.Element.decode_eq_some_iff.mp decoded).2
  rw [testcaseElement, outcome, only] at children
  obtain ⟨failureDecoded, -⟩ := List.forall₂_cons.mp children
  have value := Tag.decode_attr (Xml.Element.decode_eq_some_iff.mp failureDecoded).1 "message".toList
  have written : (tag "failure" [("message", neutralise m)]).attr "message".toList = some (neutralise m).toList :=
    attr_tag ..
  rw [message, written, Option.bind_some] at value
  exact value.symm

/-- The suite and the test cases in it come out of the tree by decoding. -/
theorem decoded_testcases {suites suite : Element} {forest : Forest}
    (decoded : (reportForest results).decode = some forest) (root : forest.root = some suites)
    (only : suites.children.elements = [suite]) :
    List.Forall₂ (fun r testcase => (testcaseElement r).decode = some testcase) results suite.children.elements := by
  have top := Forest.decode_elements decoded
  rw [elements_reportForest, (Forest.root_eq_some_iff.mp root).1] at top
  obtain ⟨suitesDecoded, -⟩ := List.forall₂_cons.mp top
  have suites := Forest.decode_elements (Xml.Element.decode_eq_some_iff.mp suitesDecoded).2
  rw [elements_suites, only] at suites
  obtain ⟨suiteDecoded, -⟩ := List.forall₂_cons.mp suites
  have testcases := Forest.decode_elements (Xml.Element.decode_eq_some_iff.mp suiteDecoded).2
  rwa [elements_suite, List.forall₂_map_left_iff] at testcases

/-- A document is well-formed and reports the results precisely if the messages of the failures are plain. -/
theorem report_reports_iff (identifiers : ∀ r ∈ results, IsIdentifier r.name) :
    Reports (report results) results ↔ ∀ r ∈ results, PlainMessage r := by
  constructor
  · rintro ⟨suites, suite, parsed, said⟩
    rw [parse_report identifiers, Option.bind_eq_some_iff] at parsed
    obtain ⟨forest, decoded, root⟩ := parsed
    have testcases := decoded_testcases decoded root said.suites_eq
    have both : List.Forall₂ (fun r testcase => PlainMessage r ∧ Testcase r testcase) results
        suite.children.elements := by
      apply List.Forall₂.mp ?_ testcases said.testcases
      intro r testcase testcaseDecoded same
      exact ⟨plainMessage_of_decode testcaseDecoded same, same⟩
    exact ((List.forall₂_and_left results _).mp both).1
  · intro plain
    have decoded := Forest.decode_of_plain (plain_reportForest identifiers plain)
    refine ⟨suitesElement results, suiteElement results, ?_, wellReported_self results⟩
    rw [parse_report identifiers, decoded, Option.bind_some, Forest.root_eq_some_iff]
    exact ⟨elements_reportForest results, rfl⟩

/-- What is written to a file is well-formed and reports the results precisely if the messages are plain. -/
theorem writeXunit_reports_iff (path : String) (results : List TestResult)
    (identifiers : ∀ r ∈ results, IsIdentifier r.name) :
    ∃ document, writeXunit (some path) results = some (path, document) ∧
      (Reports document results ↔ ∀ r ∈ results, PlainMessage r) :=
  ⟨report results, rfl, report_reports_iff identifiers⟩

/-- A comparison that failed. -/
def compared : TestResult := ⟨"alu_adds", .fail "0x1f < \"0x20\"" none, .finite false 12050⟩

theorem writeXunit_reports_iff_compared :
    ∃ document, writeXunit (some "results.xml") [compared] = some ("results.xml", document) ∧
      Reports document [compared] := by
  have identifiers : ∀ r ∈ [compared], IsIdentifier r.name := by
    refine List.forall_mem_singleton.mpr (List.all_eq_true.mp ?_)
    decide
  have plain : ∀ r ∈ [compared], PlainMessage r := by
    refine List.forall_mem_singleton.mpr ?_
    rintro m kind ⟨⟩
    refine List.all_eq_true.mp ?_
    decide
  obtain ⟨document, written, reports⟩ := writeXunit_reports_iff "results.xml" [compared] identifiers
  exact ⟨document, written, reports.mpr plain⟩

/-- A condition that failed. -/
def conjoined : TestResult := ⟨"alu_flags", .fail "a && b" none, .finite false 0⟩

/-- No parser takes a document with an ampersand in a message. -/
theorem ampersand_is_not_well_formed :
    Xml.parse (report [conjoined]).toList = none ∧
      ¬ ∀ results, (∀ r ∈ results, IsIdentifier r.name) → Reports (report results) results := by
  have identifiers : ∀ r ∈ [conjoined], IsIdentifier r.name := by
    refine List.forall_mem_singleton.mpr (List.all_eq_true.mp ?_)
    decide
  have rejected : Xml.parse (report [conjoined]).toList = none := by
    rw [parse_report identifiers]
    decide +kernel
  refine ⟨rejected, ?_⟩
  intro claim
  obtain ⟨suites, suite, parsed, -⟩ := claim [conjoined] identifiers
  rw [rejected] at parsed
  cases parsed

end Reports

end Rustdv.Xunit
