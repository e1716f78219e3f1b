import Rustdv.Model.Xunit
import Rustdv.Xml.Render

/-! # The tree of an xUnit report

What is written down is the rendering of a tree in which nothing is escaped. Names, numbers and times have
no character in them that would need it, and a message none that would end its attribute.
-/

namespace Rustdv.Xunit

open Runner (Outcome)
open Xml (Tag Forest isPlain)

section Tree

def tag (name : String) (attrs : List (String × String)) : Tag :=
  ⟨name.toList, attrs.map fun attr => (attr.1.toList, attr.2.toList)⟩

def chars (text : String) (rest : Forest) : Forest := text.toList.foldr .char rest

def outcomeForest : Outcome → Forest
  | .pass => .nil
  | .skip => .element (tag "skipped" []) .nil .nil
  | .fail m _ => .element (tag "failure" [("message", neutralise m)]) .nil .nil

def testcaseTag (r : TestResult) : Tag := tag "testcase" [("name", r.name), ("time", r.simNs.text)]

/-- The test cases, each on a line of its own. -/
def casesForest : List TestResult → Forest
  | [] => .nil
  | r :: results =>
      chars "  " (.element (testcaseTag r) (outcomeForest r.outcome) (chars "\n" (casesForest results)))

def suiteTag (results : List TestResult) : Tag :=
  tag "testsuite" [("name", "rustdv"), ("tests", toString results.length),
    ("failures", toString (failures results)), ("skipped", toString (skipped results))]

/-- The tree that is written down. -/
def reportForest (results : List TestResult) : Forest :=
  chars "\n" (.element (tag "testsuites" [])
    (chars "\n" (.element (suiteTag results) (chars "\n" (casesForest results)) (chars "\n" .nil)))
    (chars "\n" .nil))

theorem render_chars (text : String) (rest : Forest) : (chars text rest).render = text.toList ++ rest.render := by
  unfold chars
  induction text.toList with
  | nil => rfl
  | cons c cs ih => rw [List.foldr_cons, Forest.render, ih, List.cons_append]

theorem chars_ne_nil (rest : Forest) : chars "\n" rest ≠ .nil := nofun

/-- The end of a test case is how its element is closed. -/
theorem outcomeText_eq (outcome : Outcome) :
    (outcomeText outcome).toList =
      (if outcomeForest outcome = .nil then ['/', '>']
        else '>' :: ((outcomeForest outcome).render ++ '<' :: '/' :: ("testcase".toList ++ ['>']))) ++ ['\n'] := by
  cases outcome with
  | pass => rfl
  | skip => rfl
  | fail m kind =>
    change ("><failure message=\"" ++ neutralise m ++ "\"/></testcase>\n").toList = _
    simp [outcomeForest, Forest.render, Xml.renderAttr, Xml.quotationMark, tag]

theorem testcaseText_eq (r : TestResult) :
    (testcaseText r).toList =
      "  ".toList ++ '<' :: ((testcaseTag r).name ++ (testcaseTag r).attrs.flatMap Xml.renderAttr) := by
  change ("  <testcase name=\"" ++ r.name ++ "\" time=\"" ++ r.simNs.text ++ "\"").toList = _
  simp [testcaseTag, Xml.renderAttr, Xml.quotationMark, tag]

theorem suiteText_eq (results : List TestResult) :
    (suiteText results).toList =
      "<testsuites>\n".toList ++ '<' :: ((suiteTag results).name ++ (suiteTag results).attrs.flatMap Xml.renderAttr) ++
        ">\n".toList := by
  change ("<testsuites>\n<testsuite name=\"rustdv\" tests=\"" ++ toString results.length ++ "\" failures=\"" ++
    toString (failures results) ++ "\" skipped=\"" ++ toString (skipped results) ++ "\">\n").toList = _
  simp [suiteTag, Xml.renderAttr, Xml.quotationMark, tag]

theorem pushAll_eq (xml : String) (results : List TestResult) :
    (pushAll xml results).toList = xml.toList ++ (casesForest results).render := by
  induction results generalizing xml with
  | nil => simp [pushAll, casesForest, Forest.render]
  | cons r results ih =>
    rw [pushAll, ih, String.toList_append, String.toList_append, testcaseText_eq, outcomeText_eq, casesForest,
      render_chars, Forest.render, render_chars]
    simp only [List.append_assoc, List.cons_append, List.nil_append]
    rfl

/-- The document is the tree, written down. -/
theorem report_eq (results : List TestResult) :
    (report results).toList = Xml.declaration ++ (reportForest results).render := by
  have declaration : declarationText.toList = Xml.declaration ++ "\n".toList := rfl
  have suites : tag "testsuites" [] = ⟨"testsuites".toList, []⟩ := rfl
  have suite : (suiteTag results).name = "testsuite".toList := rfl
  have closing : closingText.toList = "</testsuite>\n</testsuites>\n".toList := rfl
  rw [report, String.toList_append, pushAll_eq, String.toList_append, suiteText_eq, reportForest, render_chars,
    Forest.render, render_chars, Forest.render, render_chars, render_chars, declaration, suites, suite, closing,
    if_neg (chars_ne_nil _), if_neg (chars_ne_nil _)]
  generalize (suiteTag results).attrs.flatMap Xml.renderAttr = attrs
  generalize (casesForest results).render = cases
  simp [Forest.render]

end Tree

/-- The characters of identifiers: the hash of raw identifiers, digits, capitals, the underscore, small
letters, and what there is besides ASCII. -/
def isIdentifierChar (c : Char) : Bool :=
  Xml.within [(0x23, 0x23), (0x30, 0x39), (0x41, 0x5A), (0x5F, 0x5F), (0x61, 0x7A)] c ||
    (0x80 ≤ c.toNat && Xml.isChar c)

def IsIdentifier (name : String) : Prop := ∀ c ∈ name.toList, isIdentifierChar c

section Characters

/-- A character that stands for itself in an attribute and does not end it. -/
def isClean (c : Char) : Bool := isPlain c && Xml.isQuotable c

def Clean (text : String) : Prop := text.toList.all isClean = true

theorem Clean.append {front back : String} (left : Clean front) (right : Clean back) : Clean (front ++ back) := by
  unfold Clean at *
  rw [String.toList_append, List.all_append, left, right, Bool.and_self]

theorem clean_iff {text : String} :
    Clean text ↔ (∀ c ∈ text.toList, isPlain c) ∧ text.toList.all Xml.isQuotable = true := by
  simp only [Clean, isClean, List.all_eq_true, Bool.and_eq_true, imp_and, forall_and]

theorem Clean.plain {text : String} (clean : Clean text) : ∀ c ∈ text.toList, isPlain c := (clean_iff.mp clean).1

theorem Clean.quotable {text : String} (clean : Clean text) : text.toList.all Xml.isQuotable = true :=
  (clean_iff.mp clean).2

/-- Characters by their codes: neither a space, nor one of those that mean something in an attribute. -/
theorem isClean_of_toNat {c : Char} (low : 0x21 ≤ c.toNat) (notMark : c.toNat ≠ 0x22) (notReference : c.toNat ≠ 0x26)
    (notTag : c.toNat ≠ 0x3C) (allowed : Xml.isChar c) : isClean c = true := by
  have other {d : Char} (ne : c.toNat ≠ d.toNat) : c ≠ d := fun same => ne (congrArg Char.toNat same)
  have mark : c ≠ Xml.quotationMark := other notMark
  have reference : c ≠ '&' := other notReference
  have less : c ≠ '<' := other notTag
  have space : Xml.isSpace c = false := by
    simp [Xml.isSpace, Xml.within]
    omega
  simp [isClean, isPlain, Xml.isQuotable, allowed, reference, mark, less, space]

/-- The range from which digits and letters come, with the number sign. -/
theorem isClean_of_ascii {c : Char} (low : 0x23 ≤ c.toNat) (high : c.toNat ≤ 0x7A) (notReference : c.toNat ≠ 0x26)
    (notTag : c.toNat ≠ 0x3C) : isClean c = true := by
  have allowed : Xml.isChar c = true := by
    simp [Xml.isChar, Xml.within]
    omega
  exact isClean_of_toNat (by omega) (by omega) notReference notTag allowed

theorem isClean_of_isDigit {c : Char} (digit : c.isDigit) : isClean c = true := by
  obtain ⟨low, high⟩ : 0x30 ≤ c.toNat ∧ c.toNat ≤ 0x39 := Char.isDigit_iff_toNat.mp digit
  exact isClean_of_ascii (by omega) (by omega) (by omega) (by omega)

theorem isClean_of_identifierChar {c : Char} (identifier : isIdentifierChar c) : isClean c = true := by
  simp only [isIdentifierChar, Xml.within, List.any_cons, List.any_nil, Bool.or_eq_true, Bool.and_eq_true,
    decide_eq_true_eq, Bool.false_eq_true, or_false] at identifier
  rcases identifier with ascii | ⟨high, allowed⟩
  · exact isClean_of_ascii (by omega) (by omega) (by omega) (by omega)
  · exact isClean_of_toNat (by omega) (by omega) (by omega) (by omega) allowed

theorem IsIdentifier.clean {name : String} (identifier : IsIdentifier name) : Clean name :=
  List.all_eq_true.mpr fun c mem => isClean_of_identifierChar (identifier c mem)

theorem clean_nat (n : ℕ) : Clean (toString n) := by
  refine List.all_eq_true.mpr fun c mem => isClean_of_isDigit ?_
  have digits : (toString n).toList = Nat.toDigits 10 n := by simp
  rw [digits] at mem
  exact Nat.isDigit_of_mem_toDigits (by decide) (by decide) mem

theorem clean_sign (negative : Bool) : Clean (sign negative) := by
  cases negative <;> rfl

theorem Fixed2.clean (time : Fixed2) : Clean time.text := by
  have point : Clean "." := rfl
  have inf : Clean "inf" := rfl
  cases time with
  | finite negative hundredths =>
    exact ((((clean_sign negative).append (clean_nat _)).append point).append (clean_nat _)).append (clean_nat _)
  | infinite negative => exact (clean_sign negative).append inf
  | nan => rfl

/-- What becomes of a character of a message. -/
def neutraliseChar (c : Char) : Char :=
  let c := if c = Char.ofNat 0x22 then Char.ofNat 0x27 else c
  let c := if c = '<' then '(' else c
  if c = '>' then ')' else c

theorem neutralise_eq (msg : String) : (neutralise msg).toList = msg.toList.map neutraliseChar := by
  simp only [neutralise, replace, String.toList_map, List.map_map]
  rfl

/-- What a message is made of: three characters and what they become, and those that stay. -/
theorem neutraliseChar_cases (c : Char) :
    (isPlain c = true ∧ isPlain (neutraliseChar c) = true ∧ Xml.isQuotable (neutraliseChar c) = true) ∨
      (neutraliseChar c = c ∧ Xml.isQuotable c = true) := by
  unfold neutraliseChar
  by_cases mark : c = Char.ofNat 0x22
  · subst mark
    exact .inl (by decide)
  by_cases less : c = '<'
  · subst less
    exact .inl (by decide)
  by_cases greater : c = '>'
  · subst greater
    exact .inl (by decide)
  refine .inr ⟨by simp only [mark, less, greater, ↓reduceIte], ?_⟩
  have mark' : c ≠ Xml.quotationMark := mark
  simp [Xml.isQuotable, mark', less]

theorem isQuotable_neutraliseChar (c : Char) : Xml.isQuotable (neutraliseChar c) = true := by
  rcases neutraliseChar_cases c with ⟨-, -, quotable⟩ | ⟨same, quotable⟩
  · exact quotable
  · rwa [same]

theorem isPlain_neutraliseChar (c : Char) : isPlain (neutraliseChar c) = isPlain c := by
  rcases neutraliseChar_cases c with ⟨plain, plain', -⟩ | ⟨same, -⟩
  · rw [plain, plain']
  · rw [same]

theorem neutralise_quotable (msg : String) : (neutralise msg).toList.all Xml.isQuotable = true := by
  rw [neutralise_eq, List.all_map, List.all_eq_true]
  exact fun c _ => isQuotable_neutraliseChar c

theorem neutralise_plain_iff (msg : String) :
    (∀ c ∈ (neutralise msg).toList, isPlain c) ↔ ∀ c ∈ msg.toList, isPlain c := by
  simp only [neutralise_eq, List.forall_mem_map, isPlain_neutraliseChar]

end Characters

end Rustdv.Xunit
