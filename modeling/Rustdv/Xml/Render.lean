import Mathlib.Data.Option.Basic
import Rustdv.Xml.Parse

/-! # Writing documents as they are

`Forest.render` writes a document and escapes nothing. As long as the names are names and no value holds a
quotation mark or the opening bracket of a tag, the parser finds the same tags again; what is left to it is
the decoding of the values.
-/

namespace Xml

/-- A character that can be written as text anywhere. -/
def isText (c : Char) : Bool := isChar c && !(['<', '&', '>', ']', carriageReturn].contains c)

def isName : List Char → Bool
  | [] => false
  | c :: cs => isNameStart c && cs.all isNameChar

/-- A character that does not end a value in quotation marks. -/
def isQuotable (c : Char) : Bool := c != quotationMark && c != '<'

def renderAttr (attr : List Char × List Char) : List Char :=
  ' ' :: (attr.1 ++ '=' :: quotationMark :: (attr.2 ++ [quotationMark]))

/-- An element without children is written as an empty tag. -/
def Forest.render : Forest → List Char
  | .nil => []
  | .char c rest => c :: rest.render
  | .element tag children rest =>
      '<' :: (tag.name ++ tag.attrs.flatMap renderAttr) ++
        (if children = .nil then ['/', '>'] else '>' :: (children.render ++ '<' :: '/' :: (tag.name ++ ['>']))) ++
        rest.render

def Forest.flatten : Forest → List Token
  | .nil => []
  | .char c rest => .char c :: rest.flatten
  | .element tag children rest => .start tag :: (children.flatten ++ .stop tag.name :: rest.flatten)

/-- What can be written without escapes and read again, but for the values of the attributes. -/
def Forest.Legible : Forest → Prop
  | .nil => True
  | .char c rest => isText c ∧ rest.Legible
  | .element tag children rest =>
      isName tag.name ∧ (∀ attr ∈ tag.attrs, isName attr.1 ∧ attr.2.all isQuotable) ∧
        children.Legible ∧ rest.Legible

section Lexer

theorem run_cons {mode next last : Mode} {c : Char} {cs : List Char} {first later : List Token}
    (stepped : lexer.step mode c = some (next, first)) (ran : lexer.run next cs = some (last, later)) :
    lexer.run mode (c :: cs) = some (last, first ++ later) :=
  lexer.run_cons_eq_some_iff.mpr ⟨next, first, later, stepped, ran, rfl⟩

/-- Reading on within a name or a value. -/
theorem run_within {p : Char → Bool} {mode : List Char → Mode}
    (goesOn : ∀ acc c, p c → lexer.step (mode acc) c = some (mode (acc ++ [c]), [])) {cs : List Char}
    (all : cs.all p) (acc : List Char) : lexer.run (mode acc) cs = some (mode (acc ++ cs), []) := by
  induction cs generalizing acc with
  | nil => simp
  | cons c cs ih =>
    rw [List.all_cons, Bool.and_eq_true] at all
    have rest := ih all.2 (acc ++ [c])
    rw [List.append_assoc] at rest
    exact run_cons (goesOn acc c all.1) rest

/-- A name is read by its first character and then within it. -/
theorem run_name {mode : Mode} {named : List Char → Mode}
    (begins : ∀ c, isNameStart c → lexer.step mode c = some (named [c], []))
    (goesOn : ∀ acc c, isNameChar c → lexer.step (named acc) c = some (named (acc ++ [c]), []))
    {name : List Char} (legible : isName name) : lexer.run mode name = some (named name, []) := by
  cases name with
  | nil => cases legible
  | cons c cs =>
    rw [isName, Bool.and_eq_true] at legible
    exact run_cons (begins c legible.1) (run_within goesOn legible.2 [c])

/-- A mode in which a tag ends, or goes on with an attribute. -/
def Ends (tag : Tag) (mode : Mode) : Prop :=
  ∀ c, isNameChar c = false → lexer.step mode c = endPart tag c

theorem ends_tagName (name : List Char) : Ends ⟨name, []⟩ (.tagName name) := by
  intro c other
  simp only [lexer, other, Bool.false_eq_true, ↓reduceIte]

theorem ends_valued (tag : Tag) : Ends tag (.valued tag) := fun _ _ => rfl

theorem Ends.run_space {tag : Tag} {mode : Mode} (ends : Ends tag mode) :
    lexer.run mode [' '] = some (.space tag, []) := by
  rw [lexer.run_singleton, ends ' ' (by decide)]
  rfl

theorem Ends.run_open {tag : Tag} {mode : Mode} (ends : Ends tag mode) :
    lexer.run mode ['>'] = some (.content 0, [.start tag]) := by
  rw [lexer.run_singleton, ends '>' (by decide)]
  rfl

theorem Ends.run_empty {tag : Tag} {mode : Mode} (ends : Ends tag mode) :
    lexer.run mode ['/', '>'] = some (.content 0, [.start tag, .stop tag.name]) := by
  have slash : lexer.step mode '/' = some (.slash tag, []) := by
    rw [ends '/' (by decide)]
    rfl
  exact run_cons slash rfl

theorem run_tagName {name : List Char} (legible : isName name) :
    lexer.run (.content 0) ('<' :: name) = some (.tagName name, []) := by
  have begins (c : Char) (start : isNameStart c) : lexer.step .opened c = some (.tagName [c], []) := by
    have other : c ≠ '/' := by
      rintro rfl
      exact absurd start (by decide)
    simp only [lexer, other, start, ↓reduceIte]
  have goesOn (acc : List Char) (c : Char) (char : isNameChar c) :
      lexer.step (.tagName acc) c = some (.tagName (acc ++ [c]), []) := by
    simp only [lexer, char, ↓reduceIte]
  have opened : lexer.step (.content 0) '<' = some (.opened, []) := rfl
  exact run_cons opened (run_name begins goesOn legible)

theorem run_stop {name : List Char} (legible : isName name) :
    lexer.run (.content 0) ('<' :: '/' :: (name ++ ['>'])) = some (.content 0, [.stop name]) := by
  have begins (c : Char) (start : isNameStart c) : lexer.step .stop c = some (.stopName [c], []) := by
    simp only [lexer, start, ↓reduceIte]
  have goesOn (acc : List Char) (c : Char) (char : isNameChar c) :
      lexer.step (.stopName acc) c = some (.stopName (acc ++ [c]), []) := by
    simp only [lexer, char, ↓reduceIte]
  have opened : lexer.step (.content 0) '<' = some (.opened, []) := rfl
  have stop : lexer.step .opened '/' = some (.stop, []) := rfl
  have closed : lexer.run (.stopName name) ['>'] = some (.content 0, [.stop name]) := by
    rw [lexer.run_singleton]
    rfl
  exact run_cons opened (run_cons stop (lexer.run_append (run_name begins goesOn legible) closed))

theorem run_value {tag : Tag} {name raw : List Char} (legible : raw.all isQuotable) :
    lexer.run (.value tag name quotationMark []) (raw ++ [quotationMark]) =
      some (.valued { tag with attrs := tag.attrs ++ [(name, raw)] }, []) := by
  have goesOn (acc : List Char) (c : Char) (quotable : isQuotable c) :
      lexer.step (.value tag name quotationMark acc) c = some (.value tag name quotationMark (acc ++ [c]), []) := by
    simp only [isQuotable, Bool.and_eq_true, bne_iff_ne] at quotable
    simp only [lexer, quotable.1, quotable.2, ↓reduceIte]
  have quoted := run_within goesOn legible []
  refine lexer.run_append quoted ?_
  rw [lexer.run_singleton]
  rfl

theorem run_attr {tag : Tag} {attr : List Char × List Char} {mode : Mode} (ends : Ends tag mode)
    (name : isName attr.1) (value : attr.2.all isQuotable) :
    lexer.run mode (renderAttr attr) = some (.valued { tag with attrs := tag.attrs ++ [attr] }, []) := by
  have begins (c : Char) (start : isNameStart c) :
      lexer.step (.space tag) c = some (.attrName tag [c], []) := by
    simp only [lexer, start, ↓reduceIte]
  have goesOn (acc : List Char) (c : Char) (char : isNameChar c) :
      lexer.step (.attrName tag acc) c = some (.attrName tag (acc ++ [c]), []) := by
    simp only [lexer, char, ↓reduceIte]
  have equals : lexer.step (.attrName tag attr.1) '=' = some (.quote tag attr.1, []) := rfl
  have quote : lexer.step (.quote tag attr.1) quotationMark = some (.value tag attr.1 quotationMark [], []) := rfl
  have valued := run_cons equals (run_cons quote (run_value value))
  exact lexer.run_append ends.run_space (lexer.run_append (run_name begins goesOn name) valued)

/-- After the attributes of a tag it can end. -/
theorem run_attrs {name : List Char} {mode : Mode} {attrs before : List (List Char × List Char)}
    (ends : Ends ⟨name, before⟩ mode) (legible : ∀ attr ∈ attrs, isName attr.1 ∧ attr.2.all isQuotable) :
    ∃ last, lexer.run mode (attrs.flatMap renderAttr) = some (last, []) ∧ Ends ⟨name, before ++ attrs⟩ last := by
  induction attrs generalizing mode before with
  | nil => exact ⟨mode, rfl, by simpa using ends⟩
  | cons attr attrs ih =>
    obtain ⟨⟨named, value⟩, rest⟩ := List.forall_mem_cons.mp legible
    have first := run_attr ends named value
    have valued : Ends ⟨name, before ++ [attr]⟩ (.valued ⟨name, before ++ [attr]⟩) := ends_valued _
    obtain ⟨last, ran, done⟩ := ih valued rest
    refine ⟨last, ?_, by simpa using done⟩
    rw [List.flatMap_cons]
    exact lexer.run_append first ran

/-- The tag of an element, up to where it ends. -/
theorem run_tag {tag : Tag} (name : isName tag.name)
    (attrs : ∀ attr ∈ tag.attrs, isName attr.1 ∧ attr.2.all isQuotable) :
    ∃ last, lexer.run (.content 0) ('<' :: (tag.name ++ tag.attrs.flatMap renderAttr)) = some (last, []) ∧
      Ends tag last := by
  obtain ⟨last, ran, ends⟩ := run_attrs (ends_tagName tag.name) attrs
  exact ⟨last, lexer.run_append (run_tagName name) ran, ends⟩

theorem step_text {c : Char} (text : isText c) : lexer.step (.content 0) c = some (.content 0, [.char c]) := by
  simp only [isText, Bool.and_eq_true, Bool.not_eq_true', List.contains_eq_mem, decide_eq_false_iff_not,
    List.mem_cons, List.not_mem_nil, or_false, not_or] at text
  obtain ⟨allowed, less, ampersand, greater, bracket, carriage⟩ := text
  simp only [lexer, readText, less, ampersand, greater, bracket, carriage, allowed, false_and, ↓reduceIte]

/-- The lexer finds the tags and the text that were written, whatever the values are. -/
theorem run_render {forest : Forest} (legible : forest.Legible) :
    lexer.run (.content 0) forest.render = some (.content 0, forest.flatten) := by
  induction forest with
  | nil => rfl
  | char c rest ih =>
    obtain ⟨text, legible⟩ := legible
    exact run_cons (step_text text) (ih legible)
  | element tag children rest childrenIh restIh =>
    obtain ⟨name, attrs, childrenLegible, restLegible⟩ := legible
    obtain ⟨mode, opened, ends⟩ := run_tag name attrs
    rw [Forest.render, Forest.flatten, List.append_assoc]
    split_ifs with empty
    · subst empty
      exact lexer.run_append opened (lexer.run_append ends.run_empty (restIh restLegible))
    · have inner := lexer.run_append ends.run_open (lexer.run_append (childrenIh childrenLegible) (run_stop name))
      have whole := lexer.run_append opened (lexer.run_append inner (restIh restLegible))
      simpa using whole

end Lexer

section Parser

theorem Forest.append_nil (forest : Forest) : forest.append .nil = forest := by
  induction forest with
  | nil => rfl
  | char c rest ih => rw [append, ih]
  | element tag children rest _ ih => rw [append, ih]

/-- The tags of a forest match, in front of anything. -/
theorem foldrM_flatten {forest after : Forest} {pending : List (List Char × Forest)} :
    forest.flatten.foldrM build (after, pending) = some (forest.append after, pending) := by
  induction forest generalizing after pending with
  | nil => rfl
  | char c rest ih =>
    rw [Forest.flatten, List.foldrM_cons, ih]
    rfl
  | element tag children rest childrenIh restIh =>
    rw [Forest.flatten, List.foldrM_cons, List.foldrM_append, List.foldrM_cons, restIh]
    simp only [Option.bind_eq_bind, Option.bind_some, build, childrenIh, ↓reduceIte, Forest.append,
      Forest.append_nil]

theorem buildAll_flatten (forest : Forest) : buildAll forest.flatten = some forest := by
  rw [buildAll, foldrM_flatten]
  simp only [Forest.append_nil]

/-- Written as it is and parsed again, a document comes out with its values decoded, or it does not come out. -/
theorem parse_render {forest : Forest} (legible : forest.Legible) :
    parse (declaration ++ forest.render) = forest.decode.bind Forest.root := by
  have declared : declaration.isPrefixOf (declaration ++ forest.render) = true := by
    rw [List.isPrefixOf_iff_prefix]
    exact List.prefix_append _ _
  have lexed : lex forest.render = some forest.flatten := by
    rw [lex, run_render legible]
  simp only [parse, declared, ↓reduceIte, List.drop_left, lexed, Option.bind_some, buildAll_flatten]

end Parser

end Xml
