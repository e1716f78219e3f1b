import Rustdv.Machine.Run
import Rustdv.Xml.Value

/-! # Documents of XML

A parser for documents of elements, attributes and character data, with references in both, after the
declaration of the version. Other markup it rejects: document types, comments, processing instructions and
sections of character data. It reads characters one by one into tags and text, matches the tags, and then
decodes the values of the attributes.
-/

namespace Xml

def isNameStart : Char → Bool := within
  [(0x3A, 0x3A), (0x41, 0x5A), (0x5F, 0x5F), (0x61, 0x7A), (0xC0, 0xD6), (0xD8, 0xF6), (0xF8, 0x2FF),
    (0x370, 0x37D), (0x37F, 0x1FFF), (0x200C, 0x200D), (0x2070, 0x218F), (0x2C00, 0x2FEF), (0x3001, 0xD7FF),
    (0xF900, 0xFDCF), (0xFDF0, 0xFFFD), (0x10000, 0xEFFFF)]

def isNameChar (c : Char) : Bool :=
  isNameStart c || within [(0x2D, 0x2E), (0x30, 0x39), (0xB7, 0xB7), (0x300, 0x36F), (0x203F, 0x2040)] c

/-- A name with attributes. -/
structure Tag where
  name : List Char
  attrs : List (List Char × List Char)
deriving DecidableEq, Repr

inductive Token where
  | start (tag : Tag)
  | stop (name : List Char)
  | char (c : Char)
  /-- A character that a reference stands for. -/
  | reference (c : Char)
deriving DecidableEq, Repr

section Lexer

/-- What is being read. -/
inductive Mode where
  /-- Text that ends in some closing brackets. -/
  | content (brackets : ℕ)
  /-- Text after a carriage return. -/
  | carriage
  | reference (name : List Char)
  /-- After the opening bracket of a tag. -/
  | opened
  | stop
  | stopName (name : List Char)
  | stopSpace (name : List Char)
  | tagName (name : List Char)
  /-- Where an attribute can begin. -/
  | space (tag : Tag)
  | attrName (tag : Tag) (name : List Char)
  | equals (tag : Tag) (name : List Char)
  | quote (tag : Tag) (name : List Char)
  | value (tag : Tag) (name : List Char) (quote : Char) (raw : List Char)
  | valued (tag : Tag)
  | slash (tag : Tag)
deriving DecidableEq, Repr

/-- A character of the text. A closing bracket may not follow two square ones. -/
def readText (brackets : ℕ) (c : Char) : Option (Mode × List Token) :=
  if c = '<' then some (.opened, [])
  else if c = '&' then some (.reference [], [])
  else if c = '>' ∧ 2 ≤ brackets then none
  else if c = ']' then some (.content (brackets + 1), [.char c])
  else if c = carriageReturn then some (.carriage, [.char lineFeed])
  else if isChar c then some (.content 0, [.char c])
  else none

/-- What can follow the name of a closing tag. -/
def endStop (name : List Char) (c : Char) : Option (Mode × List Token) :=
  if isSpace c then some (.stopSpace name, [])
  else if c = '>' then some (.content 0, [.stop name])
  else none

/-- What can follow a tag's name or the value of an attribute. -/
def endPart (tag : Tag) (c : Char) : Option (Mode × List Token) :=
  if isSpace c then some (.space tag, [])
  else if c = '/' then some (.slash tag, [])
  else if c = '>' then some (.content 0, [.start tag])
  else none

/-- What can follow the name of an attribute. -/
def endAttr (tag : Tag) (name : List Char) (c : Char) : Option (Mode × List Token) :=
  if isSpace c then some (.equals tag name, [])
  else if c = '=' then some (.quote tag name, [])
  else none

/-- The lexer, with the tokens as observations. -/
def lexer : Machine Mode Char Token where
  step
    | .content brackets, c => readText brackets c
    | .carriage, c => if c = lineFeed then some (.content 0, []) else readText 0 c
    | .reference name, c =>
        if c = ';' then (resolve name).map fun r => (.content 0, [.reference r])
        else some (.reference (name ++ [c]), [])
    | .opened, c =>
        if c = '/' then some (.stop, []) else if isNameStart c then some (.tagName [c], []) else none
    | .stop, c => if isNameStart c then some (.stopName [c], []) else none
    | .stopName name, c => if isNameChar c then some (.stopName (name ++ [c]), []) else endStop name c
    | .stopSpace name, c => endStop name c
    | .tagName name, c => if isNameChar c then some (.tagName (name ++ [c]), []) else endPart ⟨name, []⟩ c
    | .space tag, c => if isNameStart c then some (.attrName tag [c], []) else endPart tag c
    | .attrName tag name, c =>
        if isNameChar c then some (.attrName tag (name ++ [c]), []) else endAttr tag name c
    | .equals tag name, c => endAttr tag name c
    | .quote tag name, c =>
        if isSpace c then some (.quote tag name, [])
        else if c = quotationMark ∨ c = apostrophe then some (.value tag name c [], [])
        else none
    | .value tag name quote raw, c =>
        if c = quote then some (.valued { tag with attrs := tag.attrs ++ [(name, raw)] }, [])
        else if c = '<' then none
        else some (.value tag name quote (raw ++ [c]), [])
    | .valued tag, c => endPart tag c
    | .slash tag, c => if c = '>' then some (.content 0, [.start tag, .stop tag.name]) else none

def lex (cs : List Char) : Option (List Token) :=
  match lexer.run (.content 0) cs with
  | some (.content _, tokens) => some tokens
  | some (.carriage, tokens) => some tokens
  | _ => none

end Lexer

/-- Characters and elements next to each other. -/
inductive Forest where
  | nil
  | char (c : Char) (rest : Forest)
  | element (tag : Tag) (children rest : Forest)
deriving DecidableEq, Repr

structure Element where
  tag : Tag
  children : Forest
deriving DecidableEq, Repr

namespace Forest

def elements : Forest → List Element
  | nil => []
  | char _ rest => rest.elements
  | element tag children rest => ⟨tag, children⟩ :: rest.elements

def chars : Forest → List Char
  | nil => []
  | char c rest => c :: rest.chars
  | element _ _ rest => rest.chars

def append : Forest → Forest → Forest
  | nil, forest => forest
  | char c rest, forest => char c (rest.append forest)
  | element tag children rest, forest => element tag children (rest.append forest)

end Forest

section Parser

/-- A token, with what is read to the right of it: the forest there, and for every tag that is still to be
opened its name and what follows it. A reference can stand only in an element. -/
def build : Token → Forest × List (List Char × Forest) → Option (Forest × List (List Char × Forest))
  | .char c, (forest, pending) => some (.char c forest, pending)
  | .reference c, (forest, pending) => if pending = [] then none else some (.char c forest, pending)
  | .stop name, (forest, pending) => some (.nil, (name, forest) :: pending)
  | .start tag, (forest, (name, rest) :: pending) =>
      if name = tag.name then some (.element tag forest rest, pending) else none
  | .start _, (_, []) => none

def buildAll (tokens : List Token) : Option Forest :=
  match tokens.foldrM build (.nil, []) with
  | some (forest, []) => some forest
  | _ => none

/-- The one element of a document, with nothing but white space around it. -/
def Forest.root (forest : Forest) : Option Element :=
  match forest.elements with
  | [top] => if forest.chars.all isSpace then some top else none
  | _ => none

def decodeAttr (attr : List Char × List Char) : Option (List Char × List Char) :=
  (decodeValue attr.2).map (attr.1, ·)

/-- The names of the attributes are to be different. -/
def Tag.decode (tag : Tag) : Option Tag :=
  if (tag.attrs.map Prod.fst).Nodup then (tag.attrs.mapM decodeAttr).map fun attrs => { tag with attrs } else none

def Forest.decode : Forest → Option Forest
  | .nil => some .nil
  | .char c rest => rest.decode.map (.char c)
  | .element tag children rest =>
      tag.decode.bind fun tag => children.decode.bind fun children => rest.decode.map (.element tag children)

def declaration : List Char := "<?xml version=\"1.0\" encoding=\"UTF-8\"?>".toList

/-- Parse a document, with or without a declaration. -/
def parse (document : List Char) : Option Element :=
  let body := if declaration.isPrefixOf document then document.drop declaration.length else document
  (lex body).bind fun tokens => (buildAll tokens).bind fun forest => forest.decode.bind Forest.root

end Parser

end Xml
