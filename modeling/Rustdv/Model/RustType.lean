import Rustdv.Model.Factory

/-! # The names of component types

A type is rendered as its module path, its identifier and, if it is generic, its arguments in angle
brackets, which are rendered the same way. The key under which a component type is overridden is cut out
of that text.
-/

namespace Rustdv.Component

/-- An identifier has none of the characters between identifiers. -/
structure Ident where
  text : String
  plain : ∀ c ∈ text.toList, c ∉ [':', '<', '>', ',', ' ']

def Ident.chars (i : Ident) : List Char := i.text.toList

/-- The arguments of a generic type: each with its module path, its identifier and its own arguments. -/
inductive TypeArgs where
  | nil
  | cons (module : List Ident) (ident : Ident) (args rest : TypeArgs)

structure RustType where
  module : List Ident
  ident : Ident
  args : TypeArgs

/-- A module path, with the separators behind its segments. -/
def pathChars : List Ident → List Char
  | [] => []
  | m :: path => m.chars ++ ':' :: ':' :: pathChars path

mutual

/-- Arguments in angle brackets. -/
def TypeArgs.chars : TypeArgs → List Char
  | .nil => []
  | .cons module ident args rest => '<' :: (pathChars module ++ ident.chars ++ args.chars ++ rest.tail ++ ['>'])

/-- Arguments behind the first one. -/
def TypeArgs.tail : TypeArgs → List Char
  | .nil => []
  | .cons module ident args rest => ',' :: ' ' :: (pathChars module ++ ident.chars ++ args.chars ++ rest.tail)

end

namespace RustType

variable (t : RustType)

/-- `std::any::type_name`. -/
def chars : List Char := pathChars t.module ++ t.ident.chars ++ t.args.chars

/-- A text read from its end, up to the separator of paths. -/
def untilSeparator : List Char → List Char
  | ':' :: ':' :: _ => []
  | c :: rest => c :: untilSeparator rest
  | [] => []

/-- What `rsplit` yields first. -/
def lastPart (full : List Char) : List Char := (untilSeparator full.reverse).reverse

/-- `Component::comp_name`. -/
def compName : String := .ofList (lastPart t.chars)

/-- The name under which the derive macro registers the type, if it is not generic. -/
def registered : Option String :=
  match t.args with
  | .nil => some t.ident.text
  | .cons .. => none

/-- The slot of `create_comp` in a field. -/
def createComp (field : String) : Slot := Component.createComp field t.compName

variable {κ V : Type*}

/-- `Factory::set_type_override`. -/
def setTypeOverride (target : RustType) (make : Maker κ) : Install κ V :=
  .setTypeOverride t.compName target.compName make

/-- `Factory::set_inst_override`. -/
def setInstOverride (ctx path : String) (target : RustType) (make : Maker κ) : Install κ V :=
  .setInstOverride ctx path t.compName target.compName make

end RustType

end Rustdv.Component
