import Rustdv.Model.ConfigDb

/-! # Paths of components

A path has its segments and, beside them, its dotted text. The walk makes it, from the empty path or a
root and one child after the other.
-/

namespace Rustdv

structure RustdvPath where
  segments : List String
  rendered : String
deriving DecidableEq, Repr

/-- The name of a component. -/
structure Segment where
  text : String
  nonempty : text ≠ ""
  plain : '.' ∉ text.toList

namespace RustdvPath

def root (name : String) : RustdvPath := ⟨[name], name⟩

def empty : RustdvPath := ⟨[], ""⟩

section Operations

variable (p : RustdvPath)

def child (name : String) : RustdvPath := ⟨p.segments ++ [name], childPath p.rendered name⟩

def depth : ℕ := p.segments.length

def isUnder (above : RustdvPath) : Bool :=
  decide (above.segments.length ≤ p.segments.length) && p.segments.take above.segments.length == above.segments

end Operations

/-- Where the walk stands below components of these names. -/
def walk (names : List Segment) : RustdvPath := names.foldl (fun p name => p.child name.text) empty

end RustdvPath

end Rustdv
