import Mathlib.Data.Nat.Digits.Defs

/-! # Written values and the words they become

The typed setters hand one of ten kinds of value to the write scheduler. Applying it to a logic
signal turns it into VPI vector words, least significant first, resized and masked to the signal's
width; reals and strings go through as they are.
-/

namespace Rustdv.Phase

/-- One VPI vector word: `aval` and `bval`. -/
structure VecVal where
  aval : UInt32
  bval : UInt32
deriving DecidableEq, Repr

/-- A four-state vector in VPI's representation. -/
structure LogicArray where
  aVal : ℕ
  bVal : ℕ
  width : ℕ
deriving DecidableEq, Repr

inductive WriteVal where
  | bool (v : Bool)
  | u8 (v : UInt8)
  | u16 (v : UInt16)
  | u32 (v : UInt32)
  | u64 (v : UInt64)
  | u128 (v : BitVec 128)
  | bigInt (v : ℕ)
  | logic (v : LogicArray)
  /-- A double by its bits. -/
  | real (bits : UInt64)
  | string (v : String)
deriving DecidableEq, Repr

/-- A logic signal; the width is fixed when the handle is made. -/
structure LogicHandle where
  obj : ℕ
  width : ℕ
deriving DecidableEq, Repr

inductive WriteTarget where
  | logic (h : LogicHandle)
  | real (obj : ℕ)
  | string (obj : ℕ)
deriving DecidableEq, Repr

/-- What `vpi_put_value` is given. -/
inductive PutVal where
  | vector (words : List VecVal)
  | real (bits : UInt64)
  | string (v : String)
deriving DecidableEq, Repr

/-- `iter_u32_digits`: least significant first, none for zero. -/
def u32Digits (n : ℕ) : List UInt32 := (Nat.digits (2 ^ 32) n).map UInt32.ofNat

/-- The words of a two-state number in `count` words. -/
def twoStateWords (count n : ℕ) : List VecVal :=
  (List.range count).map fun i => ⟨UInt32.ofNat (n / 2 ^ (32 * i)), 0⟩

/-- The words of a logic array: as many as its width needs, missing digits zero. -/
def LogicArray.toVpiWords (v : LogicArray) : List VecVal :=
  (List.range ((v.width + 31) / 32)).map fun i =>
    ⟨(u32Digits v.aVal).getD i 0, (u32Digits v.bVal).getD i 0⟩

/-- The words of a value, if it is one that a logic signal takes. -/
def WriteVal.words : WriteVal → Option (List VecVal)
  | .bool v => some (twoStateWords 1 v.toNat)
  | .u8 v => some (twoStateWords 1 v.toNat)
  | .u16 v => some (twoStateWords 1 v.toNat)
  | .u32 v => some (twoStateWords 1 v.toNat)
  | .u64 v => some (twoStateWords 2 v.toNat)
  | .u128 v => some (twoStateWords 4 v.toNat)
  | .bigInt v => some ((u32Digits v).map fun aval => ⟨aval, 0⟩)
  | .logic v => some v.toVpiWords
  | .real _ | .string _ => none

/-- `mask_vector_words`: clear the bits of the final word beyond the width. -/
def maskVectorWords (width : ℕ) (words : List VecVal) : List VecVal :=
  if width % 32 = 0 then words
  else
    let mask := UInt32.ofNat (2 ^ (width % 32) - 1)
    words.modify (words.length - 1) fun last => ⟨last.aval &&& mask, last.bval &&& mask⟩

/-- `set_vector_words`: resize the words to the signal's width. -/
def setVectorWords (width : ℕ) (words : List VecVal) : List VecVal :=
  let wordCount := (width + 31) / 32
  if words.length = wordCount then maskVectorWords width words
  else if wordCount < words.length then maskVectorWords width (words.take wordCount)
  else words ++ List.replicate (wordCount - words.length) ⟨0, 0⟩

example : setVectorWords 4 (twoStateWords 1 0xff) = [⟨0xf, 0⟩] := by decide

/-- The panics of `apply_write`. -/
inductive WritePanic where
  /-- `unreachable!("write target/value mismatch")`. -/
  | mismatch
  /-- `expect("scheduled string was validated")`. -/
  | interiorNul
deriving DecidableEq, Repr

/-- What `apply_write` puts: the value in the form the target takes. -/
def applyWrite : WriteTarget → WriteVal → Except WritePanic PutVal
  | .real _, .real bits => .ok (.real bits)
  | .string _, .string v => if v.contains '\x00' then .error .interiorNul else .ok (.string v)
  | .logic h, v =>
      match v.words with
      | some words => .ok (.vector (setVectorWords h.width words))
      | none => .error .mismatch
  | _, _ => .error .mismatch

/-- The values that the typed setters of a target's handle take. -/
def WriteTarget.takes : WriteTarget → WriteVal → Bool
  | .real _, .real _ => true
  | .string _, .string _ => true
  | .logic _, v => v.words.isSome
  | _, _ => false

/-- One call of a typed setter: it can only pair a handle with a value of its kind. -/
structure SetCall where
  target : WriteTarget
  val : WriteVal
  typed : target.takes val = true

/-- A write that has passed its setter: typed, and without an interior NUL. -/
def Valid (w : WriteTarget × WriteVal) : Prop := ∃ put, applyWrite w.1 w.2 = .ok put

end Rustdv.Phase
