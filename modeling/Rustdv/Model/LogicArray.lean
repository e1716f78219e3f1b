import Rustdv.Model.Value
import Mathlib.Data.Nat.Bitwise

/-! # Four-state values

A `LogicArray` keeps two planes and a width. It is built from VPI vector words, from a string of
`0`, `1`, `x` and `z`, or from a two-state number cut to the width, and it turns back into words, a
string or, where no bit is `X` or `Z`, a number. `BigUint` is a natural number; the assertion of
`from_vpi_words` is an error of its own.
-/

namespace Rustdv.Phase

/-- One four-state bit. -/
inductive Logic where
  | zero
  | one
  | x
  | z
deriving DecidableEq, Repr

def Logic.fromChar (c : Char) : Logic :=
  match c with
  | '0' => .zero
  | '1' => .one
  | 'z' | 'Z' => .z
  | _ => .x

def Logic.toChar : Logic → Char
  | .zero => '0'
  | .one => '1'
  | .x => 'x'
  | .z => 'z'

/-- Why a value could not be read. -/
inductive ValueError where
  | fourState (s : String)
  | unavailable
  | interiorNul
  | width (want size : ℕ)
deriving DecidableEq, Repr

/-- The failed assertion of `from_vpi_words`. -/
structure WordsPanic where
  width : ℕ
  wordCount : ℕ
  got : ℕ
deriving DecidableEq, Repr

/-- `BigUint::set_bit(bit, true)`. -/
def setBit (n bit : ℕ) : ℕ := n ||| 1 <<< bit

/-- `BigUint::from_slice`: 32-bit digits, least significant first. -/
def fromSlice (digits : List UInt32) : ℕ := Nat.ofDigits (2 ^ 32) (digits.map UInt32.toNat)

/-- `iter_u64_digits`: least significant first, none for zero. -/
def u64Digits (n : ℕ) : List UInt64 := (Nat.digits (2 ^ 64) n).map UInt64.ofNat

/-- A partial width clears the high bits of the last word of a plane. -/
def maskPlane (width : ℕ) (plane : List UInt32) : List UInt32 :=
  if width % 32 = 0 then plane
  else plane.modify (plane.length - 1) (· &&& UInt32.ofNat (2 ^ (width % 32) - 1))

namespace LogicArray

def fromVpiWords (words : List VecVal) (width : ℕ) : Except WordsPanic LogicArray :=
  let wordCount := (width + 31) / 32
  if words.length ≠ wordCount then .error ⟨width, wordCount, words.length⟩
  else
    let aWords := maskPlane width (words.map VecVal.aval)
    let bWords := maskPlane width (words.map VecVal.bval)
    .ok ⟨fromSlice aWords, fromSlice bWords, width⟩

/-- One more character of `from_binstr`, at the next bit. -/
def pushChar (v : LogicArray) (c : Char) (bit : ℕ) : LogicArray :=
  match Logic.fromChar c with
  | .zero => ⟨v.aVal, v.bVal, v.width + 1⟩
  | .one => ⟨setBit v.aVal bit, v.bVal, v.width + 1⟩
  | .x => ⟨setBit v.aVal bit, setBit v.bVal bit, v.width + 1⟩
  | .z => ⟨v.aVal, setBit v.bVal bit, v.width + 1⟩

def fromBinstr (s : String) : LogicArray :=
  s.toList.reverse.zipIdx.foldl (fun v entry => v.pushChar entry.1 entry.2) ⟨0, 0, 0⟩

def fromU128 (v : BitVec 128) (width : ℕ) : LogicArray where
  aVal := (List.range (min width 128)).foldl
    (fun a bit => if v &&& (1#128 <<< bit) ≠ 0 then setBit a bit else a) 0
  bVal := 0
  width := width

def fromBool (v : Bool) (width : ℕ) : LogicArray := fromU128 (BitVec.ofNat 128 v.toNat) width

def fromU8 (v : UInt8) (width : ℕ) : LogicArray := fromU128 (BitVec.ofNat 128 v.toNat) width

def fromU16 (v : UInt16) (width : ℕ) : LogicArray := fromU128 (BitVec.ofNat 128 v.toNat) width

def fromU32 (v : UInt32) (width : ℕ) : LogicArray := fromU128 (BitVec.ofNat 128 v.toNat) width

def fromU64 (v : UInt64) (width : ℕ) : LogicArray := fromU128 (BitVec.ofNat 128 v.toNat) width

def fromBigint (v width : ℕ) : LogicArray := ⟨v &&& (1 <<< width - 1), 0, width⟩

/-- The state that two plane bits encode. -/
def state (v : LogicArray) (i : ℕ) : Logic :=
  match v.aVal.testBit i, v.bVal.testBit i with
  | false, false => .zero
  | true, false => .one
  | true, true => .x
  | false, true => .z

/-- Indexing: `None` out of bounds. -/
def index (v : LogicArray) (i : ℕ) : Option Logic := if v.width ≤ i then none else some (v.state i)

/-- Most significant bit first; the indices are below the width, so `expect` does not fire. -/
def toBinstr (v : LogicArray) : String :=
  String.ofList ((List.range v.width).reverse.map fun i => (v.state i).toChar)

def isResolvable (v : LogicArray) : Bool := v.bVal = 0

/-- The shape shared by the conversions: a value with `X` or `Z` bits is refused. -/
def tryFrom {α : Type} (read : ℕ → α) (v : LogicArray) : Except ValueError α :=
  if v.isResolvable then .ok (read v.aVal) else .error (.fourState v.toBinstr)

def tryBool (v : LogicArray) : Except ValueError Bool := v.tryFrom fun a => a ≠ 0

def tryU8 (v : LogicArray) : Except ValueError UInt8 :=
  v.tryFrom fun a => ((u32Digits a).headD 0).toUInt8

def tryU16 (v : LogicArray) : Except ValueError UInt16 :=
  v.tryFrom fun a => ((u32Digits a).headD 0).toUInt16

def tryU32 (v : LogicArray) : Except ValueError UInt32 := v.tryFrom fun a => (u32Digits a).headD 0

def tryU64 (v : LogicArray) : Except ValueError UInt64 := v.tryFrom fun a => (u64Digits a).headD 0

def tryU128 (v : LogicArray) : Except ValueError (BitVec 128) :=
  v.tryFrom fun a =>
    let low := BitVec.ofNat 128 ((u64Digits a).getD 0 0).toNat
    let high := BitVec.ofNat 128 ((u64Digits a).getD 1 0).toNat
    low ||| high <<< 64

def tryBigUint (v : LogicArray) : Except ValueError ℕ := v.tryFrom id

/-- The fields are private, so every `LogicArray` comes from one of these. -/
inductive Built : LogicArray → Prop
  | fromVpiWords {words width v} (done : fromVpiWords words width = .ok v) : Built v
  | fromBinstr (s : String) : Built (fromBinstr s)
  | fromBool (v : Bool) (width : ℕ) : Built (fromBool v width)
  | fromU8 (v : UInt8) (width : ℕ) : Built (fromU8 v width)
  | fromU16 (v : UInt16) (width : ℕ) : Built (fromU16 v width)
  | fromU32 (v : UInt32) (width : ℕ) : Built (fromU32 v width)
  | fromU64 (v : UInt64) (width : ℕ) : Built (fromU64 v width)
  | fromU128 (v : BitVec 128) (width : ℕ) : Built (fromU128 v width)
  | fromBigint (v width : ℕ) : Built (fromBigint v width)

end LogicArray

example : LogicArray.fromBinstr "01xz" = ⟨0b0110, 0b0011, 4⟩ := by decide

example : LogicArray.fromVpiWords [⟨0xfffffff5, 0xfffffff8⟩] 3 = .ok ⟨0b101, 0, 3⟩ := by decide

end Rustdv.Phase
