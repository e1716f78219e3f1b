import Rustdv.Model.LogicArray

/-! # Typed reads and writes of a logic signal

Every setter resizes its words to the signal's width. Every getter asks the simulator for the
signal's vector words, and a word with an `X` or `Z` bit makes it ask again, for the text of its
error. A reading is what one `vpi_get_value` leaves: a null pointer, or memory with at least the
words the width needs.
-/

namespace Rustdv.Phase

/-- What the vector pointer of one `vpi_get_value` shows. -/
abbrev Reading := Option (ℕ → VecVal)

/-- How a getter fails: with its `Err`, or with a panic. -/
inductive Fault where
  | err (e : ValueError)
  | words (p : WordsPanic)
  /-- `words[0]` of a signal without bits. -/
  | outOfBounds
deriving DecidableEq, Repr

namespace LogicHandle

/-- The handle that `classify` makes of an object with this `vpiSize`. -/
def classify (obj : ℕ) (size : ℤ) : LogicHandle := ⟨obj, (max size 0).toNat⟩

/-! ## Setters -/

def setBool (h : LogicHandle) (v : Bool) : List VecVal := setVectorWords h.width (twoStateWords 1 v.toNat)

def setU8 (h : LogicHandle) (v : UInt8) : List VecVal := setVectorWords h.width (twoStateWords 1 v.toNat)

def setU16 (h : LogicHandle) (v : UInt16) : List VecVal := setVectorWords h.width (twoStateWords 1 v.toNat)

def setU32 (h : LogicHandle) (v : UInt32) : List VecVal := setVectorWords h.width (twoStateWords 1 v.toNat)

def setU64 (h : LogicHandle) (v : UInt64) : List VecVal := setVectorWords h.width (twoStateWords 2 v.toNat)

def setU128 (h : LogicHandle) (v : BitVec 128) : List VecVal :=
  setVectorWords h.width (twoStateWords 4 v.toNat)

def setBigint (h : LogicHandle) (v : ℕ) : List VecVal :=
  setVectorWords h.width ((u32Digits v).map fun aval => ⟨aval, 0⟩)

def setLogic (h : LogicHandle) (v : LogicArray) : List VecVal := setVectorWords h.width v.toVpiWords

/-- The words that the setter of a value's type passes to `vpi_put_value`. -/
def set (h : LogicHandle) : WriteVal → Option (List VecVal)
  | .bool v => some (h.setBool v)
  | .u8 v => some (h.setU8 v)
  | .u16 v => some (h.setU16 v)
  | .u32 v => some (h.setU32 v)
  | .u64 v => some (h.setU64 v)
  | .u128 v => some (h.setU128 v)
  | .bigInt v => some (h.setBigint v)
  | .logic v => some (h.setLogic v)
  | .real _ | .string _ => none

theorem set_eq (h : LogicHandle) (v : WriteVal) : h.set v = v.words.map (setVectorWords h.width) := by
  cases v <;> rfl

/-! ## Getters -/

def getVpiWords (h : LogicHandle) (reading : Reading) : Except Fault (List VecVal) :=
  match reading with
  | none => .error (.err .unavailable)
  | some words => .ok ((List.range ((h.width + 31) / 32)).map words)

def getLogic (h : LogicHandle) (reading : Reading) : Except Fault LogicArray := do
  let words ← h.getVpiWords reading
  match LogicArray.fromVpiWords words h.width with
  | .error p => .error (.words p)
  | .ok v => .ok v

/-- One word cut to the width; `again` is the reading that the error's text is made from. -/
def getVpiWord (h : LogicHandle) (again : Reading) (word : VecVal) (width : ℕ) (last : Bool) :
    Except Fault UInt32 :=
  let usedBits := if last ∧ width % 32 ≠ 0 then width % 32 else 32
  let mask := if usedBits = 32 then 0xffffffff else UInt32.ofNat (2 ^ usedBits - 1)
  if word.bval &&& mask ≠ 0 then do
    let v ← h.getLogic again
    .error (.err (.fourState v.toBinstr))
  else .ok (word.aval &&& mask)

def checkSize (h : LogicHandle) (want : ℕ) : Except Fault Unit :=
  if want < h.width then .error (.err (.width want h.width)) else .ok ()

/-- The getters of one word: the size is checked, and the first word is the last. -/
def getFirst {α : Type} (h : LogicHandle) (first again : Reading) (bits : ℕ) (cast : UInt32 → α) :
    Except Fault α := do
  h.checkSize bits
  let words ← h.getVpiWords first
  match words with
  | [] => .error .outOfBounds
  | word :: _ => do
      let word ← h.getVpiWord again word h.width true
      pure (cast word)

def getBool (h : LogicHandle) (first again : Reading) : Except Fault Bool :=
  h.getFirst first again 1 fun word => word ≠ 0

def getU8 (h : LogicHandle) (first again : Reading) : Except Fault UInt8 :=
  h.getFirst first again 8 UInt32.toUInt8

def getU16 (h : LogicHandle) (first again : Reading) : Except Fault UInt16 :=
  h.getFirst first again 16 UInt32.toUInt16

def getU32 (h : LogicHandle) (first again : Reading) : Except Fault UInt32 :=
  h.getFirst first again 32 id

/-- The loop over all words, from the least significant. -/
def eachWord {σ : Type} (h : LogicHandle) (again : Reading) (words : List VecVal)
    (step : σ → UInt32 × ℕ → σ) (start : σ) : Except Fault σ :=
  words.zipIdx.foldlM
    (fun s entry => do
      let word ← h.getVpiWord again entry.1 h.width (entry.2 + 1 = words.length)
      pure (step s (word, entry.2)))
    start

/-- `result |= word << (index * 32)`. -/
def orWord {bits : ℕ} (result : BitVec bits) (entry : UInt32 × ℕ) : BitVec bits :=
  result ||| BitVec.ofNat bits entry.1.toNat <<< (entry.2 * 32)

def getU64 (h : LogicHandle) (first again : Reading) : Except Fault UInt64 := do
  h.checkSize 64
  let words ← h.getVpiWords first
  let result ← h.eachWord again words orWord (0 : BitVec 64)
  pure (UInt64.ofBitVec result)

def getU128 (h : LogicHandle) (first again : Reading) : Except Fault (BitVec 128) := do
  h.checkSize 128
  let words ← h.getVpiWords first
  h.eachWord again words orWord (0 : BitVec 128)

def getBigint (h : LogicHandle) (first again : Reading) : Except Fault ℕ := do
  let words ← h.getVpiWords first
  let digits ← h.eachWord again words (fun digits entry => digits ++ [entry.1]) []
  pure (fromSlice digits)

end LogicHandle

end Rustdv.Phase
