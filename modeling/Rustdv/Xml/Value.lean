import Mathlib.Data.List.Basic

/-! # Characters and attribute values of XML

A parser decodes an attribute value: a reference becomes the character it stands for, white space of any
kind becomes a space, and a line break of two characters becomes one space. A value is written down as it is
meant exactly if it is plain, with no reference in it and no white space but spaces.
-/

namespace Xml

def lineFeed : Char := Char.ofNat 0xA

def carriageReturn : Char := Char.ofNat 0xD

def quotationMark : Char := Char.ofNat 0x22

def apostrophe : Char := Char.ofNat 0x27

/-- Whether the code of a character is in one of the ranges. -/
def within (ranges : List (ℕ × ℕ)) (c : Char) : Bool := ranges.any fun range => range.1 ≤ c.toNat && c.toNat ≤ range.2

/-- The characters that a document may contain. -/
def isChar : Char → Bool := within [(0x9, 0xA), (0xD, 0xD), (0x20, 0xD7FF), (0xE000, 0xFFFD), (0x10000, 0x10FFFF)]

def isSpace : Char → Bool := within [(0x9, 0xA), (0xD, 0xD), (0x20, 0x20)]

section References

def digitValue (base : ℕ) (c : Char) : Option ℕ :=
  let value :=
    if '0' ≤ c ∧ c ≤ '9' then c.toNat - '0'.toNat
    else if 'a' ≤ c ∧ c ≤ 'f' then c.toNat - 'a'.toNat + 10
    else if 'A' ≤ c ∧ c ≤ 'F' then c.toNat - 'A'.toNat + 10
    else base
  if value < base then some value else none

/-- A reference to a character by its code; there is at least one digit. -/
def charReference (base : ℕ) (digits : List Char) : Option Char :=
  if digits = [] then none
  else
    match digits.foldlM (fun code c => (digitValue base c).map (base * code + ·)) 0 with
    | some code => if code.isValidChar ∧ isChar (Char.ofNat code) then some (Char.ofNat code) else none
    | none => none

/-- What stands between the ampersand and the semicolon. The only entities are the predefined ones. -/
def resolve (name : List Char) : Option Char :=
  match name with
  | ['a', 'm', 'p'] => some '&'
  | ['l', 't'] => some '<'
  | ['g', 't'] => some '>'
  | ['q', 'u', 'o', 't'] => some quotationMark
  | ['a', 'p', 'o', 's'] => some apostrophe
  | '#' :: 'x' :: digits => charReference 16 digits
  | '#' :: digits => charReference 10 digits
  | _ => none

end References

/-- Where the reading of a value stands. -/
inductive Scan where
  | plain
  /-- After a carriage return. -/
  | carriage
  /-- In a reference. -/
  | reference (name : List Char)
deriving DecidableEq, Repr

def decodeFrom : Scan → List Char → Option (List Char)
  | .reference _, [] => none
  | _, [] => some []
  | .reference name, c :: cs =>
      if c = ';' then (resolve name).bind fun r => (decodeFrom .plain cs).map (r :: ·)
      else decodeFrom (.reference (name ++ [c])) cs
  | scan, c :: cs =>
      if c = lineFeed ∧ scan = .carriage then decodeFrom .plain cs
      else if c = '&' then decodeFrom (.reference []) cs
      else if isSpace c then (decodeFrom (if c = carriageReturn then .carriage else .plain) cs).map (' ' :: ·)
      else if isChar c then (decodeFrom .plain cs).map (c :: ·)
      else none

/-- The value of an attribute, from what stands between its quotation marks. -/
def decodeValue (raw : List Char) : Option (List Char) := decodeFrom .plain raw

/-- A character that is what it looks like in an attribute value. -/
def isPlain (c : Char) : Bool := isChar c && c != '&' && (!isSpace c || c = ' ')

variable {scan : Scan} {raw value : List Char}

/-- Decoding never makes a value longer, and a reference is longer than what it stands for. -/
theorem length_le_of_decodeFrom (decoded : decodeFrom scan raw = some value) : value.length ≤ raw.length := by
  induction raw generalizing scan value with
  | nil =>
    cases scan with
    | reference name => cases decoded
    | plain | carriage =>
      cases decoded
      exact Nat.le_refl 0
  | cons c cs ih =>
    cases scan with
    | reference name =>
      rw [decodeFrom] at decoded
      split_ifs at decoded
      · obtain ⟨r, -, mapped⟩ := Option.bind_eq_some_iff.mp decoded
        obtain ⟨rest, tail, rfl⟩ := Option.map_eq_some_iff.mp mapped
        exact Nat.succ_le_succ (ih tail)
      · exact Nat.le_succ_of_le (ih decoded)
    | plain | carriage =>
      simp only [decodeFrom] at decoded
      split_ifs at decoded
      all_goals first
        | exact Nat.le_succ_of_le (ih decoded)
        | obtain ⟨rest, tail, rfl⟩ := Option.map_eq_some_iff.mp decoded
          exact Nat.succ_le_succ (ih tail)

theorem isPlain_iff {c : Char} : isPlain c = true ↔ isChar c = true ∧ c ≠ '&' ∧ (isSpace c = true → c = ' ') := by
  unfold isPlain
  cases isSpace c <;> simp [and_assoc]

theorem decodeFrom_cons_of_plain {c : Char} {cs : List Char} (plain : isPlain c) :
    decodeFrom .plain (c :: cs) = (decodeFrom .plain cs).map (c :: ·) := by
  obtain ⟨allowed, literal, space⟩ := isPlain_iff.mp plain
  simp only [decodeFrom, reduceCtorEq, and_false, ↓reduceIte, literal, allowed]
  split_ifs with white carriage
  · rw [space white] at carriage
    exact absurd carriage (by decide)
  · rw [space white]
  · rfl

theorem decodeValue_of_plain (plain : ∀ c ∈ raw, isPlain c) : decodeValue raw = some raw := by
  unfold decodeValue
  induction raw with
  | nil => rfl
  | cons c cs ih =>
    rw [decodeFrom_cons_of_plain (plain c List.mem_cons_self), ih fun d mem => plain d (List.mem_cons_of_mem c mem)]
    rfl

theorem plain_of_decodeValue (same : decodeValue raw = some raw) : ∀ c ∈ raw, isPlain c := by
  unfold decodeValue at same
  induction raw with
  | nil => simp
  | cons c cs ih =>
    simp only [decodeFrom, reduceCtorEq, and_false, ↓reduceIte] at same
    split_ifs at same with reference white carriage allowed
    · have shorter := length_le_of_decodeFrom same
      rw [List.length_cons] at shorter
      omega
    · obtain ⟨rest, -, written⟩ := Option.map_eq_some_iff.mp same
      obtain ⟨rfl, -⟩ := List.cons.inj written
      exact absurd carriage (by decide)
    · obtain ⟨rest, tail, written⟩ := Option.map_eq_some_iff.mp same
      obtain ⟨rfl, rfl⟩ := List.cons.inj written
      exact List.forall_mem_cons.mpr ⟨by decide, ih tail⟩
    · obtain ⟨rest, tail, written⟩ := Option.map_eq_some_iff.mp same
      obtain ⟨-, rfl⟩ := List.cons.inj written
      exact List.forall_mem_cons.mpr ⟨isPlain_iff.mpr ⟨allowed, reference, fun space => (white space).elim⟩, ih tail⟩

/-- A parser reads a value as it is written exactly if every character of it is plain. -/
theorem decodeValue_eq_self_iff : decodeValue raw = some raw ↔ ∀ c ∈ raw, isPlain c :=
  ⟨plain_of_decodeValue, decodeValue_of_plain⟩

end Xml
