import Rustdv.Soundness.VpiWords

/-! # The four-state codec

A `LogicArray` is a finite sequence of four-state bits: its planes fit its width, so the sequence
determines it. Words, strings and two-state numbers are read into that sequence and written back
from it, and each round trip loses only what the representation cannot hold: bits beyond the width,
the case of a `Z`, and every other character, which reads as `X`.
-/

namespace Rustdv.Phase

open Limbs

namespace LogicArray

/-- Both planes are below `2 ^ width`. -/
def Fits (v : LogicArray) : Prop := v.aVal < 2 ^ v.width ∧ v.bVal < 2 ^ v.width

/-- The four-state bits, least significant first. -/
def states (v : LogicArray) : List Logic := (List.range v.width).map v.state

/-- No bit is `X` or `Z`. -/
def Known (v : LogicArray) : Prop :=
  ∀ i < v.width, v.index i = some .zero ∨ v.index i = some .one

/-- The number whose bit `i` is set where the value's bit `i` is `1`. -/
def value (v : LogicArray) : ℕ := Nat.ofDigits 2 (v.states.map fun s => if s = .one then 1 else 0)

@[simp] theorem length_states (v : LogicArray) : v.states.length = v.width := by
  simp only [states, List.length_map, List.length_range]

/-! ## Bits and planes -/

theorem state_eq_iff {v w : LogicArray} {i : ℕ} :
    v.state i = w.state i ↔
      v.aVal.testBit i = w.aVal.testBit i ∧ v.bVal.testBit i = w.bVal.testBit i := by
  simp only [state]
  cases v.aVal.testBit i <;> cases v.bVal.testBit i <;> cases w.aVal.testBit i <;>
    cases w.bVal.testBit i <;> decide

theorem eq_of_testBit {n m width : ℕ} (n_lt : n < 2 ^ width) (m_lt : m < 2 ^ width)
    (same : ∀ i < width, n.testBit i = m.testBit i) : n = m := by
  apply Nat.eq_of_testBit_eq
  intro i
  rcases Nat.lt_or_ge i width with inside | beyond
  · exact same i inside
  · have high : 2 ^ width ≤ 2 ^ i := Nat.pow_le_pow_right Nat.two_pos beyond
    rw [Nat.testBit_lt_two_pow (n_lt.trans_le high), Nat.testBit_lt_two_pow (m_lt.trans_le high)]

/-- A value that fits is determined by its width and its bits. -/
theorem Fits.ext {v w : LogicArray} (fv : v.Fits) (fw : w.Fits) (width : v.width = w.width)
    (same : ∀ i < v.width, v.state i = w.state i) : v = w := by
  obtain ⟨a, b, n⟩ := v
  obtain ⟨a', b', m⟩ := w
  obtain rfl : n = m := width
  have as : a = a' := eq_of_testBit fv.1 fw.1 fun i inside => (state_eq_iff.mp (same i inside)).1
  have bs : b = b' := eq_of_testBit fv.2 fw.2 fun i inside => (state_eq_iff.mp (same i inside)).2
  rw [as, bs]

theorem Fits.ext_states {v w : LogicArray} (fv : v.Fits) (fw : w.Fits)
    (same : v.states = w.states) : v = w := by
  have width : v.width = w.width := by simpa only [length_states] using congrArg List.length same
  refine fv.ext fw width fun i inside => ?_
  have at_i := congrArg (fun l => l[i]?) same
  simpa only [states, List.getElem?_map, List.getElem?_range inside,
    List.getElem?_range (width ▸ inside), Option.map_some, Option.some.injEq] using at_i

theorem index_of_lt {v : LogicArray} {i : ℕ} (inside : i < v.width) : v.index i = some (v.state i) := by
  rw [index, if_neg (by omega)]

theorem Fits.known_iff {v : LogicArray} (fits : v.Fits) : v.Known ↔ v.bVal = 0 := by
  constructor
  · intro known
    apply eq_of_testBit fits.2 (Nat.two_pow_pos _)
    intro i inside
    have at_i := known i inside
    rw [index_of_lt inside, state] at at_i
    cases bit : v.bVal.testBit i
    · rw [Nat.zero_testBit]
    · cases a : v.aVal.testBit i <;> simp [a, bit] at at_i
  · intro zero i inside
    rw [index_of_lt inside, state, zero, Nat.zero_testBit]
    cases v.aVal.testBit i <;> decide

/-- Without `X` and `Z` the value is the `a` plane. -/
theorem value_eq {v : LogicArray} (fits : v.Fits) (known : v.Known) : v.value = v.aVal := by
  have zero := fits.known_iff.mp known
  have bits : (v.states.map fun s => if s = .one then 1 else 0) = limbs 1 v.width v.aVal := by
    rw [states, List.map_map, limbs]
    apply List.map_congr_left
    intro i _
    simp only [Function.comp_apply, state, zero, Nat.zero_testBit, Nat.one_mul, Nat.pow_one]
    rw [Nat.testBit_eq_decide_div_mod_eq]
    rcases Nat.mod_two_eq_zero_or_one (v.aVal / 2 ^ i) with even | odd
    · rw [even]
      decide
    · rw [odd]
      decide
  have back := ofDigits_limbs (k := 1) v.width v.aVal
  rw [Nat.pow_one, Nat.one_mul] at back
  rw [value, bits, back, Nat.mod_eq_of_lt fits.1]

/-! ## Words -/

theorem toVpiWords_eq (v : LogicArray) : v.toVpiWords = vecWords (wordsFor v.width) v.aVal v.bVal := by
  apply words_ext
  all_goals
    simp only [toVpiWords, limbs, List.map_map, Function.comp_def, toNat_getD_u32Digits]

theorem fromVpiWords_eq {words : List VecVal} {width : ℕ} (fits : words.length = wordsFor width) :
    fromVpiWords words width = .ok ⟨aPlane words % 2 ^ width, bPlane words % 2 ^ width, width⟩ := by
  have as : (words.map VecVal.aval).length = wordsFor width := by rw [List.length_map, fits]
  have bs : (words.map VecVal.bval).length = wordsFor width := by rw [List.length_map, fits]
  simp only [fromVpiWords, fits, wordsFor, ne_eq, not_true_eq_false, ↓reduceIte]
  rw [fromSlice_maskPlane as, fromSlice_maskPlane bs]
  rfl

theorem fits_mod (a b width : ℕ) : Fits ⟨a % 2 ^ width, b % 2 ^ width, width⟩ :=
  ⟨Nat.mod_lt _ (Nat.two_pow_pos width), Nat.mod_lt _ (Nat.two_pow_pos width)⟩

theorem fits_fromVpiWords {words : List VecVal} {width : ℕ} {v : LogicArray}
    (done : fromVpiWords words width = .ok v) : v.Fits := by
  by_cases fits : words.length = wordsFor width
  · rw [fromVpiWords_eq fits] at done
    obtain rfl := Except.ok.inj done
    exact fits_mod _ _ width
  · rw [fromVpiWords, if_pos fits] at done
    contradiction

theorem Fits.fromVpiWords_toVpiWords {v : LogicArray} (fits : v.Fits) :
    fromVpiWords v.toVpiWords v.width = .ok v := by
  have count : v.toVpiWords.length = wordsFor v.width := by rw [toVpiWords_eq, length_vecWords]
  rw [fromVpiWords_eq count, toVpiWords_eq, aPlane_vecWords, bPlane_vecWords]
  have big : 2 ^ v.width ≤ 2 ^ (32 * wordsFor v.width) :=
    Nat.pow_le_pow_right Nat.two_pos (le_wordsFor v.width)
  rw [Nat.mod_eq_of_lt (fits.1.trans_le big), Nat.mod_eq_of_lt (fits.2.trans_le big),
    Nat.mod_eq_of_lt fits.1, Nat.mod_eq_of_lt fits.2]

end LogicArray

/-- The words with every bit from `width` on cleared. -/
def clearUnused (width : ℕ) (words : List VecVal) : List VecVal :=
  words.mapIdx fun i word =>
    ⟨UInt32.ofNat (word.aval.toNat % 2 ^ (width - 32 * i)),
      UInt32.ofNat (word.bval.toNat % 2 ^ (width - 32 * i))⟩

/-- One half of the cleared words: the limbs of its plane cut to the width. -/
private theorem toNat_cleared (plane : List UInt32) (width : ℕ) :
    (plane.mapIdx fun i word => UInt32.ofNat (word.toNat % 2 ^ (width - 32 * i))).map UInt32.toNat =
      limbs 32 plane.length (fromSlice plane % 2 ^ width) := by
  have small (word : UInt32) (keep : ℕ) :
      (UInt32.ofNat (word.toNat % 2 ^ keep)).toNat = word.toNat % 2 ^ keep :=
    UInt32.toNat_ofNat_of_lt' ((Nat.mod_le _ _).trans_lt word.toNat_lt)
  rw [limbs_mod, limbs_fromSlice]
  apply List.ext_getElem
  · simp only [List.length_map, List.length_mapIdx]
  · intro i _ _
    simp only [List.getElem_map, List.getElem_mapIdx, small]

theorem clearUnused_eq (width : ℕ) (words : List VecVal) :
    clearUnused width words =
      vecWords words.length (aPlane words % 2 ^ width) (bPlane words % 2 ^ width) := by
  have as := toNat_cleared (words.map VecVal.aval) width
  have bs := toNat_cleared (words.map VecVal.bval) width
  rw [List.length_map] at as bs
  apply words_ext
  · rw [aPlane, ← as]
    apply List.ext_getElem
    · simp only [clearUnused, List.length_map, List.length_mapIdx]
    · intro i _ _
      simp only [clearUnused, List.getElem_map, List.getElem_mapIdx]
  · rw [bPlane, ← bs]
    apply List.ext_getElem
    · simp only [clearUnused, List.length_map, List.length_mapIdx]
    · intro i _ _
      simp only [clearUnused, List.getElem_map, List.getElem_mapIdx]

namespace LogicArray

/-- Words read into a value come back with the unused bits cleared. -/
theorem toVpiWords_fromVpiWords {words : List VecVal} {width : ℕ}
    (fits : words.length = wordsFor width) :
    ∃ v, fromVpiWords words width = .ok v ∧ v.toVpiWords = clearUnused width words := by
  refine ⟨_, fromVpiWords_eq fits, ?_⟩
  rw [toVpiWords_eq, clearUnused_eq, fits]

/-! ## Strings -/

theorem testBit_setBit (n bit i : ℕ) :
    (setBit n bit).testBit i = (n.testBit i || decide (bit = i)) := by
  rw [setBit, Nat.one_shiftLeft, Nat.testBit_or, Nat.testBit_two_pow]

theorem setBit_lt {n width : ℕ} (small : n < 2 ^ width) : setBit n width < 2 ^ (width + 1) := by
  have wide : 2 ^ width < 2 ^ (width + 1) := Nat.pow_lt_pow_right (by decide) (by omega)
  rw [setBit, Nat.one_shiftLeft]
  exact Nat.or_lt_two_pow (small.trans wide) wide

theorem Fits.pushChar {v : LogicArray} (fits : v.Fits) (c : Char) : (v.pushChar c v.width).Fits := by
  have wide : 2 ^ v.width < 2 ^ (v.width + 1) := Nat.pow_lt_pow_right (by decide) (by omega)
  simp only [LogicArray.pushChar]
  cases Logic.fromChar c with
  | zero => exact ⟨fits.1.trans wide, fits.2.trans wide⟩
  | one => exact ⟨setBit_lt fits.1, fits.2.trans wide⟩
  | x => exact ⟨setBit_lt fits.1, setBit_lt fits.2⟩
  | z => exact ⟨fits.1.trans wide, setBit_lt fits.2⟩

theorem state_pushChar_of_lt {v : LogicArray} (c : Char) {i : ℕ} (inside : i < v.width) :
    (v.pushChar c v.width).state i = v.state i := by
  have other : decide (v.width = i) = false := decide_eq_false (by omega)
  rw [state_eq_iff, LogicArray.pushChar]
  cases Logic.fromChar c <;> simp only [testBit_setBit, other, Bool.or_false, and_self]

theorem Fits.state_pushChar_self {v : LogicArray} (fits : v.Fits) (c : Char) :
    (v.pushChar c v.width).state v.width = Logic.fromChar c := by
  have a := Nat.testBit_lt_two_pow fits.1
  have b := Nat.testBit_lt_two_pow fits.2
  rw [LogicArray.pushChar]
  cases Logic.fromChar c <;> simp only [state, testBit_setBit, a, b, decide_true, Bool.or_true]

/-- One more character adds its bit on top. -/
theorem Fits.states_pushChar {v : LogicArray} (fits : v.Fits) (c : Char) :
    (v.pushChar c v.width).states = v.states ++ [Logic.fromChar c] := by
  have width : (v.pushChar c v.width).width = v.width + 1 := by
    rw [LogicArray.pushChar]
    cases Logic.fromChar c <;> rfl
  rw [states, width, List.range_succ, List.map_append, List.map_singleton, fits.state_pushChar_self c]
  congr 1
  apply List.map_congr_left
  intro i mem
  exact state_pushChar_of_lt c (List.mem_range.mp mem)

theorem Fits.pushChars {v : LogicArray} (fits : v.Fits) (cs : List Char) :
    let v' := (cs.zipIdx v.width).foldl (fun v entry => v.pushChar entry.1 entry.2) v
    v'.Fits ∧ v'.states = v.states ++ cs.map Logic.fromChar := by
  induction cs generalizing v with
  | nil => exact ⟨fits, (List.append_nil _).symm⟩
  | cons c cs ih =>
    have width : (v.pushChar c v.width).width = v.width + 1 := by
      rw [LogicArray.pushChar]
      cases Logic.fromChar c <;> rfl
    have rest := ih (fits.pushChar c)
    rw [width, fits.states_pushChar c, List.append_assoc] at rest
    exact rest

/-- The characters from the last on are the bits from the first on. -/
theorem fits_fromBinstr (s : String) : (fromBinstr s).Fits :=
  (Fits.pushChars (v := ⟨0, 0, 0⟩) ⟨Nat.one_pos, Nat.one_pos⟩ s.toList.reverse).1

theorem states_fromBinstr (s : String) :
    (fromBinstr s).states = s.toList.reverse.map Logic.fromChar :=
  (Fits.pushChars (v := ⟨0, 0, 0⟩) ⟨Nat.one_pos, Nat.one_pos⟩ s.toList.reverse).2

theorem toBinstr_eq (v : LogicArray) : v.toBinstr = String.ofList (v.states.reverse.map Logic.toChar) := by
  rw [toBinstr, states, ← List.map_reverse, List.map_map]
  rfl

theorem fromChar_toChar (s : Logic) : Logic.fromChar s.toChar = s := by cases s <;> decide

theorem Fits.fromBinstr_toBinstr {v : LogicArray} (fits : v.Fits) : fromBinstr v.toBinstr = v := by
  apply (fits_fromBinstr _).ext_states fits
  rw [states_fromBinstr, toBinstr_eq, String.toList_ofList, ← List.map_reverse, List.reverse_reverse,
    List.map_map]
  exact List.map_id'' fromChar_toChar v.states

end LogicArray

/-- A character as `to_binstr` writes it. -/
def normalised (c : Char) : Char :=
  if c = '0' ∨ c = '1' then c else if c = 'z' ∨ c = 'Z' then 'z' else 'x'

theorem toChar_fromChar (c : Char) : (Logic.fromChar c).toChar = normalised c := by
  unfold Logic.fromChar normalised
  split <;> simp_all [Logic.toChar]

namespace LogicArray

theorem toBinstr_fromBinstr (s : String) :
    (fromBinstr s).toBinstr = String.ofList (s.toList.map normalised) := by
  rw [toBinstr_eq, states_fromBinstr, ← List.map_reverse, List.reverse_reverse, List.map_map]
  congr 1
  apply List.map_congr_left
  intro c _
  exact toChar_fromChar c

/-! ## Two-state numbers -/

/-- The test that the loop of `from_u128` makes. -/
theorem and_one_shiftLeft (v : BitVec 128) {bit : ℕ} (inside : bit < 128) :
    v &&& (1#128 <<< bit) ≠ 0 ↔ v.getLsbD bit = true := by
  have set : BitVec.twoPow 128 bit ≠ 0#128 := by
    intro zero
    have low := congrArg (fun x => x.getLsbD bit) zero
    simp [inside] at low
  rw [← BitVec.twoPow_eq, BitVec.and_twoPow]
  split_ifs with at_bit
  · exact iff_of_true set at_bit
  · exact iff_of_false (not_not_intro rfl) at_bit

/-- After `m` rounds the loop holds the low `m` bits. -/
theorem testBit_fromU128 (v : BitVec 128) {m : ℕ} (le : m ≤ 128) (i : ℕ) :
    ((List.range m).foldl (fun a bit => if v &&& (1#128 <<< bit) ≠ 0 then setBit a bit else a) 0).testBit i =
      (decide (i < m) && v.getLsbD i) := by
  induction m with
  | zero => simp only [List.range_zero, List.foldl_nil, Nat.zero_testBit, Nat.not_lt_zero,
      decide_false, Bool.false_and]
  | succ m ih =>
    have before := ih (by omega)
    rw [List.range_succ, List.foldl_append, List.foldl_cons, List.foldl_nil]
    generalize List.foldl _ 0 (List.range m) = a at before ⊢
    have test := and_one_shiftLeft v (show m < 128 by omega)
    have next : decide (i < m + 1) = (decide (i < m) || decide (m = i)) := by
      rw [← Bool.decide_or, decide_eq_decide]
      omega
    rw [next, Bool.and_or_distrib_right, ← before]
    split_ifs with set
    · rw [testBit_setBit]
      rcases eq_or_ne m i with rfl | other
      · rw [test.mp set, Bool.and_true]
      · rw [decide_eq_false other, Bool.false_and]
    · rcases eq_or_ne m i with rfl | other
      · rw [Bool.eq_false_iff.mpr fun bit => set (test.mpr bit), Bool.and_false, Bool.or_false]
      · rw [decide_eq_false other, Bool.false_and, Bool.or_false]

theorem fromU128_eq (v : BitVec 128) (width : ℕ) :
    fromU128 v width = ⟨v.toNat % 2 ^ width, 0, width⟩ := by
  rw [fromU128, LogicArray.mk.injEq]
  refine ⟨?_, rfl, rfl⟩
  apply Nat.eq_of_testBit_eq
  intro i
  rw [testBit_fromU128 v (Nat.min_le_right ..), Nat.testBit_mod_two_pow, BitVec.testBit_toNat]
  rcases Nat.lt_or_ge i 128 with inside | beyond
  · have same : i < min width 128 ↔ i < width := by omega
    rw [decide_eq_decide.mpr same]
  · rw [BitVec.getLsbD_of_ge v i beyond, Bool.and_false, Bool.and_false]

/-- A number that fits 128 bits goes through `u128`. -/
theorem fromU128_ofNat {n : ℕ} (small : n < 2 ^ 128) (width : ℕ) :
    fromU128 (BitVec.ofNat 128 n) width = ⟨n % 2 ^ width, 0, width⟩ := by
  rw [fromU128_eq, BitVec.toNat_ofNat, Nat.mod_eq_of_lt small]

theorem fromBigint_eq (v width : ℕ) : fromBigint v width = ⟨v % 2 ^ width, 0, width⟩ := by
  rw [fromBigint, Nat.one_shiftLeft, Nat.and_two_pow_sub_one_eq_mod]

theorem fits_two_state (n width : ℕ) : Fits ⟨n % 2 ^ width, 0, width⟩ :=
  ⟨Nat.mod_lt _ (Nat.two_pow_pos width), Nat.two_pow_pos width⟩

theorem fromBool_eq (v : Bool) (width : ℕ) : fromBool v width = ⟨v.toNat % 2 ^ width, 0, width⟩ :=
  fromU128_ofNat ((Bool.toNat_le v).trans_lt (by decide)) width

theorem fromU8_eq (v : UInt8) (width : ℕ) : fromU8 v width = ⟨v.toNat % 2 ^ width, 0, width⟩ :=
  fromU128_ofNat (v.toNat_lt.trans (by decide)) width

theorem fromU16_eq (v : UInt16) (width : ℕ) : fromU16 v width = ⟨v.toNat % 2 ^ width, 0, width⟩ :=
  fromU128_ofNat (v.toNat_lt.trans (by decide)) width

theorem fromU32_eq (v : UInt32) (width : ℕ) : fromU32 v width = ⟨v.toNat % 2 ^ width, 0, width⟩ :=
  fromU128_ofNat (v.toNat_lt.trans (by decide)) width

theorem fromU64_eq (v : UInt64) (width : ℕ) : fromU64 v width = ⟨v.toNat % 2 ^ width, 0, width⟩ :=
  fromU128_ofNat (v.toNat_lt.trans (by decide)) width

/-- Every constructor yields planes that fit the width. -/
theorem Built.fits {v : LogicArray} (built : Built v) : v.Fits := by
  cases built with
  | fromVpiWords done => exact fits_fromVpiWords done
  | fromBinstr s => exact fits_fromBinstr s
  | fromBool n width => exact fromBool_eq n width ▸ fits_two_state ..
  | fromU8 n width => exact fromU8_eq n width ▸ fits_two_state ..
  | fromU16 n width => exact fromU16_eq n width ▸ fits_two_state ..
  | fromU32 n width => exact fromU32_eq n width ▸ fits_two_state ..
  | fromU64 n width => exact fromU64_eq n width ▸ fits_two_state ..
  | fromU128 n width => exact fromU128_eq n width ▸ fits_two_state ..
  | fromBigint n width => exact fromBigint_eq n width ▸ fits_two_state ..

/-- A value of this width without `X` and `Z` that stands for the number modulo `2 ^ width`. -/
def Denotes (v : LogicArray) (width n : ℕ) : Prop :=
  v.width = width ∧ v.Known ∧ v.value = n % 2 ^ width

theorem denotes_two_state (n width : ℕ) : Denotes ⟨n % 2 ^ width, 0, width⟩ width n := by
  have known := (fits_two_state n width).known_iff.mpr rfl
  exact ⟨rfl, known, value_eq (fits_two_state n width) known⟩

/-! ## Conversions -/

/-- The conversion succeeds on the values without `X` and `Z`, and returns their low bits. -/
def ReadsLow {α : Type} (v : LogicArray) (bits : ℕ) (toNat : α → ℕ)
    (result : Except ValueError α) : Prop :=
  ((∃ n, result = .ok n) ↔ v.Known) ∧ ∀ n, result = .ok n → toNat n = v.value % 2 ^ bits

theorem Fits.tryFrom_ok {α : Type} {v : LogicArray} (fits : v.Fits) (read : ℕ → α) :
    ((∃ n, v.tryFrom read = .ok n) ↔ v.Known) ∧ ∀ n, v.tryFrom read = .ok n → n = read v.value := by
  have known := fits.known_iff
  rw [tryFrom, isResolvable]
  rcases eq_or_ne v.bVal 0 with zero | set
  · have all := known.mpr zero
    rw [if_pos (decide_eq_true zero)]
    refine ⟨iff_of_true ⟨_, rfl⟩ all, fun n ok => ?_⟩
    rw [← Except.ok.inj ok, value_eq fits all]
  · rw [if_neg (by simpa only [decide_eq_true_eq] using set)]
    refine ⟨iff_of_false (fun ⟨_, ok⟩ => by contradiction) fun all => set (known.mp all), ?_⟩
    intro n ok
    contradiction

theorem Fits.readsLow {α : Type} {v : LogicArray} (fits : v.Fits) {bits : ℕ} {toNat : α → ℕ}
    {read : ℕ → α} (low : ∀ a, toNat (read a) = a % 2 ^ bits) :
    v.ReadsLow bits toNat (v.tryFrom read) := by
  obtain ⟨succeeds, returns⟩ := fits.tryFrom_ok read
  refine ⟨succeeds, fun n ok => ?_⟩
  rw [returns n ok, low]

theorem toNat_headD_u32Digits (a : ℕ) : ((u32Digits a).headD 0).toNat = a % 2 ^ 32 := by
  have first := toNat_getD_u32Digits a 0
  rw [Nat.mul_zero, Nat.pow_zero, Nat.div_one] at first
  rw [← first]
  cases u32Digits a <;> rfl

theorem toNat_getD_u64Digits (a i : ℕ) :
    ((u64Digits a).getD i 0).toNat = a / 2 ^ (64 * i) % 2 ^ 64 := by
  have digit := getD_digits (k := 64) (by decide) a i
  have small : a / 2 ^ (64 * i) % 2 ^ 64 < 2 ^ 64 := Nat.mod_lt _ (by decide)
  have mapped : (u64Digits a).getD i 0 = UInt64.ofNat ((Nat.digits (2 ^ 64) a).getD i 0) :=
    List.getD_map _ 0 UInt64.ofNat
  rw [mapped, digit, UInt64.toNat_ofNat_of_lt' small]

theorem toNat_halves {low high : ℕ} (lt : low < 2 ^ 64) (lt' : high < 2 ^ 64) :
    (BitVec.ofNat 128 low ||| BitVec.ofNat 128 high <<< 64).toNat = low + 2 ^ 64 * high := by
  have whole : high * 2 ^ 64 < 2 ^ 128 := by omega
  rw [BitVec.toNat_or, BitVec.toNat_shiftLeft, BitVec.toNat_ofNat, BitVec.toNat_ofNat,
    Nat.mod_eq_of_lt (lt.trans (by decide)), Nat.mod_eq_of_lt (lt'.trans (by decide)),
    Nat.shiftLeft_eq, Nat.mod_eq_of_lt whole, Nat.or_comm, ← Nat.shiftLeft_eq,
    ← Nat.shiftLeft_add_eq_or_of_lt lt, Nat.shiftLeft_eq, Nat.add_comm, Nat.mul_comm]

theorem toNat_low_u8 (a : ℕ) : ((u32Digits a).headD 0).toUInt8.toNat = a % 2 ^ 8 := by
  rw [UInt32.toNat_toUInt8, toNat_headD_u32Digits]
  exact Nat.mod_mod_of_dvd a (by decide)

theorem toNat_low_u16 (a : ℕ) : ((u32Digits a).headD 0).toUInt16.toNat = a % 2 ^ 16 := by
  rw [UInt32.toNat_toUInt16, toNat_headD_u32Digits]
  exact Nat.mod_mod_of_dvd a (by decide)

theorem toNat_headD_u64Digits (a : ℕ) : ((u64Digits a).headD 0).toNat = a % 2 ^ 64 := by
  have first := toNat_getD_u64Digits a 0
  rw [Nat.mul_zero, Nat.pow_zero, Nat.div_one] at first
  rw [← first]
  cases u64Digits a <;> rfl

theorem toNat_two_u64Digits (a : ℕ) :
    (BitVec.ofNat 128 ((u64Digits a).getD 0 0).toNat |||
      BitVec.ofNat 128 ((u64Digits a).getD 1 0).toNat <<< 64).toNat = a % 2 ^ 128 := by
  rw [toNat_getD_u64Digits, toNat_getD_u64Digits, toNat_halves (Nat.mod_lt _ (by decide))
    (Nat.mod_lt _ (by decide)), Nat.mul_zero, Nat.pow_zero, Nat.div_one, Nat.mul_one,
    ← Nat.mod_mul, ← Nat.pow_add]

theorem Fits.tryFrom_reads {v : LogicArray} (fits : v.Fits) :
    v.ReadsLow 8 UInt8.toNat v.tryU8 ∧ v.ReadsLow 16 UInt16.toNat v.tryU16 ∧
      v.ReadsLow 32 UInt32.toNat v.tryU32 ∧ v.ReadsLow 64 UInt64.toNat v.tryU64 ∧
      v.ReadsLow 128 BitVec.toNat v.tryU128 :=
  ⟨fits.readsLow toNat_low_u8, fits.readsLow toNat_low_u16, fits.readsLow toNat_headD_u32Digits,
    fits.readsLow toNat_headD_u64Digits, fits.readsLow toNat_two_u64Digits⟩

/-- The values that can be built, what their words and strings are, and what goes in and comes out as a number. -/
theorem codec_laws :
    (∀ v, Built v → v.aVal < 2 ^ v.width ∧ v.bVal < 2 ^ v.width) ∧
    (∀ v w, Built v → Built w →
      (v = w ↔ v.width = w.width ∧ ∀ i < v.width, v.index i = w.index i)) ∧
    (∀ v, Built v → fromVpiWords v.toVpiWords v.width = .ok v) ∧
    (∀ width words, words.length = wordsFor width →
      ∃ v, fromVpiWords words width = .ok v ∧ v.toVpiWords = clearUnused width words) ∧
    (∀ v, Built v → fromBinstr v.toBinstr = v) ∧
    (∀ s, (fromBinstr s).toBinstr = String.ofList (s.toList.map normalised)) ∧
    ((∀ n width, Denotes (fromBool n width) width n.toNat) ∧
      (∀ n width, Denotes (fromU8 n width) width n.toNat) ∧
      (∀ n width, Denotes (fromU16 n width) width n.toNat) ∧
      (∀ n width, Denotes (fromU32 n width) width n.toNat) ∧
      (∀ n width, Denotes (fromU64 n width) width n.toNat) ∧
      (∀ n width, Denotes (fromU128 n width) width n.toNat) ∧
      ∀ n width, Denotes (fromBigint n width) width n) ∧
    ∀ v, Built v →
      (v.ReadsLow 8 UInt8.toNat v.tryU8 ∧ v.ReadsLow 16 UInt16.toNat v.tryU16 ∧
        v.ReadsLow 32 UInt32.toNat v.tryU32 ∧ v.ReadsLow 64 UInt64.toNat v.tryU64 ∧
        v.ReadsLow 128 BitVec.toNat v.tryU128) ∧
      ((∃ n, v.tryBigUint = .ok n) ↔ v.Known) ∧ ∀ n, v.tryBigUint = .ok n → n = v.value := by
  refine ⟨fun v built => built.fits, ?_, fun v built => built.fits.fromVpiWords_toVpiWords,
    fun width words fits => toVpiWords_fromVpiWords fits, fun v built => built.fits.fromBinstr_toBinstr,
    toBinstr_fromBinstr, ⟨?_, ?_, ?_, ?_, ?_, ?_, ?_⟩, ?_⟩
  · intro v w builtv builtw
    constructor
    · rintro rfl
      exact ⟨rfl, fun i _ => rfl⟩
    · rintro ⟨width, same⟩
      refine builtv.fits.ext builtw.fits width fun i inside => ?_
      have at_i := same i inside
      rw [index_of_lt inside, index_of_lt (width ▸ inside)] at at_i
      exact Option.some.inj at_i
  · exact fun n width => fromBool_eq n width ▸ denotes_two_state ..
  · exact fun n width => fromU8_eq n width ▸ denotes_two_state ..
  · exact fun n width => fromU16_eq n width ▸ denotes_two_state ..
  · exact fun n width => fromU32_eq n width ▸ denotes_two_state ..
  · exact fun n width => fromU64_eq n width ▸ denotes_two_state ..
  · exact fun n width => fromU128_eq n width ▸ denotes_two_state ..
  · exact fun n width => fromBigint_eq n width ▸ denotes_two_state ..
  · exact fun v built => ⟨built.fits.tryFrom_reads, built.fits.tryFrom_ok id⟩

end LogicArray

end Rustdv.Phase
