import Rustdv.Model.LogicArray
import Rustdv.ToMathlib.Limbs

/-! # Words and planes

A list of VPI words carries two numbers, its planes. The words of two planes hold their low limbs,
a list of words is determined by its length and its planes, and masking the last word of as many
words as a width needs cuts both planes to the width.
-/

namespace Rustdv.Phase

open Limbs

/-- The words a width needs. -/
abbrev wordsFor (width : ℕ) : ℕ := (width + 31) / 32

theorem le_wordsFor (width : ℕ) : width ≤ 32 * wordsFor width := by
  rw [wordsFor]
  omega

/-- The plane of the `aval` halves. -/
def aPlane (words : List VecVal) : ℕ := fromSlice (words.map VecVal.aval)

/-- The plane of the `bval` halves. -/
def bPlane (words : List VecVal) : ℕ := fromSlice (words.map VecVal.bval)

/-- The low `count` words of two planes. -/
def vecWords (count a b : ℕ) : List VecVal :=
  (List.range count).map fun i => ⟨UInt32.ofNat (a / 2 ^ (32 * i)), UInt32.ofNat (b / 2 ^ (32 * i))⟩

@[simp] theorem length_vecWords (count a b : ℕ) : (vecWords count a b).length = count := by
  simp only [vecWords, List.length_map, List.length_range]

/-! ## One plane -/

private theorem bounded (plane : List UInt32) : ∀ d ∈ plane.map UInt32.toNat, d < 2 ^ 32 := by
  intro d mem
  obtain ⟨word, -, rfl⟩ := List.mem_map.mp mem
  exact word.toNat_lt

theorem limbs_fromSlice (plane : List UInt32) :
    limbs 32 plane.length (fromSlice plane) = plane.map UInt32.toNat := by
  have back := limbs_ofDigits (bounded plane)
  rwa [List.length_map] at back

theorem fromSlice_of_limbs {plane : List UInt32} {count n : ℕ}
    (same : plane.map UInt32.toNat = limbs 32 count n) : fromSlice plane = n % 2 ^ (32 * count) := by
  rw [fromSlice, same, ofDigits_limbs]

/-- Digits as 32-bit words, zeros beyond the last. -/
theorem toNat_getD_u32Digits (n i : ℕ) :
    ((u32Digits n).getD i 0).toNat = n / 2 ^ (32 * i) % 2 ^ 32 := by
  have digit := getD_digits (k := 32) (by decide) n i
  have small : n / 2 ^ (32 * i) % 2 ^ 32 < 2 ^ 32 := Nat.mod_lt _ (by decide)
  have mapped : (u32Digits n).getD i 0 = UInt32.ofNat ((Nat.digits (2 ^ 32) n).getD i 0) :=
    List.getD_map _ 0 UInt32.ofNat
  rw [mapped, digit, UInt32.toNat_ofNat_of_lt' small]

theorem toNat_u32Digits (n : ℕ) : (u32Digits n).map UInt32.toNat = Nat.digits (2 ^ 32) n := by
  rw [u32Digits, List.map_map]
  conv_rhs => rw [← List.map_id (Nat.digits (2 ^ 32) n)]
  apply List.map_congr_left
  intro d mem
  exact UInt32.toNat_ofNat_of_lt' (Nat.digits_lt_base (by decide) mem)

/-- The mask of a partial width keeps its bits of a word. -/
theorem toNat_and_lastMask (width : ℕ) (word : UInt32) :
    (word &&& UInt32.ofNat (2 ^ (width % 32) - 1)).toNat = word.toNat % 2 ^ (width % 32) := by
  have mask : 2 ^ (width % 32) - 1 < 2 ^ 32 :=
    (Nat.sub_le _ _).trans_lt (Nat.pow_lt_pow_right (by decide) (Nat.mod_lt _ (by decide)))
  rw [UInt32.toNat_and, UInt32.toNat_ofNat_of_lt' mask, Nat.and_two_pow_sub_one_eq_mod]

/-- A word that lies below the width is kept whole. -/
theorem toNat_mod_whole {keep : ℕ} (whole : 32 ≤ keep) (word : UInt32) :
    word.toNat % 2 ^ keep = word.toNat :=
  Nat.mod_eq_of_lt (word.toNat_lt.trans_le (Nat.pow_le_pow_right Nat.two_pos whole))

/-- Masking as many words as the width needs cuts the plane to the width. -/
theorem toNat_maskPlane {width : ℕ} {plane : List UInt32} (fits : plane.length = wordsFor width) :
    (maskPlane width plane).map UInt32.toNat =
      limbs 32 (wordsFor width) (fromSlice plane % 2 ^ width) := by
  rw [limbs_mod, ← fits, limbs_fromSlice]
  apply List.ext_getElem
  · simp only [maskPlane]
    split_ifs <;> simp only [List.length_map, List.length_modify, List.length_mapIdx]
  intro i low _
  have inside : i < plane.length := by
    simp only [List.length_map, maskPlane] at low
    split_ifs at low
    · exact low
    · rwa [List.length_modify] at low
  rw [List.getElem_mapIdx, List.getElem_map, List.getElem_map]
  rw [wordsFor] at fits
  simp only [maskPlane]
  split_ifs with whole
  · exact (toNat_mod_whole (by omega) _).symm
  · rw [List.getElem_modify]
    split_ifs with last
    · -- The last word keeps `width % 32` bits.
      have rest : width - 32 * i = width % 32 := by omega
      rw [toNat_and_lastMask, rest]
    · exact (toNat_mod_whole (by omega) _).symm

theorem mod_wordsFor (width n : ℕ) : n % 2 ^ width % 2 ^ (32 * wordsFor width) = n % 2 ^ width := by
  apply Nat.mod_eq_of_lt
  exact (Nat.mod_lt _ (Nat.two_pow_pos width)).trans_le
    (Nat.pow_le_pow_right Nat.two_pos (le_wordsFor width))

theorem fromSlice_maskPlane {width : ℕ} {plane : List UInt32} (fits : plane.length = wordsFor width) :
    fromSlice (maskPlane width plane) = fromSlice plane % 2 ^ width := by
  rw [fromSlice_of_limbs (toNat_maskPlane fits), mod_wordsFor]

/-! ## Both planes -/

/-- The halves of the words of two planes are the limbs of the planes. -/
theorem toNat_aval_vecWords (count a b : ℕ) :
    ((vecWords count a b).map VecVal.aval).map UInt32.toNat = limbs 32 count a := by
  simp only [vecWords, limbs, List.map_map, Function.comp_def, UInt32.toNat_ofNat']

theorem toNat_bval_vecWords (count a b : ℕ) :
    ((vecWords count a b).map VecVal.bval).map UInt32.toNat = limbs 32 count b := by
  simp only [vecWords, limbs, List.map_map, Function.comp_def, UInt32.toNat_ofNat']

@[simp] theorem aPlane_vecWords (count a b : ℕ) : aPlane (vecWords count a b) = a % 2 ^ (32 * count) :=
  fromSlice_of_limbs (toNat_aval_vecWords count a b)

@[simp] theorem bPlane_vecWords (count a b : ℕ) : bPlane (vecWords count a b) = b % 2 ^ (32 * count) :=
  fromSlice_of_limbs (toNat_bval_vecWords count a b)

/-- Words are determined by the limbs of their planes. -/
theorem words_ext {words : List VecVal} {count a b : ℕ}
    (as : (words.map VecVal.aval).map UInt32.toNat = limbs 32 count a)
    (bs : (words.map VecVal.bval).map UInt32.toNat = limbs 32 count b) :
    words = vecWords count a b := by
  rw [← toNat_aval_vecWords count a b] at as
  rw [← toNat_bval_vecWords count a b] at bs
  have aval := (List.map_injective_iff.mpr fun _ _ => UInt32.toNat_inj.mp) as
  have bval := (List.map_injective_iff.mpr fun _ _ => UInt32.toNat_inj.mp) bs
  have same : words.length = (vecWords count a b).length := by
    simpa only [List.length_map] using congrArg List.length aval
  apply List.ext_getElem same
  intro i left right
  have avalAt := congrArg (fun l => l[i]?) aval
  have bvalAt := congrArg (fun l => l[i]?) bval
  simp only [List.getElem?_map, List.getElem?_eq_getElem left, List.getElem?_eq_getElem right,
    Option.map_some, Option.some.injEq] at avalAt bvalAt
  exact congrArg₂ VecVal.mk avalAt bvalAt

end Rustdv.Phase
