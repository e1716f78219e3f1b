import Mathlib.Data.Nat.Digits.Lemmas

/-! # Numbers as limbs

The low `count` limbs of a number, `k` bits each and least significant first. Reading limbs back
loses what lies above them and nothing else; dropping the high bits of the number, taking fewer
limbs and adding zero limbs are operations on the list.
-/

namespace Limbs

variable {k : ℕ}

/-- The low `count` limbs of `n`. -/
def limbs (k count n : ℕ) : List ℕ := (List.range count).map fun i => n / 2 ^ (k * i) % 2 ^ k

@[simp] theorem length_limbs (count n : ℕ) : (limbs k count n).length = count := by
  simp only [limbs, List.length_map, List.length_range]

theorem limbs_succ (count n : ℕ) :
    limbs k (count + 1) n = n % 2 ^ k :: limbs k count (n / 2 ^ k) := by
  simp only [limbs, List.range_succ_eq_map, List.map_cons, List.map_map, Function.comp_def,
    Nat.mul_zero, Nat.pow_zero, Nat.div_one, Nat.div_div_eq_div_mul, ← Nat.pow_add, Nat.mul_succ,
    Nat.add_comm k]

/-- Reading the limbs back. -/
theorem ofDigits_limbs (count n : ℕ) : Nat.ofDigits (2 ^ k) (limbs k count n) = n % 2 ^ (k * count) := by
  induction count generalizing n with
  | zero => simp only [limbs, List.range_zero, List.map_nil, Nat.ofDigits_nil, Nat.mul_zero,
      Nat.pow_zero, Nat.mod_one]
  | succ count ih =>
    rw [limbs_succ, Nat.ofDigits_cons, ih, Nat.mul_succ, Nat.add_comm, Nat.pow_add, Nat.mul_comm,
      Nat.mul_comm (2 ^ (k * count)), Nat.mod_mul]
    rw [Nat.mul_comm, Nat.add_comm]

/-- A list of limbs is determined by its length and its number. -/
theorem limbs_ofDigits {l : List ℕ} (bounded : ∀ d ∈ l, d < 2 ^ k) :
    limbs k l.length (Nat.ofDigits (2 ^ k) l) = l := by
  induction l with
  | nil => rfl
  | cons d l ih =>
    have small : d < 2 ^ k := bounded d List.mem_cons_self
    rw [List.length_cons, limbs_succ, Nat.ofDigits_cons, Nat.add_mul_mod_self_left,
      Nat.mod_eq_of_lt small, Nat.add_mul_div_left _ _ (Nat.two_pow_pos k), Nat.div_eq_of_lt small,
      Nat.zero_add, ih fun e mem => bounded e (List.mem_cons_of_mem d mem)]

/-- Dropping the bits from `w` on, limb by limb. -/
theorem limbs_mod (count n w : ℕ) :
    limbs k count (n % 2 ^ w) = (limbs k count n).mapIdx fun i l => l % 2 ^ (w - k * i) := by
  apply List.ext_getElem
  · simp only [length_limbs, List.length_mapIdx]
  · intro i _ _
    simp only [limbs, List.getElem_map, List.getElem_range, List.getElem_mapIdx]
    apply Nat.eq_of_testBit_eq
    intro j
    simp only [Nat.testBit_mod_two_pow, Nat.testBit_div_two_pow]
    have same : (j + k * i < w) ↔ j < w - k * i := by omega
    rw [decide_eq_decide.mpr same, Bool.and_left_comm]

/-- Zero limbs above a number that has none there. -/
theorem limbs_append_zeros {count n : ℕ} (small : n < 2 ^ (k * count)) (more : ℕ) :
    limbs k count n ++ List.replicate more 0 = limbs k (count + more) n := by
  rw [limbs, limbs, List.range_add, List.map_append, List.map_map]
  congr 1
  refine (List.eq_replicate_iff.mpr ⟨by simp only [List.length_map, List.length_range], ?_⟩).symm
  intro l mem
  obtain ⟨i, -, rfl⟩ := List.mem_map.mp mem
  have low : n < 2 ^ (k * (count + i)) :=
    lt_of_lt_of_le small (Nat.pow_le_pow_right Nat.two_pos (Nat.mul_le_mul_left k (Nat.le_add_right ..)))
  rw [Function.comp_apply, Nat.div_eq_of_lt low, Nat.zero_mod]

/-- The digits of a number, with zeros beyond the last, are its limbs. -/
theorem getD_digits (pos : 0 < k) (n i : ℕ) :
    (Nat.digits (2 ^ k) n).getD i 0 = n / 2 ^ (k * i) % 2 ^ k := by
  rw [Nat.getD_digits n i (Nat.one_lt_two_pow pos.ne'), Nat.pow_mul]

/-- The digits of a number are as many limbs as it needs. -/
theorem limbs_length_digits (pos : 0 < k) (n : ℕ) :
    limbs k (Nat.digits (2 ^ k) n).length n = Nat.digits (2 ^ k) n := by
  have bounded : ∀ d ∈ Nat.digits (2 ^ k) n, d < 2 ^ k :=
    fun d mem => Nat.digits_lt_base (Nat.one_lt_two_pow pos.ne') mem
  conv_rhs => rw [← limbs_ofDigits bounded, Nat.ofDigits_digits]

end Limbs
