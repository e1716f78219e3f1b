import Mathlib.Tactic.NormNum.Basic
import Rustdv.Model.Rng
import Rustdv.ToMathlib.XorShift

/-! # The period of the generator

Whatever the seed, 2⁶⁴ calls draw every word exactly once and bring the state back, so what a range, a
byte or a bit is drawn from is known exactly over a period. Two seeds walk through the same cycle and
never agree at the same call.
-/

namespace Rustdv.Isolation.Rng

theorem mix_injective : Function.Injective mix := by
  intro x y same
  have same := congrArg UInt64.toBitVec same
  have first := BitVec.xor_ushiftRight_injective (w := 64) (k := 31) (by decide) same
  have second := BitVec.mul_right_injective_of_odd (c := 0x94D049BB133111EB#64) (by decide) first
  have third := BitVec.xor_ushiftRight_injective (w := 64) (k := 27) (by decide) second
  have fourth := BitVec.mul_right_injective_of_odd (c := 0xBF58476D1CE4E5B9#64) (by decide) third
  exact UInt64.toBitVec_inj.mp (BitVec.xor_ushiftRight_injective (w := 64) (k := 30) (by decide) fourth)

theorem state_after (rng : Rng) (i : ℕ) : (rng.after i).state = rng.state + .ofNat i * gamma := by
  induction i with
  | zero => simp [after]
  | succ i ih => rw [after, nextU64, ih, UInt64.ofNat_add, UInt64.add_mul, UInt64.add_assoc]; rfl

/-- The word of the call after so many. -/
def draw (rng : Rng) (i : ℕ) : UInt64 := (rng.after i).nextU64.1

theorem draw_eq (rng : Rng) (i : ℕ) : rng.draw i = mix (rng.state + .ofNat (i + 1) * gamma) := by
  rw [← state_after rng (i + 1)]
  rfl

/-- The counter comes back after 2⁶⁴ increments and not before. -/
theorem counter_eq_iff (s : UInt64) {i j : ℕ} :
    s + .ofNat i * gamma = s + .ofNat j * gamma ↔ i ≡ j [MOD 2 ^ 64] := by
  constructor
  · intro same
    rw [← UInt64.ofNat_mod_size (x := i), ← UInt64.ofNat_mod_size (x := j)] at same
    exact BitVec.add_mul_injOn_of_odd (w := 64) s.toBitVec (c := gamma.toBitVec) (by decide)
      (Nat.mod_lt i (by decide)) (Nat.mod_lt j (by decide)) (congrArg UInt64.toBitVec same)
  · intro same
    rw [← UInt64.ofNat_mod_size (x := i), same, UInt64.ofNat_mod_size]

theorem after_eq_iff (rng : Rng) {i j : ℕ} : rng.after i = rng.after j ↔ i ≡ j [MOD 2 ^ 64] := by
  rw [Rng.mk.injEq, state_after, state_after, counter_eq_iff]

theorem draw_eq_iff (rng : Rng) {i j : ℕ} : rng.draw i = rng.draw j ↔ i ≡ j [MOD 2 ^ 64] := by
  rw [draw_eq, draw_eq, mix_injective.eq_iff, counter_eq_iff]
  exact ⟨Nat.ModEq.add_right_cancel' 1, Nat.ModEq.add_right 1⟩

theorem exists_draw (rng : Rng) (v : UInt64) : ∃ i < 2 ^ 64, rng.draw i = v :=
  UInt64.exists_of_modEq (fun _ _ => rng.draw_eq_iff.mp) v

/-- A period draws every word exactly once, and only whole periods bring the state back. -/
theorem draws_once (rng : Rng) :
    (∀ v, ∃! i, i < 2 ^ 64 ∧ rng.draw i = v) ∧ ∀ i, rng.after i = rng ↔ 2 ^ 64 ∣ i := by
  refine ⟨fun v => ?_, fun i => ?_⟩
  · obtain ⟨i, hi, drawn⟩ := rng.exists_draw v
    exact ⟨i, ⟨hi, drawn⟩, fun j hj =>
      Nat.ModEq.eq_of_lt_of_lt (rng.draw_eq_iff.mp (hj.2.trans drawn.symm)) hj.1 hi⟩
  · rw [← Nat.modEq_zero_iff_dvd]
    exact rng.after_eq_iff (j := 0)

/-! ## What is drawn from ranges -/

/-- The modulo bias: a value below the remainder of 2⁶⁴ is drawn once more than the others. -/
theorem count_below (rng : Rng) {n v : UInt64} (h : v < n) :
    Nat.count (fun i => ((rng.after i).below n).1 = some v) (2 ^ 64) =
      2 ^ 64 / n.toNat + if v.toNat < 2 ^ 64 % n.toNat then 1 else 0 := by
  have below : v.toNat < n.toNat := h
  have nonzero : n ≠ 0 := by
    rintro rfl
    exact Nat.not_lt_zero _ below
  have drawn (i : ℕ) : ((rng.after i).below n).1 = some v ↔ rng.draw i % n = v := by
    simp only [Rng.below, if_neg nonzero, Option.some.injEq]
    rfl
  simp only [drawn]
  refine UInt64.count_residue_of_modEq (fun _ _ => rng.draw_eq_iff.mp) (· % n = v) below fun k hk => ?_
  rw [← UInt64.toNat_inj, UInt64.toNat_mod, UInt64.toNat_ofNat_of_lt' hk, Nat.ModEq, Nat.mod_eq_of_lt below]

/-- Of five values the first is drawn once more. -/
theorem count_below_five :
    Nat.count (fun i => (((new 1).after i).below 5).1 = some 0) (2 ^ 64) = 3689348814741910324 :=
  (count_below (new 1) (show (0 : UInt64) < 5 by decide)).trans (by decide)

theorem byte_iff {k : ℕ} (hk : k < 2 ^ 64) (b : UInt8) :
    (UInt64.ofNat k &&& 0xFF).toUInt8 = b ↔ k ≡ b.toNat [MOD 256] := by
  have low : (UInt64.ofNat k &&& 0xFF).toNat = k % 256 := UInt64.toNat_ofNat_and_low (w := 8) hk (by decide)
  rw [← UInt8.toNat_inj, UInt64.toNat_toUInt8, low, Nat.ModEq, Nat.mod_eq_of_lt b.toNat_lt, Nat.mod_mod]

theorem bit_iff {k : ℕ} (hk : k < 2 ^ 64) (c : Bool) : (UInt64.ofNat k &&& 1 == 1) = c ↔ k ≡ c.toNat [MOD 2] := by
  have low : (UInt64.ofNat k &&& 1).toNat = k % 2 := UInt64.toNat_ofNat_and_low (w := 1) hk (by decide)
  have one : UInt64.ofNat k &&& 1 = 1 ↔ k % 2 = 1 := by
    rw [← UInt64.toNat_inj, low]
    rfl
  have cases := Nat.mod_two_eq_zero_or_one k
  rw [Nat.ModEq]
  cases c with
  | true => simpa using one
  | false =>
    simp only [beq_eq_false_iff_ne, ne_eq, one, Bool.toNat_false]
    omega

/-- Bytes and bits are drawn evenly. -/
theorem count_u8_bool (rng : Rng) (b : UInt8) (c : Bool) :
    Nat.count (fun i => (rng.after i).u8.1 = b) (2 ^ 64) = 2 ^ 56 ∧
      Nat.count (fun i => (rng.after i).bool.1 = c) (2 ^ 64) = 2 ^ 63 := by
  constructor
  · refine (UInt64.count_residue_of_modEq (fun _ _ => rng.draw_eq_iff.mp) (fun z => (z &&& 0xFF).toUInt8 = b) b.toNat_lt
      fun k hk => byte_iff hk b).trans ?_
    norm_num
  · have below : c.toNat < 2 := by cases c <;> decide
    refine (UInt64.count_residue_of_modEq (fun _ _ => rng.draw_eq_iff.mp) (fun z => (z &&& 1 == 1) = c) below
      fun k hk => bit_iff hk c).trans ?_
    norm_num

/-! ## Two seeds -/

/-- Seeds are starting points on one cycle, and two of them never draw the same word at the same call. -/
theorem seeds_shift (s t : UInt64) :
    (∃ k < 2 ^ 64, ∀ i, (new t).after i = (new s).after (k + i)) ∧
      ∀ i, (new s).draw i = (new t).draw i ↔ s = t := by
  constructor
  · have injective (i j : ℕ) (same : s + .ofNat i * gamma = s + .ofNat j * gamma) : i ≡ j [MOD 2 ^ 64] :=
      (counter_eq_iff s).mp same
    obtain ⟨k, hk, reached⟩ := UInt64.exists_of_modEq injective t
    refine ⟨k, hk, fun i => ?_⟩
    rw [Rng.mk.injEq, state_after, state_after]
    simp only [new]
    rw [← reached, UInt64.ofNat_add, UInt64.add_mul, UInt64.add_assoc]
  · intro i
    rw [draw_eq, draw_eq, mix_injective.eq_iff]
    exact UInt64.add_left_inj _

end Rustdv.Isolation.Rng
