import Mathlib.Data.BitVec
import Mathlib.Data.Fintype.Basic
import Mathlib.Data.Int.CardIntervalMod
import Mathlib.Data.Nat.GCD.Basic

/-! # Mixers that lose nothing

Generators mix a word by shifting it into itself, by rotating it and by multiplying it with an odd
constant. All of them are injective: the upper bits survive a shift to the right and give back the lower
ones, and an odd number is invertible modulo a power of two. A sequence of words that repeats only after 2⁶⁴ of them goes
through all of them, so every property holds of as many of its words as of all words.
-/

namespace BitVec

variable {w : ℕ}

/-- The upper bits give back the lower ones. -/
theorem xor_ushiftRight_injective {k : ℕ} (pos : 0 < k) :
    Function.Injective fun x : BitVec w => x ^^^ (x >>> k) := by
  intro x y same
  -- from the top bit downwards
  have bit (d : ℕ) : ∀ i, w ≤ i + d → x.getLsbD i = y.getLsbD i := by
    induction d with
    | zero =>
      intro i above
      rw [x.getLsbD_of_ge i above, y.getLsbD_of_ge i above]
    | succ d ih =>
      intro i near
      have here := congrArg (fun z : BitVec w => z.getLsbD i) same
      simp only [getLsbD_xor, getLsbD_ushiftRight, ih (k + i) (by omega)] at here
      exact Bool.xor_right_inj.mp ((Bool.xor_comm ..).trans (here.trans (Bool.xor_comm ..)))
  exact eq_of_getLsbD_eq fun i _ => bit w i (Nat.le_add_left w i)

theorem rotateLeft_injective {r : ℕ} (lt : r < w) : Function.Injective fun x : BitVec w => x.rotateLeft r := by
  intro x y same
  refine eq_of_getLsbD_eq fun i hi => ?_
  have bit (j : ℕ) := congrArg (fun z : BitVec w => z.getLsbD j) same
  simp only [getLsbD_rotateLeft_of_le lt] at bit
  -- where the bit is after the rotation
  by_cases below : i < w - r
  · have moved := bit (i + r)
    rwa [decide_eq_false (by omega), decide_eq_true (by omega), cond_false, cond_false, Bool.true_and, Bool.true_and,
      Nat.add_sub_cancel] at moved
  · have moved := bit (i - (w - r))
    rwa [decide_eq_true (by omega), cond_true, cond_true, Nat.add_comm, Nat.sub_add_cancel (by omega)] at moved

theorem mul_right_injective_of_odd {c : BitVec w} (odd : c.toNat % 2 = 1) :
    Function.Injective fun x : BitVec w => x * c := by
  intro x y same
  have coprime : Nat.Coprime (2 ^ w) c.toNat := by
    refine Nat.Coprime.pow_left w ?_
    rw [Nat.Coprime, Nat.gcd_rec, odd]
    exact Nat.gcd_one_left 2
  have equal : x.toNat * c.toNat ≡ y.toNat * c.toNat [MOD 2 ^ w] := by
    have := congrArg BitVec.toNat same
    rwa [toNat_mul, toNat_mul] at this
  have cancelled := Nat.ModEq.cancel_right_of_coprime coprime equal
  rw [Nat.ModEq, Nat.mod_eq_of_lt x.isLt, Nat.mod_eq_of_lt y.isLt] at cancelled
  exact eq_of_toNat_eq cancelled

/-- A counter that adds an odd constant visits every word before it repeats one. -/
theorem add_mul_injOn_of_odd (s : BitVec w) {c : BitVec w} (odd : c.toNat % 2 = 1) {i j : ℕ} (hi : i < 2 ^ w)
    (hj : j < 2 ^ w) (same : s + BitVec.ofNat w i * c = s + BitVec.ofNat w j * c) : i = j := by
  have equal := mul_right_injective_of_odd odd (BitVec.add_right_inj s |>.mp same)
  have := congrArg BitVec.toNat equal
  rwa [toNat_ofNat, toNat_ofNat, Nat.mod_eq_of_lt hi, Nat.mod_eq_of_lt hj] at this

end BitVec

namespace UInt64

/-- What 2⁶⁴ words do not repeat, they exhaust. -/
theorem exists_of_modEq {word : ℕ → UInt64} (distinct : ∀ i j, word i = word j → i ≡ j [MOD 2 ^ 64]) (v : UInt64) :
    ∃ i < 2 ^ 64, word i = v := by
  let place (i : Fin (2 ^ 64)) : Fin (2 ^ 64) := (word i).toFin
  have injective : Function.Injective place := fun i j same =>
    Fin.ext (Nat.ModEq.eq_of_lt_of_lt (distinct i j (UInt64.toFin_inj.mp same)) i.isLt j.isLt)
  obtain ⟨i, found⟩ := Finite.surjective_of_injective injective v.toFin
  exact ⟨i, i.isLt, UInt64.toFin_inj.mp found⟩

theorem count_of_modEq {word : ℕ → UInt64} (distinct : ∀ i j, word i = word j → i ≡ j [MOD 2 ^ 64])
    (p : UInt64 → Prop) [DecidablePred p] :
    Nat.count (fun i => p (word i)) (2 ^ 64) = Nat.count (fun k => p (.ofNat k)) (2 ^ 64) := by
  rw [Nat.count_eq_card_filter_range, Nat.count_eq_card_filter_range]
  refine Finset.card_bij (fun i _ => (word i).toNat) ?_ ?_ ?_
  · intro i hi
    simp only [Finset.mem_filter, Finset.mem_range, UInt64.ofNat_toNat] at hi ⊢
    exact ⟨UInt64.toNat_lt _, hi.2⟩
  · intro i hi j hj same
    exact Nat.ModEq.eq_of_lt_of_lt (distinct i j (UInt64.toNat_inj.mp same))
      (Finset.mem_range.mp (Finset.mem_filter.mp hi).1) (Finset.mem_range.mp (Finset.mem_filter.mp hj).1)
  · intro k hk
    simp only [Finset.mem_filter, Finset.mem_range] at hk ⊢
    obtain ⟨i, hi, drawn⟩ := exists_of_modEq distinct (.ofNat k)
    exact ⟨i, ⟨hi, by rw [drawn]; exact hk.2⟩, by rw [drawn, UInt64.toNat_ofNat_of_lt' hk.1]⟩

/-- The words of a residue: how often two residues occur differs by one at most. -/
theorem count_residue_of_modEq {word : ℕ → UInt64} (distinct : ∀ i j, word i = word j → i ≡ j [MOD 2 ^ 64])
    (p : UInt64 → Prop) [DecidablePred p] {n v : ℕ} (below : v < n)
    (residue : ∀ k < 2 ^ 64, p (.ofNat k) ↔ k ≡ v [MOD n]) :
    Nat.count (fun i => p (word i)) (2 ^ 64) = 2 ^ 64 / n + if v < 2 ^ 64 % n then 1 else 0 := by
  have card := Nat.count_modEq_card (2 ^ 64) (Nat.zero_lt_of_lt below) v
  rw [Nat.mod_eq_of_lt below] at card
  rw [count_of_modEq distinct, ← card, Nat.count_eq_card_filter_range, Nat.count_eq_card_filter_range]
  exact congrArg Finset.card (Finset.filter_congr fun k hk => residue k (Finset.mem_range.mp hk))

/-- A mask of the low bits is a remainder. -/
theorem toNat_ofNat_and_low {k w : ℕ} (hk : k < 2 ^ 64) (hw : w ≤ 64) :
    (UInt64.ofNat k &&& .ofNat (2 ^ w - 1)).toNat = k % 2 ^ w := by
  have mask : 2 ^ w - 1 < 2 ^ 64 := by
    have := Nat.pow_le_pow_right (n := 2) (by decide) hw
    have := Nat.two_pow_pos w
    omega
  rw [UInt64.toNat_and, UInt64.toNat_ofNat_of_lt' hk, UInt64.toNat_ofNat_of_lt' mask, Nat.and_two_pow_sub_one_eq_mod]

end UInt64
