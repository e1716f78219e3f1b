import Mathlib.Algebra.Field.Rat
import Mathlib.Data.Rat.Cast.CharZero
import Mathlib.Tactic.FieldSimp
import Mathlib.Tactic.NormNum
import Rustdv.Model.Time

/-! # Exact durations

A duration is a count of units, and its steps are to be the same time. Where a unit is shorter than a
step the count is divided, and a remainder is refused. Where it is longer the count is multiplied, and
what becomes of a product that does not fit into 64 bits is left to the build.
-/

namespace Rustdv.Time

/-- Going over to a smaller unit multiplies. -/
theorem mul_zpow_eq_iff_of_le {K : Type*} [Field K] {base x y : K} (nonzero : base ≠ 0) {p e : ℤ}
    (finer : p ≤ e) : x * base ^ p = y * base ^ e ↔ x = y * base ^ (e - p).toNat := by
  have split : base ^ e = base ^ (e - p).toNat * base ^ p := by
    rw [← zpow_natCast, ← zpow_add₀ nonzero]
    congr 1
    omega
  rw [split, ← mul_assoc]
  exact mul_left_inj' (zpow_ne_zero p nonzero)

/-- So many steps are `n` units of the exponent `exp`. -/
def SameTime (clockwork : Clockwork) (n : UInt64) (exp : ℤ) (steps : ℕ) : Prop :=
  (steps : ℚ) * 10 ^ clockwork.precision = n.toNat * 10 ^ exp

/-- A constructor was exact, or it panicked. -/
def ExactOrRefused (clockwork : Clockwork) (n : UInt64) (exp : ℤ) (made : Except String ℕ) : Prop :=
  ∀ steps, made = .ok steps → SameTime clockwork n exp steps

variable {clockwork : Clockwork} {n : UInt64} {exp : ℤ} {steps : ℕ}

theorem sameTime_iff_mul (longer : clockwork.precision ≤ exp) :
    SameTime clockwork n exp steps ↔ steps = n.toNat * 10 ^ (exp - clockwork.precision).toNat := by
  unfold SameTime
  rw [mul_zpow_eq_iff_of_le (by norm_num) longer]
  norm_cast

theorem sameTime_iff_div (shorter : exp ≤ clockwork.precision) :
    SameTime clockwork n exp steps ↔ steps * 10 ^ (clockwork.precision - exp).toNat = n.toNat := by
  unfold SameTime
  rw [eq_comm, mul_zpow_eq_iff_of_le (by norm_num) shorter, eq_comm]
  norm_cast

/-- The product of a longer unit fits, or the build checks that it does. -/
def NoWrap (clockwork : Clockwork) (n : UInt64) (exp : ℤ) : Prop :=
  clockwork.overflowChecks = true ∨ exp < clockwork.precision ∨
    n.toNat * 10 ^ (exp - clockwork.precision).toNat < 2 ^ 64

theorem mulU64_eq_product_iff {a b : ℕ} :
    (∀ product, mulU64 clockwork a b = .ok product → product = a * b) ↔
      clockwork.overflowChecks = true ∨ a * b < 2 ^ 64 := by
  unfold mulU64
  split_ifs with fits checked
  · simp only [fits, or_true, iff_true]
    intro product made
    exact (Except.ok.inj made).symm
  · simp [checked]
  · have wrapped : a * b % 2 ^ 64 ≠ a * b := by omega
    constructor
    · intro exact
      exact (wrapped (exact _ rfl)).elim
    · rintro (holds | holds)
      · exact (checked holds).elim
      · exact (fits holds).elim

theorem fromPow10_exactOrRefused_iff :
    ExactOrRefused clockwork n exp (fromPow10 clockwork n exp) ↔ NoWrap clockwork n exp := by
  unfold ExactOrRefused NoWrap
  simp only [fromPow10]
  split_ifs with longer whole
  · simp only [sameTime_iff_mul longer, mulU64_eq_product_iff]
    have : ¬ exp < clockwork.precision := by omega
    simp only [this, false_or]
  · have shorter : exp < clockwork.precision := by omega
    have divides := Nat.dvd_of_mod_eq_zero whole
    simp [sameTime_iff_div shorter.le, Nat.div_mul_cancel divides, shorter]
  · have shorter : exp < clockwork.precision := by omega
    simp [shorter]

theorem constructor_eq {constructor : (Clockwork → UInt64 → Except String ℕ) × ℤ}
    (mem : constructor ∈ constructors) : constructor.1 clockwork n = fromPow10 clockwork n constructor.2 := by
  simp only [constructors, List.mem_cons, List.not_mem_nil, or_false] at mem
  rcases mem with rfl | rfl | rfl | rfl | rfl | rfl <;> rfl

theorem fromUnit_eq {unit : String} (parsed : parseUnit unit = some (.pow10 exp)) :
    fromUnit clockwork n unit = fromPow10 clockwork n exp := by
  simp only [fromUnit, parsed]

/-- A constructor is exact or refuses, by itself or through `from_unit`, precisely where the product fits
or its overflow is checked. -/
theorem constructors_exact_iff (clockwork : Clockwork) (n : UInt64) :
    ∀ constructor ∈ constructors,
      (ExactOrRefused clockwork n constructor.2 (constructor.1 clockwork n) ↔
        NoWrap clockwork n constructor.2) ∧
      ∀ unit, parseUnit unit = some (.pow10 constructor.2) →
        (ExactOrRefused clockwork n constructor.2 (fromUnit clockwork n unit) ↔
          NoWrap clockwork n constructor.2) := by
  intro constructor mem
  refine ⟨?_, ?_⟩
  · rw [constructor_eq mem]
    exact fromPow10_exactOrRefused_iff
  · intro unit parsed
    rw [fromUnit_eq parsed]
    exact fromPow10_exactOrRefused_iff

/-- A release build for a simulator that counts femtoseconds. -/
def femtoseconds : Clockwork := ⟨-15, by decide, by decide, false⟩

theorem constructors_exact_iff_sec :
    ExactOrRefused femtoseconds 18446 0 (sec femtoseconds 18446) ∧
      ExactOrRefused femtoseconds 18446 0 (fromUnit femtoseconds 18446 "s") := by
  have fits : NoWrap femtoseconds 18446 0 := .inr (.inr (by decide))
  have exact := constructors_exact_iff femtoseconds 18446 (sec, 0) (by simp [constructors])
  exact ⟨exact.1.mpr fits, (exact.2 "s" (by decide)).mpr fits⟩

/-- In a release build a little more than five hours come out as a quarter of a second. -/
theorem sec_wraps :
    sec femtoseconds 18447 = .ok 255926290448384 ∧
      ¬ ∀ (clockwork : Clockwork) (n : UInt64), ∀ constructor ∈ constructors,
        ExactOrRefused clockwork n constructor.2 (constructor.1 clockwork n) := by
  have wrapped : sec femtoseconds 18447 = .ok 255926290448384 := rfl
  refine ⟨wrapped, ?_⟩
  intro claim
  have same := claim femtoseconds 18447 (sec, 0) (by simp [constructors]) _ wrapped
  rw [sameTime_iff_mul (by decide)] at same
  revert same
  decide

end Rustdv.Time
