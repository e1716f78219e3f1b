import Mathlib.Algebra.Group.Nat.Defs
import Mathlib.Data.Int.Notation
import Mathlib.Data.Nat.Basic

/-! # Simulation time

Durations count steps of the simulator's precision in 64 bits. A constructor either yields a step count
or panics; where a product does not fit, the build profile decides between a panic and wrapping.
-/

namespace Rustdv.Time

/-- The precision of a simulator as a power of ten of a second, and whether the build checks for
overflow. -/
structure Clockwork where
  precision : ℤ
  low : -15 ≤ precision
  high : precision ≤ 2
  overflowChecks : Bool

/-- `u64` multiplication; a panic has its message. -/
def mulU64 (clockwork : Clockwork) (a b : ℕ) : Except String ℕ :=
  if a * b < 2 ^ 64 then .ok (a * b)
  else if clockwork.overflowChecks then .error "attempt to multiply with overflow"
  else .ok (a * b % 2 ^ 64)

/-- `SimDuration::from_pow10`, as a number of steps. For the exponents in use the powers of ten fit. -/
def fromPow10 (clockwork : Clockwork) (n : UInt64) (exp : ℤ) : Except String ℕ :=
  let prec := clockwork.precision
  if prec ≤ exp then mulU64 clockwork n.toNat (10 ^ (exp - prec).toNat)
  else
    let div := 10 ^ (prec - exp).toNat
    if n.toNat % div = 0 then .ok (n.toNat / div)
    else .error s!"duration {n}e{exp} is below simulator precision 1e{prec}"

/-! The constructors that name a unit. -/

def fs (clockwork : Clockwork) (n : UInt64) : Except String ℕ := fromPow10 clockwork n (-15)

def ps (clockwork : Clockwork) (n : UInt64) : Except String ℕ := fromPow10 clockwork n (-12)

def ns (clockwork : Clockwork) (n : UInt64) : Except String ℕ := fromPow10 clockwork n (-9)

def us (clockwork : Clockwork) (n : UInt64) : Except String ℕ := fromPow10 clockwork n (-6)

def ms (clockwork : Clockwork) (n : UInt64) : Except String ℕ := fromPow10 clockwork n (-3)

def sec (clockwork : Clockwork) (n : UInt64) : Except String ℕ := fromPow10 clockwork n 0

/-- The constructors that name a unit, each with the exponent of its unit. -/
def constructors : List ((Clockwork → UInt64 → Except String ℕ) × ℤ) :=
  [(fs, -15), (ps, -12), (ns, -9), (us, -6), (ms, -3), (sec, 0)]

/-- The units of `SimDuration::from_unit`. -/
inductive TimeUnit where
  /-- A power of ten of a second. -/
  | pow10 (exp : ℤ)
  | steps
deriving DecidableEq, Repr

def parseUnit (unit : String) : Option TimeUnit :=
  if unit = "fs" then some (.pow10 (-15))
  else if unit = "ps" then some (.pow10 (-12))
  else if unit = "ns" then some (.pow10 (-9))
  else if unit = "us" then some (.pow10 (-6))
  else if unit = "ms" then some (.pow10 (-3))
  else if unit = "s" ∨ unit = "sec" then some (.pow10 0)
  else if unit = "step" ∨ unit = "steps" then some .steps
  else none

/-- `SimDuration::from_unit`. -/
def fromUnit (clockwork : Clockwork) (n : UInt64) (unit : String) : Except String ℕ :=
  match parseUnit unit with
  | some (.pow10 exp) => fromPow10 clockwork n exp
  | some .steps => .ok n.toNat
  | none => .error s!"unknown time unit '{unit}'"

/-- `Timer::new`: the steps to wait. -/
def newTimer (steps : ℕ) : Except String ℕ :=
  if 0 < steps then .ok steps else .error "Timer duration must be positive (cocotb rule)"

/-- A time that a timer can be made of: a known unit, and a positive number of whole steps; where it does
not fit into 64 bits, only without overflow checks and if what is left of it is positive. -/
def Timed (clockwork : Clockwork) (n : UInt64) (unit : String) : Prop :=
  match parseUnit unit with
  | some (.pow10 exp) =>
      if clockwork.precision ≤ exp then
        let steps := n.toNat * 10 ^ (exp - clockwork.precision).toNat
        if steps < 2 ^ 64 then 0 < n.toNat else clockwork.overflowChecks = false ∧ ¬ 2 ^ 64 ∣ steps
      else 0 < n.toNat ∧ 10 ^ (clockwork.precision - exp).toNat ∣ n.toNat
  | some .steps => 0 < n.toNat
  | none => False

theorem newTimer_ok_iff {steps : ℕ} : (∃ t, newTimer steps = .ok t) ↔ 0 < steps := by
  unfold newTimer
  split_ifs with positive <;> simp [positive]

/-- The timeout construction of a test gives a timer exactly for such times. -/
theorem timer_ok_iff_timed (clockwork : Clockwork) (n : UInt64) (unit : String) :
    (∃ t, (fromUnit clockwork n unit).bind newTimer = .ok t) ↔ Timed clockwork n unit := by
  unfold fromUnit Timed
  cases parseUnit unit with
  | none => simp [Except.bind]
  | some parsed =>
    cases parsed with
    | steps => exact newTimer_ok_iff
    | pow10 exp =>
      simp only [fromPow10]
      have power (k : ℕ) : 0 < 10 ^ k := Nat.pow_pos (by decide)
      by_cases coarse : clockwork.precision ≤ exp
      · simp only [coarse, ↓reduceIte, mulU64]
        by_cases fits : n.toNat * 10 ^ (exp - clockwork.precision).toNat < 2 ^ 64
        · simp only [fits, ↓reduceIte, Except.bind]
          rw [newTimer_ok_iff, Nat.mul_pos_iff_of_pos_right (power _)]
        · simp only [fits, ↓reduceIte]
          cases clockwork.overflowChecks with
          | true => simp [Except.bind]
          | false =>
            simp only [Bool.false_eq_true, ↓reduceIte, Except.bind, newTimer_ok_iff, true_and]
            rw [Nat.pos_iff_ne_zero, Ne, Nat.dvd_iff_mod_eq_zero]
      · simp only [coarse, ↓reduceIte]
        by_cases whole : n.toNat % 10 ^ (clockwork.precision - exp).toNat = 0
        · have divides := Nat.dvd_of_mod_eq_zero whole
          simp only [whole, ↓reduceIte, Except.bind, newTimer_ok_iff, divides, and_true]
          constructor
          · intro positive
            exact Nat.pos_of_div_pos positive
          · intro positive
            exact Nat.div_pos (Nat.le_of_dvd positive divides) (power _)
        · have not : ¬ 10 ^ (clockwork.precision - exp).toNat ∣ n.toNat := fun divides =>
            whole (Nat.mod_eq_zero_of_dvd divides)
          simp [whole, Except.bind, not]

end Rustdv.Time
