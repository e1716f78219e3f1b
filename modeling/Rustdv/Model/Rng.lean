import Rustdv.Model.Ambient

/-! # The generator

A counter that advances by an odd constant, and a mixer that spreads it over the word.
-/

namespace Rustdv.Isolation

/-- The increment of the counter. -/
def Rng.gamma : UInt64 := 0x9E3779B97F4A7C15

/-- The lines of `next_u64` after the increment. -/
def Rng.mix (z : UInt64) : UInt64 :=
  let z := (z ^^^ (z >>> 30)) * 0xBF58476D1CE4E5B9
  let z := (z ^^^ (z >>> 27)) * 0x94D049BB133111EB
  z ^^^ (z >>> 31)

def Rng.nextU64 (rng : Rng) : UInt64 × Rng :=
  let state := rng.state + gamma
  (mix state, ⟨state⟩)

/-- The remainder by zero panics, after the counter has advanced. -/
def Rng.below (rng : Rng) (n : UInt64) : Option UInt64 × Rng :=
  let (z, rng) := rng.nextU64
  (if n = 0 then none else some (z % n), rng)

def Rng.u8 (rng : Rng) : UInt8 × Rng :=
  let (z, rng) := rng.nextU64
  ((z &&& 0xFF).toUInt8, rng)

def Rng.bool (rng : Rng) : Bool × Rng :=
  let (z, rng) := rng.nextU64
  (z &&& 1 == 1, rng)

/-- The generator after so many calls, whichever they were. -/
def Rng.after (rng : Rng) : ℕ → Rng
  | 0 => rng
  | i + 1 => (rng.after i).nextU64.2

example : (Rng.new 0).nextU64.1 = 0xE220A8397B1DCDAF := by decide

end Rustdv.Isolation
