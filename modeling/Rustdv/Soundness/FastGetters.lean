import Rustdv.Soundness.RoundTrip

/-! # The typed getters and the four-state value

A typed getter masks and tests the words itself; the four-state way reads all of them into planes and
converts these. On any words the two give the same, as whatever was shown is some four-state value of
the signal's width. The getters of one word take the first word of a signal without looking whether
it has one.
-/

namespace Rustdv.Phase

open LogicArray

/-- Two readings show the same bits below the width. -/
def SameBits (width : ℕ) (shown shown' : ℕ → VecVal) : Prop :=
  ∀ i < width, (shown (i / 32)).aval.toNat.testBit (i % 32) = (shown' (i / 32)).aval.toNat.testBit (i % 32) ∧
    (shown (i / 32)).bval.toNat.testBit (i % 32) = (shown' (i / 32)).bval.toNat.testBit (i % 32)

/-- Read the four-state value and convert it. -/
def converted {α : Type} (convert : LogicArray → Except ValueError α) (logic : Except Fault LogicArray) :
    Except Fault α :=
  logic.bind fun v => (convert v).mapError .err

/-- No panic. -/
def Quiet {α : Type} (result : Except Fault α) : Prop :=
  result ≠ .error .outOfBounds ∧ ∀ p, result ≠ .error (.words p)

/-- A getter for so many bits refuses wider signals for their width, otherwise gives what the conversion
gives, and does not panic. -/
structure Agrees {α : Type} (width bits : ℕ) (result : Except Fault α) (other : Except Fault α) : Prop where
  refuses : (∃ want size, result = .error (.err (.width want size))) ↔ bits < width
  same : width ≤ bits → result = other
  quiet : Quiet result

/-- The getters of one word. -/
def WordGettersAgree (h : LogicHandle) (first again : Reading) : Prop :=
  Agrees h.width 1 (h.getBool first again) (converted tryBool (h.getLogic first)) ∧
    Agrees h.width 8 (h.getU8 first again) (converted tryU8 (h.getLogic first)) ∧
    Agrees h.width 16 (h.getU16 first again) (converted tryU16 (h.getLogic first)) ∧
    Agrees h.width 32 (h.getU32 first again) (converted tryU32 (h.getLogic first))

/-- The getters of several words. -/
def LoopGettersAgree (h : LogicHandle) (first again : Reading) : Prop :=
  Agrees h.width 64 (h.getU64 first again) (converted tryU64 (h.getLogic first)) ∧
    Agrees h.width 128 (h.getU128 first again) (converted tryU128 (h.getLogic first)) ∧
    h.getBigint first again = converted tryBigUint (h.getLogic first) ∧ Quiet (h.getBigint first again)

/-- What is shown is a four-state value of the signal's width. -/
theorem exists_stored (h : LogicHandle) (shown : ℕ → VecVal) :
    ∃ stored : LogicArray, stored.Fits ∧ stored.width = h.width ∧ h.getLogic (some shown) = .ok stored ∧
      ∀ shown', SameBits h.width shown' shown → Shows h.width stored.toVpiWords (some shown') := by
  let seen := (List.range (wordsFor h.width)).map shown
  have long : seen.length = wordsFor h.width := by rw [List.length_map, List.length_range]
  have fits : (⟨aPlane seen % 2 ^ h.width, bPlane seen % 2 ^ h.width, h.width⟩ : LogicArray).Fits :=
    fits_mod _ _ h.width
  have decoded := fromVpiWords_eq long
  have read : h.getVpiWords (some shown) = .ok seen := rfl
  refine ⟨_, fits, rfl, ?_, ?_⟩
  · simp only [LogicHandle.getLogic, read, bind, Except.bind, decoded]
  · intro shown' same
    refine ⟨shown', rfl, fun i inside => ?_⟩
    have enough := le_wordsFor h.width
    have at_word : seen.getD (i / 32) ⟨0, 0⟩ = shown (i / 32) := by
      have low : i / 32 < wordsFor h.width := by omega
      rw [List.getD_eq_getElem?_getD, List.getElem?_map, List.getElem?_range low]
      rfl
    have long' : i < 32 * (vecWords (wordsFor h.width) (aPlane seen % 2 ^ h.width)
        (bPlane seen % 2 ^ h.width)).length := by
      rw [length_vecWords]
      omega
    have shown_a : (aPlane seen % 2 ^ h.width).testBit i = (shown (i / 32)).aval.toNat.testBit (i % 32) := by
      rw [Nat.testBit_mod_two_pow, decide_eq_true inside, Bool.true_and, aPlane, testBit_half rfl (by omega), at_word]
    have shown_b : (bPlane seen % 2 ^ h.width).testBit i = (shown (i / 32)).bval.toNat.testBit (i % 32) := by
      rw [Nat.testBit_mod_two_pow, decide_eq_true inside, Bool.true_and, bPlane, testBit_half rfl (by omega), at_word]
    rw [toVpiWords_eq, ← testBit_half rfl long', ← testBit_half rfl long', ← aPlane, ← bPlane, aPlane_vecWords,
      bPlane_vecWords, mod_wordsFor, mod_wordsFor, shown_a, shown_b]
    exact same i inside

section Agreement

variable {α : Type} {toNat : α → ℕ} {stored : LogicArray} {bits : ℕ} {read : ℕ → α}

/-- A getter that returns the stored number, or the error with its text, agrees with the conversion. -/
theorem Returns.eq_converted {result : Except Fault α} (returns : Returns stored toNat result)
    (inj : Function.Injective toNat) (fits : stored.Fits) (size : stored.width ≤ bits)
    (number : ∀ a < 2 ^ bits, toNat (read a) = a) : result = converted (tryFrom read) (.ok stored) := by
  change result = (stored.tryFrom read).mapError .err
  by_cases known : stored.Known
  · obtain ⟨n, rfl, same⟩ := returns.1 known
    obtain ⟨m, converts⟩ := (fits.tryFrom_ok read).1.mpr known
    have low : stored.value < 2 ^ bits := by
      rw [value_eq fits known]
      exact fits.1.trans_le (Nat.pow_le_pow_right Nat.two_pos size)
    have back : toNat m = stored.value := by rw [(fits.tryFrom_ok read).2 m converts, number _ low]
    rw [converts, inj (same.trans back.symm)]
    rfl
  · have set : stored.isResolvable = false := by
      rw [isResolvable, decide_eq_false_iff_not]
      exact fun zero => known (fits.known_iff.mpr zero)
    rw [returns.2 known, tryFrom, set]
    rfl

theorem Returns.quiet {result : Except Fault α} (returns : Returns stored toNat result) :
    Quiet result ∧ ∀ want size, result ≠ .error (.err (.width want size)) := by
  by_cases known : stored.Known
  · obtain ⟨n, rfl, -⟩ := returns.1 known
    exact ⟨⟨nofun, fun p => nofun⟩, fun want size => nofun⟩
  · rw [returns.2 known]
    exact ⟨⟨nofun, fun p => nofun⟩, fun want size => nofun⟩

/-- A getter that checks the size and then returns the stored number. -/
theorem agrees_of_returns {result : Except Fault α} {width : ℕ} (inj : Function.Injective toNat)
    (fits : stored.Fits) (same : stored.width = width) (number : ∀ a < 2 ^ bits, toNat (read a) = a)
    (wide : bits < width → result = .error (.err (.width bits width)))
    (returns : width ≤ bits → Returns stored toNat result) :
    Agrees width bits result (converted (tryFrom read) (.ok stored)) := by
  rcases Nat.lt_or_ge bits width with wider | enough
  · have refused := wide wider
    refine ⟨iff_of_true ⟨_, _, refused⟩ wider, fun small => absurd wider (Nat.not_lt.mpr small), ?_⟩
    rw [refused]
    exact ⟨nofun, fun p => nofun⟩
  · have good := returns enough
    refine ⟨iff_of_false ?_ (Nat.not_lt.mpr enough), fun _ => good.eq_converted inj fits (same ▸ enough) number,
      good.quiet.1⟩
    rintro ⟨want, size, refused⟩
    exact good.quiet.2 want size refused

end Agreement

/-- The size check comes first. -/
theorem getFirst_wide {α : Type} {h : LogicHandle} {bits : ℕ} {cast : UInt32 → α} (first again : Reading)
    (wider : bits < h.width) : h.getFirst first again bits cast = .error (.err (.width bits h.width)) := by
  rw [LogicHandle.getFirst, LogicHandle.checkSize, if_pos wider]
  rfl

/-- A signal without bits has no first word. -/
theorem getFirst_zero {α : Type} {h : LogicHandle} {bits : ℕ} {cast : UInt32 → α} (shown : ℕ → VecVal)
    (again : Reading) (none : h.width = 0) : h.getFirst (some shown) again bits cast = .error .outOfBounds := by
  have read : h.getVpiWords (some shown) = .ok [] := by rw [LogicHandle.getVpiWords, none]; rfl
  rw [LogicHandle.getFirst, LogicHandle.checkSize, if_neg (by omega), read]
  rfl

/-- On all words that a simulator can show, the getters of one word agree with the four-state way exactly
when the signal has bits, and the getters that loop always do. -/
theorem fast_getters_agree_iff (h : LogicHandle) {shown shown' : ℕ → VecVal} (same : SameBits h.width shown' shown) :
    (WordGettersAgree h (some shown) (some shown') ∧ LoopGettersAgree h (some shown) (some shown') ↔ h.width ≠ 0) ∧
      LoopGettersAgree h (some shown) (some shown') := by
  obtain ⟨stored, fits, width, decoded, shows⟩ := exists_stored h shown
  have own := shows shown fun i inside => ⟨rfl, rfl⟩
  have text := (shows shown' same).getLogic fits width
  have loops : LoopGettersAgree h (some shown) (some shown') := by
    have big := returns_getBigint fits width own text
    refine ⟨?_, ?_, ?_, big.quiet.1⟩
    · rw [decoded]
      refine agrees_of_returns (fun a b => UInt64.toNat_inj.mp) fits width
        (fun a low => (toNat_headD_u64Digits a).trans (Nat.mod_eq_of_lt low)) ?_ fun size =>
        returns_getU64 fits width size own text
      intro wider
      rw [LogicHandle.getU64, LogicHandle.checkSize, if_pos wider]
      rfl
    · rw [decoded]
      refine agrees_of_returns (fun a b => BitVec.eq_of_toNat_eq) fits width
        (fun a low => (toNat_two_u64Digits a).trans (Nat.mod_eq_of_lt low)) ?_ fun size =>
        returns_getU128 fits width size own text
      intro wider
      rw [LogicHandle.getU128, LogicHandle.checkSize, if_pos wider]
      rfl
    · rw [decoded]
      exact big.eq_converted (fun a b => id) fits le_rfl fun a _ => rfl
  refine ⟨⟨?_, ?_⟩, loops⟩
  · rintro ⟨⟨-, -, -, word⟩, -⟩ none
    exact word.quiet.1 (getFirst_zero shown (some shown') none)
  · intro some_bits
    have pos : 1 ≤ h.width := Nat.one_le_iff_ne_zero.mpr some_bits
    refine ⟨⟨?_, ?_, ?_, ?_⟩, loops⟩ <;> rw [decoded]
    · have inj : Function.Injective Bool.toNat := by decide
      refine agrees_of_returns inj fits width ?_ (getFirst_wide _ _) fun size =>
        returns_getFirst fits width pos size (by decide) own text fun word => toNat_ne_zero
      intro a low
      have bit : a = 0 ∨ a = 1 := by omega
      rcases bit with rfl | rfl <;> rfl
    · refine agrees_of_returns (fun a b => UInt8.toNat_inj.mp) fits width
        (fun a low => (toNat_low_u8 a).trans (Nat.mod_eq_of_lt low)) (getFirst_wide _ _) fun size =>
        returns_getFirst fits width pos size (by decide) own text fun word low => ?_
      rw [UInt32.toNat_toUInt8, Nat.mod_eq_of_lt low]
    · refine agrees_of_returns (fun a b => UInt16.toNat_inj.mp) fits width
        (fun a low => (toNat_low_u16 a).trans (Nat.mod_eq_of_lt low)) (getFirst_wide _ _) fun size =>
        returns_getFirst fits width pos size (by decide) own text fun word low => ?_
      rw [UInt32.toNat_toUInt16, Nat.mod_eq_of_lt low]
    · exact agrees_of_returns (fun a b => UInt32.toNat_inj.mp) fits width
        (fun a low => (toNat_headD_u32Digits a).trans (Nat.mod_eq_of_lt low)) (getFirst_wide _ _) fun size =>
        returns_getFirst fits width pos size (by decide) own text fun word low => rfl

/-- Five bits, with others above them. -/
theorem fast_getters_agree_five_bits :
    (LogicHandle.classify 0 5).getU8 (some fun _ => ⟨0xffffffe5, 0⟩) (some fun _ => ⟨5, 0⟩) =
      converted tryU8 ((LogicHandle.classify 0 5).getLogic (some fun _ => ⟨0xffffffe5, 0⟩)) := by
  have same : SameBits (LogicHandle.classify 0 5).width (fun _ => ⟨5, 0⟩) (fun _ => ⟨0xffffffe5, 0⟩) := by
    unfold SameBits
    decide
  have agree := (fast_getters_agree_iff (LogicHandle.classify 0 5) same).1.mpr (by decide)
  exact agree.1.2.1.same (by decide)

/-- A signal without bits is read as `false` the one way, and the other way panics. -/
theorem no_bits_panics :
    (LogicHandle.classify 0 0).getBool (some fun _ => ⟨0, 0⟩) (some fun _ => ⟨0, 0⟩) = .error .outOfBounds ∧
      converted tryBool ((LogicHandle.classify 0 0).getLogic (some fun _ => ⟨0, 0⟩)) = .ok false ∧
      ¬ (WordGettersAgree (LogicHandle.classify 0 0) (some fun _ => ⟨0, 0⟩) (some fun _ => ⟨0, 0⟩) ∧
        LoopGettersAgree (LogicHandle.classify 0 0) (some fun _ => ⟨0, 0⟩) (some fun _ => ⟨0, 0⟩)) := by
  have panics : (LogicHandle.classify 0 0).getBool (some fun _ => ⟨0, 0⟩) (some fun _ => ⟨0, 0⟩) =
      .error .outOfBounds := getFirst_zero _ _ rfl
  exact ⟨panics, by decide, fun agree => agree.1.1.quiet.1 panics⟩

end Rustdv.Phase
