import Rustdv.Model.LogicHandle
import Rustdv.Soundness.Codec

/-! # What is written is read back

A setter passes exactly the words of its value cut or zero-extended to the signal's width, whichever
of the three length cases it takes. A simulator that keeps those bits, and shows whatever it likes
above them, gives every getter that is wide enough the same value, or the four-state error where a
bit is `X` or `Z`.
-/

namespace Rustdv.Phase

open Limbs LogicArray

/-! ## The write side -/

/-- The planes of a value written to a logic signal. -/
def WriteVal.planes : WriteVal → ℕ × ℕ
  | .bool v => (v.toNat, 0)
  | .u8 v => (v.toNat, 0)
  | .u16 v => (v.toNat, 0)
  | .u32 v => (v.toNat, 0)
  | .u64 v => (v.toNat, 0)
  | .u128 v => (v.toNat, 0)
  | .bigInt v => (v, 0)
  | .logic v => (v.aVal, v.bVal)
  | .real _ | .string _ => (0, 0)

/-- The value truncated or zero-extended to a width. -/
def WriteVal.resized (v : WriteVal) (width : ℕ) : LogicArray :=
  ⟨v.planes.1 % 2 ^ width, v.planes.2 % 2 ^ width, width⟩

/-- The `LogicArray` written, if it is one, comes from a constructor. -/
def WriteVal.WellBuilt : WriteVal → Prop
  | .logic v => Built v
  | _ => True

theorem twoStateWords_eq (count n : ℕ) : twoStateWords count n = vecWords count n 0 := by
  simp only [twoStateWords, vecWords, Nat.zero_div]
  rfl

theorem bigIntWords_eq (n : ℕ) :
    ((u32Digits n).map fun aval => (⟨aval, 0⟩ : VecVal)) =
      vecWords (Nat.digits (2 ^ 32) n).length n 0 := by
  apply words_ext
  · rw [limbs_length_digits (by decide), ← toNat_u32Digits, List.map_map, List.map_map]
    rfl
  · apply List.ext_getElem
    · simp only [List.length_map, length_limbs, u32Digits]
    · intro i _ _
      simp only [limbs, List.getElem_map, Nat.zero_div, Nat.zero_mod]
      rfl

/-- Before it is resized a value is a number of words that hold both of its planes. -/
theorem words_eq {v : WriteVal} {words : List VecVal} (built : v.WellBuilt)
    (typed : v.words = some words) :
    ∃ count, words = vecWords count v.planes.1 v.planes.2 ∧
      v.planes.1 < 2 ^ (32 * count) ∧ v.planes.2 < 2 ^ (32 * count) := by
  cases v with
  | bool n =>
    obtain rfl := Option.some.inj typed
    exact ⟨1, twoStateWords_eq .., (Bool.toNat_le n).trans_lt (by decide), Nat.two_pow_pos _⟩
  | u8 n =>
    obtain rfl := Option.some.inj typed
    exact ⟨1, twoStateWords_eq .., n.toNat_lt.trans (by decide), Nat.two_pow_pos _⟩
  | u16 n =>
    obtain rfl := Option.some.inj typed
    exact ⟨1, twoStateWords_eq .., n.toNat_lt.trans (by decide), Nat.two_pow_pos _⟩
  | u32 n =>
    obtain rfl := Option.some.inj typed
    exact ⟨1, twoStateWords_eq .., n.toNat_lt, Nat.two_pow_pos _⟩
  | u64 n =>
    obtain rfl := Option.some.inj typed
    exact ⟨2, twoStateWords_eq .., n.toNat_lt, Nat.two_pow_pos _⟩
  | u128 n =>
    obtain rfl := Option.some.inj typed
    exact ⟨4, twoStateWords_eq .., n.isLt, Nat.two_pow_pos _⟩
  | bigInt n =>
    obtain rfl := Option.some.inj typed
    refine ⟨_, bigIntWords_eq n, ?_, Nat.two_pow_pos _⟩
    rw [Nat.pow_mul]
    exact Nat.lt_base_pow_length_digits (by decide)
  | logic v =>
    obtain rfl := Option.some.inj typed
    have big : 2 ^ v.width ≤ 2 ^ (32 * wordsFor v.width) :=
      Nat.pow_le_pow_right Nat.two_pos (le_wordsFor v.width)
    exact ⟨wordsFor v.width, toVpiWords_eq v, built.fits.1.trans_le big, built.fits.2.trans_le big⟩
  | real | string => contradiction

private theorem map_modify_half {half : VecVal → UInt32} {change : VecVal → VecVal}
    {mask : UInt32 → UInt32} (same : ∀ word, half (change word) = mask (half word))
    (words : List VecVal) (i : ℕ) : (words.modify i change).map half = (words.map half).modify i mask := by
  apply List.ext_getElem
  · simp only [List.length_map, List.length_modify]
  · intro j _ _
    rw [List.getElem_map, List.getElem_modify, List.getElem_modify, List.getElem_map]
    split_ifs with at_i
    · exact same _
    · rfl

theorem maskVectorWords_eq {width : ℕ} {words : List VecVal} (fits : words.length = wordsFor width) :
    maskVectorWords width words =
      vecWords (wordsFor width) (aPlane words % 2 ^ width) (bPlane words % 2 ^ width) := by
  have aval : (maskVectorWords width words).map VecVal.aval = maskPlane width (words.map VecVal.aval) := by
    simp only [maskVectorWords, maskPlane, List.length_map]
    split_ifs
    · rfl
    · exact map_modify_half (fun _ => rfl) words _
  have bval : (maskVectorWords width words).map VecVal.bval = maskPlane width (words.map VecVal.bval) := by
    simp only [maskVectorWords, maskPlane, List.length_map]
    split_ifs
    · rfl
    · exact map_modify_half (fun _ => rfl) words _
  apply words_ext
  · rw [aval]
    exact toNat_maskPlane (by rw [List.length_map, fits])
  · rw [bval]
    exact toNat_maskPlane (by rw [List.length_map, fits])

theorem take_vecWords {fewer count : ℕ} (le : fewer ≤ count) (a b : ℕ) :
    (vecWords count a b).take fewer = vecWords fewer a b := by
  rw [vecWords, vecWords, ← List.map_take, List.take_range, Nat.min_eq_left le]

theorem vecWords_append_zeros {count a b : ℕ} (sa : a < 2 ^ (32 * count)) (sb : b < 2 ^ (32 * count))
    (more : ℕ) : vecWords count a b ++ List.replicate more ⟨0, 0⟩ = vecWords (count + more) a b := by
  apply words_ext
  · rw [List.map_append, List.map_append, toNat_aval_vecWords, List.map_replicate, List.map_replicate]
    exact limbs_append_zeros sa more
  · rw [List.map_append, List.map_append, toNat_bval_vecWords, List.map_replicate, List.map_replicate]
    exact limbs_append_zeros sb more

/-- The three length cases agree: the planes are cut to the width. -/
theorem setVectorWords_eq {count a b : ℕ} (sa : a < 2 ^ (32 * count)) (sb : b < 2 ^ (32 * count))
    (width : ℕ) :
    setVectorWords width (vecWords count a b) =
      vecWords (wordsFor width) (a % 2 ^ width) (b % 2 ^ width) := by
  have cut (n : ℕ) : n % 2 ^ (32 * wordsFor width) % 2 ^ width = n % 2 ^ width :=
    Nat.mod_mod_of_dvd n (Nat.pow_dvd_pow 2 (le_wordsFor width))
  have masked : maskVectorWords width (vecWords (wordsFor width) a b) =
      vecWords (wordsFor width) (a % 2 ^ width) (b % 2 ^ width) := by
    rw [maskVectorWords_eq (length_vecWords ..), aPlane_vecWords, bPlane_vecWords, cut, cut]
  simp only [setVectorWords, length_vecWords]
  split_ifs with same longer
  · rw [same]
    exact masked
  · rw [take_vecWords longer.le]
    exact masked
  · -- Fewer words than the width needs: the planes are below `2 ^ width` already.
    have low : 2 ^ (32 * count) ≤ 2 ^ width := Nat.pow_le_pow_right Nat.two_pos (by omega)
    rw [vecWords_append_zeros sa sb, Nat.mod_eq_of_lt (sa.trans_le low),
      Nat.mod_eq_of_lt (sb.trans_le low), Nat.add_sub_cancel' (by omega)]

/-- A setter passes the words of the resized value. -/
theorem set_words {h : LogicHandle} {v : WriteVal} {words : List VecVal} (built : v.WellBuilt)
    (set : h.set v = some words) :
    words = vecWords (wordsFor h.width) (v.resized h.width).aVal (v.resized h.width).bVal := by
  rw [LogicHandle.set_eq] at set
  obtain ⟨unsized, typed, rfl⟩ := Option.map_eq_some_iff.mp set
  obtain ⟨count, rfl, sa, sb⟩ := words_eq built typed
  exact setVectorWords_eq sa sb h.width

/-! ## Loops that may fail -/

section Loop

variable {ε σ α : Type} {f : σ → α → Except ε σ}

private theorem foldlM_ok {g : σ → α → σ} {l : List α} (good : ∀ x ∈ l, ∀ s, f s x = .ok (g s x))
    (start : σ) : l.foldlM f start = .ok (l.foldl g start) := by
  induction l generalizing start with
  | nil => rfl
  | cons x l ih =>
    rw [List.foldlM_cons, good x List.mem_cons_self]
    exact ih (fun y mem => good y (List.mem_cons_of_mem x mem)) _

/-- Where every failure is the same one, it does not matter which comes first. -/
private theorem foldlM_error {e : ε} {l : List α}
    (each : ∀ x ∈ l, (∀ s, f s x = .error e) ∨ ∀ s, ∃ s', f s x = .ok s')
    (bad : ∃ x ∈ l, ∀ s, f s x = .error e) (start : σ) : l.foldlM f start = .error e := by
  induction l generalizing start with
  | nil =>
    obtain ⟨x, mem, -⟩ := bad
    contradiction
  | cons x l ih =>
    rw [List.foldlM_cons]
    rcases each x List.mem_cons_self with fails | works
    · rw [fails start]
      rfl
    · obtain ⟨s, ok⟩ := works start
      rw [ok]
      refine ih (fun y mem => each y (List.mem_cons_of_mem x mem)) ?_ s
      obtain ⟨y, mem, fails⟩ := bad
      rcases List.mem_cons.mp mem with rfl | later
      · obtain ⟨s', ok'⟩ := works start
        rw [fails start] at ok'
        contradiction
      · exact ⟨y, later, fails⟩

end Loop

/-! ## The read side -/

/-- The simulator shows the bits of these words below the width, and anything above it. -/
def Shows (width : ℕ) (words : List VecVal) (reading : Reading) : Prop :=
  ∃ shown, reading = some shown ∧ ∀ i < width,
    (shown (i / 32)).aval.toNat.testBit (i % 32) =
        (words.getD (i / 32) ⟨0, 0⟩).aval.toNat.testBit (i % 32) ∧
      (shown (i / 32)).bval.toNat.testBit (i % 32) =
        (words.getD (i / 32) ⟨0, 0⟩).bval.toNat.testBit (i % 32)

theorem testBit_fromSlice {plane : List UInt32} {i : ℕ} (inside : i < 32 * plane.length) :
    (fromSlice plane).testBit i = (plane.getD (i / 32) 0).toNat.testBit (i % 32) := by
  have at_word : i / 32 < plane.length := by omega
  have limb := congrArg (fun l => l.getD (i / 32) 0) (limbs_fromSlice plane)
  have mapped : (plane.map UInt32.toNat).getD (i / 32) 0 = (plane.getD (i / 32) 0).toNat :=
    List.getD_map _ 0 UInt32.toNat
  simp only [limbs, List.getD_eq_getElem?_getD, List.getElem?_map, List.getElem?_range at_word,
    Option.map_some, Option.getD_some] at limb
  rw [← mapped, List.getD_eq_getElem?_getD, List.getElem?_map, ← limb, Nat.testBit_mod_two_pow,
    Nat.testBit_div_two_pow, decide_eq_true (Nat.mod_lt i (by decide)), Bool.true_and,
    Nat.add_comm, Nat.div_add_mod]

theorem testBit_half {half : VecVal → UInt32} (zero : half ⟨0, 0⟩ = 0) {words : List VecVal}
    {i : ℕ} (inside : i < 32 * words.length) :
    (fromSlice (words.map half)).testBit i =
      (half (words.getD (i / 32) ⟨0, 0⟩)).toNat.testBit (i % 32) := by
  have mapped : (words.map half).getD (i / 32) (half ⟨0, 0⟩) = half (words.getD (i / 32) ⟨0, 0⟩) :=
    List.getD_map _ _ half
  rw [zero] at mapped
  rw [testBit_fromSlice (by rwa [List.length_map]), mapped]

/-- Two lists of words that agree below the width have planes that do. -/
private theorem mod_half (half : VecVal → UInt32) (zero : half ⟨0, 0⟩ = 0) {width : ℕ}
    {seen words : List VecVal} (long : seen.length = wordsFor width)
    (long' : words.length = wordsFor width)
    (same : ∀ i < width, (half (seen.getD (i / 32) ⟨0, 0⟩)).toNat.testBit (i % 32) =
      (half (words.getD (i / 32) ⟨0, 0⟩)).toNat.testBit (i % 32)) :
    fromSlice (seen.map half) % 2 ^ width = fromSlice (words.map half) % 2 ^ width := by
  have pos := Nat.two_pow_pos width
  apply eq_of_testBit (Nat.mod_lt _ pos) (Nat.mod_lt _ pos)
  intro i inside
  have enough := le_wordsFor width
  rw [Nat.testBit_mod_two_pow, Nat.testBit_mod_two_pow, testBit_half zero (by omega),
    testBit_half zero (by omega), same i inside]

/-- The words read hold the planes of the stored value below the width. -/
structure Reads (stored : LogicArray) (seen : List VecVal) : Prop where
  length : seen.length = wordsFor stored.width
  a : aPlane seen % 2 ^ stored.width = stored.aVal
  b : bPlane seen % 2 ^ stored.width = stored.bVal

theorem Shows.reads {h : LogicHandle} {stored : LogicArray} (fits : stored.Fits)
    (width : stored.width = h.width) {reading : Reading}
    (shows : Shows h.width stored.toVpiWords reading) :
    ∃ seen, h.getVpiWords reading = .ok seen ∧ Reads stored seen := by
  obtain ⟨shown, rfl, same⟩ := shows
  rw [← width] at same
  have long : ((List.range (wordsFor stored.width)).map shown).length = wordsFor stored.width := by
    rw [List.length_map, List.length_range]
  have long' : stored.toVpiWords.length = wordsFor stored.width := by
    rw [toVpiWords_eq, length_vecWords]
  have at_word {i : ℕ} (inside : i < stored.width) :
      ((List.range (wordsFor stored.width)).map shown).getD (i / 32) ⟨0, 0⟩ = shown (i / 32) := by
    have low : i / 32 < wordsFor stored.width := by rw [wordsFor]; omega
    rw [List.getD_eq_getElem?_getD, List.getElem?_map, List.getElem?_range low]
    rfl
  refine ⟨(List.range (wordsFor stored.width)).map shown, by rw [LogicHandle.getVpiWords, width], ?_⟩
  refine ⟨long, ?_, ?_⟩
  · have cut := mod_half VecVal.aval rfl long long' fun i inside => by
      rw [at_word inside]
      exact (same i inside).1
    rw [aPlane, cut, ← aPlane, toVpiWords_eq, aPlane_vecWords,
      Nat.mod_mod_of_dvd _ (Nat.pow_dvd_pow 2 (le_wordsFor _)), Nat.mod_eq_of_lt fits.1]
  · have cut := mod_half VecVal.bval rfl long long' fun i inside => by
      rw [at_word inside]
      exact (same i inside).2
    rw [bPlane, cut, ← bPlane, toVpiWords_eq, bPlane_vecWords,
      Nat.mod_mod_of_dvd _ (Nat.pow_dvd_pow 2 (le_wordsFor _)), Nat.mod_eq_of_lt fits.2]

theorem Shows.getLogic {h : LogicHandle} {stored : LogicArray} (fits : stored.Fits)
    (width : stored.width = h.width) {reading : Reading}
    (shows : Shows h.width stored.toVpiWords reading) : h.getLogic reading = .ok stored := by
  obtain ⟨seen, got, reads⟩ := shows.reads fits width
  have decoded : fromVpiWords seen h.width = .ok stored := by
    rw [← width, fromVpiWords_eq reads.length, reads.a, reads.b]
  simp only [LogicHandle.getLogic, got, bind, Except.bind, decoded]

/-! ### One word -/

/-- Word `i` without the bits from the width on. -/
def digit (width i : ℕ) (word : UInt32) : ℕ := word.toNat % 2 ^ (width - 32 * i)

theorem toNat_and_mask {width i : ℕ} (inside : i < wordsFor width) (word : UInt32) :
    (word &&&
      let usedBits := if decide (i + 1 = wordsFor width) = true ∧ width % 32 ≠ 0 then width % 32 else 32
      if usedBits = 32 then 0xffffffff else UInt32.ofNat (2 ^ usedBits - 1)).toNat =
      digit width i word := by
  rw [wordsFor] at inside
  simp only [decide_eq_true_eq, wordsFor, digit]
  split_ifs with last whole whole
  · omega
  · have keep : width - 32 * i = width % 32 := by omega
    rw [toNat_and_lastMask, keep]
  · have all : (0xffffffff : UInt32).toNat = 2 ^ 32 - 1 := by decide
    rw [UInt32.toNat_and, all, Nat.and_two_pow_sub_one_eq_mod, toNat_mod_whole (Nat.le_refl 32),
      toNat_mod_whole (by omega)]
  · exact absurd rfl whole

/-- Which word is refused, and what the others give. -/
theorem getVpiWord_eq {h : LogicHandle} {stored : LogicArray} {again : Reading}
    (text : h.getLogic again = .ok stored) {i : ℕ} (inside : i < wordsFor h.width) (word : VecVal) :
    h.getVpiWord again word h.width (i + 1 = wordsFor h.width) =
      if digit h.width i word.bval = 0 then .ok (UInt32.ofNat (digit h.width i word.aval))
      else .error (.err (.fourState stored.toBinstr)) := by
  have aval := toNat_and_mask inside word.aval
  have bval := toNat_and_mask inside word.bval
  rw [LogicHandle.getVpiWord]
  dsimp only at aval bval ⊢
  generalize (if (if decide (i + 1 = wordsFor h.width) = true ∧ h.width % 32 ≠ 0 then h.width % 32
    else 32) = 32 then (0xffffffff : UInt32) else _) = mask at aval bval ⊢
  have zero : word.bval &&& mask ≠ 0 ↔ ¬ digit h.width i word.bval = 0 := by
    rw [← bval, ne_eq, ← UInt32.toNat_inj]
    rfl
  rw [text, ← aval, UInt32.ofNat_toNat]
  split_ifs with set clear clear
  · exact absurd clear (zero.mp set)
  · rfl
  · rfl
  · exact absurd (not_not.mp fun bad => set (zero.mpr bad)) clear

/-! ### All words -/

section Words

variable {h : LogicHandle} {stored : LogicArray} {again : Reading} {seen : List VecVal} {σ : Type}

/-- One half of the words, cut to the width: the limbs of its plane. -/
private theorem digits_half (half : VecVal → UInt32) (width : ℕ) (seen : List VecVal) :
    (seen.mapIdx fun i word => digit width i (half word)) =
      limbs 32 seen.length (fromSlice (seen.map half) % 2 ^ width) := by
  have plane := limbs_fromSlice (seen.map half)
  rw [List.length_map] at plane
  rw [limbs_mod, plane]
  apply List.ext_getElem
  · simp only [List.length_mapIdx, List.length_map]
  · intro i _ _
    simp only [List.getElem_mapIdx, List.getElem_map, digit]

theorem Reads.digits_a (reads : Reads stored seen) :
    (seen.mapIdx fun i word => digit stored.width i word.aval) =
      limbs 32 (wordsFor stored.width) stored.aVal := by
  rw [digits_half, reads.length, ← aPlane, reads.a]

theorem Reads.digits_b (reads : Reads stored seen) :
    (seen.mapIdx fun i word => digit stored.width i word.bval) =
      limbs 32 (wordsFor stored.width) stored.bVal := by
  rw [digits_half, reads.length, ← bPlane, reads.b]

/-- The digits that the getters collect from a value without `X` and `Z`. -/
def digits (width : ℕ) (seen : List VecVal) : List UInt32 :=
  seen.mapIdx fun i word => UInt32.ofNat (digit width i word.aval)

theorem toNat_ofNat_digit (width i : ℕ) (word : UInt32) :
    (UInt32.ofNat (digit width i word)).toNat = digit width i word :=
  UInt32.toNat_ofNat_of_lt' ((Nat.mod_le _ _).trans_lt word.toNat_lt)

theorem Reads.fromSlice_digits (fits : stored.Fits) (reads : Reads stored seen) :
    fromSlice (digits stored.width seen) = stored.aVal := by
  have limb : (digits stored.width seen).map UInt32.toNat =
      limbs 32 (wordsFor stored.width) stored.aVal := by
    rw [← reads.digits_a]
    apply List.ext_getElem
    · simp only [digits, List.length_mapIdx, List.length_map]
    · intro i _ _
      simp only [digits, List.getElem_mapIdx, List.getElem_map, toNat_ofNat_digit]
  have big : 2 ^ stored.width ≤ 2 ^ (32 * wordsFor stored.width) :=
    Nat.pow_le_pow_right Nat.two_pos (le_wordsFor _)
  rw [fromSlice_of_limbs limb, Nat.mod_eq_of_lt (fits.1.trans_le big)]

theorem Reads.digit_zero (reads : Reads stored seen) (zero : stored.bVal = 0) {i : ℕ}
    (inside : i < seen.length) : digit stored.width i seen[i].bval = 0 := by
  have at_i := congrArg (fun l => l[i]?) reads.digits_b
  rw [reads.length] at inside
  simpa only [limbs, zero, Nat.zero_div, Nat.zero_mod, List.getElem?_mapIdx, List.getElem?_map,
    List.getElem?_range inside, List.getElem?_eq_getElem, Option.map_some, Option.some.injEq,
    reads.length, inside] using at_i

/-- A value with `X` or `Z` has a word that is refused. -/
theorem Reads.digit_set (fits : stored.Fits) (reads : Reads stored seen) (set : stored.bVal ≠ 0) :
    ∃ i, ∃ inside : i < seen.length, digit stored.width i seen[i].bval ≠ 0 := by
  by_contra! none
  have zeros : limbs 32 (wordsFor stored.width) stored.bVal =
      List.replicate (wordsFor stored.width) 0 := by
    rw [← reads.digits_b, List.eq_replicate_iff, List.length_mapIdx]
    refine ⟨reads.length, fun d mem => ?_⟩
    obtain ⟨i, inside, rfl⟩ := List.mem_iff_getElem.mp mem
    rw [List.getElem_mapIdx]
    exact none i _
  have big : 2 ^ stored.width ≤ 2 ^ (32 * wordsFor stored.width) :=
    Nat.pow_le_pow_right Nat.two_pos (le_wordsFor _)
  have back := ofDigits_limbs (k := 32) (wordsFor stored.width) stored.bVal
  rw [zeros, Nat.ofDigits_replicate_zero, Nat.mod_eq_of_lt (fits.2.trans_le big)] at back
  exact set back.symm

theorem eachWord_known (text : h.getLogic again = .ok stored) (width : stored.width = h.width)
    (reads : Reads stored seen) (zero : stored.bVal = 0) (step : σ → UInt32 × ℕ → σ) (start : σ) :
    h.eachWord again seen step start = .ok ((digits stored.width seen).zipIdx.foldl step start) := by
  have entries : (digits stored.width seen).zipIdx =
      seen.zipIdx.map fun entry => (UInt32.ofNat (digit stored.width entry.2 entry.1.aval), entry.2) := by
    apply List.ext_getElem
    · simp only [digits, List.length_zipIdx, List.length_mapIdx, List.length_map]
    · intro i _ _
      simp only [digits, List.getElem_zipIdx, List.getElem_mapIdx, List.getElem_map, Nat.zero_add]
  rw [entries, List.foldl_map, LogicHandle.eachWord, reads.length, width]
  refine foldlM_ok (fun entry mem s => ?_) start
  obtain ⟨word, i⟩ := entry
  obtain ⟨inside, at_i⟩ := List.getElem?_eq_some_iff.mp (List.mem_zipIdx_iff_getElem?.mp mem)
  dsimp only at inside at_i ⊢
  have low : i < wordsFor h.width := by rwa [← width, ← reads.length]
  have clear := reads.digit_zero zero inside
  rw [at_i, width] at clear
  rw [getVpiWord_eq text low, if_pos clear]
  rfl

theorem eachWord_unknown (text : h.getLogic again = .ok stored) (width : stored.width = h.width)
    (fits : stored.Fits) (reads : Reads stored seen) (set : stored.bVal ≠ 0)
    (step : σ → UInt32 × ℕ → σ) (start : σ) :
    h.eachWord again seen step start = .error (.err (.fourState stored.toBinstr)) := by
  rw [LogicHandle.eachWord, reads.length, width]
  have outcome {word : VecVal} {i : ℕ} (mem : (word, i) ∈ seen.zipIdx) :
      i < wordsFor h.width ∧ seen[i]? = some word := by
    have at_i := List.mem_zipIdx_iff_getElem?.mp mem
    obtain ⟨inside, -⟩ := List.getElem?_eq_some_iff.mp at_i
    exact ⟨by rwa [← width, ← reads.length], at_i⟩
  apply foldlM_error
  · rintro ⟨word, i⟩ mem
    rw [getVpiWord_eq text (outcome mem).1]
    split_ifs
    · exact .inr fun s => ⟨_, rfl⟩
    · exact .inl fun s => rfl
  · obtain ⟨i, inside, bad⟩ := reads.digit_set fits set
    have mem : (seen[i], i) ∈ seen.zipIdx :=
      List.mem_zipIdx_iff_getElem?.mpr (List.getElem?_eq_getElem inside)
    rw [width] at bad
    refine ⟨_, mem, fun s => ?_⟩
    rw [getVpiWord_eq text (outcome mem).1, if_neg bad]
    rfl

end Words

/-! ### The getters -/

/-- The number of the stored value, or the four-state error with its text. -/
def Returns {α : Type} (stored : LogicArray) (toNat : α → ℕ) (result : Except Fault α) : Prop :=
  (stored.Known → ∃ n, result = .ok n ∧ toNat n = stored.value) ∧
    (¬ stored.Known → result = .error (.err (.fourState stored.toBinstr)))

/-- Collecting the digits in order. -/
private theorem foldl_push (l : List UInt32) (k : ℕ) (acc : List UInt32) :
    (l.zipIdx k).foldl (fun digits entry => digits ++ [entry.1]) acc = acc ++ l := by
  induction l generalizing k acc with
  | nil => exact (List.append_nil acc).symm
  | cons d l ih =>
    rw [List.zipIdx_cons, List.foldl_cons, ih, List.append_assoc, List.singleton_append]

private theorem ofNat_limb (bits d n : ℕ) (small : d < 2 ^ 32) :
    BitVec.ofNat bits (d + 2 ^ 32 * n) = BitVec.ofNat bits d ||| BitVec.ofNat bits n <<< 32 := by
  rw [Nat.add_comm, Nat.two_pow_add_eq_or_of_lt small]
  apply BitVec.eq_of_getLsbD_eq
  intro i inside
  simp only [BitVec.getLsbD_or, BitVec.getLsbD_shiftLeft, BitVec.getLsbD_ofNat, inside, decide_true,
    Bool.true_and, Nat.testBit_or, Nat.testBit_two_pow_mul]
  rcases Nat.lt_or_ge i 32 with low | high
  · simp [low, Nat.not_le.mpr low]
  · have near : i - 32 < bits := by omega
    simp [high, near, Nat.not_lt.mpr high, Bool.or_comm]

/-- Gathering the digits by `|=` and shifts gives their number. -/
private theorem foldl_orWord {bits : ℕ} (l : List UInt32) (k : ℕ) (acc : BitVec bits) :
    (l.zipIdx k).foldl LogicHandle.orWord acc = acc ||| BitVec.ofNat bits (fromSlice l) <<< (k * 32) := by
  induction l generalizing k acc with
  | nil => simp only [List.zipIdx_nil, List.foldl_nil, fromSlice, List.map_nil, Nat.ofDigits_nil,
      BitVec.zero_shiftLeft, BitVec.or_zero]
  | cons d l ih =>
    have first : fromSlice (d :: l) = d.toNat + 2 ^ 32 * fromSlice l := Nat.ofDigits_cons ..
    rw [List.zipIdx_cons, List.foldl_cons, ih, first, ofNat_limb bits d.toNat _ d.toNat_lt,
      BitVec.shiftLeft_or_distrib, LogicHandle.orWord, BitVec.or_assoc, ← BitVec.shiftLeft_add,
      Nat.succ_mul, Nat.add_comm 32]

section Getters

variable {h : LogicHandle} {stored : LogicArray} {first again : Reading}

/-- A getter that loops over all words. -/
private theorem returns_of_eachWord {α σ : Type} {toNat : α → ℕ} {result : Except Fault α}
    {step : σ → UInt32 × ℕ → σ} {start : σ} {finish : σ → α} {seen : List VecVal}
    (fits : stored.Fits) (width : stored.width = h.width) (reads : Reads stored seen)
    (text : h.getLogic again = .ok stored)
    (body : result = (h.eachWord again seen step start).map finish)
    (number : ∀ l : List UInt32, fromSlice l = stored.aVal →
      toNat (finish (l.zipIdx.foldl step start)) = stored.aVal) :
    Returns stored toNat result := by
  constructor
  · intro known
    have zero := fits.known_iff.mp known
    rw [body, eachWord_known text width reads zero]
    exact ⟨_, rfl, (number _ (reads.fromSlice_digits fits)).trans (value_eq fits known).symm⟩
  · intro unknown
    have set : stored.bVal ≠ 0 := fun zero => unknown (fits.known_iff.mpr zero)
    rw [body, eachWord_unknown text width fits reads set]
    rfl

theorem returns_getBigint (fits : stored.Fits) (width : stored.width = h.width)
    (shows : Shows h.width stored.toVpiWords first)
    (text : h.getLogic again = .ok stored) : Returns stored id (h.getBigint first again) := by
  obtain ⟨seen, got, reads⟩ := shows.reads fits width
  have body : h.getBigint first again =
      (h.eachWord again seen (fun digits entry => digits ++ [entry.1]) []).map fromSlice := by
    rw [LogicHandle.getBigint, got]
    rfl
  refine returns_of_eachWord fits width reads text body fun l number => ?_
  rw [foldl_push, List.nil_append, number, id]

/-- The number that the words of a signal of at most `bits` bits are gathered into. -/
private theorem toNat_foldl_orWord {bits : ℕ} (fits : stored.Fits) (size : stored.width ≤ bits)
    {l : List UInt32} (number : fromSlice l = stored.aVal) :
    (l.zipIdx.foldl LogicHandle.orWord (0 : BitVec bits)).toNat = stored.aVal := by
  have low : stored.aVal < 2 ^ bits := fits.1.trans_le (Nat.pow_le_pow_right Nat.two_pos size)
  rw [foldl_orWord, number, Nat.zero_mul, BitVec.shiftLeft_zero]
  exact (congrArg BitVec.toNat BitVec.zero_or).trans (Nat.mod_eq_of_lt low)

theorem returns_getU64 (fits : stored.Fits) (width : stored.width = h.width) (size : h.width ≤ 64)
    (shows : Shows h.width stored.toVpiWords first)
    (text : h.getLogic again = .ok stored) : Returns stored UInt64.toNat (h.getU64 first again) := by
  obtain ⟨seen, got, reads⟩ := shows.reads fits width
  have body : h.getU64 first again =
      (h.eachWord again seen LogicHandle.orWord (0 : BitVec 64)).map UInt64.ofBitVec := by
    rw [LogicHandle.getU64, LogicHandle.checkSize, if_neg (by omega), got]
    rfl
  refine returns_of_eachWord fits width reads text body fun l number => ?_
  exact toNat_foldl_orWord fits (width ▸ size) number

theorem returns_getU128 (fits : stored.Fits) (width : stored.width = h.width) (size : h.width ≤ 128)
    (shows : Shows h.width stored.toVpiWords first)
    (text : h.getLogic again = .ok stored) : Returns stored BitVec.toNat (h.getU128 first again) := by
  obtain ⟨seen, got, reads⟩ := shows.reads fits width
  have body : h.getU128 first again =
      (h.eachWord again seen LogicHandle.orWord (0 : BitVec 128)).map id := by
    rw [LogicHandle.getU128, LogicHandle.checkSize, if_neg (by omega), got]
    exact Except.map_id.symm ▸ rfl
  refine returns_of_eachWord fits width reads text body fun l number => ?_
  exact toNat_foldl_orWord fits (width ▸ size) number

/-- A word of one bit as a truth value. -/
theorem toNat_ne_zero {word : UInt32} (low : word.toNat < 2 ^ 1) : (decide (word ≠ 0)).toNat = word.toNat := by
  have bit : word = 0 ∨ word = 1 := by
    rw [← UInt32.toNat_inj, ← UInt32.toNat_inj]
    change word.toNat = 0 ∨ word.toNat = 1
    omega
  rcases bit with rfl | rfl <;> decide

/-- A getter of the first word, on a signal that has no other. -/
theorem returns_getFirst {α : Type} {toNat : α → ℕ} {cast : UInt32 → α} {bits : ℕ}
    (fits : stored.Fits) (width : stored.width = h.width) (pos : 1 ≤ h.width) (size : h.width ≤ bits)
    (one : bits ≤ 32) (shows : Shows h.width stored.toVpiWords first)
    (text : h.getLogic again = .ok stored)
    (number : ∀ word : UInt32, word.toNat < 2 ^ bits → toNat (cast word) = word.toNat) :
    Returns stored toNat (h.getFirst first again bits cast) := by
  obtain ⟨seen, got, reads⟩ := shows.reads fits width
  have single : wordsFor stored.width = 1 := by
    rw [wordsFor]
    omega
  obtain ⟨word, rfl⟩ := List.length_eq_one_iff.mp (reads.length.trans single)
  have inside : 0 < wordsFor h.width := by
    rw [← width, single]
    exact Nat.one_pos
  have last : (decide (0 + 1 = wordsFor h.width)) = true := by
    rw [← width, single]
    rfl
  have body : h.getFirst first again bits cast =
      (h.getVpiWord again word h.width (decide (0 + 1 = wordsFor h.width))).map cast := by
    rw [LogicHandle.getFirst, LogicHandle.checkSize, if_neg (by omega), got, last]
    rfl
  have small : 2 ^ stored.width ≤ 2 ^ 32 := Nat.pow_le_pow_right Nat.two_pos (by omega)
  have aval : digit h.width 0 word.aval = stored.aVal := by
    have gathered := reads.fromSlice_digits fits
    rwa [digits, List.mapIdx_singleton, fromSlice, List.map_singleton, Nat.ofDigits_singleton,
      toNat_ofNat_digit, width] at gathered
  have bval : digit h.width 0 word.bval = stored.bVal := by
    have limb := reads.digits_b
    rw [single, limbs_succ, List.mapIdx_singleton, Nat.mod_eq_of_lt (fits.2.trans_le small), width]
      at limb
    exact (List.cons.inj limb).1
  rw [body, getVpiWord_eq text inside, aval, bval]
  constructor
  · intro known
    have low : stored.aVal < 2 ^ bits :=
      fits.1.trans_le (Nat.pow_le_pow_right Nat.two_pos (width ▸ size))
    have back : (UInt32.ofNat stored.aVal).toNat = stored.aVal :=
      UInt32.toNat_ofNat_of_lt' (fits.1.trans_le small)
    rw [if_pos (fits.known_iff.mp known), value_eq fits known]
    exact ⟨_, rfl, (number _ (back.symm ▸ low)).trans back⟩
  · intro unknown
    rw [if_neg fun zero => unknown (fits.known_iff.mpr zero)]
    rfl

end Getters

/-- The value of one of the eight setters of a logic signal. -/
def WriteVal.IsLogic : WriteVal → Prop
  | .real _ | .string _ => False
  | _ => True

theorem exists_set (h : LogicHandle) {v : WriteVal} (logic : v.IsLogic) : ∃ words, h.set v = some words := by
  cases v with
  | real | string => exact logic.elim
  | _ => exact ⟨_, rfl⟩

/-- Each of the eight setters passes the words of the resized value, and every getter that is wide enough reads
that value back. -/
theorem write_read_round_trip {h : LogicHandle} (pos : 1 ≤ h.width) {v : WriteVal} (logic : v.IsLogic)
    (built : v.WellBuilt) :
    ∃ words, h.set v = some words ∧ (words.length = wordsFor h.width ∧
      words = vecWords (wordsFor h.width) (v.planes.1 % 2 ^ h.width) (v.planes.2 % 2 ^ h.width) ∧
      clearUnused h.width words = words) ∧
    ∀ first again, Shows h.width words first → Shows h.width words again →
      let stored := v.resized h.width
      h.getLogic first = .ok stored ∧ Returns stored id (h.getBigint first again) ∧
      (h.width ≤ 1 → Returns stored Bool.toNat (h.getBool first again)) ∧
      (h.width ≤ 8 → Returns stored UInt8.toNat (h.getU8 first again)) ∧
      (h.width ≤ 16 → Returns stored UInt16.toNat (h.getU16 first again)) ∧
      (h.width ≤ 32 → Returns stored UInt32.toNat (h.getU32 first again)) ∧
      (h.width ≤ 64 → Returns stored UInt64.toNat (h.getU64 first again)) ∧
      (h.width ≤ 128 → Returns stored BitVec.toNat (h.getU128 first again)) := by
  obtain ⟨words, set⟩ := exists_set h logic
  have passed := set_words built set
  have fits : (v.resized h.width).Fits := fits_mod _ _ h.width
  refine ⟨words, set, ⟨by rw [passed, length_vecWords], passed, ?_⟩, ?_⟩
  · have big : 2 ^ h.width ≤ 2 ^ (32 * wordsFor h.width) :=
      Nat.pow_le_pow_right Nat.two_pos (le_wordsFor h.width)
    rw [clearUnused_eq, passed, length_vecWords, aPlane_vecWords, bPlane_vecWords,
      Nat.mod_eq_of_lt (fits.1.trans_le big), Nat.mod_eq_of_lt (fits.2.trans_le big)]
    exact congrArg₂ (vecWords _) (Nat.mod_mod _ _) (Nat.mod_mod _ _)
  · have encoded : words = (v.resized h.width).toVpiWords := passed.trans (toVpiWords_eq _).symm
    rw [encoded]
    intro first again shows showsAgain
    have text := showsAgain.getLogic fits rfl
    refine ⟨shows.getLogic fits rfl, returns_getBigint fits rfl shows text, fun size => ?_,
      fun size => ?_, fun size => ?_, fun size => ?_, fun size => returns_getU64 fits rfl size shows text,
      fun size => returns_getU128 fits rfl size shows text⟩
    · exact returns_getFirst fits rfl pos size (by decide) shows text fun word => toNat_ne_zero
    · refine returns_getFirst fits rfl pos size (by decide) shows text fun word low => ?_
      rw [UInt32.toNat_toUInt8, Nat.mod_eq_of_lt low]
    · refine returns_getFirst fits rfl pos size (by decide) shows text fun word low => ?_
      rw [UInt32.toNat_toUInt16, Nat.mod_eq_of_lt low]
    · exact returns_getFirst fits rfl pos size (by decide) shows text fun word _ => rfl

/-- A four-state value padded to 34 bits; the simulator shows ones above them. -/
theorem write_read_round_trip_padded :
    (⟨0, 34⟩ : LogicHandle).set (.logic (fromBinstr "01xz")) = some [⟨6, 3⟩, ⟨0, 0⟩] ∧
      (⟨0, 34⟩ : LogicHandle).getLogic (some fun i => if i = 0 then ⟨6, 3⟩ else ⟨0xfffffffc, 0xfffffffc⟩) =
        .ok ⟨6, 3, 34⟩ := by
  have shows : Shows 34 [⟨6, 3⟩, ⟨0, 0⟩]
      (some fun i => if i = 0 then ⟨6, 3⟩ else ⟨0xfffffffc, 0xfffffffc⟩) :=
    ⟨_, rfl, by decide⟩
  have passes : (⟨0, 34⟩ : LogicHandle).set (.logic (fromBinstr "01xz")) = some [⟨6, 3⟩, ⟨0, 0⟩] := by decide
  have built : WriteVal.WellBuilt (.logic (fromBinstr "01xz")) := .fromBinstr "01xz"
  obtain ⟨words, set, -, reads⟩ := @write_read_round_trip ⟨0, 34⟩ (by decide) (.logic (fromBinstr "01xz")) trivial built
  obtain rfl := Option.some.inj (set.symm.trans passes)
  exact ⟨passes, (reads _ _ shows shows).1⟩

end Rustdv.Phase
