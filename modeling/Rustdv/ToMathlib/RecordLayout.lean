import Mathlib.Data.List.Forall2
import Mathlib.Logic.Function.Basic
import Rustdv.ToMathlib.Limbs

/-! # Records laid out in bytes

Slots are placed one after the other, each at the first place that its alignment allows. No other
layout in the same order puts a slot or the end of the record lower. Slots that lie apart can be stored
and loaded like the variables of a record.
-/

namespace RecordLayout

/-! ## Rounding up -/

/-- The first multiple of `a` from `n` on. -/
def roundUp (n a : ℕ) : ℕ := (n + a - 1) / a * a

variable {n m a : ℕ}

theorem le_roundUp (pos : 0 < a) : n ≤ roundUp n a := by
  have parts := Nat.div_add_mod (n + a - 1) a
  have small := Nat.mod_lt (n + a - 1) pos
  rw [roundUp, Nat.mul_comm]
  omega

theorem dvd_roundUp (n a : ℕ) : a ∣ roundUp n a := Nat.dvd_mul_left ..

theorem roundUp_le (pos : 0 < a) (le : n ≤ m) (dvd : a ∣ m) : roundUp n a ≤ m := by
  obtain ⟨k, rfl⟩ := dvd
  rw [roundUp, Nat.mul_comm]
  refine Nat.mul_le_mul_left a (Nat.lt_succ_iff.mp ((Nat.div_lt_iff_lt_mul pos).mpr ?_))
  rw [Nat.succ_mul, Nat.mul_comm]
  omega

/-! ## Placing slots -/

/-- What is to be placed: so many bytes, at a multiple of the alignment. -/
structure Slot where
  size : ℕ
  align : ℕ
  pos : 0 < align

/-- Slots stand at their places from `start` on: aligned, in order, and before `stop`. -/
structure Laid (start : ℕ) (l : List (Slot × ℕ)) (stop : ℕ) : Prop where
  aligned : ∀ x ∈ l, x.1.align ∣ x.2
  above : ∀ x ∈ l, start ≤ x.2
  apart : l.Pairwise fun x y => x.2 + x.1.size ≤ y.2
  inside : ∀ x ∈ l, x.2 + x.1.size ≤ stop
  order : start ≤ stop

/-- Every slot at the first place that is left for it, and the end of the last. -/
def place : ℕ → List Slot → List (Slot × ℕ) × ℕ
  | start, [] => ([], start)
  | start, s :: slots =>
      let offset := roundUp start s.align
      let (placed, stop) := place (offset + s.size) slots
      ((s, offset) :: placed, stop)

theorem place_cons (start : ℕ) (s : Slot) (slots : List Slot) :
    place start (s :: slots) =
      ((s, roundUp start s.align) :: (place (roundUp start s.align + s.size) slots).1,
        (place (roundUp start s.align + s.size) slots).2) := rfl

theorem place_fst (start : ℕ) (slots : List Slot) : (place start slots).1.map Prod.fst = slots := by
  induction slots generalizing start with
  | nil => rfl
  | cons s slots ih => rw [place_cons, List.map_cons, ih]

theorem place_laid (start : ℕ) (slots : List Slot) : Laid start (place start slots).1 (place start slots).2 := by
  induction slots generalizing start with
  | nil => exact ⟨by simp [place], by simp [place], List.Pairwise.nil, by simp [place], Nat.le_refl _⟩
  | cons s slots ih =>
    have first : start ≤ roundUp start s.align := le_roundUp s.pos
    have rest := ih (roundUp start s.align + s.size)
    have order := rest.order
    rw [place_cons]
    refine ⟨?_, ?_, List.pairwise_cons.mpr ⟨fun y member => rest.above y member, rest.apart⟩, ?_, by dsimp only; omega⟩
    · exact List.forall_mem_cons.mpr ⟨dvd_roundUp _ _, rest.aligned⟩
    · exact List.forall_mem_cons.mpr ⟨first, fun y member => by have := rest.above y member; omega⟩
    · exact List.forall_mem_cons.mpr ⟨rest.order, rest.inside⟩

theorem Laid.tail {start stop : ℕ} {x : Slot × ℕ} {l : List (Slot × ℕ)} (laid : Laid start (x :: l) stop) :
    Laid (x.2 + x.1.size) l stop where
  aligned y member := laid.aligned y (List.mem_cons_of_mem x member)
  above y member := (List.pairwise_cons.mp laid.apart).1 y member
  apart := (List.pairwise_cons.mp laid.apart).2
  inside y member := laid.inside y (List.mem_cons_of_mem x member)
  order := laid.inside x List.mem_cons_self

/-- No slot can stand lower, and no record can end lower. -/
theorem place_least {start start' stop : ℕ} {l : List (Slot × ℕ)} (laid : Laid start' l stop) (le : start ≤ start') :
    List.Forall₂ (fun x y => x.1 = y.1 ∧ x.2 ≤ y.2) (place start (l.map Prod.fst)).1 l ∧
      (place start (l.map Prod.fst)).2 ≤ stop := by
  induction l generalizing start start' with
  | nil => exact ⟨List.Forall₂.nil, le.trans laid.order⟩
  | cons x l ih =>
    have lower : roundUp start x.1.align ≤ x.2 :=
      roundUp_le x.1.pos (le.trans (laid.above x List.mem_cons_self)) (laid.aligned x List.mem_cons_self)
    obtain ⟨rest, stops⟩ := ih laid.tail (Nat.add_le_add_right lower x.1.size)
    exact ⟨List.Forall₂.cons ⟨rfl, lower⟩ rest, stops⟩

/-! ## Bytes -/

/-- Memory by addresses. -/
abbrev Memory := ℕ → UInt8

/-- So many bytes, least significant first. -/
def load (mem : Memory) (start size : ℕ) : ℕ :=
  Nat.ofDigits (2 ^ 8) ((List.range size).map fun i => (mem (start + i)).toNat)

def store (mem : Memory) (start size n : ℕ) : Memory := fun p =>
  if start ≤ p ∧ p < start + size then UInt8.ofNat (n / 2 ^ (8 * (p - start))) else mem p

variable {mem : Memory} {start size other len : ℕ}

theorem store_outside {p : ℕ} (outside : p < start ∨ start + size ≤ p) : store mem start size n p = mem p := by
  rw [store, if_neg]
  omega

theorem load_congr {mem' : Memory} (same : ∀ p, start ≤ p → p < start + size → mem p = mem' p) :
    load mem start size = load mem' start size := by
  rw [load, load]
  congr 1
  refine List.map_congr_left fun i inside => ?_
  rw [same _ (Nat.le_add_right ..) (Nat.add_lt_add_left (List.mem_range.mp inside) start)]

theorem load_store (mem : Memory) (start size n : ℕ) : load (store mem start size n) start size = n % 2 ^ (8 * size) := by
  rw [← Limbs.ofDigits_limbs, load, Limbs.limbs]
  congr 1
  refine List.map_congr_left fun i inside => ?_
  have bound := List.mem_range.mp inside
  rw [store, if_pos (by omega), Nat.add_sub_cancel_left, UInt8.toNat_ofNat']

theorem load_store_apart (apart : start + size ≤ other ∨ other + len ≤ start) :
    load (store mem start size n) other len = load mem other len := by
  apply load_congr
  intro p low high
  apply store_outside
  omega

theorem load_lt (mem : Memory) (start size : ℕ) : load mem start size < 2 ^ (8 * size) := by
  have bytes := Nat.ofDigits_lt_base_pow_length (b := 2 ^ 8) (l := (List.range size).map fun i => (mem (start + i)).toNat)
    (by decide) (by
      intro d member
      obtain ⟨i, -, rfl⟩ := List.mem_map.mp member
      exact UInt8.toNat_lt _)
  rwa [List.length_map, List.length_range, ← Nat.pow_mul] at bytes

/-! ## Slots as variables -/

/-- A variable of a record: its name, and where its bytes are. -/
structure Var (κ : Type*) where
  name : κ
  start : ℕ
  size : ℕ

variable {κ : Type*}

def Var.get (mem : Memory) (v : Var κ) : ℕ := load mem v.start v.size

def Var.set (mem : Memory) (v : Var κ) (n : ℕ) : Memory := store mem v.start v.size n

/-- Neither a name nor a byte in common. -/
def Var.Apart (v w : Var κ) : Prop :=
  v.name ≠ w.name ∧ (v.start + v.size ≤ w.start ∨ w.start + w.size ≤ v.start)

instance : Std.Symm (@Var.Apart κ) where
  symm _ _ both := ⟨both.1.symm, both.2.symm⟩

/-- The variables of one record. -/
def Separate (l : List (Var κ)) : Prop := l.Pairwise Var.Apart

theorem Separate.of_ne {l : List (Var κ)} (separate : Separate l) {v w : Var κ} (here : v ∈ l) (there : w ∈ l) (ne : v ≠ w) :
    v.Apart w :=
  List.Pairwise.forall separate here there ne

/-- The record that the memory holds. -/
def record [DecidableEq κ] (mem : Memory) (l : List (Var κ)) (name : κ) : ℕ :=
  ((l.find? fun v => v.name = name).map (Var.get mem)).getD 0

theorem record_name [DecidableEq κ] {l : List (Var κ)} (separate : Separate l) {v : Var κ} (member : v ∈ l) :
    record mem l v.name = v.get mem := by
  obtain ⟨w, found⟩ := Option.isSome_iff_exists.mp
    (List.find?_isSome (p := fun w : Var κ => w.name = v.name).mpr ⟨v, member, decide_eq_true rfl⟩)
  have same : w = v := by
    by_contra ne
    exact (separate.of_ne (List.mem_of_find?_eq_some found) member ne).1 (by simpa using List.find?_some found)
  rw [record, found, same]
  rfl

theorem record_congr [DecidableEq κ] {mem' : Memory} {l : List (Var κ)} (same : ∀ v ∈ l, v.get mem = v.get mem') :
    record mem l = record mem' l := by
  funext name
  rw [record, record]
  congr 1
  refine Option.map_congr fun v found => ?_
  exact same v (List.mem_of_find?_eq_some found)

/-- The values of the record after a list of assignments. -/
def assign [DecidableEq κ] (values : κ → ℕ) (writes : List (Var κ × ℕ)) : κ → ℕ :=
  writes.foldl (fun values write => Function.update values write.1.name (write.2 % 2 ^ (8 * write.1.size))) values

/-- The memory after a list of stores. -/
def stores (mem : Memory) (writes : List (Var κ × ℕ)) : Memory :=
  writes.foldl (fun mem write => write.1.set mem write.2) mem

/-- Stores into separate variables are assignments to a record. -/
theorem get_stores [DecidableEq κ] {l : List (Var κ)} (separate : Separate l) {values : κ → ℕ} {writes : List (Var κ × ℕ)}
    (known : ∀ write ∈ writes, write.1 ∈ l) (holds : ∀ v ∈ l, v.get mem = values v.name) :
    ∀ v ∈ l, v.get (stores mem writes) = assign values writes v.name := by
  induction writes generalizing mem values with
  | nil => exact holds
  | cons write writes ih =>
    apply ih (fun w member => known w (List.mem_cons_of_mem write member))
    intro v member
    dsimp only
    by_cases same : v = write.1
    · rw [same, Function.update_self]
      exact load_store ..
    · obtain ⟨other, apart⟩ := separate.of_ne member (known write List.mem_cons_self) same
      rw [Function.update_of_ne other, ← holds v member]
      exact load_store_apart apart.symm

/-- Nothing else is written. -/
theorem stores_outside {l : List (Var κ)} {writes : List (Var κ × ℕ)} (known : ∀ write ∈ writes, write.1 ∈ l) {p : ℕ}
    (outside : ∀ v ∈ l, p < v.start ∨ v.start + v.size ≤ p) : stores mem writes p = mem p := by
  induction writes generalizing mem with
  | nil => rfl
  | cons write writes ih =>
    rw [stores, List.foldl_cons]
    exact (ih fun w member => known w (List.mem_cons_of_mem write member)).trans
      (store_outside (outside write.1 (known write List.mem_cons_self)))

end RecordLayout
