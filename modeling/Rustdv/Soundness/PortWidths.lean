import Rustdv.Model.CycleBindings
import Rustdv.Soundness.RoundTrip

/-! # Ports of the generated bindings

An accepted schema lists the fields of its document, and each output port is assigned the value of its
own field, converted to the C++ type of the port. That type may be wider than the port: the assigned
value is the one a VPI setter drives just when the field has no bit set between the two.
-/

namespace Rustdv.Cycle

open Phase

/-! ## What is accepted -/

def Schema.fields (s : Schema) : Direction → List Field
  | .inputs => s.inputs
  | .outputs => s.outputs

/-- A field goes to the end of its own direction. -/
theorem Schema.push_fields {s s' : Schema} {d : Direction} {f : Field} (pushed : s.push d f = .ok s') :
    s'.fields d = s.fields d ++ [f] ∧ ∀ d' ≠ d, s'.fields d' = s.fields d' := by
  rw [push] at pushed
  split_ifs at pushed
  cases d with
  | inputs =>
    cases pushed
    refine ⟨rfl, ?_⟩
    rintro (_ | _) other
    · exact absurd rfl other
    · rfl
  | outputs =>
    cases pushed
    refine ⟨rfl, ?_⟩
    rintro (_ | _) other
    · rfl
    · exact absurd rfl other

section Accepted

variable {repr : Json → String} {d : Direction} {direction : String}

/-- The loop checks each field by itself, and keeps them in order. -/
theorem checkFields_fields {s s' : Schema} {items : List Json}
    (checked : checkFields repr d direction s items = .ok s') :
    (∃ fields, items.mapM (checkField repr direction) = .ok fields ∧ s'.fields d = s.fields d ++ fields) ∧
      ∀ d' ≠ d, s'.fields d' = s.fields d' := by
  induction items generalizing s with
  | nil =>
    cases checked
    exact ⟨⟨[], rfl, (List.append_nil _).symm⟩, fun _ _ => rfl⟩
  | cons item rest ih =>
    rw [checkFields] at checked
    cases own : checkField repr direction item with
    | error e => simp only [own, bind, Except.bind, reduceCtorEq] at checked
    | ok f =>
      simp only [own, bind, Except.bind] at checked
      cases next : s.push d f with
      | error e => simp only [next, reduceCtorEq] at checked
      | ok middle =>
        simp only [next] at checked
        obtain ⟨appended, kept⟩ := Schema.push_fields next
        obtain ⟨⟨fields, mapped, ends⟩, others⟩ := ih checked
        refine ⟨⟨f :: fields, ?_, ?_⟩, fun d' other => (others d' other).trans (kept d' other)⟩
        · rw [List.mapM_cons, own, mapped]
          rfl
        · rw [ends, appended, List.append_assoc]
          rfl

theorem checkDirection_fields {document : List (String × Json)} {s s' : Schema}
    (checked : checkDirection repr document d direction s = .ok s') :
    (∃ items fields, Json.get document direction = .list items ∧
      items.mapM (checkField repr direction) = .ok fields ∧ s'.fields d = s.fields d ++ fields) ∧
      ∀ d' ≠ d, s'.fields d' = s.fields d' := by
  rw [checkDirection] at checked
  split at checked
  · next field rest listed =>
    obtain ⟨⟨fields, mapped, ends⟩, others⟩ := checkFields_fields checked
    exact ⟨⟨_, fields, listed, mapped, ends⟩, others⟩
  · cases checked

/-- The outputs of an accepted schema are those of its document. -/
theorem validate_outputs {document : List (String × Json)} {s : Schema} (accepted : validate repr document = .ok s) :
    ∃ items, Json.get document "outputs" = .list items ∧
      items.mapM (checkField repr "outputs") = .ok s.outputs := by
  rw [validate] at accepted
  split at accepted
  · simp only [bind, Except.bind] at accepted
    split at accepted
    · cases accepted
    split at accepted
    · cases accepted
    split at accepted
    · cases accepted
    split at accepted
    · cases accepted
    next name _ top _ clock _ middle first =>
    obtain ⟨-, kept⟩ := checkDirection_fields first
    obtain ⟨⟨items, fields, listed, mapped, ends⟩, -⟩ := checkDirection_fields accepted
    have none_before : middle.outputs = [] := kept .outputs (by decide)
    have all : s.outputs = middle.outputs ++ fields := ends
    rw [none_before, List.nil_append] at all
    exact ⟨items, listed, all ▸ mapped⟩
  · cases accepted

end Accepted

/-! ## What is assigned -/

section Updates

variable {ι κ : Type*} {V : Type*} [DecidableEq κ] {key : ι → κ} {val : ι → V}

theorem foldl_update_of_notMem {l : List ι} {k : κ} (g : κ → V) (untouched : k ∉ l.map key) :
    l.foldl (fun g a => Function.update g (key a) (val a)) g k = g k := by
  induction l generalizing g with
  | nil => rfl
  | cons b l ih =>
    rw [List.map_cons, List.mem_cons, not_or] at untouched
    rw [List.foldl_cons, ih _ untouched.2, Function.update_of_ne untouched.1]

/-- Under distinct keys every update stays. -/
theorem foldl_update_of_mem {l : List ι} (distinct : (l.map key).Nodup) {a : ι} (member : a ∈ l) (g : κ → V) :
    l.foldl (fun g a => Function.update g (key a) (val a)) g (key a) = val a := by
  induction l generalizing g with
  | nil => cases member
  | cons b l ih =>
    rw [List.map_cons, List.nodup_cons] at distinct
    rw [List.foldl_cons]
    rcases List.mem_cons.mp member with rfl | later
    · rw [foldl_update_of_notMem _ distinct.1, Function.update_self]
    · exact ih distinct.2 later _

end Updates

theorem applied_eq (s : Schema) (portBits : String → ℕ) (values : CycleOutputs s) (dut : String → ℕ) :
    applied s portBits values dut = s.outputs.foldl (fun dut f =>
      Function.update dut f.port (values.value f.name % 2 ^ portBits f.port)) dut := by
  rw [applied, applyOutputs, List.foldl_map]
  rfl

/-- Every output port holds its own field, converted to the port's type. -/
theorem applied_output {s : Schema} (portBits : String → ℕ) (values : CycleOutputs s) (dut : String → ℕ)
    {f : Field} (output : f ∈ s.outputs) :
    applied s portBits values dut f.port = values.value f.name % 2 ^ portBits f.port := by
  have distinct : (s.outputs.map Field.port).Nodup := by
    have ports := (List.nodup_cons.mp s.ports).2
    rw [List.map_append] at ports
    exact ports.of_append_right
  rw [applied_eq]
  exact foldl_update_of_mem distinct output dut

/-- The clock and the ports of the inputs are left alone. -/
theorem applied_other {s : Schema} (portBits : String → ℕ) (values : CycleOutputs s) (dut : String → ℕ)
    {port : String} (other : port ∉ s.outputs.map Field.port) : applied s portBits values dut port = dut port := by
  rw [applied_eq]
  exact foldl_update_of_notMem dut other

/-! ## What a setter drives -/

/-- The value of a field, under its own type. -/
def AbiType.write : AbiType → ℕ → WriteVal
  | .u8, n => .u8 (UInt8.ofNat n)
  | .u16, n => .u16 (UInt16.ofNat n)
  | .u32, n => .u32 (UInt32.ofNat n)
  | .u64, n => .u64 (UInt64.ofNat n)

/-- The setter of a field's type drives the value cut to the width. -/
theorem AbiType.set_write (type : AbiType) {n : ℕ} (typed : n < 2 ^ type.bits) (h : LogicHandle) :
    ∃ words, h.set (type.write n) = some words ∧ aPlane words = n % 2 ^ h.width ∧ bPlane words = 0 := by
  have wellBuilt : (type.write n).WellBuilt := by
    cases type <;> exact trivial
  have planes : (type.write n).planes = (n, 0) := by
    cases type with
    | u8 => exact Prod.ext (UInt8.toNat_ofNat_of_lt' typed) rfl
    | u16 => exact Prod.ext (UInt16.toNat_ofNat_of_lt' typed) rfl
    | u32 => exact Prod.ext (UInt32.toNat_ofNat_of_lt' typed) rfl
    | u64 => exact Prod.ext (UInt64.toNat_ofNat_of_lt' typed) rfl
  obtain ⟨words, set⟩ : ∃ words, h.set (type.write n) = some words := by
    cases type <;> exact ⟨_, rfl⟩
  refine ⟨words, set, ?_⟩
  rw [set_words wellBuilt set, aPlane_vecWords, bPlane_vecWords, WriteVal.resized, planes]
  refine ⟨mod_wordsFor h.width n, ?_⟩
  rw [Nat.zero_mod, Nat.zero_mod]

/-! ## Where the two agree -/

/-- The types that Verilator gives to ports: `CData`, `SData`, `IData` and `QData`. -/
structure PortTypes (s : Schema) (portBits : String → ℕ) : Prop where
  cData : ∀ f ∈ s.outputs, f.width ≤ 8 → portBits f.port = 8
  sData : ∀ f ∈ s.outputs, 8 < f.width → f.width ≤ 16 → portBits f.port = 16
  iData : ∀ f ∈ s.outputs, 16 < f.width → f.width ≤ 32 → portBits f.port = 32
  qData : ∀ f ∈ s.outputs, 32 < f.width → f.width ≤ 64 → portBits f.port = 64

theorem AbiType.bits_le (type : AbiType) : type.bits ≤ 64 := by cases type <;> decide

/-- The type of a port holds the port. -/
theorem PortTypes.width_le {s : Schema} {portBits : String → ℕ} (types : PortTypes s portBits) {f : Field}
    (output : f ∈ s.outputs) : f.width ≤ portBits f.port := by
  have fits : f.width ≤ 64 := f.fits.trans f.type.bits_le
  rcases Nat.lt_or_ge 8 f.width with above | small
  · rcases Nat.lt_or_ge 16 f.width with above' | small
    · rcases Nat.lt_or_ge 32 f.width with above'' | small
      · rw [types.qData f output above'' fits]
        exact fits
      · rw [types.iData f output above' small]
        exact small
    · rw [types.sData f output above small]
      exact small
  · rw [types.cData f output small]
    exact small

/-- Cutting a number to more bits makes no difference just when the bits between are zero. -/
theorem mod_two_pow_eq_iff {n width more : ℕ} (le : width ≤ more) :
    n % 2 ^ more = n % 2 ^ width ↔ ∀ i, width ≤ i → i < more → n.testBit i = false := by
  constructor
  · intro same i beyond inside
    have bit := congrArg (fun m => m.testBit i) same
    simpa only [Nat.testBit_mod_two_pow, inside, beyond.not_gt, decide_true, decide_false, Bool.true_and,
      Bool.false_and] using bit
  · intro zero
    apply Nat.eq_of_testBit_eq
    intro i
    rw [Nat.testBit_mod_two_pow, Nat.testBit_mod_two_pow]
    rcases Nat.lt_or_ge i width with low | beyond
    · rw [decide_eq_true low, decide_eq_true (low.trans_le le)]
    · rw [decide_eq_false beyond.not_gt, Bool.false_and]
      by_cases inside : i < more
      · rw [zero i beyond inside, Bool.and_false]
      · rw [decide_eq_false inside, Bool.false_and]

/-- The generated function drives every port with its field cut to the width, as the setters of the
VPI do, just when no field has a bit set between the width of its port and the type of its port. -/
theorem bindings_respect_widths_iff {repr : Json → String} {document : List (String × Json)} {s : Schema}
    (accepted : validate repr document = .ok s) {portBits : String → ℕ} (types : PortTypes s portBits)
    (values : CycleOutputs s) (dut : String → ℕ) :
    (∃ items, Json.get document "outputs" = .list items ∧ items.mapM (checkField repr "outputs") = .ok s.outputs) ∧
      ((∀ f ∈ s.outputs, applied s portBits values dut f.port = values.value f.name % 2 ^ f.width ∧
        applied s portBits values dut f.port < 2 ^ f.width ∧
        ∀ obj, ∃ words, LogicHandle.set ⟨obj, f.width⟩ (f.type.write (values.value f.name)) = some words ∧
          aPlane words = applied s portBits values dut f.port ∧ bPlane words = 0) ↔
      ∀ f ∈ s.outputs, ∀ i, f.width ≤ i → i < portBits f.port → (values.value f.name).testBit i = false) := by
  refine ⟨validate_outputs accepted, ?_⟩
  constructor
  · intro right f output
    have driven := (right f output).1
    rw [applied_output portBits values dut output] at driven
    exact (mod_two_pow_eq_iff (types.width_le output)).mp driven
  · intro zero f output
    have driven : applied s portBits values dut f.port = values.value f.name % 2 ^ f.width := by
      rw [applied_output portBits values dut output]
      exact (mod_two_pow_eq_iff (types.width_le output)).mpr (zero f output)
    refine ⟨driven, driven ▸ Nat.mod_lt _ (Nat.two_pow_pos _), fun obj => ?_⟩
    obtain ⟨words, set, value, known⟩ := f.type.set_write (values.typed f output) ⟨obj, f.width⟩
    exact ⟨words, set, value.trans driven.symm, known⟩

/-! ## A port of one bit -/

/-- A schema with one port each way. -/
def stream : List (String × Json) :=
  [("schema", .str "rustdv.cycle-schema/v1"), ("name", .str "stream_throughput"), ("top", .str "stream_bench"),
    ("clock", .str "clk"),
    ("inputs", .list [.dict [("name", .str "s_ready"), ("port", .str "s_ready"), ("type", .str "u8"), ("width", .int 1)]]),
    ("outputs", .list [.dict [("name", .str "s_valid"), ("port", .str "s_valid"), ("type", .str "u8"), ("width", .int 1)]])]

def sReady : Field := ⟨"s_ready", "s_ready", .u8, 1, by decide, by decide⟩

def sValid : Field := ⟨"s_valid", "s_valid", .u8, 1, by decide, by decide⟩

def streamSchema : Schema :=
  ⟨"stream_throughput", "stream_bench", "clk", [sReady], [sValid], by decide, by decide⟩

theorem validate_stream (repr : Json → String) : validate repr stream = .ok streamSchema := by
  rfl

theorem streamTypes : PortTypes streamSchema fun _ => 8 := by
  have one : ∀ f ∈ streamSchema.outputs, f.width = 1 := by
    intro f output
    rw [List.mem_singleton.mp output]
    rfl
  refine ⟨fun _ _ _ => rfl, ?_, ?_, ?_⟩ <;>
  · intro f output above
    rw [one f output] at above
    exact absurd above (by decide)

/-- Some byte for `s_valid`. -/
def validByte (n : ℕ) (small : n < 2 ^ 8) : CycleOutputs streamSchema where
  value := fun _ => n
  typed := by
    intro f output
    rw [List.mem_singleton.mp output]
    exact small

theorem bindings_respect_widths_one :
    applied streamSchema (fun _ => 8) (validByte 1 (by decide)) (fun _ => 0) "s_valid" = 1 := by
  refine (((bindings_respect_widths_iff (validate_stream fun _ => "") streamTypes (validByte 1 (by decide))
    (fun _ => 0)).2.mpr ?_) sValid (List.mem_singleton.mpr rfl)).1
  intro f _ i beyond _
  rw [List.mem_singleton.mp ‹f ∈ streamSchema.outputs›] at beyond
  exact Nat.testBit_lt_two_pow (Nat.one_lt_two_pow (Nat.one_le_iff_ne_zero.mp beyond))

/-- A model that raises `s_valid` with the value 2 drives 2 on a port of one bit, where the setter
drives 0. -/
theorem bindings_unmasked : ¬ ∀ (document : List (String × Json)) (s : Schema), validate (fun _ => "") document = .ok s →
    ∀ portBits, PortTypes s portBits → ∀ (values : CycleOutputs s) (dut : String → ℕ), ∀ f ∈ s.outputs,
      applied s portBits values dut f.port = values.value f.name % 2 ^ f.width := by
  intro always
  have zero := always stream streamSchema (validate_stream _) _ streamTypes (validByte 2 (by decide)) (fun _ => 0)
    sValid (List.mem_singleton.mpr rfl)
  exact absurd zero (by decide)

end Rustdv.Cycle
