import Rustdv.Model.CycleAbi
import Rustdv.Soundness.PortWidths

/-! # One cycle through the memory of the bindings

The computed layout is the least one, its fields are variables of a record, and the schema's fields are
the ports of the design. So a cycle carries every port's value through the structs.
-/

namespace Rustdv.Cycle

open RecordLayout

/-! ## The layout -/

theorem AbiType.align_pos (t : AbiType) : 0 < t.align := by cases t <;> decide

def Field.slot (f : Field) : Slot := ⟨f.type.size, f.type.align, f.type.align_pos⟩

/-- The loop places the fields. -/
theorem foldl_add (fields : List Field) (l : Layout) :
    (fields.foldl Layout.add l).offsets = l.offsets ++ (place l.size (fields.map Field.slot)).1.map Prod.snd ∧
      (fields.foldl Layout.add l).size = (place l.size (fields.map Field.slot)).2 := by
  induction fields generalizing l with
  | nil => exact ⟨(List.append_nil _).symm, rfl⟩
  | cons f fields ih =>
    obtain ⟨offsets, size⟩ := ih (l.add f)
    rw [List.foldl_cons, List.map_cons, place_cons]
    refine ⟨offsets.trans ?_, size⟩
    rw [List.map_cons, Layout.add, List.append_assoc]
    rfl

/-- The alignment is one of the fields', or what it was, and all of them divide it. -/
theorem foldl_alignment (fields : List Field) {l : Layout} (was : ∃ k, l.alignment = 2 ^ k) :
    l.alignment ∣ (fields.foldl Layout.add l).alignment ∧
      (∀ f ∈ fields, f.type.align ∣ (fields.foldl Layout.add l).alignment) ∧
      ∀ a, l.alignment ∣ a → (∀ f ∈ fields, f.type.align ∣ a) → (fields.foldl Layout.add l).alignment ∣ a := by
  induction fields generalizing l with
  | nil => exact ⟨Nat.dvd_refl _, by simp, fun a divides _ => divides⟩
  | cons f fields ih =>
    obtain ⟨k, power⟩ := was
    obtain ⟨j, size⟩ : ∃ j, f.type.align = 2 ^ j := by
      cases f.type
      exacts [⟨0, rfl⟩, ⟨1, rfl⟩, ⟨2, rfl⟩, ⟨3, rfl⟩]
    have next : (l.add f).alignment = 2 ^ max k j := by
      rw [Layout.add, power, size]
      rcases Nat.le_total k j with le | le
      · rw [Nat.max_eq_right le, Nat.max_eq_right (Nat.pow_le_pow_right (by decide) le)]
      · rw [Nat.max_eq_left le, Nat.max_eq_left (Nat.pow_le_pow_right (by decide) le)]
    obtain ⟨above, all, least⟩ := ih ⟨_, next⟩
    rw [next] at above least
    refine ⟨?_, List.forall_mem_cons.mpr ⟨?_, all⟩, fun a divides each => ?_⟩
    · rw [power]
      exact (Nat.pow_dvd_pow 2 (Nat.le_max_left k j)).trans above
    · rw [size]
      exact (Nat.pow_dvd_pow 2 (Nat.le_max_right k j)).trans above
    · apply least a _ fun g member => each g (List.mem_cons_of_mem f member)
      rcases Nat.le_total k j with le | le
      · rw [Nat.max_eq_right le, ← size]
        exact each f List.mem_cons_self
      · rw [Nat.max_eq_left le, ← power]
        exact divides

theorem layout_offsets (fields : List Field) :
    (layout fields).offsets = (place 0 (fields.map Field.slot)).1.map Prod.snd := (foldl_add fields ⟨0, 1, []⟩).1

theorem layout_alignment (fields : List Field) :
    0 < (layout fields).alignment ∧ (∀ f ∈ fields, f.type.align ∣ (layout fields).alignment) ∧
      ∀ a, (∀ f ∈ fields, f.type.align ∣ a) → (layout fields).alignment ∣ a := by
  obtain ⟨-, divide, least⟩ := @foldl_alignment fields ⟨0, 1, []⟩ ⟨0, rfl⟩
  refine ⟨?_, divide, fun a each => least a (Nat.one_dvd a) each⟩
  exact Nat.pos_of_dvd_of_pos (least 8 (Nat.one_dvd 8) fun f _ => by cases f.type <;> decide) (by decide)

theorem layout_size (fields : List Field) :
    (layout fields).size = roundUp (place 0 (fields.map Field.slot)).2 (layout fields).alignment := by
  rw [← (foldl_add fields ⟨0, 1, []⟩).2]
  rfl

theorem place_le_size (fields : List Field) : (place 0 (fields.map Field.slot)).2 ≤ (layout fields).size := by
  rw [layout_size]
  exact le_roundUp (layout_alignment fields).1

/-- The fields stand at aligned offsets, in order and apart, within a size that the
alignment divides; no layout of the same fields in the same order has a lower offset, size or alignment. -/
theorem layout_least (fields : List Field) :
    (layout fields).offsets.length = fields.length ∧
      Laid 0 ((fields.map Field.slot).zip (layout fields).offsets) (layout fields).size ∧
      (layout fields).alignment ∣ (layout fields).size ∧ (∀ f ∈ fields, f.type.align ∣ (layout fields).alignment) ∧
      ∀ placed size alignment, placed.map Prod.fst = fields.map Field.slot → Laid 0 placed size →
        (∀ f ∈ fields, f.type.align ∣ alignment) → alignment ∣ size →
          List.Forall₂ (· ≤ ·) (layout fields).offsets (placed.map Prod.snd) ∧ (layout fields).size ≤ size ∧
            (layout fields).alignment ∣ alignment := by
  obtain ⟨pos, divide, least⟩ := layout_alignment fields
  have laid := place_laid 0 (fields.map Field.slot)
  have pairs : (fields.map Field.slot).zip (layout fields).offsets = (place 0 (fields.map Field.slot)).1 := by
    rw [layout_offsets]
    nth_rewrite 1 [← place_fst 0 (fields.map Field.slot)]
    exact (List.zip_of_prod rfl rfl).symm
  refine ⟨?_, ?_, ?_, divide, fun placed size alignment slots others all stands => ?_⟩
  · rw [layout_offsets, List.length_map, ← List.length_map Prod.fst, place_fst, List.length_map]
  · rw [pairs]
    exact { laid with
      inside := fun x member => (laid.inside x member).trans (place_le_size fields)
      order := Nat.zero_le _ }
  · rw [layout_size]
    exact dvd_roundUp _ _
  · obtain ⟨lower, shorter⟩ := place_least others (Nat.le_refl 0)
    have divides := least alignment all
    rw [slots] at lower shorter
    refine ⟨?_, ?_, divides⟩
    · rw [layout_offsets, List.forall₂_map_left_iff, List.forall₂_map_right_iff]
      exact lower.imp fun _ _ both => both.2
    · rw [layout_size]
      exact roundUp_le pos shorter (divides.trans stands)

/-! ## The structs as records -/

/-- The fields of a struct as they are placed from some offset on. -/
theorem placed_fields (base start : ℕ) (fields : List Field) (distinct : (fields.map Field.name).Nodup) :
    let l := List.zipWith (fun f offset => ((f, ⟨f.name, base + offset, f.type.size⟩) : Field × Var String)) fields
      ((place start (fields.map Field.slot)).1.map Prod.snd)
    l.map Prod.fst = fields ∧ Separate (l.map Prod.snd) ∧
      ∀ x ∈ l, x.2.name = x.1.name ∧ x.2.size = x.1.type.size ∧ base + start ≤ x.2.start ∧
        x.2.start + x.2.size ≤ base + (place start (fields.map Field.slot)).2 := by
  induction fields generalizing start with
  | nil => exact ⟨rfl, List.Pairwise.nil, by simp⟩
  | cons f fields ih =>
    rw [List.map_cons, List.nodup_cons] at distinct
    have first : start ≤ roundUp start f.slot.align := le_roundUp f.slot.pos
    have order := (place_laid (roundUp start f.slot.align + f.slot.size) (fields.map Field.slot)).order
    obtain ⟨names, separate, placed⟩ := ih (roundUp start f.slot.align + f.slot.size) distinct.2
    rw [List.map_cons, place_cons]
    dsimp only
    rw [List.map_cons, List.zipWith_cons_cons]
    refine ⟨congrArg (f :: ·) names, List.pairwise_cons.mpr ⟨fun v member => ?_, separate⟩,
      List.forall_mem_cons.mpr ⟨⟨rfl, rfl, Nat.add_le_add_left first base, ?_⟩, fun x member => ?_⟩⟩
    · obtain ⟨x, there, rfl⟩ := List.mem_map.mp member
      obtain ⟨name, -, above, -⟩ := placed x there
      refine ⟨fun same => distinct.1 ?_, Or.inl ?_⟩
      · have listed := List.mem_map_of_mem (f := Field.name) (names ▸ List.mem_map_of_mem (f := Prod.fst) there)
        rwa [← name, ← same] at listed
      · exact (Nat.add_assoc ..).trans_le above
    · exact (Nat.add_assoc ..).trans_le (Nat.add_le_add_left order base)
    · obtain ⟨name, size, above, inside⟩ := placed x member
      refine ⟨name, size, ?_, inside⟩
      omega

/-- The bytes of a struct. -/
def Inside (base : ℕ) (fields : List Field) (p : ℕ) : Prop := base ≤ p ∧ p < base + (layout fields).size

section Struct

variable {base : ℕ} {fields : List Field} (distinct : (fields.map Field.name).Nodup)

include distinct in
theorem structAt_fields (base : ℕ) : (structAt base fields).map Prod.fst = fields := by
  rw [structAt, layout_offsets]
  exact (placed_fields base 0 fields distinct).1

include distinct in
theorem structAt_separate : Separate ((structAt base fields).map Prod.snd) := by
  rw [structAt, layout_offsets]
  exact (placed_fields base 0 fields distinct).2.1

include distinct in
/-- A field's bytes are its own name's and its type's, and inside of the struct. -/
theorem structAt_mem {x : Field × Var String} (member : x ∈ structAt base fields) :
    x.2.name = x.1.name ∧ x.2.size = x.1.type.size ∧ ∀ p, x.2.start ≤ p → p < x.2.start + x.2.size → Inside base fields p := by
  rw [structAt, layout_offsets] at member
  obtain ⟨name, size, above, inside⟩ := (placed_fields base 0 fields distinct).2.2 x member
  have ends := place_le_size fields
  refine ⟨name, size, fun p low high => ⟨?_, ?_⟩⟩ <;> omega

include distinct in
theorem structAt_record {mem : Memory} {x : Field × Var String} (member : x ∈ structAt base fields) :
    record mem ((structAt base fields).map Prod.snd) x.1.name = x.2.get mem := by
  rw [← (structAt_mem distinct member).1]
  exact record_name (structAt_separate distinct) (List.mem_map_of_mem member)

include distinct in
/-- After stores into its fields the struct holds the assigned record, and no other byte has changed. -/
theorem struct_stores {mem : Memory} {writes : List (Var String × ℕ)}
    (known : ∀ write ∈ writes, write.1 ∈ (structAt base fields).map Prod.snd) :
    (∀ x ∈ structAt base fields, x.2.get (stores mem writes) =
      assign (record mem ((structAt base fields).map Prod.snd)) writes x.1.name) ∧
      ∀ p, ¬ Inside base fields p → stores mem writes p = mem p := by
  refine ⟨fun x member => ?_, fun p outside => stores_outside known fun v listed => ?_⟩
  · rw [← (structAt_mem distinct member).1]
    exact get_stores (structAt_separate distinct) known
      (fun v listed => (record_name (structAt_separate distinct) listed).symm) x.2 (List.mem_map_of_mem member)
  · obtain ⟨x, member, rfl⟩ := List.mem_map.mp listed
    by_contra within
    exact outside ((structAt_mem distinct member).2.2 p (by omega) (by omega))

/-- A struct is not changed by what is written elsewhere. -/
theorem get_congr {mem mem' : Memory} (distinct : (fields.map Field.name).Nodup)
    (same : ∀ p, Inside base fields p → mem p = mem' p) {x : Field × Var String} (member : x ∈ structAt base fields) :
    x.2.get mem = x.2.get mem' :=
  load_congr fun p low high => same p ((structAt_mem distinct member).2.2 p low high)

end Struct

theorem Schema.input_names (s : Schema) : (s.inputs.map Field.name).Nodup := by
  have names := s.names
  rw [List.map_append] at names
  exact names.of_append_left

theorem Schema.output_names (s : Schema) : (s.outputs.map Field.name).Nodup := by
  have names := s.names
  rw [List.map_append] at names
  exact names.of_append_right

/-- What the outputs struct holds. -/
def held (s : Schema) (base : ℕ) (mem : Memory) : CycleOutputs s where
  value := record mem ((structAt base s.outputs).map Prod.snd)
  typed f output := by
    rw [← structAt_fields s.output_names base] at output
    obtain ⟨x, member, rfl⟩ := List.mem_map.mp output
    rw [structAt_record s.output_names member, AbiType.bits, Nat.mul_comm, ← (structAt_mem s.output_names member).2.1]
    exact load_lt ..

/-- The generated function hands the held record to the design. -/
theorem applyStruct_eq (s : Schema) (portBits : String → ℕ) (base : ℕ) (mem : Memory) (dut : String → ℕ) :
    applyStruct s portBits base mem dut = applied s portBits (held s base mem) dut := by
  rw [applied_eq, applyStruct]
  nth_rewrite 2 [← structAt_fields s.output_names base]
  rw [List.foldl_map]
  exact List.foldl_ext _ _ _ fun dut x member => by
    rw [← structAt_record s.output_names member]
    rfl

/-- The capture leaves each port, cast to its field's type, in its field, and no other byte changed. -/
theorem capture_spec (s : Schema) (ports : String → ℕ) (base : ℕ) (mem : Memory) :
    (∀ x ∈ structAt base s.inputs, x.2.get (captureInputs s ports base mem) = ports x.1.port % 2 ^ x.1.type.bits) ∧
      ∀ p, ¬ Inside base s.inputs p → captureInputs s ports base mem p = mem p := by
  have writes : captureInputs s ports base mem = stores mem ((structAt base s.inputs).map fun x => (x.2, ports x.1.port)) := by
    rw [stores, List.foldl_map]
    rfl
  have known : ∀ write ∈ (structAt base s.inputs).map fun x => (x.2, ports x.1.port),
      write.1 ∈ (structAt base s.inputs).map Prod.snd := by
    intro write listed
    obtain ⟨x, member, rfl⟩ := List.mem_map.mp listed
    exact List.mem_map_of_mem member
  obtain ⟨gets, frame⟩ := @struct_stores base s.inputs s.input_names mem _ known
  rw [writes]
  refine ⟨fun x member => ?_, frame⟩
  have names : ((structAt base s.inputs).map fun x => x.2.name).Nodup := by
    rw [List.map_congr_left fun x member => (structAt_mem s.input_names member).1]
    have all := s.input_names
    rwa [← structAt_fields s.input_names base, List.map_map] at all
  obtain ⟨name, size, -⟩ := structAt_mem s.input_names member
  rw [gets x member, assign, List.foldl_map, ← name]
  exact (foldl_update_of_mem names member _).trans (by rw [size, AbiType.bits, Nat.mul_comm])

/-! ## The ports of the design -/

/-- Verilator found a port of this direction and width, unsigned. -/
def VerilatorTree.Declares (tree : VerilatorTree) (name : String) (want : Want) : Prop :=
  ∃ top ∈ tree.tops, ∃ port dtype, lastOf top.ports name = some port ∧ port.direction = some want.direction ∧
    port.dtypep.bind (lastOf tree.types) = some dtype ∧ dtype.signed = false ∧ dtype.width = some want.width

section Validated

variable {repr : Json → String} {tree : VerilatorTree} {s : Schema}

theorem checkPort_ok {name : String} {want : Want} {port : Stmt} (checked : tree.checkPort repr name want port = .ok ()) :
    port.direction = some want.direction ∧ ∃ dtype, port.dtypep.bind (lastOf tree.types) = some dtype ∧
      dtype.signed = false ∧ dtype.width = some want.width := by
  rw [VerilatorTree.checkPort] at checked
  split_ifs at checked with direction
  split at checked
  · cases checked
  next dtype found =>
    split_ifs at checked with type signed
    split at checked
    · cases checked
    next width read =>
      split_ifs at checked with fits
      simp only [ne_eq, Decidable.not_not] at direction fits
      exact ⟨direction, dtype, found, by simpa using signed, fits ▸ read⟩

theorem checkPorts_ok {ports : List (String × Stmt)} {expected : List (String × Want)}
    (checked : tree.checkPorts repr ports expected = .ok ()) :
    ∀ want ∈ expected, ∃ port, lastOf ports want.1 = some port ∧ tree.checkPort repr want.1 want.2 port = .ok () := by
  induction expected with
  | nil => simp
  | cons want expected ih =>
    rw [VerilatorTree.checkPorts] at checked
    split at checked
    · cases checked
    next port found =>
      split at checked
      · cases checked
      next own => exact List.forall_mem_cons.mpr ⟨⟨port, found, own⟩, ih checked⟩

/-- What is accepted: one top of the schema's name, whose ports are those of the schema. -/
theorem validate_ok (found : tree.validate repr s = .ok ()) :
    ∃ top, tree.tops = [top] ∧ top.name = some s.top ∧
      (∀ name, name ∈ top.ports.map Prod.fst ↔ name ∈ s.expected.map Prod.fst) ∧
      ∀ want ∈ s.expected, tree.Declares want.1 want.2 := by
  rw [VerilatorTree.validate] at found
  dsimp only at found
  split at found
  next top tops =>
    split_ifs at found with name same
    refine ⟨top, tops, by simpa using name, fun name => ⟨(same.1 ·), (same.2 ·)⟩, fun want member => ?_⟩
    obtain ⟨port, listed, checked⟩ := checkPorts_ok found want member
    obtain ⟨direction, dtype, typed, signed, width⟩ := checkPort_ok checked
    exact ⟨top, tops ▸ List.mem_singleton_self top, port, dtype, listed, direction, typed, signed, width⟩
  · cases found

theorem lastOf_mem {V : Type} {pairs : List (String × V)} {key : String} {v : V} (last : lastOf pairs key = some v) :
    key ∈ pairs.map Prod.fst := by
  obtain ⟨before, after, split, -⟩ := List.lookup_eq_some_iff.mp last
  have member : (key, v) ∈ pairs.reverse := by
    rw [split]
    exact List.mem_append_right before List.mem_cons_self
  exact List.mem_map_of_mem (f := Prod.fst) (List.mem_reverse.mp member)

/-- The declared ports are the expected ones. -/
theorem declares_iff (found : tree.validate repr s = .ok ()) {name : String} {want : Want} :
    tree.Declares name want ↔ (name, want) ∈ s.expected := by
  obtain ⟨top, tops, -, names, all⟩ := validate_ok found
  refine ⟨?_, fun member => all _ member⟩
  rintro ⟨top', there, port, dtype, listed, direction, typed, -, width⟩
  obtain rfl : top' = top := by simpa [tops] using there
  obtain ⟨⟨name', want'⟩, member, rfl⟩ := List.mem_map.mp ((names name).mp (lastOf_mem listed))
  obtain ⟨top'', here, port', dtype', listed', direction', typed', -, width'⟩ := all _ member
  obtain rfl : top'' = top' := by simpa [tops] using here
  obtain rfl : port = port' := Option.some_inj.mp (listed.symm.trans listed')
  obtain rfl : dtype = dtype' := Option.some_inj.mp (typed.symm.trans typed')
  have directions : want.direction = want'.direction := Option.some_inj.mp (direction.symm.trans direction')
  have widths : want.width = want'.width := Option.some_inj.mp (width.symm.trans width')
  obtain rfl : want = want' := by
    cases want
    cases want'
    simp_all only
  exact member

theorem declares_output_iff (found : tree.validate repr s = .ok ()) {name : String} {width : ℕ} :
    tree.Declares name ⟨"OUTPUT", width⟩ ↔ ∃ f ∈ s.inputs, f.port = name ∧ f.width = width := by
  rw [declares_iff found]
  simp [Schema.expected]

theorem declares_input_iff (found : tree.validate repr s = .ok ()) {name : String} {width : ℕ} :
    tree.Declares name ⟨"INPUT", width⟩ ↔
      name = s.clock ∧ width = 1 ∨ ∃ f ∈ s.outputs, f.port = name ∧ f.width = width := by
  rw [declares_iff found]
  simp [Schema.expected]

end Validated

theorem Schema.port_inj (s : Schema) {f g : Field} (here : f ∈ s.inputs ++ s.outputs) (there : g ∈ s.inputs ++ s.outputs)
    (same : f.port = g.port) : f = g :=
  List.inj_on_of_nodup_map (List.nodup_cons.mp s.ports).2 here there same

theorem Schema.port_ne_clock (s : Schema) {f : Field} (member : f ∈ s.inputs ++ s.outputs) : f.port ≠ s.clock :=
  fun same => (List.nodup_cons.mp s.ports).1 (same ▸ List.mem_map_of_mem member)

/-- Once the schema is accepted against Verilator's ports, the capture leaves the value
of each output of the design in the one field that is bound to it, and the model's stores leave it there; and the
design's inputs other than the clock, and no other port, are driven with what the one field bound to them then holds.
Outside of the two structs nothing is written. -/
theorem cycle_carried {repr : Json → String} {tree : VerilatorTree} {s : Schema} (found : tree.validate repr s = .ok ())
    {ports : String → ℕ} (fits : ∀ name want, tree.Declares name want → ports name < 2 ^ want.width) {a b : ℕ}
    (apart : ∀ p, Inside a s.inputs p → ¬ Inside b s.outputs p) (mem : Memory) {writes : List (Var String × ℕ)}
    (known : ∀ write ∈ writes, write.1 ∈ (structAt b s.outputs).map Prod.snd) (portBits dut : String → ℕ) :
    let captured := captureInputs s ports a mem
    let stepped := stores captured writes
    let before := record mem ((structAt b s.outputs).map Prod.snd)
    (∀ name width, tree.Declares name ⟨"OUTPUT", width⟩ →
      ∃ x ∈ structAt a s.inputs, x.1.port = name ∧ (∀ f ∈ s.inputs ++ s.outputs, f.port = name → f = x.1) ∧
        x.2.get captured = ports name ∧ x.2.get stepped = ports name) ∧
      (∀ name width, tree.Declares name ⟨"INPUT", width⟩ → name ≠ s.clock →
        ∃ f ∈ s.outputs, f.port = name ∧ (∀ g ∈ s.inputs ++ s.outputs, g.port = name → g = f) ∧
          applyStruct s portBits b stepped dut name = assign before writes f.name % 2 ^ portBits name) ∧
      (∀ name, (∀ width, tree.Declares name ⟨"INPUT", width⟩ → name = s.clock) →
        applyStruct s portBits b stepped dut name = dut name) ∧
      ∀ p, ¬ Inside a s.inputs p → ¬ Inside b s.outputs p → stepped p = mem p := by
  intro captured stepped before
  obtain ⟨loads, capturedFrame⟩ := capture_spec s ports a mem
  obtain ⟨gets, steppedFrame⟩ := @struct_stores b s.outputs s.output_names captured writes known
  have kept : record captured ((structAt b s.outputs).map Prod.snd) = before := by
    refine record_congr fun v listed => ?_
    obtain ⟨x, member, rfl⟩ := List.mem_map.mp listed
    exact get_congr s.output_names (fun p within => capturedFrame p fun there => apart p there within) member
  refine ⟨fun name width declared => ?_, fun name width declared other => ?_, fun name undeclared => ?_,
    fun p outside within => (steppedFrame p within).trans (capturedFrame p outside)⟩
  · obtain ⟨f, input, rfl, rfl⟩ := (declares_output_iff found).mp declared
    rw [← structAt_fields s.input_names a] at input
    obtain ⟨x, member, rfl⟩ := List.mem_map.mp input
    have small : ports x.1.port < 2 ^ x.1.type.bits :=
      (fits _ _ declared).trans_le (Nat.pow_le_pow_right (by decide) x.1.fits)
    have value : x.2.get captured = ports x.1.port := (loads x member).trans (Nat.mod_eq_of_lt small)
    have listed : x.1 ∈ s.inputs ++ s.outputs := by
      rw [structAt_fields s.input_names] at input
      exact List.mem_append_left _ input
    refine ⟨x, member, rfl, fun f there same => s.port_inj there listed same, value, ?_⟩
    rw [← value]
    exact get_congr s.input_names (fun p within => steppedFrame p (apart p within)) member
  · obtain ⟨rfl, -⟩ | ⟨f, output, rfl, rfl⟩ := (declares_input_iff found).mp declared
    · exact absurd rfl other
    have listed : f ∈ s.inputs ++ s.outputs := List.mem_append_right _ output
    refine ⟨f, output, rfl, fun g there same => s.port_inj there listed same, ?_⟩
    rw [applyStruct_eq, applied_output _ _ _ output]
    rw [← structAt_fields s.output_names b] at output
    obtain ⟨x, member, rfl⟩ := List.mem_map.mp output
    rw [← kept, ← gets x member, held, ← structAt_record s.output_names member]
  · rw [applyStruct_eq]
    refine applied_other _ _ _ fun bound => ?_
    obtain ⟨f, output, rfl⟩ := List.mem_map.mp bound
    exact s.port_ne_clock (List.mem_append_right _ output)
      (undeclared f.width ((declares_input_iff found).mpr (Or.inr ⟨f, output, rfl, rfl⟩)))

/-! ## A design with one port each way -/

def counterSchema : Schema :=
  ⟨"counter", "counter", "clk", [⟨"count", "count_q", .u16, 12, by decide, by decide⟩],
    [⟨"step", "step", .u8, 5, by decide, by decide⟩], by decide, by decide⟩

def counterTree : VerilatorTree :=
  let port (name direction addr : String) : Stmt := ⟨"VAR", true, name, some direction, some addr⟩
  ⟨[⟨some "MODULE", some 1, some "counter",
      [port "clk" "INPUT" "(B)", port "step" "INPUT" "(D)", port "count_q" "OUTPUT" "(C)"]⟩],
    [⟨some "TYPETABLE", [⟨"(B)", some "BASICDTYPE", false, none⟩, ⟨"(C)", some "BASICDTYPE", false, some "11:0"⟩,
      ⟨"(D)", some "BASICDTYPE", false, some "4:0"⟩]⟩]⟩

/-- The model stores the next step twice. -/
theorem cycle_carried_counter :
    let captured := captureInputs counterSchema (fun _ => 1) 16 fun _ => 0
    let stepped := stores captured [(⟨"step", 32, 1⟩, 9), (⟨"step", 32, 1⟩, 5)]
    (∃ x ∈ structAt 16 counterSchema.inputs, x.1.port = "count_q" ∧ x.2.get stepped = 1) ∧
      applyStruct counterSchema (fun _ => 8) 32 stepped (fun _ => 0) "step" = 5 ∧
      applyStruct counterSchema (fun _ => 8) 32 stepped (fun _ => 0) "clk" = 0 := by
  have found : counterTree.validate (fun _ => "") counterSchema = .ok () := by decide +kernel
  have fits : ∀ name want, counterTree.Declares name want → 1 < 2 ^ want.width := by
    intro name want declared
    have wide : ∀ e ∈ counterSchema.expected, 1 < 2 ^ e.2.width := by decide
    exact wide _ ((declares_iff found).mp declared)
  have apart : ∀ p, Inside 16 counterSchema.inputs p → ¬ Inside 32 counterSchema.outputs p := by
    rintro p ⟨-, high⟩ ⟨low, -⟩
    have size : (layout counterSchema.inputs).size = 2 := by decide
    omega
  have known : ∀ write ∈ [((⟨"step", 32, 1⟩ : Var String), 9), (⟨"step", 32, 1⟩, 5)],
      write.1 ∈ (structAt 32 counterSchema.outputs).map Prod.snd := by
    have only : (structAt 32 counterSchema.outputs).map Prod.snd = [⟨"step", 32, 1⟩] := rfl
    rw [only]
    simp
  obtain ⟨outputs, inputs, others, -⟩ := @cycle_carried _ _ _ found _ fits 16 32 apart (fun _ => 0) _ known
    (fun _ => 8) (fun _ => 0)
  obtain ⟨x, member, port, -, -, value⟩ := outputs "count_q" 12 ((declares_iff found).mpr (by decide))
  obtain ⟨f, listed, bound, -, driven⟩ := inputs "step" 5 ((declares_iff found).mpr (by decide)) (by decide)
  obtain rfl := List.mem_singleton.mp listed
  refine ⟨⟨x, member, port, value⟩, driven, others "clk" fun width declared => rfl⟩

end Rustdv.Cycle
