import Mathlib.Data.List.Dedup
import Rustdv.Model.CycleBindings
import Rustdv.ToMathlib.RecordLayout

/-! # The structs of the bindings in memory

The generator computes where the fields of a struct are, and the C++ compiler asserts it; Rust lays out a
`repr(C)` struct by the same rule. The host and the model share the memory of both structs, in one
process. Before the build the generator also compares the schema with the ports that Verilator found, of
whose JSON the fields it reads are taken, in their types.
-/

namespace Rustdv.Cycle

open RecordLayout (Memory Var)

/-! ## Layout -/

/-- The alignments of `TYPE_INFO`. -/
def AbiType.align : AbiType → ℕ
  | .u8 => 1
  | .u16 => 2
  | .u32 => 4
  | .u64 => 8

/-- The variables of `layout`. -/
structure Layout where
  size : ℕ
  alignment : ℕ
  offsets : List ℕ
deriving DecidableEq, Repr

/-- The loop's body. -/
def Layout.add (l : Layout) (f : Field) : Layout :=
  let size := (l.size + f.type.align - 1) / f.type.align * f.type.align
  { offsets := l.offsets ++ [size], size := size + f.type.size, alignment := max l.alignment f.type.align }

def layout (fields : List Field) : Layout :=
  let l := fields.foldl Layout.add ⟨0, 1, []⟩
  { l with size := (l.size + l.alignment - 1) / l.alignment * l.alignment }

/-! ## Accesses -/

/-- The fields of a struct at an address. -/
def structAt (base : ℕ) (fields : List Field) : List (Field × Var String) :=
  List.zipWith (fun f offset => (f, ⟨f.name, base + offset, f.type.size⟩)) fields (layout fields).offsets

/-- The generated `capture_inputs`: every port is cast to the type of its field and stored. -/
def captureInputs (s : Schema) (ports : String → ℕ) (base : ℕ) (mem : Memory) : Memory :=
  (structAt base s.inputs).foldl (fun mem x => x.2.set mem (ports x.1.port)) mem

/-- The generated `apply_outputs` on the struct in memory. -/
def applyStruct (s : Schema) (portBits : String → ℕ) (base : ℕ) (mem : Memory) (dut : String → ℕ) : String → ℕ :=
  (structAt base s.outputs).foldl
    (fun dut x => Function.update dut x.1.port (x.2.get mem % 2 ^ portBits x.1.port)) dut

/-! ## The ports that Verilator found -/

/-- A statement of a module. -/
structure Stmt where
  type : String
  isPrimaryIO : Bool
  name : String
  direction : Option String
  dtypep : Option String

/-- An entry of the type table. -/
structure Dtype where
  addr : String
  type : Option String
  signed : Bool
  range : Option String

structure VModule where
  type : Option String
  level : Option ℤ
  name : Option String
  stmts : List Stmt

/-- `ports`: the primary inputs and outputs by name. -/
def VModule.ports (top : VModule) : List (String × Stmt) :=
  (top.stmts.filter fun item => item.type = "VAR" ∧ item.isPrimaryIO = true).map fun item => (item.name, item)

structure Misc where
  type : Option String
  types : List Dtype

structure VerilatorTree where
  modules : List VModule
  miscs : List Misc

/-- A dict built from pairs: of equal keys the last one stays. -/
def lastOf {V : Type} (pairs : List (String × V)) (key : String) : Option V := pairs.reverse.lookup key

structure Want where
  direction : String
  width : ℕ
deriving DecidableEq, Repr

/-- The ports that the schema expects: the inputs of the model are outputs of the design. -/
def Schema.expected (s : Schema) : List (String × Want) :=
  (s.clock, ⟨"INPUT", 1⟩) ::
    (s.inputs.map (fun f => (f.port, ⟨"OUTPUT", f.width⟩)) ++ s.outputs.map fun f => (f.port, ⟨"INPUT", f.width⟩))

/-- `-?\d+`, read by `int`. -/
def readInt (text : List Char) : Option ℤ :=
  let number (digits : List Char) : Option ℕ :=
    if digits ≠ [] ∧ digits.all Char.isDigit then some (digits.foldl (fun n c => 10 * n + (c.toNat - '0'.toNat)) 0)
    else none
  match text with
  | '-' :: digits => (number digits).map fun n => -(n : ℤ)
  | digits => (number digits).map fun n => (n : ℤ)

/-- The two bounds of a range. -/
def readRange (range : String) : Option (ℤ × ℤ) :=
  match range.toList.span (· ≠ ':') with
  | (left, ':' :: right) => (readInt left).bind fun l => (readInt right).map fun r => (l, r)
  | _ => none

/-- The width of a type that has no range, or one that can be read. -/
def Dtype.width (d : Dtype) : Option ℕ :=
  match d.range with
  | none => some 1
  | some range => (readRange range).map fun (l, r) => (l - r).natAbs + 1

namespace VerilatorTree

variable (repr : Json → String) -- what `!r` makes of a value

/-- The modules that are a top of the design. -/
def tops (tree : VerilatorTree) : List VModule :=
  tree.modules.filter fun m => m.type = some "MODULE" ∧ m.level = some 1

/-- `types`. -/
def types (tree : VerilatorTree) : List (String × Dtype) :=
  ((tree.miscs.filter fun item => item.type = some "TYPETABLE").flatMap Misc.types).map fun kind => (kind.addr, kind)

/-- The checks of one expected port. -/
def checkPort (tree : VerilatorTree) (name : String) (want : Want) (port : Stmt) : Except String Unit :=
  let direction := (port.direction.map Json.str).getD .null
  if port.direction ≠ some want.direction then
    .error s!"port {name} direction is {repr direction}, expected {want.direction}"
  else
    match port.dtypep.bind (lastOf tree.types) with
    | none => .error s!"port {name} has unsupported Verilator dtype"
    | some dtype =>
        if dtype.type ≠ some "BASICDTYPE" then .error s!"port {name} has unsupported Verilator dtype"
        else if dtype.signed then .error s!"port {name} is signed; cycle ABI fields are unsigned"
        else
          match dtype.width with
          | none => .error s!"port {name} has unsupported range {repr ((dtype.range.map Json.str).getD .null)}"
          | some width =>
              if width ≠ want.width then .error s!"port {name} width is {width}, expected {want.width}" else .ok ()

/-- The last loop. -/
def checkPorts (tree : VerilatorTree) (ports : List (String × Stmt)) : List (String × Want) → Except String Unit
  | [] => .ok ()
  | (name, want) :: rest =>
      match lastOf ports name with
      | none => .error s!"KeyError: {repr (.str name)}"
      | some port =>
          match tree.checkPort repr name want port with
          | .error e => .error e
          | .ok () => checkPorts tree ports rest

/-- `sorted(set(these) - set(those))`, in a message. -/
def without (these those : List String) : String :=
  repr (.list (((these.dedup.filter (· ∉ those)).mergeSort fun a b => decide (a ≤ b)).map .str))

/-- `validate_verilator_json`, on a schema that `validate` accepts. -/
def validate (tree : VerilatorTree) (s : Schema) : Except String Unit :=
  let mismatch :=
    let actual := tree.tops.map fun m => (m.name.map Json.str).getD .null
    s!"schema top {repr (.str s.top)} does not match Verilator top {repr (.list actual)}"
  match tree.tops with
  | [top] =>
      if top.name ≠ some s.top then .error mismatch
      else
        let found := top.ports.map Prod.fst
        let expected := s.expected.map Prod.fst
        if found ⊆ expected ∧ expected ⊆ found then tree.checkPorts repr top.ports s.expected
        else
          .error s!"cycle schema/top port mismatch: missing={without repr expected found}, extra={without repr found expected}"
  | _ => .error mismatch

end VerilatorTree

end Rustdv.Cycle
