import Mathlib.Algebra.Group.Nat.Defs
import Mathlib.Data.Int.Notation
import Mathlib.Data.List.Perm.Basic
import Mathlib.Logic.Function.Basic

/-! # The bindings of a cycle schema

A JSON schema names the ports of a design and the fields that carry them. What the generator accepts
is a schema whose fields fit their types and share no name and no port. From its outputs it makes a
struct and the function that hands the struct to the verilated design.
-/

namespace Rustdv.Cycle

/-- A value that `json.loads` makes. -/
inductive Json where
  | null
  | bool (b : Bool)
  | int (n : ℤ)
  /-- A float, by its text. -/
  | float (text : String)
  | str (s : String)
  | list (items : List Json)
  | dict (members : List (String × Json))

/-- `dict.get`: of equal keys `json.loads` keeps the last, and a missing one is `None`. -/
def Json.get (members : List (String × Json)) (key : String) : Json :=
  (members.reverse.lookup key).getD .null

/-- `IDENTIFIER.fullmatch`. -/
def isIdentifier (s : String) : Bool :=
  match s.toList with
  | [] => false
  | c :: rest => (c.isAlpha || c == '_') && rest.all fun c => c.isAlphanum || c == '_'

/-- An exception of the generator. -/
inductive Raised where
  | valueError (text : String)
  /-- A list or a dict as the key of a lookup. -/
  | typeError
deriving DecidableEq, Repr

inductive AbiType where
  | u8
  | u16
  | u32
  | u64
deriving DecidableEq, Repr

namespace AbiType

/-- The sizes of `TYPE_INFO`. -/
def size : AbiType → ℕ
  | .u8 => 1
  | .u16 => 2
  | .u32 => 4
  | .u64 => 8

def name : AbiType → String
  | .u8 => "u8"
  | .u16 => "u16"
  | .u32 => "u32"
  | .u64 => "u64"

def bits (t : AbiType) : ℕ := t.size * 8

/-- The keys of `TYPE_INFO`. -/
def ofName (s : String) : Option AbiType := [u8, u16, u32, u64].find? fun t => t.name == s

end AbiType

/-- A field of the schema, bound to a port. -/
structure Field where
  name : String
  port : String
  type : AbiType
  width : ℕ
  pos : 1 ≤ width
  fits : width ≤ type.bits

inductive Direction where
  | inputs
  | outputs
deriving DecidableEq, Repr

/-- What has been accepted of a schema. -/
structure Schema where
  name : String
  top : String
  clock : String
  inputs : List Field
  outputs : List Field
  names : ((inputs ++ outputs).map Field.name).Nodup
  ports : (clock :: (inputs ++ outputs).map Field.port).Nodup

namespace Schema

/-- The clock is a port of its own. -/
def start (name top clock : String) : Schema := ⟨name, top, clock, [], [], by simp, by simp⟩

/-- `seen_names`. -/
def seenNames (s : Schema) : List String := (s.inputs ++ s.outputs).map Field.name

/-- `seen_ports`. -/
def seenPorts (s : Schema) : List String := s.clock :: (s.inputs ++ s.outputs).map Field.port

/-- Where a field comes to stand does not matter for what has been seen. -/
theorem fields_perm (inputs outputs : List Field) (f : Field) :
    List.Perm (inputs ++ [f] ++ outputs) (f :: (inputs ++ outputs)) := by
  rw [List.append_assoc]
  exact List.perm_middle

theorem nodup_names (s : Schema) {f : Field} (fresh : f.name ∉ s.seenNames) {fields : List Field}
    (perm : List.Perm fields (f :: (s.inputs ++ s.outputs))) : (fields.map Field.name).Nodup := by
  rw [(perm.map Field.name).nodup_iff, List.map_cons]
  exact List.nodup_cons.mpr ⟨fresh, s.names⟩

theorem nodup_ports (s : Schema) {f : Field} (fresh : f.port ∉ s.seenPorts) {fields : List Field}
    (perm : List.Perm fields (f :: (s.inputs ++ s.outputs))) : (s.clock :: fields.map Field.port).Nodup := by
  rw [((perm.map Field.port).cons s.clock).nodup_iff, List.map_cons, (List.Perm.swap _ _ _).nodup_iff]
  exact List.nodup_cons.mpr ⟨fresh, s.ports⟩

/-- The end of the loop's body: duplicates are refused, and the field has been seen. -/
def push (s : Schema) (d : Direction) (f : Field) : Except Raised Schema :=
  if seen : f.name ∈ s.seenNames then .error (.valueError s!"duplicate field name {f.name}")
  else if bound : f.port ∈ s.seenPorts then .error (.valueError s!"duplicate port binding {f.port}")
  else match d with
    | .inputs => .ok ⟨s.name, s.top, s.clock, s.inputs ++ [f], s.outputs,
        s.nodup_names seen (fields_perm _ _ f), s.nodup_ports bound (fields_perm _ _ f)⟩
    | .outputs => .ok ⟨s.name, s.top, s.clock, s.inputs, s.outputs ++ [f],
        s.nodup_names seen ((List.append_assoc _ _ _).symm ▸ List.perm_append_singleton f _),
        s.nodup_ports bound ((List.append_assoc _ _ _).symm ▸ List.perm_append_singleton f _)⟩

end Schema

section Validate

variable (repr : Json → String) -- what `!r` makes of a value

/-- The checks of one field that do not look at the others. -/
def checkField (direction : String) (field : Json) : Except Raised Field := do
  let .dict members := field | .error (.valueError s!"invalid {direction} field")
  let name := Json.get members "name"
  let port := Json.get members "port"
  let kind := Json.get members "type"
  let width := Json.get members "width"
  let invalidName : Raised := .valueError s!"invalid field name {repr name}"
  let invalidPort : Raised := .valueError s!"invalid port name {repr port}"
  let unsupported : Raised := .valueError s!"unsupported type {repr kind}"
  let .str fieldName := name | .error invalidName
  if !isIdentifier fieldName then .error invalidName
  let .str portName := port | .error invalidPort
  if !isIdentifier portName then .error invalidPort
  let type ← match kind with
    | .str s => match AbiType.ofName s with
        | some type => .ok type
        | none => .error unsupported
    | .list _ | .dict _ => .error .typeError
    | _ => .error unsupported
  let .int n := width | .error (.valueError s!"{fieldName}.width must be an integer")
  if inside : 1 ≤ n.toNat ∧ n.toNat ≤ type.bits then
    .ok ⟨fieldName, portName, type, n.toNat, inside.1, inside.2⟩
  else .error (.valueError s!"{fieldName}.width={n} does not fit ABI type {type.name}")

/-- The inner loop. -/
def checkFields (d : Direction) (direction : String) : Schema → List Json → Except Raised Schema
  | s, [] => .ok s
  | s, field :: rest => do
      let f ← checkField repr direction field
      let s ← s.push d f
      checkFields d direction s rest

/-- One turn of the outer loop. -/
def checkDirection (document : List (String × Json)) (d : Direction) (direction : String) (s : Schema) :
    Except Raised Schema :=
  match Json.get document direction with
  | .list (field :: rest) => checkFields repr d direction s (field :: rest)
  | _ => .error (.valueError s!"{direction} must be a non-empty list")

/-- A member of the document that must be an identifier. -/
def identifier (document : List (String × Json)) (member : String) : Except Raised String :=
  match Json.get document member with
  | .str s => if isIdentifier s then .ok s else .error (.valueError s!"{member} must be an identifier")
  | _ => .error (.valueError s!"{member} must be an identifier")

/-- `validate`. -/
def validate (document : List (String × Json)) : Except Raised Schema := do
  let .str "rustdv.cycle-schema/v1" := Json.get document "schema"
    | .error (.valueError "unsupported cycle schema")
  let name ← identifier document "name"
  let top ← identifier document "top"
  let clock ← identifier document "clock"
  let s ← checkDirection repr document .inputs "inputs" (.start name top clock)
  checkDirection repr document .outputs "outputs" s

end Validate

/-- A value of the generated struct: any bits in every field. -/
structure CycleOutputs (s : Schema) where
  value : String → ℕ
  typed : ∀ f ∈ s.outputs, value f.name < 2 ^ f.type.bits

/-- The line `dut.port = values.name;`. -/
structure Assign where
  port : String
  name : String
deriving DecidableEq, Repr

/-- The body of the generated `apply_outputs`. -/
def applyOutputs (s : Schema) : List Assign := s.outputs.map fun f => ⟨f.port, f.name⟩

/-- The value is converted to the type of the port, which has so many bits. -/
def Assign.exec (portBits : String → ℕ) (values : String → ℕ) (dut : String → ℕ) (a : Assign) : String → ℕ :=
  Function.update dut a.port (values a.name % 2 ^ portBits a.port)

/-- The ports of the design after a call of `apply_outputs`. -/
def applied (s : Schema) (portBits : String → ℕ) (values : CycleOutputs s) (dut : String → ℕ) : String → ℕ :=
  (applyOutputs s).foldl (Assign.exec portBits values.value) dut

end Rustdv.Cycle
