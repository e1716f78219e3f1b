import Rustdv.Model.ConfigDb
import Rustdv.Model.Objection

/-! # Components and the walks over their tree

A component's child fields are slots: a factory slot, an `Option`, one position of a `Vec`, or a plain
field. The derived code lists the filled ones in declaration order under names made from the fields;
every phase walks the tree through that list and gives each child its own path. What a component's
methods do is a parameter; its own data other than the child fields is part of the world they act on.
-/

universe u

namespace Rustdv.Component

open Config (ConfigDb)
open Objection (ObjectionRegistry)

/-- The kind of a child field, as the derive macro tells them apart. -/
inductive ChildKind where
  /-- A `RustdvComp`; `create_comp` flags it and keeps the requested name. -/
  | rustdvComp (overridable : Bool) (requested : Option String)
  | option
  | vec (index : ℕ)
  | plain
deriving DecidableEq, Repr

structure Slot where
  field : String
  kind : ChildKind
deriving DecidableEq, Repr

namespace Slot

/-- The name under which the derived code lists a child. -/
def name (slot : Slot) : String :=
  match slot.kind with
  | .vec index => s!"{slot.field}[{index}]"
  | _ => slot.field

def isComp (slot : Slot) : Bool :=
  match slot.kind with
  | .rustdvComp .. => true
  | _ => false

/-- Whether the walk has still to look for an override. -/
def pending (slot : Slot) : Bool :=
  match slot.kind with
  | .rustdvComp true (some _) => true
  | _ => false

end Slot

mutual

/-- A component, known by its identity, with its child slots. -/
inductive Node (κ : Type u) where
  | mk (self : κ) (slots : Slots κ)

/-- Child slots in declaration order. -/
inductive Slots (κ : Type u) where
  | nil
  | empty (slot : Slot) (rest : Slots κ)
  | filled (slot : Slot) (node : Node κ) (rest : Slots κ)

end

section Tree

variable {κ : Type*}

namespace Slots

/-- A slot with what it holds, in front of the others. -/
def cons (slot : Slot) (inner : Option (Node κ)) (rest : Slots κ) : Slots κ :=
  match inner with
  | none => .empty slot rest
  | some node => .filled slot node rest

/-- `children_mut`. -/
def children : Slots κ → List (String × Node κ)
  | .nil => []
  | .empty _ rest => children rest
  | .filled slot node rest => (slot.name, node) :: children rest

/-- The labels of the factory fields. -/
def compFields : Slots κ → List String
  | .nil => []
  | .empty slot rest => if slot.isComp then slot.field :: compFields rest else compFields rest
  | .filled slot _ rest => if slot.isComp then slot.field :: compFields rest else compFields rest

/-- What `take_children` leaves behind. -/
def take : Slots κ → Slots κ
  | .nil => .nil
  | .empty slot rest => .empty slot (take rest)
  | .filled slot node rest => if slot.isComp then .empty slot (take rest) else .filled slot node (take rest)

/-- What `take_children` moves out: the filled factory slots. -/
def taken : Slots κ → Slots κ
  | .nil => .nil
  | .empty _ rest => taken rest
  | .filled slot node rest => if slot.isComp then .filled slot node (taken rest) else taken rest

/-- The test for one name in `restore_children`: the first factory field so labelled. -/
def putNode (name : String) (node : Node κ) : Slots κ → Slots κ
  | .nil => .nil
  | .empty slot rest =>
      if slot.isComp ∧ slot.field = name then .filled slot node rest else .empty slot (putNode name node rest)
  | .filled slot old rest =>
      if slot.isComp ∧ slot.field = name then .filled slot node rest else .filled slot old (putNode name node rest)

/-- `restore_children`. -/
def restore (slots : Slots κ) (taken : List (String × Node κ)) : Slots κ :=
  taken.foldl (fun slots child => slots.putNode child.1 child.2) slots

/-- The filled slots with other components in place of theirs. -/
def refill : Slots κ → List (Node κ) → Slots κ
  | .nil, _ => .nil
  | .empty slot rest, nodes => .empty slot (refill rest nodes)
  | .filled slot _ rest, node :: nodes => .filled slot node (refill rest nodes)
  | .filled slot node rest, [] => .filled slot node rest

end Slots

mutual

/-- The components of a tree with their paths, parents first. -/
def Node.preorder (path : String) : Node κ → List (String × κ)
  | .mk self slots => (path, self) :: slots.preorder path

def Slots.preorder (path : String) : Slots κ → List (String × κ)
  | .nil => []
  | .empty _ rest => rest.preorder path
  | .filled slot node rest => node.preorder (childPath path slot.name) ++ rest.preorder path

end

mutual

/-- The components of a tree with their paths, children first. -/
def Node.postorder (path : String) : Node κ → List (String × κ)
  | .mk self slots => slots.postorder path ++ [(path, self)]

def Slots.postorder (path : String) : Slots κ → List (String × κ)
  | .nil => []
  | .empty _ rest => rest.postorder path
  | .filled slot node rest => node.postorder (childPath path slot.name) ++ rest.postorder path

end

mutual

/-- The fields of a struct have different names. -/
def Node.WellNamed : Node κ → Prop
  | .mk _ slots => slots.compFields.Nodup ∧ slots.WellNamed

def Slots.WellNamed : Slots κ → Prop
  | .nil => True
  | .empty _ rest => rest.WellNamed
  | .filled _ node rest => node.WellNamed ∧ rest.WellNamed

end

mutual

/-- No factory slot is left to be looked up. -/
def Node.Resolved : Node κ → Prop
  | .mk _ slots => slots.Resolved

def Slots.Resolved : Slots κ → Prop
  | .nil => True
  | .empty slot rest => slot.pending = false ∧ rest.Resolved
  | .filled slot node rest => slot.pending = false ∧ node.Resolved ∧ rest.Resolved

end

end Tree

/-- A component with no arguments to its constructor. -/
abbrev Maker (κ : Type*) := { node : Node κ // node.WellNamed }

/-- The values in the configuration database: factory overrides, and others. -/
inductive Value (κ V : Type*) where
  | override (make : Maker κ) (target : String)
  | other (value : V)

/-- `TypeId::of::<Override>()`. -/
def overrideTypeId : ℕ := 0

def overrideTypeName : String := "rustdv_methodology::factory::Override"

/-- `override_key`. -/
def overrideKey (requested : String) : String := "__factory_override__" ++ requested

structure TestError where
  msg : String
  kind : Option String
deriving DecidableEq, Repr

/-- The result of a test or of a run body. -/
abbrev TestResult := Except TestError Unit

structure PortInfo where
  name : String
  kind : String
  required : Bool
  connected : Bool
deriving DecidableEq, Repr

/-- Everything the methods act on. -/
structure State (κ V W : Type*) where
  db : ConfigDb (Value κ V)
  objections : ObjectionRegistry
  world : W

/-- The synchronous phases. -/
inductive Phase where
  | build
  | connect
  | endOfElaboration
  | startOfSimulation
  | extract
  | check
  | report
  | final
deriving DecidableEq, Repr

inductive Obs (κ : Type*) where
  /-- A phase method was called. -/
  | called (phase : Phase) (path : String) (comp : κ)
  | objection (obs : Objection.Obs)
  /-- A run body was polled. -/
  | polled (path : String) (comp : κ)
  /-- It stays to be polled again. -/
  | unfinished (path : String) (comp : κ)
  /-- It returned. -/
  | finished (path : String) (comp : κ) (result : TestResult)
  /-- It was dropped because the drained event was set. -/
  | stopped (path : String) (comp : κ)
deriving DecidableEq

/-- What a piece of a run body does: its effects, and what it does to the registry. -/
structure Effect (κ V W : Type*) where
  db : ConfigDb (Value κ V)
  world : W
  ops : List Objection.Op

/-- A synchronous method of a component: identity, path of the context, state. -/
abbrev Method (κ V W : Type*) := κ → String → State κ V W → State κ V W

/-- The code of a testbench. -/
structure Code (κ V W : Type*) where
  build : κ → String → Slots κ → State κ V W → Slots κ × State κ V W
  connect : Method κ V W
  endOfElaboration : Method κ V W
  startOfSimulation : Method κ V W
  extract : Method κ V W
  /-- The errors pushed into the sink. -/
  check : κ → String → State κ V W → State κ V W × List String
  report : Method κ V W
  finalPhase : Method κ V W
  portInfos : κ → String → State κ V W → List PortInfo
  /-- One poll of the run body. -/
  run : κ → String → State κ V W → Effect κ V W × Poll TestResult
  /-- The destructor of a run body that was not finished. -/
  dropRun : κ → String → State κ V W → Effect κ V W
  /-- The field names of a struct are fixed by its type. -/
  build_named : ∀ self path slots st, (Node.mk self slots).WellNamed →
    (Node.mk self (build self path slots st).1).WellNamed

section Walks

variable {κ S O : Type*}

/-- Do something at each of these components, in order. -/
def visitAll (visit : String → κ → S → S × List O) : List (String × κ) → S → S × List O
  | [], st => (st, [])
  | (path, self) :: rest, st =>
      let (next, out) := visit path self st
      let (last, more) := visitAll visit rest next
      (last, out ++ more)

mutual

/-- Top-down: the node acts, then its children. -/
def walkDown (visit : String → κ → S → S × List O) (path : String) : Node κ → S → S × List O
  | .mk self slots, st =>
      let (next, out) := visit path self st
      let (last, more) := walkDownSlots visit path slots next
      (last, out ++ more)

def walkDownSlots (visit : String → κ → S → S × List O) (path : String) : Slots κ → S → S × List O
  | .nil, st => (st, [])
  | .empty _ rest, st => walkDownSlots visit path rest st
  | .filled slot node rest, st =>
      let (next, out) := walkDown visit (childPath path slot.name) node st
      let (last, more) := walkDownSlots visit path rest next
      (last, out ++ more)

end

mutual

/-- Bottom-up: children before parents. -/
def walkUp (visit : String → κ → S → S × List O) (path : String) : Node κ → S → S × List O
  | .mk self slots, st =>
      let (next, out) := walkUpSlots visit path slots st
      let (last, more) := visit path self next
      (last, out ++ more)

def walkUpSlots (visit : String → κ → S → S × List O) (path : String) : Slots κ → S → S × List O
  | .nil, st => (st, [])
  | .empty _ rest, st => walkUpSlots visit path rest st
  | .filled slot node rest, st =>
      let (next, out) := walkUp visit (childPath path slot.name) node st
      let (last, more) := walkUpSlots visit path rest next
      (last, out ++ more)

end

end Walks

section Phases

variable {κ V W : Type*} (code : Code κ V W)
  (sort : (String × Config.Entry (Value κ V) → String × Config.Entry (Value κ V) → Bool) →
    List (String × Config.Entry (Value κ V)) → Option (List (String × Config.Entry (Value κ V))))

/-- `Factory::lookup_override`; the outer `none` is a panic of the lookup. -/
def lookupOverride (db : ConfigDb (Value κ V)) (requested path : String) : Option (Option (Maker κ)) :=
  (Config.get sort db none path (overrideKey requested) overrideTypeName overrideTypeId).map fun
  | (.ok (.override make _), _) => some make
  | _ => none

/-- `RustdvComp::resolve`, for a slot that may be of another kind. -/
def resolve (db : ConfigDb (Value κ V)) (path : String) (slot : Slot) (inner : Option (Node κ)) :
    Option (Slot × Option (Node κ)) :=
  match slot.kind with
  | .rustdvComp true (some requested) =>
      (lookupOverride sort db requested (childPath path slot.field)).map fun found =>
        ({ slot with kind := .rustdvComp false (some requested) },
          match found with
          | some make => some make.1
          | none => inner)
  | _ => some (slot, inner)

/-- `resolve_children`. -/
def resolveChildren (db : ConfigDb (Value κ V)) (path : String) : Slots κ → Option (Slots κ)
  | .nil => some .nil
  | .empty slot rest =>
      (resolve sort db path slot none).bind fun (slot, inner) =>
        (resolveChildren db path rest).map (Slots.cons slot inner)
  | .filled slot node rest =>
      (resolve sort db path slot (some node)).bind fun (slot, inner) =>
        (resolveChildren db path rest).map (Slots.cons slot inner)

/-- Descend into the filled slots, in order. -/
def descend (visit : String → Node κ → State κ V W → Option (Node κ × State κ V W × List (Obs κ))) (path : String) :
    Slots κ → State κ V W → Option (Slots κ × State κ V W × List (Obs κ))
  | .nil, st => some (.nil, st, [])
  | .empty slot rest, st =>
      (descend visit path rest st).map fun (rest, st, out) => (.empty slot rest, st, out)
  | .filled slot node rest, st =>
      (visit (childPath path slot.name) node st).bind fun (node, st, out) =>
        (descend visit path rest st).map fun (rest, st, more) => (.filled slot node rest, st, out ++ more)

/-- `build_all`. The fuel bounds the depth of the tree that is built; `none` also stands for a panic. -/
def buildAll : ℕ → String → Node κ → State κ V W → Option (Node κ × State κ V W × List (Obs κ))
  | 0, _, _, _ => none
  | fuel + 1, path, .mk self slots, st =>
      let (slots, st) := code.build self path slots st
      (resolveChildren sort st.db path slots).bind fun slots =>
        (descend (buildAll fuel) path slots st).map fun (slots, st, out) =>
          (.mk self slots, st, .called .build path self :: out)

/-- Call one method. -/
def callMethod (phase : Phase) (method : Method κ V W) (path : String) (self : κ) (st : State κ V W) :
    State κ V W × List (Obs κ) :=
  (method self path st, [.called phase path self])

def connectAll := walkUp (callMethod .connect code.connect)

def endOfElaborationAll := walkDown (callMethod .endOfElaboration code.endOfElaboration)

def startOfSimulationAll := walkDown (callMethod .startOfSimulation code.startOfSimulation)

def extractAll := walkDown (callMethod .extract code.extract)

def reportAll := walkDown (callMethod .report code.report)

def finalAll := walkDown (callMethod .final code.finalPhase)

/-- One component's `check`, with the errors in the sink. -/
def callCheck (path : String) (self : κ) (st : State κ V W × List String) :
    (State κ V W × List String) × List (Obs κ) :=
  let (next, errors) := code.check self path st.1
  ((next, st.2 ++ errors), [.called .check path self])

def checkAll := walkDown (callCheck code)

/-- The lines for one component's required ports that nobody connected. -/
def missingPorts (path : String) (infos : List PortInfo) : List String :=
  let owner := if path = "" then "(top)" else path
  (infos.filter fun info => info.required && !info.connected).map fun info =>
    s!"{owner}.{info.name} ({info.kind})"

def unconnectedPorts (path : String) (node : Node κ) (st : State κ V W) : List String :=
  (walkDown (fun path self st => (st, missingPorts path (code.portInfos self path st))) path node st).2

/-- The error of `check_connections`. -/
def unconnectedError (missing : List String) : TestError where
  msg := missing.foldl (fun msg line => msg ++ "\n  " ++ line) "these TLM ports were declared but never connected:"
  kind := some "tlm_unconnected_port"

def checkConnections (path : String) (node : Node κ) (st : State κ V W) : TestResult :=
  match unconnectedPorts code path node st with
  | [] => .ok ()
  | missing => .error (unconnectedError missing)

/-- `CheckSink::into_result`, as a test error. -/
def intoResult (errors : List String) : TestResult :=
  match errors with
  | [] => .ok ()
  | errors => .error ⟨s!"{errors.length} check failure(s): " ++ "; ".intercalate errors, none⟩

/-- `run_extract_check_report`. -/
def runExtractCheckReport (path : String) (node : Node κ) (st : State κ V W) :
    TestResult × State κ V W × List (Obs κ) :=
  let (st₁, extracted) := extractAll code path node st
  let ((st₂, errors), checked) := checkAll code path node (st₁, [])
  let (st₃, reported) := reportAll code path node st₂
  let (st₄, finished) := finalAll code path node st₃
  (intoResult errors, st₄, extracted ++ checked ++ reported ++ finished)

end Phases

end Rustdv.Component
