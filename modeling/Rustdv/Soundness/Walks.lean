import Rustdv.Model.Component

/-! # Walks visit every component once

A top-down walk acts on the components in pre-order, a bottom-up walk in post-order, each under the
path that the walk derives. What a phase shows, and the state it leaves, is that of its method called at
each of them in turn.
-/

namespace Rustdv.Component

section Visits

variable {κ S O : Type*} (visit : String → κ → S → S × List O)

theorem visitAll_append (front back : List (String × κ)) (st : S) :
    visitAll visit (front ++ back) st =
      ((visitAll visit back (visitAll visit front st).1).1,
        (visitAll visit front st).2 ++ (visitAll visit back (visitAll visit front st).1).2) := by
  induction front generalizing st with
  | nil => rfl
  | cons c rest ih => simp only [List.cons_append, visitAll, ih, List.append_assoc]

mutual

theorem walkDown_eq : ∀ (path : String) (node : Node κ) (st : S),
    walkDown visit path node st = visitAll visit (node.preorder path) st
  | path, .mk self slots, st => by
    simp only [walkDown, Node.preorder, visitAll, walkDownSlots_eq path slots]

theorem walkDownSlots_eq : ∀ (path : String) (slots : Slots κ) (st : S),
    walkDownSlots visit path slots st = visitAll visit (slots.preorder path) st
  | _, .nil, _ => rfl
  | path, .empty slot rest, st => by
    simp only [walkDownSlots, Slots.preorder, walkDownSlots_eq path rest]
  | path, .filled slot node rest, st => by
    simp only [walkDownSlots, Slots.preorder, visitAll_append, walkDown_eq _ node, walkDownSlots_eq path rest]

end

mutual

theorem walkUp_eq : ∀ (path : String) (node : Node κ) (st : S),
    walkUp visit path node st = visitAll visit (node.postorder path) st
  | path, .mk self slots, st => by
    simp only [walkUp, Node.postorder, visitAll_append, walkUpSlots_eq path slots, visitAll, List.append_nil]

theorem walkUpSlots_eq : ∀ (path : String) (slots : Slots κ) (st : S),
    walkUpSlots visit path slots st = visitAll visit (slots.postorder path) st
  | _, .nil, _ => rfl
  | path, .empty slot rest, st => by
    simp only [walkUpSlots, Slots.postorder, walkUpSlots_eq path rest]
  | path, .filled slot node rest, st => by
    simp only [walkUpSlots, Slots.postorder, visitAll_append, walkUp_eq _ node, walkUpSlots_eq path rest]

end

end Visits

section Phases

variable {κ V W : Type*} (code : Code κ V W)

/-- A phase method called at each of these components. -/
def calls (phase : Phase) (comps : List (String × κ)) : List (Obs κ) :=
  comps.map fun c => .called phase c.1 c.2

/-- The state after one method was called at each of these components, one after the other. -/
def applyAll (method : Method κ V W) (comps : List (String × κ)) (st : State κ V W) : State κ V W :=
  comps.foldl (fun st c => method c.2 c.1 st) st

/-- The checks of these components, one after the other: the state, and the errors they report. -/
def checkEach (comps : List (String × κ)) (st : State κ V W) : State κ V W × List String :=
  comps.foldl (fun seen c => ((code.check c.2 c.1 seen.1).1, seen.2 ++ (code.check c.2 c.1 seen.1).2)) (st, [])

theorem visitAll_callMethod (phase : Phase) (method : Method κ V W) (comps : List (String × κ)) (st : State κ V W) :
    visitAll (callMethod phase method) comps st = (applyAll method comps st, calls phase comps) := by
  induction comps generalizing st with
  | nil => rfl
  | cons c rest ih =>
    simp only [visitAll, callMethod, ih]
    rfl

theorem walkDown_callMethod (phase : Phase) (method : Method κ V W) (path : String) (node : Node κ) (st : State κ V W) :
    walkDown (callMethod phase method) path node st =
      (applyAll method (node.preorder path) st, calls phase (node.preorder path)) := by
  rw [walkDown_eq, visitAll_callMethod]

/-- Connecting calls the components' methods in post-order. -/
theorem connectAll_eq (path : String) (node : Node κ) (st : State κ V W) :
    connectAll code path node st =
      (applyAll code.connect (node.postorder path) st, calls .connect (node.postorder path)) := by
  rw [connectAll, walkUp_eq, visitAll_callMethod]

theorem endOfElaborationAll_eq (path : String) (node : Node κ) (st : State κ V W) :
    endOfElaborationAll code path node st =
      (applyAll code.endOfElaboration (node.preorder path) st, calls .endOfElaboration (node.preorder path)) :=
  walkDown_callMethod ..

theorem startOfSimulationAll_eq (path : String) (node : Node κ) (st : State κ V W) :
    startOfSimulationAll code path node st =
      (applyAll code.startOfSimulation (node.preorder path) st, calls .startOfSimulation (node.preorder path)) :=
  walkDown_callMethod ..

/-- The check walk is the checks in pre-order, with the errors in the sink. -/
theorem checkAll_eq (path : String) (node : Node κ) (st : State κ V W) :
    checkAll code path node (st, []) = (checkEach code (node.preorder path) st, calls .check (node.preorder path)) := by
  have collected (comps : List (String × κ)) (seen : State κ V W × List String) :
      visitAll (callCheck code) comps seen =
        (comps.foldl (fun seen c =>
          ((code.check c.2 c.1 seen.1).1, seen.2 ++ (code.check c.2 c.1 seen.1).2)) seen, calls .check comps) := by
    induction comps generalizing seen with
    | nil => rfl
    | cons c rest ih =>
      simp only [visitAll, callCheck, ih]
      rfl
  rw [checkAll, walkDown_eq, collected, checkEach]

/-- The line for one component's port. -/
def portLine (path : String) (info : PortInfo) : String :=
  let owner := if path = "" then "(top)" else path
  s!"{owner}.{info.name} ({info.kind})"

/-- The required ports of the whole tree that are not bound, with their owners' paths. -/
def unbound (path : String) (tree : Node κ) (st : State κ V W) : List String :=
  (tree.preorder path).flatMap fun c =>
    ((code.portInfos c.2 c.1 st).filter fun info => info.required && !info.connected).map (portLine c.1)

theorem unconnectedPorts_eq_unbound (path : String) (node : Node κ) (st : State κ V W) :
    unconnectedPorts code path node st = unbound code path node st := by
  have collected (comps : List (String × κ)) :
      visitAll (fun path self st => (st, missingPorts path (code.portInfos self path st))) comps st =
        (st, comps.flatMap fun c => missingPorts c.1 (code.portInfos c.2 c.1 st)) := by
    induction comps with
    | nil => rfl
    | cons c rest ih => simp only [visitAll, ih, List.flatMap_cons]
  rw [unconnectedPorts, walkDown_eq, collected]
  rfl

/-- The state after the extract, check, report and final phases of a tree. -/
def concluded (path : String) (tree : Node κ) (st : State κ V W) : State κ V W :=
  let comps := tree.preorder path
  applyAll code.finalPhase comps (applyAll code.report comps (checkEach code comps (applyAll code.extract comps st)).1)

/-- The errors that the checks report after the extract phase. -/
def checkErrors (path : String) (tree : Node κ) (st : State κ V W) : List String :=
  (checkEach code (tree.preorder path) (applyAll code.extract (tree.preorder path) st)).2

/-- The post-run phases, one after the other, each over the whole tree. -/
theorem runExtractCheckReport_eq (path : String) (node : Node κ) (st : State κ V W) :
    runExtractCheckReport code path node st =
      (intoResult (checkErrors code path node st), concluded code path node st,
        calls .extract (node.preorder path) ++ calls .check (node.preorder path) ++
          calls .report (node.preorder path) ++ calls .final (node.preorder path)) := by
  simp only [runExtractCheckReport, extractAll, reportAll, finalAll, walkDown_callMethod, checkAll_eq]
  rfl

end Phases

end Rustdv.Component
