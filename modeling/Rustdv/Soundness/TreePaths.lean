import Rustdv.Soundness.GlobInclusion
import Rustdv.Soundness.LogLevels
import Rustdv.Soundness.Walks

/-! # Components by their paths

The names under which the derived code lists children are names of fields, with an index for the
positions of a `Vec`. So no two components of a tree have one path, and whatever addresses components by
texts (settings of the log, patterns of the configuration, the report of the connection check) means the
component or the subtree that it names.
-/

namespace Rustdv.Component

open Config (globMatch globMatch_eq)
open Log (Ancestor strIsUnder strIsUnder_iff)

/-! ## Names -/

/-- The name of a field: it is not empty, and has none of the characters that paths, indices and patterns add. -/
structure FieldName (s : String) : Prop where
  nonempty : s ≠ ""
  dotless : '.' ∉ s.toList
  unindexed : '[' ∉ s.toList
  plain : '*' ∉ s.toList

/-- The position of a slot in its `Vec`. -/
def Slot.index (slot : Slot) : Option ℕ :=
  match slot.kind with
  | .vec index => some index
  | _ => none

theorem Slot.name_eq (slot : Slot) :
    slot.name = match slot.index with
      | some index => s!"{slot.field}[{index}]"
      | none => slot.field := by
  rcases slot with ⟨field, - | - | - | -⟩ <;> rfl

theorem toList_indexed (field : String) (index : ℕ) :
    (s!"{field}[{index}]").toList = field.toList ++ '[' :: (Nat.toDigits 10 index ++ [']']) := by
  simp [toString]

/-- The digits tell the index. -/
theorem toDigits_inj {m n : ℕ} (same : Nat.toDigits 10 m = Nat.toDigits 10 n) : m = n := by
  rw [← @Nat.ofDigitChars_ten_toDigits m, same, Nat.ofDigitChars_ten_toDigits]

/-- The characters of an index are digits. -/
theorem notMem_digits {index : ℕ} {c : Char} (other : c.isDigit = false) : c ∉ Nat.toDigits 10 index := by
  intro member
  rw [Nat.isDigit_of_mem_toDigits (by decide) (by decide) member] at other
  cases other

/-- What is in a listed name. -/
theorem toList_name (slot : Slot) :
    slot.name.toList = slot.field.toList ∨
      ∃ index, slot.index = some index ∧
        slot.name.toList = slot.field.toList ++ '[' :: (Nat.toDigits 10 index ++ [']']) := by
  rw [Slot.name_eq]
  cases slot.index with
  | none => exact .inl rfl
  | some index => exact .inr ⟨index, rfl, toList_indexed _ _⟩

theorem toList_name_plain {slot : Slot} (none : slot.index = none) : slot.name.toList = slot.field.toList := by
  rw [Slot.name_eq, none]

/-- A listed name has neither a dot nor a star. -/
theorem FieldName.name {slot : Slot} (field : FieldName slot.field) :
    slot.name ≠ "" ∧ '.' ∉ slot.name.toList ∧ '*' ∉ slot.name.toList := by
  have none : slot.field.toList ≠ [] := fun empty => field.nonempty (String.toList_eq_nil_iff.mp empty)
  rcases toList_name slot with same | ⟨index, -, same⟩
  · refine ⟨fun empty => none ?_, same ▸ field.dotless, same ▸ field.plain⟩
    rw [← same, empty]
    rfl
  · have dot := @notMem_digits index '.' (by decide)
    have star := @notMem_digits index '*' (by decide)
    refine ⟨fun empty => ?_, ?_, ?_⟩
    · rw [empty] at same
      exact List.append_ne_nil_of_right_ne_nil _ (List.cons_ne_nil _ _) same.symm
    · rw [same]
      simp [field.dotless, dot]
    · rw [same]
      simp [field.plain, star]

/-- Different positions are listed under different names. -/
theorem Slot.name_inj {a b : Slot} (ha : FieldName a.field) (hb : FieldName b.field) (same : a.name = b.name) :
    a.field = b.field ∧ a.index = b.index := by
  have chars := congrArg String.toList same
  cases at_a : a.index with
  | none =>
    rw [toList_name_plain at_a] at chars
    cases at_b : b.index with
    | none =>
      rw [toList_name_plain at_b] at chars
      exact ⟨String.toList_inj.mp chars, rfl⟩
    | some j =>
      rw [b.name_eq, at_b] at chars
      dsimp only at chars
      rw [toList_indexed] at chars
      refine absurd ?_ ha.unindexed
      rw [chars]
      exact List.mem_append_right _ List.mem_cons_self
  | some i =>
    rw [a.name_eq, at_a] at chars
    dsimp only at chars
    rw [toList_indexed] at chars
    cases at_b : b.index with
    | none =>
      rw [toList_name_plain at_b] at chars
      refine absurd ?_ hb.unindexed
      rw [← chars]
      exact List.mem_append_right _ List.mem_cons_self
    | some j =>
      rw [b.name_eq, at_b] at chars
      dsimp only at chars
      have bracket := @notMem_digits i '[' (by decide)
      rw [toList_indexed, List.append_cons_inj_of_notMem ha.unindexed (by simp [bracket])] at chars
      obtain ⟨fields, -, rest⟩ := chars
      have digits := List.append_cancel_right rest
      exact ⟨String.toList_inj.mp fields, congrArg some (toDigits_inj digits)⟩

/-! ## Trees -/

section Tree

variable {κ : Type*}

/-- The fields and positions of the children, in order. -/
def Slots.positions : Slots κ → List (String × Option ℕ)
  | .nil => []
  | .empty _ rest => positions rest
  | .filled slot _ rest => (slot.field, slot.index) :: positions rest

mutual

/-- The child fields have names, and no position is listed twice. -/
def Node.Fields : Node κ → Prop
  | .mk _ slots => slots.positions.Nodup ∧ slots.Fields

def Slots.Fields : Slots κ → Prop
  | .nil => True
  | .empty _ rest => rest.Fields
  | .filled slot node rest => FieldName slot.field ∧ node.Fields ∧ rest.Fields

end

mutual

/-- The components of a tree with their subtrees, parents first. -/
def Node.subtrees (path : String) : Node κ → List (String × Node κ)
  | .mk self slots => (path, .mk self slots) :: slots.subtrees path

def Slots.subtrees (path : String) : Slots κ → List (String × Node κ)
  | .nil => []
  | .empty _ rest => rest.subtrees path
  | .filled slot node rest => node.subtrees (childPath path slot.name) ++ rest.subtrees path

end

/-- The names that the children are listed under. -/
def Slots.names (slots : Slots κ) : List String := slots.children.map Prod.fst

/-- A listed name is the name of a position. -/
theorem exists_position {name : String} : ∀ (slots : Slots κ), slots.Fields → name ∈ slots.names →
    ∃ slot : Slot, FieldName slot.field ∧ slot.name = name ∧ (slot.field, slot.index) ∈ slots.positions
  | .empty _ rest, fields, listed => by
    rw [Slots.Fields] at fields
    exact exists_position rest fields listed
  | .filled slot node rest, fields, listed => by
    rw [Slots.Fields] at fields
    rcases List.mem_cons.mp listed with rfl | later
    · exact ⟨slot, fields.1, rfl, List.mem_cons_self⟩
    · obtain ⟨other, named, same, position⟩ := exists_position rest fields.2.2 later
      exact ⟨other, named, same, List.mem_cons_of_mem _ position⟩

theorem names_plain {slots : Slots κ} (fields : slots.Fields) {name : String} (listed : name ∈ slots.names) :
    name ≠ "" ∧ '.' ∉ name.toList ∧ '*' ∉ name.toList := by
  obtain ⟨slot, named, rfl, -⟩ := exists_position slots fields listed
  exact named.name

theorem names_nodup : ∀ (slots : Slots κ), slots.Fields → slots.positions.Nodup → slots.names.Nodup
  | .nil, _, _ => List.nodup_nil
  | .empty _ rest, fields, distinct => by
    rw [Slots.Fields] at fields
    exact names_nodup rest fields distinct
  | .filled slot node rest, fields, distinct => by
    rw [Slots.Fields] at fields
    obtain ⟨fresh, distinct⟩ := List.nodup_cons.mp distinct
    refine List.nodup_cons.mpr ⟨fun listed => fresh ?_, names_nodup rest fields.2.2 distinct⟩
    obtain ⟨other, named, same, position⟩ := exists_position rest fields.2.2 listed
    obtain ⟨field, index⟩ := Slot.name_inj named fields.1 same
    rwa [← field, ← index]

/-! ## Paths -/

/-- A path below another one. -/
def Below (q p : String) : Prop := q.toList ++ ['.'] <+: p.toList

/-- A path, or one below it. -/
def Within (q p : String) : Prop := p = q ∨ Below q p

variable {path p q : String}

theorem strIsUnder_iff_within (inside : p ≠ "") : strIsUnder q p = true ↔ Within p q := by
  rw [strIsUnder_iff, Ancestor, or_iff_right inside]
  rfl

theorem Below.ne (below : Below q p) : p ≠ q := by
  rintro rfl
  have length := below.length_le
  rw [List.length_append, List.length_singleton] at length
  omega

theorem below_iff : Below p q ↔ Within p q ∧ q ≠ p := by
  constructor
  · exact fun below => ⟨.inr below, below.ne⟩
  · exact fun within => within.1.resolve_left within.2

theorem Below.trans {r : String} (below : Below p q) (lower : Below q r) : Below p r :=
  List.IsPrefix.trans below ((List.prefix_append q.toList ['.']).trans lower)

theorem Within.trans {r : String} (within : Within p q) (lower : Within q r) : Within p r := by
  rcases lower with rfl | lower
  · exact within
  · rcases within with rfl | below
    · exact .inr lower
    · exact .inr (below.trans lower)

theorem below_child (inside : path ≠ "") (name : String) : Below path (childPath path name) := by
  rw [Below, Log.toList_childPath inside]
  exact ⟨name.toList, by simp⟩

/-- Everything within a child is below the parent. -/
theorem Within.below {name : String} (inside : path ≠ "") (within : Within (childPath path name) p) : Below path p := by
  rcases within with rfl | lower
  · exact below_child inside name
  · exact (below_child inside name).trans lower

theorem childPath_inside (inside : path ≠ "") (name : String) : childPath path name ≠ "" := by
  intro empty
  have chars := congrArg String.toList empty
  rw [Log.toList_childPath inside] at chars
  exact List.append_ne_nil_of_right_ne_nil _ (List.cons_ne_nil _ _) chars

theorem depth_childPath (inside : path ≠ "") {name : String} (plain : '.' ∉ name.toList) :
    Log.depth (childPath path name) = Log.depth path + 1 := by
  rw [Log.depth, Log.depth, if_neg inside, if_neg (childPath_inside inside name), Log.toList_childPath inside,
    List.splitOn_append_cons_self, List.splitOn_eq_singleton plain, List.length_append, List.length_singleton]

/-- A path is within one child only. -/
theorem child_unique (inside : path ≠ "") {name name' : String} (plain : '.' ∉ name.toList)
    (plain' : '.' ∉ name'.toList) (within : Within (childPath path name) p)
    (within' : Within (childPath path name') p) : name = name' := by
  have level : Log.depth (childPath path name) = Log.depth (childPath path name') := by
    rw [depth_childPath inside plain, depth_childPath inside plain']
  have same : childPath path name = childPath path name' := Ancestor.eq_of_depth (.inr within) (.inr within') level
  have chars := congrArg String.toList same
  rw [Log.toList_childPath inside, Log.toList_childPath inside] at chars
  exact String.toList_inj.mp (List.cons_inj_right _ |>.mp (List.append_cancel_left chars))

/-- The paths of the components. -/
def Node.paths (path : String) (node : Node κ) : List String := (node.preorder path).map Prod.fst

def Slots.paths (path : String) (slots : Slots κ) : List String := (slots.preorder path).map Prod.fst

@[simp] theorem paths_mk (self : κ) (slots : Slots κ) : (Node.mk self slots).paths path = path :: slots.paths path := by
  rw [Node.paths, Node.preorder]
  rfl

@[simp] theorem paths_filled (slot : Slot) (node : Node κ) (rest : Slots κ) :
    (Slots.filled slot node rest).paths path = node.paths (childPath path slot.name) ++ rest.paths path := by
  rw [Slots.paths, Slots.preorder, List.map_append]
  rfl

mutual

/-- The subtrees are listed as the walk comes to them. -/
theorem Node.subtrees_fst : ∀ (path : String) (node : Node κ), (node.subtrees path).map Prod.fst = node.paths path
  | path, .mk self slots => by
    rw [Node.subtrees, paths_mk, List.map_cons, Slots.subtrees_fst path slots]

theorem Slots.subtrees_fst : ∀ (path : String) (slots : Slots κ), (slots.subtrees path).map Prod.fst = slots.paths path
  | _, .nil => rfl
  | path, .empty _ rest => Slots.subtrees_fst path rest
  | path, .filled slot node rest => by
    rw [Slots.subtrees, paths_filled, List.map_append, Node.subtrees_fst _ node, Slots.subtrees_fst path rest]

end

mutual

/-- The components of a tree are within its path, those of its children within theirs. -/
theorem Node.subtree_within : ∀ {path : String} (node : Node κ), path ≠ "" →
    ∀ s ∈ node.subtrees path, Within path s.1
  | path, .mk self slots, inside => by
    rw [Node.subtrees]
    refine List.forall_mem_cons.mpr ⟨.inl rfl, fun s member => ?_⟩
    obtain ⟨name, -, within⟩ := Slots.subtree_within slots inside s member
    exact .inr (within.below inside)

theorem Slots.subtree_within : ∀ {path : String} (slots : Slots κ), path ≠ "" →
    ∀ s ∈ slots.subtrees path, ∃ name ∈ slots.names, Within (childPath path name) s.1
  | _, .nil, _ => by simp [Slots.subtrees]
  | path, .empty _ rest, inside => Slots.subtree_within rest inside
  | path, .filled slot node rest, inside => by
    rw [Slots.subtrees]
    intro s member
    rcases List.mem_append.mp member with here | there
    · exact ⟨slot.name, List.mem_cons_self, Node.subtree_within node (childPath_inside inside _) s here⟩
    · obtain ⟨name, listed, within⟩ := Slots.subtree_within rest inside s there
      exact ⟨name, List.mem_cons_of_mem _ listed, within⟩

end

theorem Node.paths_within {node : Node κ} (inside : path ≠ "") (member : p ∈ node.paths path) : Within path p := by
  rw [← Node.subtrees_fst] at member
  obtain ⟨s, listed, rfl⟩ := List.mem_map.mp member
  exact node.subtree_within inside s listed

theorem Slots.paths_within {slots : Slots κ} (inside : path ≠ "") (member : p ∈ slots.paths path) :
    ∃ name ∈ slots.names, Within (childPath path name) p := by
  rw [← Slots.subtrees_fst] at member
  obtain ⟨s, listed, rfl⟩ := List.mem_map.mp member
  exact slots.subtree_within inside s listed

theorem Slots.paths_below {slots : Slots κ} (inside : path ≠ "") (member : p ∈ slots.paths path) : Below path p := by
  obtain ⟨name, -, within⟩ := Slots.paths_within inside member
  exact within.below inside

/-- No path is both within a child and within a later one. -/
theorem children_apart {slot : Slot} {node : Node κ} {rest : Slots κ} (inside : path ≠ "")
    (fields : (Slots.filled slot node rest).Fields) (distinct : (Slots.filled slot node rest).positions.Nodup)
    (here : Within (childPath path slot.name) p) (there : ∃ name ∈ rest.names, Within (childPath path name) p) :
    False := by
  obtain ⟨name, listed, within⟩ := there
  have apart := List.nodup_cons.mp (names_nodup _ fields distinct)
  rw [Slots.Fields] at fields
  obtain rfl : slot.name = name :=
    child_unique inside fields.1.name.2.1 (names_plain fields.2.2 listed).2.1 here within
  exact apart.1 listed

mutual

/-- No two components have one path. -/
theorem Node.paths_nodup : ∀ {path : String} (node : Node κ), path ≠ "" → node.Fields → (node.paths path).Nodup
  | path, .mk self slots, inside, fields => by
    rw [Node.Fields] at fields
    rw [paths_mk]
    refine List.nodup_cons.mpr ⟨fun member => ?_, Slots.paths_nodup slots inside fields.2 fields.1⟩
    exact (Slots.paths_below inside member).ne rfl

theorem Slots.paths_nodup : ∀ {path : String} (slots : Slots κ), path ≠ "" → slots.Fields → slots.positions.Nodup →
    (slots.paths path).Nodup
  | _, .nil, _, _, _ => List.nodup_nil
  | path, .empty _ rest, inside, fields, distinct => by
    rw [Slots.Fields] at fields
    exact Slots.paths_nodup rest inside fields distinct
  | path, .filled slot node rest, inside, fields, distinct => by
    have apart := fun p => @children_apart κ path p slot node rest inside fields distinct
    rw [Slots.Fields] at fields
    rw [paths_filled]
    refine List.Nodup.append (Node.paths_nodup node (childPath_inside inside _) fields.2.1)
      (Slots.paths_nodup rest inside fields.2.2 (List.nodup_cons.mp distinct).2) ?_
    exact fun p here there =>
      apart p (Node.paths_within (childPath_inside inside _) here) (Slots.paths_within inside there)

end

/-! ## Subtrees -/

/-- What is within a path below another one is not the other one. -/
theorem Below.not_within (below : Below p q) : ¬ Within q p := by
  rintro (rfl | above)
  · exact below.ne rfl
  · exact (below.trans above).ne rfl

mutual

/-- The components of a subtree are those of the tree that are within its path. -/
theorem Node.subtree_paths : ∀ {path : String} (node : Node κ), path ≠ "" → node.Fields →
    ∀ s ∈ node.subtrees path, ∀ q, q ∈ s.2.paths s.1 ↔ q ∈ node.paths path ∧ Within s.1 q
  | path, .mk self slots, inside, fields => by
    rw [Node.Fields] at fields
    rw [Node.subtrees]
    refine List.forall_mem_cons.mpr ⟨fun q => ?_, fun s member q => ?_⟩
    · exact (and_iff_left_of_imp (Node.paths_within inside)).symm
    · obtain ⟨name, -, within⟩ := Slots.subtree_within slots inside s member
      rw [Slots.subtree_paths slots inside fields.2 fields.1 s member q, paths_mk, List.mem_cons]
      refine and_congr_left fun lower => (or_iff_right ?_).symm
      rintro rfl
      exact (within.below inside).not_within lower

theorem Slots.subtree_paths : ∀ {path : String} (slots : Slots κ), path ≠ "" → slots.Fields → slots.positions.Nodup →
    ∀ s ∈ slots.subtrees path, ∀ q, q ∈ s.2.paths s.1 ↔ q ∈ slots.paths path ∧ Within s.1 q
  | _, .nil, _, _, _ => by simp [Slots.subtrees]
  | path, .empty _ rest, inside, fields, distinct => by
    rw [Slots.Fields] at fields
    exact Slots.subtree_paths rest inside fields distinct
  | path, .filled slot node rest, inside, fields, distinct => by
    have apart := fun p => @children_apart κ path p slot node rest inside fields distinct
    have within := Node.subtree_within node (childPath_inside inside slot.name)
    rw [Slots.Fields] at fields
    rw [Slots.subtrees]
    intro s member q
    rw [paths_filled, List.mem_append]
    rcases List.mem_append.mp member with here | there
    · rw [Node.subtree_paths node (childPath_inside inside _) fields.2.1 s here q]
      refine and_congr_left fun lower => (or_iff_left fun other => ?_).symm
      exact apart q ((within s here).trans lower) (Slots.paths_within inside other)
    · rw [Slots.subtree_paths rest inside fields.2.2 (List.nodup_cons.mp distinct).2 s there q]
      obtain ⟨name, listed, below⟩ := Slots.subtree_within rest inside s there
      refine and_congr_left fun lower => (or_iff_right fun mine => ?_).symm
      exact apart q (Node.paths_within (childPath_inside inside _) mine) ⟨name, listed, below.trans lower⟩

end

mutual

/-- No path of a tree has a star. -/
theorem Node.subtree_plain : ∀ {path : String} (node : Node κ), path ≠ "" → '*' ∉ path.toList → node.Fields →
    ∀ s ∈ node.subtrees path, s.1 ≠ "" ∧ '*' ∉ s.1.toList
  | path, .mk self slots, inside, plain, fields => by
    rw [Node.Fields] at fields
    rw [Node.subtrees]
    exact List.forall_mem_cons.mpr ⟨⟨inside, plain⟩, Slots.subtree_plain slots inside plain fields.2⟩

theorem Slots.subtree_plain : ∀ {path : String} (slots : Slots κ), path ≠ "" → '*' ∉ path.toList → slots.Fields →
    ∀ s ∈ slots.subtrees path, s.1 ≠ "" ∧ '*' ∉ s.1.toList
  | _, .nil, _, _, _ => by simp [Slots.subtrees]
  | path, .empty _ rest, inside, plain, fields => by
    rw [Slots.Fields] at fields
    exact Slots.subtree_plain rest inside plain fields
  | path, .filled slot node rest, inside, plain, fields => by
    rw [Slots.Fields] at fields
    have child : '*' ∉ (childPath path slot.name).toList := by
      rw [Log.toList_childPath inside]
      simp [plain, fields.1.name.2.2]
    rw [Slots.subtrees]
    intro s member
    rcases List.mem_append.mp member with here | there
    · exact Node.subtree_plain node (childPath_inside inside _) child fields.2.1 s here
    · exact Slots.subtree_plain rest inside plain fields.2.2 s there

end

/-! ## Addresses -/

/-- A path as a pattern is only itself. -/
theorem globMatch_plain (plain : '*' ∉ p.toList) : globMatch q p = true ↔ q = p := by
  rw [globMatch_eq, ← List.append_nil p.toList, Glob.accepts_append plain]
  simp [String.toList_inj]

/-- A path with a dot and a star is everything below. -/
theorem globMatch_below (plain : '*' ∉ p.toList) : globMatch q (p ++ ".*") = true ↔ Below p q := by
  have dot : '*' ∉ p.toList ++ ['.'] := by simp [plain]
  have pattern : (p ++ ".*").toList = (p.toList ++ ['.']) ++ ['*'] := by simp
  rw [globMatch_eq, pattern, Glob.accepts_append dot]
  have any (rest : List Char) : Glob.accepts '*' ['*'] rest = true :=
    Glob.accepts_wild.mpr ⟨rest, [], by simp, by simp⟩
  simp only [any, and_true, eq_comm]
  rfl

/-- What a component's path addresses. No two components of a tree have one path; as a pattern the path
matches that component only, with `.*` the components below it, and as a prefix of the log the component
with those below. -/
theorem subtree_addressed {root : String} (inside : root ≠ "") (plain : '*' ∉ root.toList) {tree : Node κ}
    (fields : tree.Fields) :
    (tree.paths root).Nodup ∧ ∀ s ∈ tree.subtrees root, ∀ q ∈ tree.paths root,
      (globMatch q s.1 = true ↔ q = s.1) ∧
        (globMatch q (s.1 ++ ".*") = true ↔ q ∈ s.2.paths s.1 ∧ q ≠ s.1) ∧
        (strIsUnder q s.1 = true ↔ q ∈ s.2.paths s.1) := by
  refine ⟨tree.paths_nodup inside fields, fun s member q listed => ?_⟩
  obtain ⟨nonempty, starless⟩ := tree.subtree_plain inside plain fields s member
  have within : q ∈ s.2.paths s.1 ↔ Within s.1 q := by
    rw [tree.subtree_paths inside fields s member q, and_iff_right listed]
  refine ⟨globMatch_plain starless, ?_, ?_⟩
  · rw [globMatch_below starless, within, below_iff]
  · rw [strIsUnder_iff_within nonempty, within]

end Tree

/-- A driver in an agent. -/
def agent : Node String := .mk "Agent" (.filled ⟨"driver", .plain⟩ (.mk "Driver" .nil) .nil)

/-- A test with two agents in a `Vec`. -/
def twoAgents : Node String := .mk "Test" (.filled ⟨"agents", .vec 0⟩ agent (.filled ⟨"agents", .vec 1⟩ agent .nil))

theorem twoAgents_fields : twoAgents.Fields := by
  have agents : FieldName "agents" := ⟨by decide, by decide, by decide, by decide⟩
  have driver : FieldName "driver" := ⟨by decide, by decide, by decide, by decide⟩
  simp [twoAgents, agent, Node.Fields, Slots.Fields, Slots.positions, Slot.index, agents, driver]

theorem second_agent : ("Test.agents[1]", agent) ∈ twoAgents.subtrees "Test" := List.mem_of_getElem? (i := 3) rfl

example : twoAgents.paths "Test" =
    ["Test", "Test.agents[0]", "Test.agents[0].driver", "Test.agents[1]", "Test.agents[1].driver"] := by decide

theorem subtree_addressed_twoAgents :
    (twoAgents.paths "Test").Nodup ∧ ∀ s ∈ twoAgents.subtrees "Test", ∀ q ∈ twoAgents.paths "Test",
      (globMatch q s.1 = true ↔ q = s.1) ∧
        (globMatch q (s.1 ++ ".*") = true ↔ q ∈ s.2.paths s.1 ∧ q ≠ s.1) ∧
        (strIsUnder q s.1 = true ↔ q ∈ s.2.paths s.1) :=
  subtree_addressed (by decide) (by decide) twoAgents_fields

end Rustdv.Component
