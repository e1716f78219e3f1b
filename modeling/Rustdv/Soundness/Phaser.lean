import Rustdv.Soundness.Consensus

/-! # The phaser's order and coverage

The build walk ends with a tree all of whose components were built once, in pre-order, and whose
factory slots are all resolved. Every later phase walks that same tree, the run phase included, since it
gives the tree back, and leaves the state that its components' methods make of the one it found.
-/

universe u

namespace Rustdv.Component

variable {κ V W : Type*} {code : Code κ V W}
  {sort : (String × Config.Entry (Value κ V) → String × Config.Entry (Value κ V) → Bool) →
    List (String × Config.Entry (Value κ V)) → Option (List (String × Config.Entry (Value κ V)))}

section Build

/-- The slots themselves are resolved, whatever is below them. -/
def Slots.Settled {κ : Type u} : Slots κ → Prop
  | .nil => True
  | .empty slot rest => slot.pending = false ∧ rest.Settled
  | .filled slot _ rest => slot.pending = false ∧ rest.Settled

/-- The component that a node is. -/
def Node.comp {κ : Type u} : Node κ → κ
  | .mk self _ => self

section Relations

variable (code sort)

/-- What resolving makes of a component's slots: a factory slot that is still to be looked up holds what
the override for its path makes, its default without one; the others stay. -/
inductive Resolves (db : Config.ConfigDb (Value κ V)) (path : String) : Slots κ → Slots κ → Prop where
  | nil : Resolves db path .nil .nil
  | kept {slot : Slot} {inner : Option (Node κ)} {rest rest' : Slots κ} (settled : slot.pending = false)
      (later : Resolves db path rest rest') :
      Resolves db path (.cons slot inner rest) (.cons slot inner rest')
  | default {field requested : String} {inner : Option (Node κ)} {rest rest' : Slots κ}
      {answer : Except Config.ConfigError (Value κ V)} {lines : List String}
      (found : Config.get sort db none (childPath path field) (overrideKey requested) overrideTypeName overrideTypeId =
        some (answer, lines))
      (other : ∀ make target, answer ≠ .ok (.override make target)) (later : Resolves db path rest rest') :
      Resolves db path (.cons ⟨field, .rustdvComp true (some requested)⟩ inner rest)
        (.cons ⟨field, .rustdvComp false (some requested)⟩ inner rest')
  | override {field requested target : String} {inner : Option (Node κ)} {rest rest' : Slots κ} {make : Maker κ}
      {lines : List String}
      (found : Config.get sort db none (childPath path field) (overrideKey requested) overrideTypeName overrideTypeId =
        some (.ok (.override make target), lines))
      (later : Resolves db path rest rest') :
      Resolves db path (.cons ⟨field, .rustdvComp true (some requested)⟩ inner rest)
        (.cons ⟨field, .rustdvComp false (some requested)⟩ (some make.1) rest')

mutual

/-- The build walk over a node, from a state to a tree and a state: the component's `build`, its factory
slots, then what it holds. -/
inductive Node.Builds : String → Node κ → State κ V W → Node κ → State κ V W → Prop where
  | mk {path : String} {self : κ} {slots resolved slots' : Slots κ} {st last : State κ V W}
      (resolves : Resolves sort (code.build self path slots st).2.db path (code.build self path slots st).1 resolved)
      (below : Slots.Builds path resolved (code.build self path slots st).2 slots' last) :
      Node.Builds path (.mk self slots) st (.mk self slots') last

/-- The build walk over filled slots, in declaration order. -/
inductive Slots.Builds : String → Slots κ → State κ V W → Slots κ → State κ V W → Prop where
  | nil {path : String} {st : State κ V W} : Slots.Builds path .nil st .nil st
  | empty {path : String} {slot : Slot} {rest rest' : Slots κ} {st last : State κ V W}
      (later : Slots.Builds path rest st rest' last) :
      Slots.Builds path (.empty slot rest) st (.empty slot rest') last
  | filled {path : String} {slot : Slot} {node node' : Node κ} {rest rest' : Slots κ} {st mid last : State κ V W}
      (now : Node.Builds (childPath path slot.name) node st node' mid)
      (later : Slots.Builds path rest mid rest' last) :
      Slots.Builds path (.filled slot node rest) st (.filled slot node' rest') last

end

end Relations

/-- The state after these components were built, one after the other, each with the slots it had. -/
def buildEach (code : Code κ V W) (comps : List (String × κ × Slots κ)) (st : State κ V W) : State κ V W :=
  comps.foldl (fun st c => (code.build c.2.1 c.1 c.2.2 st).2) st

mutual

/-- The walk builds every component of the tree it ends with, once, parents first. -/
theorem Node.Builds.preorder {path : String} {node tree : Node κ} {st last : State κ V W} :
    Node.Builds code sort path node st tree last →
      ∃ comps, comps.map (fun c => (c.1, c.2.1)) = tree.preorder path ∧ last = buildEach code comps st
  | @Node.Builds.mk _ _ _ _ _ _ self slots _ _ _ _ _ below => by
    obtain ⟨comps, same, reached⟩ := below.preorder
    refine ⟨(path, self, slots) :: comps, ?_, reached⟩
    simp only [List.map_cons, same, Node.preorder]

theorem Slots.Builds.preorder {path : String} {slots slots' : Slots κ} {st last : State κ V W} :
    Slots.Builds code sort path slots st slots' last →
      ∃ comps, comps.map (fun c => (c.1, c.2.1)) = slots'.preorder path ∧ last = buildEach code comps st
  | .nil => ⟨[], rfl, rfl⟩
  | .empty later => later.preorder
  | .filled now later => by
    obtain ⟨comps, same, rfl⟩ := now.preorder
    obtain ⟨more, same', rfl⟩ := later.preorder
    refine ⟨comps ++ more, ?_, ?_⟩
    · rw [List.map_append, same, same', Slots.preorder]
    · simp only [buildEach, List.foldl_append]

end

theorem Slots.settled_cons {slot : Slot} {inner : Option (Node κ)} {rest : Slots κ} :
    (Slots.cons slot inner rest).Settled ↔ slot.pending = false ∧ rest.Settled := by
  cases inner <;> rfl

theorem Slots.compFields_cons {slot : Slot} {inner : Option (Node κ)} {rest : Slots κ} :
    (Slots.cons slot inner rest).compFields =
      if slot.isComp then slot.field :: rest.compFields else rest.compFields := by
  cases inner <;> rfl

theorem Slots.wellNamed_cons {slot : Slot} {inner : Option (Node κ)} {rest : Slots κ} :
    (Slots.cons slot inner rest).WellNamed ↔ (∀ node ∈ inner, node.WellNamed) ∧ rest.WellNamed := by
  cases inner <;> simp [Slots.cons, Slots.WellNamed]

/-- Resolving a slot settles it, keeps its label, and leaves a well-named component in it. -/
theorem resolve_spec {db : Config.ConfigDb (Value κ V)} {path : String} {slot slot' : Slot}
    {inner inner' : Option (Node κ)} (resolved : resolve sort db path slot inner = some (slot', inner')) :
    slot'.pending = false ∧ slot'.field = slot.field ∧ slot'.isComp = slot.isComp ∧
      ((∀ node ∈ inner, node.WellNamed) → ∀ node ∈ inner', node.WellNamed) := by
  obtain ⟨field, kind⟩ := slot
  unfold resolve at resolved
  split at resolved
  · next requested same =>
    simp only at same
    subst same
    obtain ⟨found, -, same⟩ := Option.map_eq_some_iff.mp resolved
    cases same
    refine ⟨rfl, rfl, rfl, ?_⟩
    intro named node member
    cases found with
    | none => exact named node member
    | some make =>
      cases member
      exact make.2
  · next other =>
    cases resolved
    refine ⟨?_, rfl, rfl, id⟩
    unfold Slot.pending
    split
    · next requested same => exact absurd same (other requested)
    · rfl

/-- Resolving does to the slots what it is for. -/
theorem resolveChildren_resolves {db : Config.ConfigDb (Value κ V)} {path : String} {slots slots' : Slots κ}
    (resolved : resolveChildren sort db path slots = some slots') : Resolves sort db path slots slots' := by
  have one {slot : Slot} (inner : Option (Node κ)) {rest : Slots κ} {slots' : Slots κ}
      (ih : ∀ {rest'}, resolveChildren sort db path rest = some rest' → Resolves sort db path rest rest')
      (resolved : ((resolve sort db path slot inner).bind fun found =>
        (resolveChildren sort db path rest).map (Slots.cons found.1 found.2)) = some slots') :
      Resolves sort db path (Slots.cons slot inner rest) slots' := by
    obtain ⟨⟨slot', inner'⟩, now, after⟩ := Option.bind_eq_some_iff.mp resolved
    obtain ⟨rest', later, rfl⟩ := Option.map_eq_some_iff.mp after
    obtain ⟨field, kind⟩ := slot
    unfold resolve at now
    split at now
    · next requested same =>
      simp only at same
      subst same
      obtain ⟨found, looked, same⟩ := Option.map_eq_some_iff.mp now
      cases same
      obtain ⟨⟨answer, lines⟩, asked, rfl⟩ := Option.map_eq_some_iff.mp looked
      cases answer with
      | error e => exact .default asked (fun _ _ same => nomatch same) (ih later)
      | ok value =>
        cases value with
        | override make target => exact .override asked (ih later)
        | other value => exact .default asked (fun _ _ same => nomatch same) (ih later)
    · next other =>
      cases now
      refine .kept ?_ (ih later)
      unfold Slot.pending
      split
      · next requested same => exact absurd same (other requested)
      · rfl
  induction slots using Slots.children.induct generalizing slots' with
  | case1 =>
    cases resolved
    exact .nil
  | case2 slot rest ih => exact one none (fun later => ih later) resolved
  | case3 slot node rest ih => exact one (some node) (fun later => ih later) resolved

theorem resolveChildren_spec {db : Config.ConfigDb (Value κ V)} {path : String} {slots slots' : Slots κ}
    (resolved : resolveChildren sort db path slots = some slots') :
    slots'.Settled ∧ slots'.compFields = slots.compFields ∧ (slots.WellNamed → slots'.WellNamed) := by
  have one {slot : Slot} (inner : Option (Node κ)) {rest : Slots κ} {slots' : Slots κ}
      (ih : ∀ {rest'}, resolveChildren sort db path rest = some rest' →
        rest'.Settled ∧ rest'.compFields = rest.compFields ∧ (rest.WellNamed → rest'.WellNamed))
      (resolved : ((resolve sort db path slot inner).bind fun found =>
        (resolveChildren sort db path rest).map (Slots.cons found.1 found.2)) = some slots') :
      slots'.Settled ∧ slots'.compFields = (Slots.cons slot inner rest).compFields ∧
        ((Slots.cons slot inner rest).WellNamed → slots'.WellNamed) := by
    obtain ⟨⟨slot', inner'⟩, now, after⟩ := Option.bind_eq_some_iff.mp resolved
    obtain ⟨rest', later, rfl⟩ := Option.map_eq_some_iff.mp after
    obtain ⟨settled, field, comp, named⟩ := resolve_spec now
    obtain ⟨settled', fields, named'⟩ := ih later
    refine ⟨Slots.settled_cons.mpr ⟨settled, settled'⟩, ?_, ?_⟩
    · simp only [Slots.compFields_cons, field, comp, fields]
    · intro all
      obtain ⟨inside, below⟩ := Slots.wellNamed_cons.mp all
      exact Slots.wellNamed_cons.mpr ⟨named inside, named' below⟩
  induction slots using Slots.children.induct generalizing slots' with
  | case1 =>
    cases resolved
    exact ⟨trivial, rfl, id⟩
  | case2 slot rest ih => exact one none (fun later => ih later) resolved
  | case3 slot node rest ih => exact one (some node) (fun later => ih later) resolved

variable (code sort) in
/-- What the build walk makes of a node. -/
structure Built (path : String) (before after : Node κ) (st last : State κ V W) (out : List (Obs κ)) : Prop where
  builds : before.Builds code sort path st after last
  calls : out = calls .build (after.preorder path)
  resolved : after.Resolved
  named : before.WellNamed → after.WellNamed

theorem descend_spec {visit : String → Node κ → State κ V W → Option (Node κ × State κ V W × List (Obs κ))}
    (visited : ∀ {path node st node' st' out}, visit path node st = some (node', st', out) →
      Built code sort path node node' st st' out)
    {path : String} {slots slots' : Slots κ} {st st' : State κ V W} {out : List (Obs κ)}
    (settled : slots.Settled) (descended : descend visit path slots st = some (slots', st', out)) :
    slots.Builds code sort path st slots' st' ∧ out = calls .build (slots'.preorder path) ∧ slots'.Resolved ∧
      slots'.compFields = slots.compFields ∧ (slots.WellNamed → slots'.WellNamed) := by
  induction slots using Slots.children.induct generalizing slots' st st' out with
  | case1 =>
    cases descended
    exact ⟨.nil, rfl, trivial, rfl, id⟩
  | case2 slot rest ih =>
    obtain ⟨⟨rest', st₁, more⟩, later, same⟩ := Option.map_eq_some_iff.mp descended
    cases same
    obtain ⟨builds, shown, resolved, fields, named⟩ := ih settled.2 later
    refine ⟨.empty builds, shown, ⟨settled.1, resolved⟩, ?_, named⟩
    simp only [Slots.compFields, fields]
  | case3 slot node rest ih =>
    obtain ⟨⟨node', st₁, first⟩, now, after⟩ := Option.bind_eq_some_iff.mp descended
    obtain ⟨⟨rest', st₂, more⟩, later, same⟩ := Option.map_eq_some_iff.mp after
    cases same
    obtain ⟨one, shown, whole, named⟩ := visited now
    obtain ⟨builds, shown', resolved, fields, named'⟩ := ih settled.2 later
    refine ⟨.filled one builds, ?_, ⟨settled.1, whole, resolved⟩, ?_, fun all => ⟨named all.1, named' all.2⟩⟩
    · rw [shown, shown', Slots.preorder, calls, calls, calls, List.map_append]
    · simp only [Slots.compFields, fields]

/-- The walk builds as it is to, shows every component of the tree it ends with once, parents first, and
leaves no factory slot to be looked up. -/
theorem buildAll_spec {fuel : ℕ} {path : String} {node tree : Node κ} {st built : State κ V W}
    {out : List (Obs κ)} (done : buildAll code sort fuel path node st = some (tree, built, out)) :
    Built code sort path node tree st built out := by
  induction fuel generalizing path node tree st built out with
  | zero => cases done
  | succ fuel ih =>
    obtain ⟨self, slots⟩ := node
    obtain ⟨slots₁, resolved, rest⟩ := Option.bind_eq_some_iff.mp done
    obtain ⟨⟨slots₂, st₁, more⟩, descended, same⟩ := Option.map_eq_some_iff.mp rest
    cases same
    obtain ⟨settled, fields, named⟩ := resolveChildren_spec resolved
    obtain ⟨builds, shown, whole, fields', named'⟩ := descend_spec (fun visited => ih visited) settled descended
    refine ⟨.mk (resolveChildren_resolves resolved) builds, ?_, whole, ?_⟩
    · rw [shown]
      rfl
    · intro before
      obtain ⟨distinct, below⟩ := code.build_named self path slots st before
      exact ⟨by rw [fields', fields]; exact distinct, named' (named below)⟩

/-- Each component builds only children of lower rank, and no lookup panics. -/
def Grounded (code : Code κ V W)
    (sort : (String × Config.Entry (Value κ V) → String × Config.Entry (Value κ V) → Bool) →
      List (String × Config.Entry (Value κ V)) → Option (List (String × Config.Entry (Value κ V))))
    (rank : κ → ℕ) : Prop :=
  ∀ self path slots st, ∃ slots', resolveChildren sort (code.build self path slots st).2.db path
    (code.build self path slots st).1 = some slots' ∧ ∀ child ∈ slots'.children, rank child.2.comp < rank self

theorem descend_isSome {visit : String → Node κ → State κ V W → Option (Node κ × State κ V W × List (Obs κ))}
    {path : String} {slots : Slots κ} (visits : ∀ child ∈ slots.children, ∀ path st, (visit path child.2 st).isSome = true)
    (st : State κ V W) : (descend visit path slots st).isSome = true := by
  induction slots using Slots.children.induct generalizing st with
  | case1 => rfl
  | case2 slot rest ih =>
    rw [descend, Option.isSome_map]
    exact ih visits st
  | case3 slot node rest ih =>
    obtain ⟨⟨node', st₁, out⟩, now⟩ := Option.isSome_iff_exists.mp
      (visits (slot.name, node) List.mem_cons_self (childPath path slot.name) st)
    rw [descend, now, Option.bind_some, Option.isSome_map]
    exact ih (fun child member => visits child (List.mem_cons_of_mem _ member)) st₁

/-- With enough fuel for the depth of the tree, the build walk ends. -/
theorem buildAll_isSome {rank : κ → ℕ} (grounded : Grounded code sort rank) {fuel : ℕ} {node : Node κ}
    (enough : rank node.comp < fuel) (path : String) (st : State κ V W) :
    (buildAll code sort fuel path node st).isSome = true := by
  induction fuel generalizing path node st with
  | zero => omega
  | succ fuel ih =>
    obtain ⟨self, slots⟩ := node
    obtain ⟨slots', resolved, lower⟩ := grounded self path slots st
    simp only [buildAll, resolved, Option.bind_some, Option.isSome_map]
    refine descend_isSome ?_ _
    intro child member path st
    have below := lower child member
    simp only [Node.comp] at enough
    exact ih (by omega) path st

end Build

section Order

variable {fuel : ℕ} {path : String}

/-- No phase method is called in these observations. -/
def Silent (out : List (Obs κ)) : Prop := ∀ phase path comp, .called phase path comp ∉ out

theorem Follows.silent {a b : Bool} {out : List (Obs κ)} (follows : Follows a out b) : Silent out := by
  intro phase path comp member
  obtain ⟨pre, post, rfl⟩ := List.append_of_mem member
  obtain ⟨c, -, rest⟩ := follows_append_iff.mp follows
  obtain ⟨d, now, -⟩ := follows_cons_iff.mp rest
  cases now

theorem Silent.append {first later : List (Obs κ)} (left : Silent first) (right : Silent later) :
    Silent (first ++ later) := by
  intro phase path comp member
  exact (List.mem_append.mp member).elim (left phase path comp) (right phase path comp)

/-- A test that has ended does nothing more. -/
theorem done_of_run {result : TestResult} {node : Node κ} {ended t : Test κ V W} {actions : List (Action κ V W)}
    {obs : List (Obs κ)} (completed : ended.fut = .done result node)
    (ran : (machine code sort fuel path).run ended actions = some (t, obs)) :
    t.fut = .done result node ∧ Silent obs := by
  refine (machine code sort fuel path).run_invariant_nil
    (fun t seen => t.fut = .done result node ∧ Silent seen) ⟨completed, by simp [Silent]⟩ ?_ ran
  rintro ⟨fut, st⟩ v seen out a ⟨ended, silent⟩ stepped
  subst ended
  cases a with
  | poll waker => cases stepped
  | other effect =>
    cases stepped
    exact ⟨rfl, silent.append (applyEffect_follows effect st).silent⟩

/-- The result of a test: the run error if there is one, else what the checks say. -/
def outcome (code : Code κ V W) (path : String) (tree : Node κ) (ran : State κ V W) : TestResult → TestResult
  | .error e => .error e
  | .ok () => intoResult (checkErrors code path tree ran)

/-- Where a test stands after the post-run phases. -/
def concludedTest (code : Code κ V W) (path : String) (tree : Node κ) (ran : State κ V W) (result : TestResult) :
    Test κ V W :=
  ⟨.done (outcome code path tree ran result) tree, concluded code path tree ran⟩

variable (code path) in
theorem afterRun_ready (result : TestResult) (node : Node κ) (st : State κ V W) :
    afterRun code path (.ready result node) st = (concludedTest code path node st result,
      calls .extract (node.preorder path) ++ calls .check (node.preorder path) ++
        calls .report (node.preorder path) ++ calls .final (node.preorder path)) := by
  cases result with
  | error e => simp only [afterRun, runExtractCheckReport_eq, concludedTest, outcome]
  | ok done => simp only [afterRun, runExtractCheckReport_eq, concludedTest, outcome]

/-- What follows the first poll of the run phase is a run of `run_all`, then the post-run phases, then what
is left to happen to a test that has ended. -/
theorem runs_of_afterRun (progress : Progress κ) (st : State κ V W) {actions : List (Action κ V W)}
    {t : Test κ V W} {obs : List (Obs κ)} {result : TestResult} {final : Node κ}
    (ran : (machine code sort fuel path).run (afterRun code path progress st).1 actions = some (t, obs))
    (completed : t.fut = .done result final) :
    ∃ mid last runResult ended running late, actions = mid ++ last ∧
      (runMachine code path).run ⟨progress.toFut, st⟩ mid = some (⟨.done runResult final, ended⟩, running) ∧
      (machine code sort fuel path).run (concludedTest code path final ended runResult) last = some (t, late) ∧
      (afterRun code path progress st).2 ++ obs =
        running ++ (calls .extract (final.preorder path) ++ calls .check (final.preorder path) ++
          calls .report (final.preorder path) ++ calls .final (final.preorder path)) ++ late ∧
      result = outcome code path final ended runResult ∧ Silent late := by
  induction actions generalizing progress st obs with
  | nil =>
    cases ran
    cases progress with
    | pending fut => cases completed
    | ready runResult node =>
      simp only [afterRun_ready] at completed ⊢
      obtain ⟨rfl, rfl⟩ := TestFut.done.inj completed
      exact ⟨[], [], runResult, st, [], [], rfl, rfl, rfl, rfl, rfl, by simp [Silent]⟩
  | cons a rest ih =>
    cases progress with
    | ready runResult node =>
      rw [afterRun_ready] at ran ⊢
      obtain ⟨same, silent⟩ := done_of_run rfl ran
      obtain ⟨rfl, rfl⟩ := TestFut.done.inj (completed.symm.trans same)
      exact ⟨[], a :: rest, runResult, st, [], obs, rfl, rfl, ran, rfl, rfl, silent⟩
    | pending fut =>
      change (machine code sort fuel path).run ⟨.running fut, st⟩ (a :: rest) = some (t, obs) at ran
      obtain ⟨next, out, more, stepped, suffix, rfl⟩ := (machine code sort fuel path).run_cons_eq_some_iff.mp ran
      cases a with
      | other effect =>
        obtain ⟨rfl, rfl⟩ := Prod.mk.inj (Option.some.inj stepped)
        obtain ⟨mid, last, runResult, ended, running, late, rfl, runs, rests, shown, same, silent⟩ :=
          ih (.pending fut) (applyEffect effect st).1 suffix
        refine ⟨.other effect :: mid, last, runResult, ended, (applyEffect effect st).2 ++ running, late, rfl, ?_, rests,
          ?_, same, silent⟩
        · exact (runMachine code path).run_cons_eq_some_iff.mpr ⟨_, _, running, rfl, runs, rfl⟩
        · change more = _ at shown
          change (applyEffect effect st).2 ++ more = _
          simp only [shown, List.append_assoc]
      | poll waker =>
        obtain ⟨rfl, rfl⟩ := Prod.mk.inj (Option.some.inj stepped)
        obtain ⟨mid, last, runResult, ended, running, late, rfl, runs, rests, shown, same, silent⟩ :=
          ih (resume code waker fut st).1 (resume code waker fut st).2.1 suffix
        refine ⟨.poll waker :: mid, last, runResult, ended, (resume code waker fut st).2.2 ++ running, late, rfl, ?_,
          rests, ?_, same, silent⟩
        · exact (runMachine code path).run_cons_eq_some_iff.mpr ⟨_, _, running, rfl, runs, rfl⟩
        · change (resume code waker fut st).2.2 ++
            (afterRun code path (resume code waker fut st).1 (resume code waker fut st).2.1).2 ++ more = _
          rw [List.append_assoc, shown]
          simp only [List.append_assoc]

/-- The state after the connect phase of a built tree. -/
def elaborated (code : Code κ V W) (path : String) (tree : Node κ) (built : State κ V W) : State κ V W :=
  applyAll code.connect (tree.postorder path) (setInBuild false built)

/-- The state in which the run phase starts. -/
def simulating (code : Code κ V W) (path : String) (tree : Node κ) (st : State κ V W) : State κ V W :=
  applyAll code.startOfSimulation (tree.preorder path) (applyAll code.endOfElaboration (tree.preorder path) st)

/-- Where a test with ports missing ends. -/
def unconnectedTest (code : Code κ V W) (path : String) (tree : Node κ) (st : State κ V W) : Test κ V W :=
  ⟨.done (.error (unconnectedError (unbound code path tree st))) tree, st⟩

variable (code sort fuel path) in
/-- How a test over a built tree ends, in which state, and everything it shows. -/
inductive Phased (tree : Node κ) (built : State κ V W) (waker : Waker) (actions : List (Action κ V W))
    (t : Test κ V W) : List (Obs κ) → TestResult → Prop where
  /-- Ports are missing: nothing is called after connect. -/
  | unconnected (late : List (Obs κ)) (missing : unbound code path tree (elaborated code path tree built) ≠ [])
      (rests : (machine code sort fuel path).run (unconnectedTest code path tree (elaborated code path tree built))
        actions = some (t, late))
      (silent : Silent late) :
      Phased tree built waker actions t
        (calls .build (tree.preorder path) ++ calls .connect (tree.postorder path) ++ late)
        (.error (unconnectedError (unbound code path tree (elaborated code path tree built))))
  /-- All phases, one after the other, around a run of `run_all` over the same tree. -/
  | ran (mid last : List (Action κ V W)) (running late : List (Obs κ)) (result : TestResult) (ended : State κ V W)
      (connected : unbound code path tree (elaborated code path tree built) = [])
      (polls : actions = mid ++ last)
      (runs : (runMachine code path).run
        ⟨.fresh tree, simulating code path tree (elaborated code path tree built)⟩ (.poll waker :: mid) =
          some (⟨.done result tree, ended⟩, running))
      (rests : (machine code sort fuel path).run (concludedTest code path tree ended result) last = some (t, late))
      (silent : Silent running) (quiet : Silent late) :
      Phased tree built waker actions t
        (calls .build (tree.preorder path) ++ calls .connect (tree.postorder path) ++
          calls .endOfElaboration (tree.preorder path) ++ calls .startOfSimulation (tree.preorder path) ++
          running ++
          (calls .extract (tree.preorder path) ++ calls .check (tree.preorder path) ++
            calls .report (tree.preorder path) ++ calls .final (tree.preorder path)) ++ late)
        (outcome code path tree ended result)

/-- The first poll with ports missing. -/
theorem begin_unconnected {node tree : Node κ} {st built : State κ V W} {out : List (Obs κ)} (waker : Waker)
    (done : buildAll code sort fuel path node (setInBuild true st) = some (tree, built, out))
    (missing : unbound code path tree (elaborated code path tree built) ≠ []) :
    begin code sort fuel path waker node st = some
      (unconnectedTest code path tree (elaborated code path tree built),
        out ++ calls .connect (tree.postorder path)) := by
  have failed : checkConnections code path tree (elaborated code path tree built) =
      .error (unconnectedError (unbound code path tree (elaborated code path tree built))) := by
    rw [checkConnections, unconnectedPorts_eq_unbound]
    split
    · next none => exact absurd none missing
    · rfl
  rw [elaborated] at failed
  simp only [begin, done, Option.map_some, connectAll_eq, failed]
  rfl

/-- The first poll with all ports bound. -/
theorem begin_connected {node tree : Node κ} {st built : State κ V W} {out : List (Obs κ)} (waker : Waker)
    (done : buildAll code sort fuel path node (setInBuild true st) = some (tree, built, out))
    (connected : unbound code path tree (elaborated code path tree built) = []) :
    begin code sort fuel path waker node st =
      let first := start code waker path tree (simulating code path tree (elaborated code path tree built))
      some ((afterRun code path first.1 first.2.1).1,
        out ++ calls .connect (tree.postorder path) ++ calls .endOfElaboration (tree.preorder path) ++
          calls .startOfSimulation (tree.preorder path) ++ first.2.2 ++ (afterRun code path first.1 first.2.1).2) := by
  have passed : checkConnections code path tree (elaborated code path tree built) = .ok () := by
    rw [checkConnections, unconnectedPorts_eq_unbound, connected]
  rw [elaborated] at passed
  simp only [begin, done, Option.map_some, connectAll_eq, passed, endOfElaborationAll_eq, startOfSimulationAll_eq]
  rfl

/-- Every test that ends went through its phases in order over the tree it built, each leaving the state that
its methods make of the one before. With enough fuel for that tree, the build walk ends. -/
theorem phaser_order {node : Node κ} (named : node.WellNamed) (st : State κ V W) (waker : Waker) :
    (∀ fuel actions t obs result final,
      (machine code sort fuel path).run ⟨.fresh node, st⟩ (.poll waker :: actions) = some (t, obs) →
      t.fut = .done result final →
      ∃ comps built, node.Builds code sort path (setInBuild true st) final built ∧
        comps.map (fun c => (c.1, c.2.1)) = final.preorder path ∧
        built = buildEach code comps (setInBuild true st) ∧ final.Resolved ∧
        Phased code sort fuel path final built waker actions t obs result) ∧
    ∀ rank, Grounded code sort rank → ∀ fuel, rank node.comp < fuel →
      ((machine code sort fuel path).step ⟨.fresh node, st⟩ (.poll waker)).isSome = true := by
  constructor
  · intro fuel actions t obs result final ran completed
    obtain ⟨next, out, more, stepped, suffix, rfl⟩ := (machine code sort fuel path).run_cons_eq_some_iff.mp ran
    change begin code sort fuel path waker node st = some (next, out) at stepped
    obtain ⟨⟨tree, built, building⟩, done, -⟩ := Option.map_eq_some_iff.mp stepped
    obtain ⟨builds, rfl, resolved, keeps⟩ := buildAll_spec done
    obtain ⟨comps, once, folds⟩ := builds.preorder
    by_cases connected : unbound code path tree (elaborated code path tree built) = []
    · rw [begin_connected waker done connected] at stepped
      obtain ⟨rfl, rfl⟩ := Prod.mk.inj (Option.some.inj stepped)
      obtain ⟨mid, last, runResult, ended, running, late, rfl, runs, rests, shown, rfl, quiet⟩ :=
        runs_of_afterRun _ _ suffix completed
      have whole := (runMachine code path).run_cons_eq_some_iff.mpr
        ⟨_, _, running, (rfl : (runMachine code path).step
          ⟨.fresh tree, simulating code path tree (elaborated code path tree built)⟩ (.poll waker) = some _), runs, rfl⟩
      obtain rfl := final_of_run (keeps named) whole rfl
      refine ⟨comps, built, builds, once, folds, resolved, ?_⟩
      have phased := Phased.ran mid last _ late runResult ended connected rfl whole rests (follows_of_run whole).silent quiet
      simpa only [List.append_assoc, shown] using phased
    · rw [begin_unconnected waker done connected] at stepped
      obtain ⟨rfl, rfl⟩ := Prod.mk.inj (Option.some.inj stepped)
      obtain ⟨same, silent⟩ := done_of_run rfl suffix
      rw [same] at completed
      cases completed
      exact ⟨comps, built, builds, once, folds, resolved, .unconnected more connected suffix silent⟩
  · intro rank grounded fuel enough
    change (begin code sort fuel path waker node st).isSome = true
    rw [begin, Option.isSome_map]
    exact buildAll_isSome grounded enough ..

/-- The factory's replacement, with a plain child of its own. -/
def fastEnv : Maker String :=
  ⟨.mk "FastEnv" (.filled ⟨"mon", .plain⟩ (.mk "Monitor" .nil) .nil), by
    simp [Node.WellNamed, Slots.WellNamed, Slots.compFields, Slot.isComp]⟩

/-- The world of a testbench whose methods write down which of them was called, and where. -/
abbrev Diary := List (Phase × String)

/-- A method that writes itself down. -/
def note (phase : Phase) : Method String Unit Diary := fun _ path st => { st with world := st.world ++ [(phase, path)] }

/-- A test that overrides the environment it creates in its build phase. The replacement's monitor finds
something missing. -/
def overridingTest : Code String Unit Diary :=
  { runOnly (fun _ _ st => (⟨st.db, st.world, []⟩, .ready (.ok ()))) (fun _ _ st => ⟨st.db, st.world, []⟩) with
    build := fun self path slots st =>
      if self = "test" then
        (.filled ⟨"env", .rustdvComp true (some "Env")⟩ (.mk "Env" .nil) .nil,
          { note .build self path st with db := (Config.set st.db none "*" (overrideKey "Env")
            ⟨.override fastEnv "FastEnv", overrideTypeName, overrideTypeId, "-> FastEnv"⟩).1 })
      else (slots, note .build self path st)
    connect := note .connect
    endOfElaboration := note .endOfElaboration
    startOfSimulation := note .startOfSimulation
    extract := note .extract
    check := fun self path st => (note .check self path st, if self = "Monitor" then ["nothing seen"] else [])
    report := note .report
    finalPhase := note .final
    build_named := by
      intro self path slots st named
      split
      · simp [Node.WellNamed, Slots.WellNamed, Slots.compFields, Slot.isComp]
      · exact named }

/-- A phase written down at each of these paths. -/
def noted (phase : Phase) (paths : List String) : Diary := paths.map fun path => (phase, path)

theorem phaser_order_override :
    ∃ t obs result final, (machine overridingTest (fun less l => some (SortBy.insertionSort less l)) 3 "test").run
        ⟨.fresh (.mk "test" .nil), ⟨Config.init, Objection.new, []⟩⟩ [.poll (.task 1)] = some (t, obs) ∧
      t.fut = .done result final ∧ result = .error ⟨"1 check failure(s): nothing seen", none⟩ ∧
      obs.take 3 = [.called .build "test" "test", .called .build "test.env" "FastEnv",
        .called .build "test.env.mon" "Monitor"] ∧
      t.state.world = noted .build ["test", "test.env", "test.env.mon"] ++
        noted .connect ["test.env.mon", "test.env", "test"] ++
        noted .endOfElaboration ["test", "test.env", "test.env.mon"] ++
        noted .startOfSimulation ["test", "test.env", "test.env.mon"] ++
        noted .extract ["test", "test.env", "test.env.mon"] ++ noted .check ["test", "test.env", "test.env.mon"] ++
        noted .report ["test", "test.env", "test.env.mon"] ++ noted .final ["test", "test.env", "test.env.mon"] ∧
      ∃ built, Phased overridingTest (fun less l => some (SortBy.insertionSort less l)) 3 "test" final built (.task 1) []
        t obs result := by
  have seen : ((machine overridingTest (fun less l => some (SortBy.insertionSort less l)) 3 "test").run
      ⟨.fresh (.mk "test" .nil), ⟨Config.init, Objection.new, []⟩⟩ [.poll (.task 1)]).map
        (fun last => (last.1.fut.result, last.2.take 3, last.1.state.world)) =
      some (some (.error ⟨"1 check failure(s): nothing seen", none⟩),
        [.called .build "test" "test", .called .build "test.env" "FastEnv", .called .build "test.env.mon" "Monitor"],
        noted .build ["test", "test.env", "test.env.mon"] ++ noted .connect ["test.env.mon", "test.env", "test"] ++
          noted .endOfElaboration ["test", "test.env", "test.env.mon"] ++
          noted .startOfSimulation ["test", "test.env", "test.env.mon"] ++
          noted .extract ["test", "test.env", "test.env.mon"] ++ noted .check ["test", "test.env", "test.env.mon"] ++
          noted .report ["test", "test.env", "test.env.mon"] ++
          noted .final ["test", "test.env", "test.env.mon"]) := by decide +kernel
  obtain ⟨⟨t, obs⟩, ran, same⟩ := Option.map_eq_some_iff.mp seen
  obtain ⟨ended, same'⟩ := Prod.mk.inj same
  obtain ⟨shown, written⟩ := Prod.mk.inj same'
  obtain ⟨final, completed⟩ := TestFut.eq_done_of_result ended
  have named : (Node.mk "test" .nil).WellNamed := by simp [Node.WellNamed, Slots.WellNamed, Slots.compFields]
  obtain ⟨comps, built, -, -, -, -, phased⟩ := (phaser_order named _ _).1 _ _ _ _ _ _ ran completed
  exact ⟨t, obs, _, final, ran, completed, rfl, shown, written, built, phased⟩

end Order

end Rustdv.Component
