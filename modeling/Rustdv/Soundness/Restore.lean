import Rustdv.Model.RunPhase
import Rustdv.Soundness.Walks
import Mathlib.Data.List.Nodup

/-! # The run phase gives the tree back

Every pending `run_all` future belongs to one tree: what it holds in its slots, moved out or inside a
child's future is that tree's, under that tree's names. Polling keeps this, and a future that is ready
hands out the tree.
-/

universe u

namespace Rustdv.Component

section Slots

variable {κ : Type u}

namespace Slots

theorem taken_taken (slots : Slots κ) : slots.taken.taken = slots.taken := by
  fun_induction taken slots with
  | case1 => rfl
  | case2 slot rest ih => exact ih
  | case3 slot node rest comp ih => simp [taken, comp, ih]
  | case4 slot node rest comp ih => exact ih

theorem refill_children (slots : Slots κ) : slots.refill (slots.children.map Prod.snd) = slots := by
  induction slots using Slots.children.induct with
  | case1 => rfl
  | case2 slot rest ih => simp [children, refill, ih]
  | case3 slot node rest ih => simp [children, refill, ih]

theorem name_eq_field {slot : Slot} (comp : slot.isComp = true) : slot.name = slot.field := by
  obtain ⟨field, kind⟩ := slot
  cases kind with
  | rustdvComp overridable requested => rfl
  | _ => cases comp

/-- The names of what is moved out are labels of factory fields. -/
theorem mem_compFields_of_mem_taken {slots : Slots κ} {child : String × Node κ}
    (member : child ∈ slots.taken.children) : child.1 ∈ slots.compFields := by
  induction slots using Slots.children.induct with
  | case1 => cases member
  | case2 slot rest ih =>
    simp only [taken] at member
    simp only [compFields]
    split_ifs
    · exact List.mem_cons_of_mem _ (ih member)
    · exact ih member
  | case3 slot node rest ih =>
    simp only [taken] at member
    simp only [compFields]
    split_ifs at member ⊢ with comp
    · rcases List.mem_cons.mp member with rfl | later
      · exact List.mem_cons.mpr (.inl (name_eq_field comp))
      · exact List.mem_cons_of_mem _ (ih later)
    · exact ih member

theorem putNode_cons {slot : Slot} {inner : Option (Node κ)} {rest : Slots κ} {name : String} {node : Node κ}
    (other : ¬ (slot.isComp = true ∧ slot.field = name)) :
    (cons slot inner rest).putNode name node = cons slot inner (rest.putNode name node) := by
  cases inner <;> exact if_neg other

/-- Putting children back passes by a slot that none of them belongs to. -/
theorem restore_cons {slot : Slot} (inner : Option (Node κ)) {rest : Slots κ} {back : List (String × Node κ)}
    (others : ∀ child ∈ back, ¬ (slot.isComp = true ∧ slot.field = child.1)) :
    (cons slot inner rest).restore back = cons slot inner (rest.restore back) := by
  induction back generalizing rest with
  | nil => rfl
  | cons child back ih =>
    have first := others child List.mem_cons_self
    have later := fun c member => others c (List.mem_cons_of_mem child member)
    simp only [restore, List.foldl_cons, putNode_cons first]
    exact ih later

/-- With distinct field names, what was moved out goes back where it was. -/
theorem restore_take {slots : Slots κ} (distinct : slots.compFields.Nodup) :
    slots.take.restore slots.taken.children = slots := by
  induction slots using Slots.children.induct with
  | case1 => rfl
  | case2 slot rest ih =>
    simp only [compFields] at distinct
    simp only [take, taken]
    have others (child : String × Node κ) (member : child ∈ rest.taken.children) :
        ¬ (slot.isComp = true ∧ slot.field = child.1) := by
      rintro ⟨comp, same⟩
      rw [if_pos comp, List.nodup_cons] at distinct
      exact distinct.1 (same ▸ mem_compFields_of_mem_taken member)
    have rest' : rest.compFields.Nodup := by
      split_ifs at distinct
      · exact (List.nodup_cons.mp distinct).2
      · exact distinct
    exact (restore_cons none others).trans (congrArg (Slots.empty slot) (ih rest'))
  | case3 slot node rest ih =>
    simp only [compFields] at distinct
    by_cases comp : slot.isComp = true
    · rw [if_pos comp, List.nodup_cons] at distinct
      have others (child : String × Node κ) (member : child ∈ rest.taken.children) :
          ¬ (slot.isComp = true ∧ slot.field = child.1) := by
        rintro ⟨-, same⟩
        exact distinct.1 (same ▸ mem_compFields_of_mem_taken member)
      have first : (Slots.empty slot rest.take).putNode slot.name node = .filled slot node rest.take := by
        rw [name_eq_field comp]
        exact if_pos ⟨comp, rfl⟩
      simp only [take, taken, comp, ↓reduceIte, children]
      rw [restore, List.foldl_cons, first]
      exact (restore_cons (some node) others).trans (congrArg (Slots.filled slot node) (ih distinct.2))
    · have others (child : String × Node κ) : ¬ (slot.isComp = true ∧ slot.field = child.1) := fun ⟨yes, _⟩ => comp yes
      rw [if_neg comp] at distinct
      simp only [take, taken, comp, Bool.false_eq_true, ↓reduceIte]
      exact (restore_cons (some node) fun child _ => others child).trans
        (congrArg (Slots.filled slot node) (ih distinct))

/-- All components below the slots are well named. -/
theorem WellNamed.of_mem {slots : Slots κ} (named : slots.WellNamed) {child : String × Node κ}
    (member : child ∈ slots.children) : child.2.WellNamed := by
  induction slots using Slots.children.induct with
  | case1 => cases member
  | case2 slot rest ih => exact ih (by simpa only [WellNamed] using named) member
  | case3 slot node rest ih =>
    simp only [WellNamed] at named
    rcases List.mem_cons.mp member with rfl | later
    · exact named.1
    · exact ih named.2 later

theorem WellNamed.taken {slots : Slots κ} (named : slots.WellNamed) : slots.taken.WellNamed := by
  induction slots using Slots.children.induct with
  | case1 => exact named
  | case2 slot rest ih => exact ih (by simpa only [WellNamed] using named)
  | case3 slot node rest ih =>
    simp only [WellNamed] at named
    simp only [Slots.taken]
    split_ifs
    · exact (by simpa only [WellNamed] using ⟨named.1, ih named.2⟩)
    · exact ih named.2

theorem WellNamed.take {slots : Slots κ} (named : slots.WellNamed) : slots.take.WellNamed := by
  induction slots using Slots.children.induct with
  | case1 => exact named
  | case2 slot rest ih =>
    simp only [Slots.take, WellNamed] at named ⊢
    exact ih named
  | case3 slot node rest ih =>
    simp only [WellNamed] at named
    simp only [Slots.take]
    split_ifs <;> simp only [WellNamed]
    · exact ih named.2
    · exact ⟨named.1, ih named.2⟩

end Slots

end Slots

section Futures

variable {κ : Type u}

mutual

/-- The future holds the parts of this tree. -/
def RunFut.Of : RunFut κ → Node κ → Prop
  | .inPlace _ self slots taken children, .mk self' slots' =>
      self = self' ∧ slots = slots'.take ∧ taken = slots'.taken ∧ children.Of slots'.take.children
  | .alone _ self slots, .mk self' slots' => self = self' ∧ slots = slots'
  | .joined _ self slots children _, .mk self' slots' =>
      self = self' ∧ slots = slots'.take ∧ children.Of slots'.taken.children

/-- The joined futures hold the parts of these trees, in this order and under these names. -/
def Futs.Of : Futs κ → List (String × Node κ) → Prop
  | .nil, [] => True
  | .running name fut rest, child :: more => name = child.1 ∧ fut.Of child.2 ∧ rest.Of more
  | .done name _ node rest, child :: more => name = child.1 ∧ node = child.2 ∧ rest.Of more
  | _, _ => False

end

/-- A poll leaves a future of the tree, or hands it out. -/
def Progress.Of : Progress κ → Node κ → Prop
  | .pending fut, node => fut.Of node
  | .ready _ node', node => node' = node

theorem Futs.Of.cons {name : String} {progress : Progress κ} {node : Node κ} {rest : Futs κ}
    {more : List (String × Node κ)} (first : progress.Of node) (later : rest.Of more) :
    (Futs.cons name progress rest).Of ((name, node) :: more) := by
  cases progress with
  | pending fut => exact ⟨rfl, first, later⟩
  | ready result node' => exact ⟨rfl, first, later⟩

/-- Finished futures hand out the trees they belong to. -/
theorem Futs.Of.results {futs : Futs κ} {trees : List (String × Node κ)} (of : futs.Of trees)
    {results : List (String × TestResult × Node κ)} (done : futs.results = some results) :
    results.map (fun r => (r.1, r.2.2)) = trees := by
  induction futs using Futs.results.induct generalizing trees results with
  | case1 =>
    cases trees with
    | nil =>
      cases done
      rfl
    | cons child more => exact of.elim
  | case2 name fut rest => cases done
  | case3 name result node rest ih =>
    cases trees with
    | nil => exact of.elim
    | cons child more =>
      obtain ⟨later, done', rfl⟩ := Option.map_eq_some_iff.mp done
      obtain ⟨rfl, rfl, of'⟩ := of
      simp only [List.map_cons, ih of' done']

/-- Joining the factory children with the own body puts the tree together again. -/
theorem concludeJoin_of {path : String} {self : κ} {slots : Slots κ} {children : Futs κ} (own : Option TestResult)
    (distinct : slots.compFields.Nodup) (of : children.Of slots.taken.children) :
    (concludeJoin path self slots.take children own).Of (.mk self slots) := by
  unfold concludeJoin
  cases done : children.results with
  | none => exact ⟨rfl, rfl, of⟩
  | some results =>
    cases own with
    | none => exact ⟨rfl, rfl, of⟩
    | some result =>
      simp only [of.results done, Slots.restore_take distinct]
      rfl

theorem concludeAlone_of {path : String} {self : κ} {slots : Slots κ} (own : Option TestResult) :
    (concludeAlone path self slots own).Of (.mk self slots) := by
  cases own with
  | none => exact ⟨rfl, rfl⟩
  | some result => rfl

end Futures

section Polls

variable {κ V W : Type*} (code : Code κ V W) (waker : Waker)

theorem joinOwn_of {path : String} {self : κ} {slots : Slots κ} {children : Futs κ}
    (distinct : slots.compFields.Nodup) (of : children.Of slots.taken.children) (st : State κ V W) :
    (joinOwn code waker path self slots.take children st).1.Of (.mk self slots) :=
  concludeJoin_of _ distinct of

/-- On every way out of the join of the in-place children, the tree is kept. -/
theorem afterInPlace_of {path : String} {self : κ} {slots : Slots κ} {children : Futs κ}
    (distinct : slots.compFields.Nodup) (of : children.Of slots.take.children)
    {startTaken : State κ V W → Futs κ × State κ V W × List (Obs κ)}
    (ofTaken : ∀ st, (startTaken st).1.Of slots.taken.children) (st : State κ V W) :
    (afterInPlace code waker path self slots.take slots.taken children startTaken st).1.Of (.mk self slots) := by
  unfold afterInPlace
  split
  · exact ⟨rfl, rfl, rfl, of⟩
  · next results done =>
    have back : slots.take.refill (results.map (·.2.2)) = slots.take := by
      have nodes : results.map (·.2.2) = slots.take.children.map Prod.snd := by
        rw [← of.results done, List.map_map]
        rfl
      rw [nodes, Slots.refill_children]
    simp only [back]
    split
    · exact congrArg (Node.mk self) (Slots.restore_take distinct)
    · split
      · next none =>
        have whole : slots.take = slots := by
          have restored := Slots.restore_take distinct
          rwa [none] at restored
        rw [whole]
        exact concludeAlone_of _
      · exact joinOwn_of code waker distinct (ofTaken st) _

mutual

/-- The first poll keeps the tree. -/
theorem start_of : ∀ (path : String) (node : Node κ) (st : State κ V W), node.WellNamed →
    (start code waker path node st).1.Of node
  | path, .mk self slots, st, named => by
    obtain ⟨distinct, below⟩ := named
    rw [start]
    exact afterInPlace_of code waker distinct (startInPlace_of path slots st below)
      (fun st => startTaken_of path slots st below) _

theorem startInPlace_of : ∀ (path : String) (slots : Slots κ) (st : State κ V W), slots.WellNamed →
    (startInPlace code waker path slots st).1.Of slots.take.children
  | _, .nil, _, _ => trivial
  | path, .empty slot rest, st, named => startInPlace_of path rest st named
  | path, .filled slot node rest, st, named => by
    rw [startInPlace, Slots.take]
    split
    · exact startInPlace_of path rest st named.2
    · exact Futs.Of.cons (start_of _ node st named.1) (startInPlace_of path rest _ named.2)

theorem startTaken_of : ∀ (path : String) (slots : Slots κ) (st : State κ V W), slots.WellNamed →
    (startTaken code waker path slots st).1.Of slots.taken.children
  | _, .nil, _, _ => trivial
  | path, .empty slot rest, st, named => startTaken_of path rest st named
  | path, .filled slot node rest, st, named => by
    rw [startTaken, Slots.taken]
    split
    · exact Futs.Of.cons (start_of _ node st named.1) (startTaken_of path rest _ named.2)
    · exact startTaken_of path rest st named.2

end

mutual

/-- Every later poll keeps the tree. -/
theorem resume_of : ∀ (fut : RunFut κ) (node : Node κ) (st : State κ V W), fut.Of node → node.WellNamed →
    (resume code waker fut st).1.Of node
  | .inPlace path self slots taken children, .mk self' slots', st, of, named => by
    obtain ⟨rfl, rfl, rfl, inside⟩ := of
    obtain ⟨distinct, below⟩ := named
    rw [resume]
    refine afterInPlace_of code waker distinct ?_ ?_ _
    · exact resumeAll_of children _ st inside fun child member => below.take.of_mem member
    · intro st
      have of := startTaken_of code waker path slots'.taken st below.taken
      rwa [Slots.taken_taken] at of
  | .alone path self slots, .mk self' slots', st, of, named => by
    obtain ⟨rfl, rfl⟩ := of
    rw [resume]
    exact concludeAlone_of _
  | .joined path self slots children own, .mk self' slots', st, of, named => by
    obtain ⟨rfl, rfl, inside⟩ := of
    obtain ⟨distinct, below⟩ := named
    have kept := resumeAll_of children _ st inside fun child member => below.taken.of_mem member
    rw [resume]
    cases own with
    | some result => exact concludeJoin_of _ distinct kept
    | none => exact joinOwn_of code waker distinct kept _

theorem resumeAll_of : ∀ (futs : Futs κ) (trees : List (String × Node κ)) (st : State κ V W), futs.Of trees →
    (∀ child ∈ trees, child.2.WellNamed) → (resumeAll code waker futs st).1.Of trees
  | .nil, trees, _, of, _ => of
  | .running name fut rest, child :: more, st, of, named => by
    obtain ⟨rfl, of, later⟩ := of
    exact Futs.Of.cons (resume_of fut child.2 st of (named child List.mem_cons_self))
      (resumeAll_of rest more _ later fun c member => named c (List.mem_cons_of_mem _ member))
  | .done name result node rest, child :: more, st, of, named => by
    obtain ⟨rfl, rfl, later⟩ := of
    exact ⟨rfl, rfl, resumeAll_of rest more st later fun c member => named c (List.mem_cons_of_mem _ member)⟩

end

end Polls

/-- A future of the tree, or the tree itself. -/
def TestFut.Of {κ : Type*} : TestFut κ → Node κ → Prop
  | .fresh node', node => node' = node
  | .running fut, node => fut.Of node
  | .done _ node', node => node' = node

theorem Progress.Of.toFut {κ : Type*} {progress : Progress κ} {node : Node κ} (of : progress.Of node) :
    progress.toFut.Of node := by
  cases progress with
  | pending fut => exact of
  | ready result node' => exact of

section Run

variable {κ V W : Type*} {code : Code κ V W} {path : String}

/-- One poll of `run_all`, or whatever happens between two, keeps the tree. -/
theorem runStep_of {t t' : Test κ V W} {a : Action κ V W} {out : List (Obs κ)} {node : Node κ}
    (named : node.WellNamed) (of : t.fut.Of node) (stepped : runStep code path t a = some (t', out)) :
    t'.fut.Of node := by
  obtain ⟨fut, st⟩ := t
  cases a with
  | other effect =>
    cases stepped
    exact of
  | poll waker =>
    cases fut with
    | fresh node' =>
      cases stepped
      obtain rfl : node' = node := of
      exact (start_of code waker path node' st named).toFut
    | running fut =>
      cases stepped
      exact (resume_of code waker fut node st of named).toFut
    | done result node' => cases stepped

/-- A run of `run_all` that has ended has put every component back. -/
theorem final_of_run {node final : Node κ} {st : State κ V W} {actions : List (Action κ V W)}
    {t : Test κ V W} {obs : List (Obs κ)} {result : TestResult} (named : node.WellNamed)
    (ran : (runMachine code path).run ⟨.fresh node, st⟩ actions = some (t, obs))
    (completed : t.fut = .done result final) : final = node := by
  have initial : (TestFut.fresh node).Of node := rfl
  have of : t.fut.Of node := (runMachine code path).run_invariant_nil (fun t _ => t.fut.Of node) initial
    (fun of stepped => runStep_of named of stepped) ran
  rw [completed] at of
  exact of

/-- When `run_all` completes, whatever its run bodies did, the tree is the one it was given, and the
walks after it call the methods of that tree's components, under their paths. -/
theorem run_all_restores {node final : Node κ} {st : State κ V W} {actions : List (Action κ V W)}
    {t : Test κ V W} {obs : List (Obs κ)} {result : TestResult} (named : node.WellNamed)
    (ran : (runMachine code path).run ⟨.fresh node, st⟩ actions = some (t, obs))
    (completed : t.fut = .done result final) :
    final = node ∧ runExtractCheckReport code path final t.state =
      (intoResult (checkErrors code path node t.state), concluded code path node t.state,
        calls .extract (node.preorder path) ++ calls .check (node.preorder path) ++
          calls .report (node.preorder path) ++ calls .final (node.preorder path)) := by
  obtain rfl := final_of_run named ran completed
  exact ⟨rfl, runExtractCheckReport_eq ..⟩

/-- Components that do nothing before or after the run phase. -/
def runOnly {W : Type*} (run : String → String → State String Unit W → Effect String Unit W × Poll TestResult)
    (dropRun : String → String → State String Unit W → Effect String Unit W) : Code String Unit W where
  build _ _ slots st := (slots, st)
  connect _ _ st := st
  endOfElaboration _ _ st := st
  startOfSimulation _ _ st := st
  extract _ _ st := st
  check _ _ st := (st, [])
  report _ _ st := st
  finalPhase _ _ st := st
  portInfos _ _ _ := []
  run := run
  dropRun := dropRun
  build_named _ _ _ _ named := named

/-- An environment with two agents in a `Vec`, one of which fails, beside a driver; all below a test. -/
def agentsTree : Node String :=
  .mk "test" (.filled ⟨"env", .rustdvComp false none⟩
    (.mk "env" (.filled ⟨"agents", .vec 0⟩ (.mk "good" .nil) (.filled ⟨"agents", .vec 1⟩ (.mk "bad" .nil)
      (.empty ⟨"extra", .option⟩ (.filled ⟨"driver", .rustdvComp false none⟩ (.mk "driver" .nil) .nil)))))
    (.filled ⟨"config", .plain⟩ (.mk "config" .nil) .nil))

/-- Only the second agent fails; the test itself needs a second poll. -/
def agentsRun (self _path : String) (st : State String Unit ℕ) : Effect String Unit ℕ × Poll TestResult :=
  (⟨st.db, st.world + 1, []⟩,
    if self = "bad" then .ready (.error ⟨"mismatch", none⟩)
    else if self = "test" ∧ st.world < 5 then .pending
    else .ready (.ok ()))

/-- What a future that has ended returned. -/
def TestFut.result {κ : Type*} : TestFut κ → Option TestResult
  | .done result _ => some result
  | _ => none

theorem TestFut.eq_done_of_result {κ : Type*} {fut : TestFut κ} {result : TestResult}
    (ended : fut.result = some result) : ∃ node, fut = .done result node := by
  cases fut with
  | done result' node =>
    cases ended
    exact ⟨node, rfl⟩
  | fresh node => cases ended
  | running fut => cases ended

theorem run_all_restores_agents :
    ∃ t obs result final, (runMachine (runOnly agentsRun fun _ _ st => ⟨st.db, st.world, []⟩) "test").run
        ⟨.fresh agentsTree, ⟨Config.init, Objection.new, 0⟩⟩
        [.poll (.task 1), .poll (.task 1), .poll (.task 1)] = some (t, obs) ∧
      t.fut = .done result final ∧ result = .error ⟨"mismatch", none⟩ ∧ final = agentsTree := by
  have seen : ((runMachine (runOnly agentsRun fun _ _ st => ⟨st.db, st.world, []⟩) "test").run
      ⟨.fresh agentsTree, ⟨Config.init, Objection.new, 0⟩⟩
      [.poll (.task 1), .poll (.task 1), .poll (.task 1)]).bind (fun last => last.1.fut.result) =
        some (.error ⟨"mismatch", none⟩) := by decide +kernel
  obtain ⟨⟨t, obs⟩, ran, failed⟩ := Option.bind_eq_some_iff.mp seen
  have named : agentsTree.WellNamed := by simp [agentsTree, Node.WellNamed, Slots.WellNamed, Slots.compFields, Slot.isComp]
  obtain ⟨final, completed⟩ := TestFut.eq_done_of_result failed
  exact ⟨t, obs, _, final, ran, completed, rfl, (run_all_restores named ran completed).1⟩

end Run

end Rustdv.Component
