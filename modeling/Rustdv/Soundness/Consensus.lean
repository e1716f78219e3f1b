import Rustdv.Soundness.Restore

/-! # One consensus, or several

The drained event is one flag, and every run body looks at it after its own poll. What a run shows is
followed by that flag alone: raising clears it, dropping the last guard sets it, a body is stopped only
while it is set and left unfinished only while it is not. As long as nobody raises an objection
while the flag is set, it stays set, so that one stop is followed by no raise and leaves no body behind.
-/

namespace Rustdv.Component

variable {κ V W : Type*}

/-- The drained flag after an observation that can be made while it stands so. -/
def follow : Bool → Obs κ → Option Bool
  | _, .called .. => none
  | drained, .objection (.raised _ _ seen) => if seen = drained then some false else none
  | drained, .objection (.lowered _ emptied) => some (drained || emptied)
  | drained, .objection (.woke _) => some drained
  | drained, .polled .. => some drained
  | drained, .unfinished .. => if drained then none else some false
  | drained, .finished .. => some drained
  | drained, .stopped .. => if drained then some true else none

/-- The observations lead the flag from one value to the other. -/
def Follows (before : Bool) (out : List (Obs κ)) (after : Bool) : Prop :=
  out.foldlM follow before = some after

theorem follows_cons_iff {a c : Bool} {o : Obs κ} {out : List (Obs κ)} :
    Follows a (o :: out) c ↔ ∃ b, follow a o = some b ∧ Follows b out c := by
  rw [Follows, List.foldlM_cons]
  exact Option.bind_eq_some_iff

theorem follows_append_iff {a c : Bool} {first later : List (Obs κ)} :
    Follows a (first ++ later) c ↔ ∃ b, Follows a first b ∧ Follows b later c := by
  rw [Follows, List.foldlM_append]
  exact Option.bind_eq_some_iff

theorem Follows.append {a b c : Bool} {first later : List (Obs κ)} (left : Follows a first b)
    (right : Follows b later c) : Follows a (first ++ later) c :=
  follows_append_iff.mpr ⟨b, left, right⟩

theorem Follows.cons {a b c : Bool} {o : Obs κ} {out : List (Obs κ)} (now : follow a o = some b)
    (later : Follows b out c) : Follows a (o :: out) c :=
  follows_cons_iff.mpr ⟨b, now, later⟩

theorem Follows.nil (a : Bool) : Follows a ([] : List (Obs κ)) a := rfl

/-- The drained flag of a state. -/
def State.drained (st : State κ V W) : Bool := st.objections.drained.isSet

section Registry

open Objection

theorem woke_follows (drained : Bool) (woken : List Waker) :
    Follows (κ := κ) drained ((woken.map Obs.woke).map .objection) drained := by
  induction woken with
  | nil => exact .nil _
  | cons waker rest ih => exact .cons rfl ih

theorem perform_follows (reg : ObjectionRegistry) (op : Op) :
    Follows (κ := κ) reg.drained.isSet ((perform reg op).2.map .objection) (perform reg op).1.drained.isSet := by
  cases op with
  | raise description => exact .cons (if_pos rfl) (.nil _)
  | drop guard =>
    simp only [perform]
    split
    · next g description found =>
      simp only [dropGuard]
      split_ifs with emptied
      · simp only [emptied, Event.set_isSet, decide_true, List.map_cons]
        exact .cons (by simp [follow]) (woke_follows _ _)
      · simp only [emptied, decide_false, List.map_cons, List.map_nil]
        exact .cons (by simp [follow]) (.nil _)
    · exact .nil _

theorem performAll_follows (reg : ObjectionRegistry) (ops : List Op) :
    Follows (κ := κ) reg.drained.isSet ((performAll reg ops).2.map .objection) (performAll reg ops).1.drained.isSet := by
  induction ops generalizing reg with
  | nil => exact .nil _
  | cons op rest ih =>
    simp only [performAll, List.map_append]
    exact (perform_follows reg op).append (ih _)

end Registry

section Polls

variable (code : Code κ V W) (waker : Waker)

theorem applyEffect_follows (effect : Effect κ V W) (st : State κ V W) :
    Follows st.drained (applyEffect effect st).2 (applyEffect effect st).1.drained :=
  performAll_follows ..

theorem runOne_follows (path : String) (self : κ) (st : State κ V W) :
    Follows st.drained (runOne code waker path self st).2.2 (runOne code waker path self st).2.1.drained := by
  have polled := applyEffect_follows (code.run self path st).1 st
  have begun : follow st.drained (.polled path self : Obs κ) = some st.drained := rfl
  unfold runOne
  simp only
  split
  · exact (Follows.cons begun polled).append (.cons rfl (.nil _))
  · cases drained : (applyEffect (code.run self path st).1 st).1.objections.drained.isSet with
    | true =>
      simp only [Objection.waitDrained, Event.wait_of_isSet drained]
      have set : (applyEffect (code.run self path st).1 st).1.drained = true := drained
      rw [set] at polled
      have dropped := applyEffect_follows (code.dropRun self path (applyEffect (code.run self path st).1 st).1)
        (applyEffect (code.run self path st).1 st).1
      rw [set] at dropped
      exact (Follows.cons begun polled).append (.cons rfl dropped)
    | false =>
      simp only [Objection.waitDrained, Event.wait_of_not_isSet drained]
      have clear : (applyEffect (code.run self path st).1 st).1.drained = false := drained
      rw [clear] at polled
      refine (Follows.cons begun polled).append (.cons rfl ?_)
      rw [State.drained, drained]
      exact .nil _

theorem afterInPlace_follows {path : String} {self : κ} {slots taken : Slots κ} {children : Futs κ}
    {startTaken : State κ V W → Futs κ × State κ V W × List (Obs κ)}
    (starts : ∀ st, Follows st.drained (startTaken st).2.2 (startTaken st).2.1.drained) (st : State κ V W) :
    Follows st.drained (afterInPlace code waker path self slots taken children startTaken st).2.2
      (afterInPlace code waker path self slots taken children startTaken st).2.1.drained := by
  unfold afterInPlace
  split
  · exact .nil _
  · simp only
    split
    · exact .nil _
    · split
      · exact runOne_follows ..
      · exact (starts st).append (runOne_follows ..)

mutual

theorem start_follows : ∀ (path : String) (node : Node κ) (st : State κ V W),
    Follows st.drained (start code waker path node st).2.2 (start code waker path node st).2.1.drained
  | path, .mk self slots, st => by
    rw [start]
    exact (startInPlace_follows path slots st).append
      (afterInPlace_follows code waker (fun st => startTaken_follows path slots st) _)

theorem startInPlace_follows : ∀ (path : String) (slots : Slots κ) (st : State κ V W),
    Follows st.drained (startInPlace code waker path slots st).2.2 (startInPlace code waker path slots st).2.1.drained
  | _, .nil, _ => .nil _
  | path, .empty slot rest, st => startInPlace_follows path rest st
  | path, .filled slot node rest, st => by
    rw [startInPlace]
    split
    · exact startInPlace_follows path rest st
    · exact (start_follows _ node st).append (startInPlace_follows path rest _)

theorem startTaken_follows : ∀ (path : String) (slots : Slots κ) (st : State κ V W),
    Follows st.drained (startTaken code waker path slots st).2.2 (startTaken code waker path slots st).2.1.drained
  | _, .nil, _ => .nil _
  | path, .empty slot rest, st => startTaken_follows path rest st
  | path, .filled slot node rest, st => by
    rw [startTaken]
    split
    · exact (start_follows _ node st).append (startTaken_follows path rest _)
    · exact startTaken_follows path rest st

end

mutual

theorem resume_follows : ∀ (fut : RunFut κ) (st : State κ V W),
    Follows st.drained (resume code waker fut st).2.2 (resume code waker fut st).2.1.drained
  | .inPlace path self slots taken children, st => by
    rw [resume]
    exact (resumeAll_follows children st).append
      (afterInPlace_follows code waker (fun st => startTaken_follows code waker path taken st) _)
  | .alone path self slots, st => by
    rw [resume]
    exact runOne_follows ..
  | .joined path self slots children own, st => by
    rw [resume]
    cases own with
    | some result => exact resumeAll_follows children st
    | none => exact (resumeAll_follows children st).append (runOne_follows ..)

theorem resumeAll_follows : ∀ (futs : Futs κ) (st : State κ V W),
    Follows st.drained (resumeAll code waker futs st).2.2 (resumeAll code waker futs st).2.1.drained
  | .nil, _ => .nil _
  | .running _ fut rest, st => (resume_follows fut st).append (resumeAll_follows rest _)
  | .done _ _ _ rest, st => resumeAll_follows rest st

end

end Polls

section Run

variable {code : Code κ V W} {path : String}

/-- A step of `run_all` shows what the flag allows. -/
theorem runStep_follows {t t' : Test κ V W} {a : Action κ V W} {out : List (Obs κ)}
    (stepped : runStep code path t a = some (t', out)) : Follows t.state.drained out t'.state.drained := by
  obtain ⟨fut, st⟩ := t
  cases a with
  | other effect =>
    cases stepped
    exact applyEffect_follows effect st
  | poll waker =>
    cases fut with
    | fresh node =>
      cases stepped
      exact start_follows code waker path node st
    | running fut =>
      cases stepped
      exact resume_follows code waker fut st
    | done result node => cases stepped

/-- So does a run. -/
theorem follows_of_run {t t' : Test κ V W} {actions : List (Action κ V W)} {obs : List (Obs κ)}
    (ran : (runMachine code path).run t actions = some (t', obs)) : Follows t.state.drained obs t'.state.drained :=
  (runMachine code path).run_invariant_nil (fun u seen => Follows t.state.drained seen u.state.drained)
    (.nil _) (fun followed stepped => followed.append (runStep_follows stepped)) ran

/-- Once a body has been stopped, no objection is raised, and every body that is polled ends. -/
structure Consensus (obs : List (Obs κ)) : Prop where
  raises : ∀ pre post path comp, obs = pre ++ .stopped path comp :: post →
    ∀ guard description drained, .objection (.raised guard description drained) ∉ post
  leaves : ∀ pre post path comp, obs = pre ++ .stopped path comp :: post →
    ∀ path' comp', .unfinished path' comp' ∉ post

/-- With the flag set and nobody raising, nothing is left unfinished. -/
private theorem quiet_of_follows {out : List (Obs κ)} {after : Bool} (follows : Follows true out after)
    (calm : ∀ guard description, .objection (.raised guard description true) ∉ out) :
    (∀ guard description drained, .objection (.raised guard description drained) ∉ out) ∧
      ∀ path comp, .unfinished path comp ∉ out := by
  induction out with
  | nil => simp
  | cons o rest ih =>
    obtain ⟨b, now, later⟩ := follows_cons_iff.mp follows
    have calm' := fun guard description member => calm guard description (List.mem_cons_of_mem o member)
    have stays : b = true ∧ (∀ guard description drained, o ≠ .objection (.raised guard description drained)) ∧
        ∀ path comp, o ≠ .unfinished path comp := by
      cases o with
      | objection seen =>
        cases seen with
        | raised guard description drained =>
          cases drained with
          | true => exact absurd List.mem_cons_self (calm guard description)
          | false => cases now
        | lowered guard emptied =>
          cases now
          simp
        | woke waker =>
          cases now
          simp
      | called phase path comp => cases now
      | unfinished path comp => cases now
      | _ =>
        cases now
        simp
    obtain ⟨rfl, raises, leaves⟩ := stays
    obtain ⟨noRaise, noLeft⟩ := ih later calm'
    constructor
    · intro guard description drained member
      rcases List.mem_cons.mp member with same | member
      · exact raises guard description drained same.symm
      · exact noRaise guard description drained member
    · intro path comp member
      rcases List.mem_cons.mp member with same | member
      · exact leaves path comp same.symm
      · exact noLeft path comp member

/-- In every run in which no objection is raised while the drained event is set, the consensus that
stops one body stops all. -/
theorem consensus_of_calm {t t' : Test κ V W} {actions : List (Action κ V W)} {obs : List (Obs κ)}
    (ran : (runMachine code path).run t actions = some (t', obs))
    (calm : ∀ guard description, .objection (.raised guard description true) ∉ obs) : Consensus obs := by
  have followed := follows_of_run ran
  have after {pre post : List (Obs κ)} {path' : String} {comp : κ} (cut : obs = pre ++ .stopped path' comp :: post) :
      (∀ guard description drained, .objection (.raised guard description drained) ∉ post) ∧
        ∀ path comp, .unfinished path comp ∉ post := by
    rw [cut] at followed calm
    obtain ⟨b, -, rest⟩ := follows_append_iff.mp followed
    obtain ⟨c, now, later⟩ := follows_cons_iff.mp rest
    -- a body is stopped only while the flag is set
    obtain rfl : c = true := by
      cases b with
      | true =>
        cases now
        rfl
      | false => cases now
    exact quiet_of_follows later fun guard description member =>
      calm guard description (List.mem_append_right _ (List.mem_cons_of_mem _ member))
  exact ⟨fun pre post path' comp cut => (after cut).1, fun pre post path' comp cut => (after cut).2⟩

/-- Two children that never return below a test that returns at once. The first objects until its second
poll. -/
def siblings : Node String :=
  .mk "test" (.filled ⟨"stimulus", .rustdvComp false none⟩ (.mk "stimulus" .nil)
    (.filled ⟨"monitor", .rustdvComp false none⟩ (.mk "monitor" .nil) .nil))

/-- The poll counter tells the polls apart; the second child may object in its second poll. -/
def siblingsRun (late : Bool) (self _path : String) (st : State String Unit ℕ) : Effect String Unit ℕ × Poll TestResult :=
  (⟨st.db, st.world + 1,
    if self = "stimulus" ∧ st.world = 0 then [.raise "stimulus"]
    else if self = "stimulus" ∧ st.world = 3 then [.drop 0]
    else if self = "monitor" ∧ st.world = 4 ∧ late then [.raise "late"]
    else []⟩,
    if self = "test" then .ready (.ok ()) else .pending)

def siblingsCode (late : Bool) : Code String Unit ℕ :=
  runOnly (siblingsRun late) fun _ _ st => ⟨st.db, st.world, []⟩

theorem consensus_of_calm_siblings :
    ∃ t obs, (runMachine (siblingsCode false) "test").run ⟨.fresh siblings, ⟨Config.init, Objection.new, 0⟩⟩
        [.poll (.task 1), .poll (.task 1)] = some (t, obs) ∧
      (.stopped "test.stimulus" "stimulus" ∈ obs ∧ .stopped "test.monitor" "monitor" ∈ obs) ∧ Consensus obs := by
  have seen : ((runMachine (siblingsCode false) "test").run ⟨.fresh siblings, ⟨Config.init, Objection.new, 0⟩⟩
      [.poll (.task 1), .poll (.task 1)]).map Prod.snd = some
        [.polled "test.stimulus" "stimulus", .objection (.raised 0 "stimulus" false),
          .unfinished "test.stimulus" "stimulus", .polled "test.monitor" "monitor",
          .unfinished "test.monitor" "monitor", .polled "test" "test", .finished "test" "test" (.ok ()),
          .polled "test.stimulus" "stimulus", .objection (.lowered 0 true), .objection (.woke (.task 1)),
          .objection (.woke (.task 1)), .stopped "test.stimulus" "stimulus", .polled "test.monitor" "monitor",
          .stopped "test.monitor" "monitor"] := by decide +kernel
  obtain ⟨⟨t, obs⟩, ran, same⟩ := Option.map_eq_some_iff.mp seen
  subst same
  exact ⟨t, _, ran, by simp, consensus_of_calm ran (by simp)⟩

/-- In the pass that stops the first child, the second one objects and goes on. -/
theorem late_objection_breaks_consensus :
    ∃ t obs, (runMachine (siblingsCode true) "test").run ⟨.fresh siblings, ⟨Config.init, Objection.new, 0⟩⟩
        [.poll (.task 1), .poll (.task 1)] = some (t, obs) ∧ ¬ Consensus obs := by
  have seen : ((runMachine (siblingsCode true) "test").run ⟨.fresh siblings, ⟨Config.init, Objection.new, 0⟩⟩
      [.poll (.task 1), .poll (.task 1)]).map Prod.snd = some
        ([.polled "test.stimulus" "stimulus", .objection (.raised 0 "stimulus" false),
          .unfinished "test.stimulus" "stimulus", .polled "test.monitor" "monitor",
          .unfinished "test.monitor" "monitor", .polled "test" "test", .finished "test" "test" (.ok ()),
          .polled "test.stimulus" "stimulus", .objection (.lowered 0 true), .objection (.woke (.task 1)),
          .objection (.woke (.task 1))] ++ .stopped "test.stimulus" "stimulus" ::
          [.polled "test.monitor" "monitor", .objection (.raised 1 "late" true),
          .unfinished "test.monitor" "monitor"]) := by decide +kernel
  obtain ⟨⟨t, obs⟩, ran, same⟩ := Option.map_eq_some_iff.mp seen
  refine ⟨t, obs, ran, ?_⟩
  intro consensus
  exact consensus.raises _ _ _ _ same 1 "late" true (by simp)

end Run

end Rustdv.Component
