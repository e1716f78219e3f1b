import Rustdv.Machine.Run
import Rustdv.Model.Component

/-! # The run phase, poll by poll

`run_all` is an async walk. A node first moves its factory children out, then joins its in-place
children, and then joins the factory children with its own run body; it puts them back on every way
out. Each run body races the drained event on its own. A future that has been polled and is not ready
is a value here; polling it goes through the joined futures in order and leaves finished ones alone.
-/

universe u

namespace Rustdv.Component

mutual

/-- A `run_all` future that was polled and is pending. -/
inductive RunFut (κ : Type u) where
  /-- Joining the in-place children; the factory children have been moved out. -/
  | inPlace (path : String) (self : κ) (slots : Slots κ) (taken : Slots κ) (children : Futs κ)
  /-- No factory children: the node's own run body. -/
  | alone (path : String) (self : κ) (slots : Slots κ)
  /-- Joining the factory children with the own run body, which may have ended. -/
  | joined (path : String) (self : κ) (slots : Slots κ) (children : Futs κ) (own : Option TestResult)

/-- Joined futures under their names; a finished one has its result and its component. -/
inductive Futs (κ : Type u) where
  | nil
  | running (name : String) (fut : RunFut κ) (rest : Futs κ)
  | done (name : String) (result : TestResult) (node : Node κ) (rest : Futs κ)

end

/-- What a poll of `run_all` comes to: still pending, or the result with the tree. -/
inductive Progress (κ : Type u) where
  | pending (fut : RunFut κ)
  | ready (result : TestResult) (node : Node κ)

section Join

variable {κ : Type u}

namespace Futs

/-- One more joined future, as its poll left it. -/
def cons (name : String) (progress : Progress κ) (rest : Futs κ) : Futs κ :=
  match progress with
  | .pending fut => .running name fut rest
  | .ready result node => .done name result node rest

/-- The results in order, with the components, once all futures are done. -/
def results : Futs κ → Option (List (String × TestResult × Node κ))
  | .nil => some []
  | .running .. => none
  | .done name result node rest => rest.results.map ((name, result, node) :: ·)

end Futs

/-- The first error, in the order of the join. -/
def firstError : List TestResult → TestResult
  | [] => .ok ()
  | .ok () :: rest => firstError rest
  | .error e :: _ => .error e

/-- What joining the factory children with the own body comes to; the children go back in any case. -/
def concludeJoin (path : String) (self : κ) (slots : Slots κ) (children : Futs κ) (own : Option TestResult) :
    Progress κ :=
  match children.results, own with
  | some results, some result =>
      .ready (firstError (results.map (·.2.1) ++ [result]))
        (.mk self (slots.restore (results.map fun r => (r.1, r.2.2))))
  | _, _ => .pending (.joined path self slots children own)

/-- The own body without anything to join. -/
def concludeAlone (path : String) (self : κ) (slots : Slots κ) : Option TestResult → Progress κ
  | some result => .ready result (.mk self slots)
  | none => .pending (.alone path self slots)

end Join

section Polls

variable {κ V W : Type*} (code : Code κ V W) (waker : Waker)

/-- Let an effect happen. -/
def applyEffect (effect : Effect κ V W) (st : State κ V W) : State κ V W × List (Obs κ) :=
  let (objections, seen) := Objection.performAll st.objections effect.ops
  (⟨effect.db, objections, effect.world⟩, seen.map .objection)

/-- A poll of `run_one`: the body first, then the drained event. -/
def runOne (path : String) (self : κ) (st : State κ V W) : Option TestResult × State κ V W × List (Obs κ) :=
  let (effect, poll) := code.run self path st
  let (polled, seen) := applyEffect effect st
  match poll with
  | .ready result => (some result, polled, .polled path self :: seen ++ [.finished path self result])
  | .pending =>
      let (drained, objections) := Objection.waitDrained polled.objections waker
      let waited : State κ V W := { polled with objections }
      match drained with
      | .ready () =>
          let (dropped, more) := applyEffect (code.dropRun self path waited) waited
          (some (.ok ()), dropped, .polled path self :: seen ++ .stopped path self :: more)
      | .pending => (none, waited, .polled path self :: seen ++ [.unfinished path self])

/-- The own body joined with the factory children that were just polled. -/
def joinOwn (path : String) (self : κ) (slots : Slots κ) (children : Futs κ) (st : State κ V W) :
    Progress κ × State κ V W × List (Obs κ) :=
  let (own, last, out) := runOne code waker path self st
  (concludeJoin path self slots children own, last, out)

/-- What follows a poll of the in-place children: an error ends the run after putting the factory
children back; without one the factory children start, if there are any, and the own body. -/
def afterInPlace (path : String) (self : κ) (slots taken : Slots κ) (children : Futs κ)
    (startTaken : State κ V W → Futs κ × State κ V W × List (Obs κ)) (st : State κ V W) :
    Progress κ × State κ V W × List (Obs κ) :=
  match children.results with
  | none => (.pending (.inPlace path self slots taken children), st, [])
  | some results =>
      let slots := slots.refill (results.map (·.2.2))
      match firstError (results.map (·.2.1)) with
      | .error e => (.ready (.error e) (.mk self (slots.restore taken.children)), st, [])
      | .ok () =>
          match taken with
          | .nil =>
              let (own, last, out) := runOne code waker path self st
              (concludeAlone path self slots own, last, out)
          | _ =>
              let (futs, next, out) := startTaken st
              let (progress, last, more) := joinOwn code waker path self slots futs next
              (progress, last, out ++ more)

mutual

/-- The first poll of `run_all`. -/
def start (path : String) : Node κ → State κ V W → Progress κ × State κ V W × List (Obs κ)
  | .mk self slots, st =>
      let (children, next, out) := startInPlace path slots st
      let (progress, last, more) :=
        afterInPlace code waker path self slots.take slots.taken children (startTaken path slots) next
      (progress, last, out ++ more)

/-- The first polls of the in-place children. -/
def startInPlace (path : String) : Slots κ → State κ V W → Futs κ × State κ V W × List (Obs κ)
  | .nil, st => (.nil, st, [])
  | .empty _ rest, st => startInPlace path rest st
  | .filled slot node rest, st =>
      if slot.isComp then startInPlace path rest st
      else
        let (progress, next, out) := start (childPath path slot.name) node st
        let (futs, last, more) := startInPlace path rest next
        (.cons slot.name progress futs, last, out ++ more)

/-- The first polls of the factory children. -/
def startTaken (path : String) : Slots κ → State κ V W → Futs κ × State κ V W × List (Obs κ)
  | .nil, st => (.nil, st, [])
  | .empty _ rest, st => startTaken path rest st
  | .filled slot node rest, st =>
      if slot.isComp then
        let (progress, next, out) := start (childPath path slot.name) node st
        let (futs, last, more) := startTaken path rest next
        (.cons slot.name progress futs, last, out ++ more)
      else startTaken path rest st

end

mutual

/-- A later poll. -/
def resume : RunFut κ → State κ V W → Progress κ × State κ V W × List (Obs κ)
  | .inPlace path self slots taken children, st =>
      let (children, next, out) := resumeAll children st
      let (progress, last, more) :=
        afterInPlace code waker path self slots taken children (startTaken code waker path taken) next
      (progress, last, out ++ more)
  | .alone path self slots, st =>
      let (own, last, out) := runOne code waker path self st
      (concludeAlone path self slots own, last, out)
  | .joined path self slots children own, st =>
      let (children, next, out) := resumeAll children st
      match own with
      | some result => (concludeJoin path self slots children (some result), next, out)
      | none =>
          let (progress, last, more) := joinOwn code waker path self slots children next
          (progress, last, out ++ more)

/-- `JoinAll::poll`: the unfinished futures, in order. -/
def resumeAll : Futs κ → State κ V W → Futs κ × State κ V W × List (Obs κ)
  | .nil, st => (.nil, st, [])
  | .running name fut rest, st =>
      let (progress, next, out) := resume fut st
      let (futs, last, more) := resumeAll rest next
      (.cons name progress futs, last, out ++ more)
  | .done name result node rest, st =>
      let (futs, last, out) := resumeAll rest st
      (.done name result node futs, last, out)

end

end Polls

/-- Where `run_all` or `run_component_test` stands with its tree. -/
inductive TestFut (κ : Type*) where
  | fresh (node : Node κ)
  | running (fut : RunFut κ)
  | done (result : TestResult) (node : Node κ)

/-- Such a future, and everything the components act on. -/
structure Test (κ V W : Type*) where
  fut : TestFut κ
  state : State κ V W

inductive Action (κ V W : Type*) where
  | poll (waker : Waker)
  /-- Something other than the test's own task happens between two polls. -/
  | other (effect : Effect κ V W)

section Run

variable {κ V W : Type*} (code : Code κ V W) (path : String)

def Progress.toFut : Progress κ → TestFut κ
  | .pending fut => .running fut
  | .ready result node => .done result node

/-- A poll of `run_all`, or what happens between two. A finished one is not polled again. -/
def runStep (t : Test κ V W) : Action κ V W → Option (Test κ V W × List (Obs κ))
  | .poll waker =>
      match t.fut with
      | .fresh node =>
          let (progress, st, out) := start code waker path node t.state
          some (⟨progress.toFut, st⟩, out)
      | .running fut =>
          let (progress, st, out) := resume code waker fut t.state
          some (⟨progress.toFut, st⟩, out)
      | .done .. => none
  | .other effect =>
      let (st, out) := applyEffect effect t.state
      some ({ t with state := st }, out)

/-- `run_all` as a machine. -/
def runMachine : Machine (Test κ V W) (Action κ V W) (Obs κ) where
  step := runStep code path

end Run

section Test

variable {κ V W : Type*} (code : Code κ V W)
  (sort : (String × Config.Entry (Value κ V) → String × Config.Entry (Value κ V) → Bool) →
    List (String × Config.Entry (Value κ V)) → Option (List (String × Config.Entry (Value κ V))))
  (fuel : ℕ) (path : String)

def setInBuild (active : Bool) (st : State κ V W) : State κ V W :=
  { st with db := Config.call st.db (.setInBuild active) }

/-- After a poll of `run_all`: wait for the next one, or do the post-run phases. -/
def afterRun (progress : Progress κ) (st : State κ V W) : Test κ V W × List (Obs κ) :=
  match progress with
  | .pending fut => (⟨.running fut, st⟩, [])
  | .ready result node =>
      let (post, last, out) := runExtractCheckReport code path node st
      let outcome : TestResult := match result with
        | .ok () => post
        | .error e => .error e
      (⟨.done outcome node, last⟩, out)

/-- The part of `run_component_test` before the run phase, and its first poll. -/
def begin (waker : Waker) (node : Node κ) (st : State κ V W) : Option (Test κ V W × List (Obs κ)) :=
  (buildAll code sort fuel path node (setInBuild true st)).map fun (tree, built, building) =>
    let (st₁, connecting) := connectAll code path tree (setInBuild false built)
    match checkConnections code path tree st₁ with
    | .error e => (⟨.done (.error e) tree, st₁⟩, building ++ connecting)
    | .ok () =>
        let (st₂, elaborating) := endOfElaborationAll code path tree st₁
        let (st₃, starting) := startOfSimulationAll code path tree st₂
        let (progress, st₄, running) := start code waker path tree st₃
        let (last, post) := afterRun code path progress st₄
        (last, building ++ connecting ++ elaborating ++ starting ++ running ++ post)

/-- A poll of `run_component_test`, or what happens between two. A finished one is not polled again. -/
def step (t : Test κ V W) : Action κ V W → Option (Test κ V W × List (Obs κ))
  | .poll waker =>
      match t.fut with
      | .fresh node => begin code sort fuel path waker node t.state
      | .running fut =>
          let (progress, st, running) := resume code waker fut t.state
          let (last, post) := afterRun code path progress st
          some (last, running ++ post)
      | .done .. => none
  | .other effect =>
      let (st, out) := applyEffect effect t.state
      some ({ t with state := st }, out)

/-- The test as a machine. -/
def machine : Machine (Test κ V W) (Action κ V W) (Obs κ) where
  step := step code sort fuel path

end Test

end Rustdv.Component
