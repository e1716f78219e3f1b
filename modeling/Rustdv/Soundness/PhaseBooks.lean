import Rustdv.Model.Phase
import Mathlib.Data.List.Nodup

/-! # The hub's books

What every action of the phase hub preserves: the phase follows the callback whose tasks run, every
live wait is listed under its kind with that kind's callback armed, the buffer holds exactly the
coalesced writes since the last ReadWrite callback, and a completed wait was registered once and saw
a callback of its kind after that.
-/

namespace Rustdv.Phase

open Coalesce

variable {σ Val : Type*} {env : Simulator σ Val}

/-- The phase in which a callback's tasks run. -/
def phaseOf : Option PhaseKind → SimPhase
  | some .readWrite => .readWrite
  | some .readOnly => .readOnly
  | _ => .normal

/-- What a callback does to a cell it finds. -/
def firedFut : Option PhaseFut → Option PhaseFut
  | some ⟨kind, some _⟩ => some ⟨kind, some ⟨true, none⟩⟩
  | other => other

/-- The effect of `apply_write` on the simulator. -/
def effect (env : Simulator σ Val) (sim : σ) (target : WriteTarget) (val : WriteVal) : σ :=
  match applyWrite target val with
  | .ok put => env.put sim target put
  | .error _ => sim

section Operations

/-- A valid write sets its own target, whatever it held. -/
theorem effect_self {target : WriteTarget} {val : WriteVal} (valid : Valid (target, val)) (sim sim' : σ) :
    env.value (effect env sim target val) target = env.value (effect env sim' target val) target := by
  obtain ⟨put, same⟩ := valid
  simp only at same
  simp only [effect, same]
  exact env.put_self ..

theorem effect_other (sim : σ) (target target' : WriteTarget) (val : WriteVal) (distinct : target' ≠ target) :
    env.value (effect env sim target val) target' = env.value sim target' := by
  unfold effect
  split
  · exact env.put_other _ _ _ _ distinct
  · rfl

theorem apply_of_valid {s : Hub σ} {target : WriteTarget} {val : WriteVal} (valid : Valid (target, val)) :
    apply env s target val = ({ s with sim := effect env s.sim target val }, [.applied target val]) := by
  obtain ⟨put, same⟩ := valid
  simp only at same
  simp only [apply, effect, same]

theorem applyAll_of_valid {writes : List (WriteTarget × WriteVal)} (valid : ∀ w ∈ writes, Valid w) (s : Hub σ) :
    applyAll env s writes = ({ s with sim := replay (effect env) s.sim writes },
      writes.map fun w => .applied w.1 w.2) := by
  induction writes generalizing s with
  | nil => rfl
  | cons w rest ih =>
    have first : Valid (w.1, w.2) := valid w List.mem_cons_self
    simp only [applyAll, apply_of_valid first, ih fun w member => valid w (List.mem_cons_of_mem _ member)]
    rfl

theorem fireOne_state (s : Hub σ) (fut : FutRef) :
    (fireOne s fut).1 = s.setFut fut (firedFut (s.futs fut)) := by
  unfold fireOne
  split
  · next kind cell same => rw [same, firedFut]
  · next other =>
    have unchanged : firedFut (s.futs fut) = s.futs fut := by
      unfold firedFut
      split
      · next kind cell same => exact absurd same (other kind cell)
      · rfl
    rw [unchanged, Hub.setFut, Function.update_eq_self]

/-- A fired future is one that had a cell, with its kind. -/
theorem of_firedFut {before : Option PhaseFut} {state : PhaseFut} (fired : firedFut before = some state) :
    ∃ earlier, before = some earlier ∧ earlier.kind = state.kind ∧ earlier.shared.isSome = state.shared.isSome := by
  unfold firedFut at fired
  split at fired
  · cases fired
    exact ⟨_, rfl, rfl, rfl⟩
  · exact ⟨state, fired, rfl, rfl⟩

theorem unpolled_of_firedFut {before : Option PhaseFut} {kind : PhaseKind}
    (fired : firedFut before = some ⟨kind, none⟩) : before = some ⟨kind, none⟩ := by
  unfold firedFut at fired
  split at fired
  · cases fired
  · exact fired

theorem polled_of_firedFut {before : Option PhaseFut} {kind : PhaseKind} {cell : TrigShared}
    (fired : firedFut before = some ⟨kind, some cell⟩) : ∃ earlier, before = some ⟨kind, some earlier⟩ := by
  unfold firedFut at fired
  split at fired
  · cases fired
    exact ⟨_, rfl⟩
  · exact ⟨cell, fired⟩

theorem fired_of_firedFut {before : Option PhaseFut} {kind : PhaseKind} {cell : TrigShared}
    (fired : firedFut before = some ⟨kind, some cell⟩) : cell.fired = true := by
  unfold firedFut at fired
  split at fired
  · cases fired
    rfl
  · next other => exact absurd fired (other kind cell)

@[simp] theorem firedFut_firedFut (state : Option PhaseFut) : firedFut (firedFut state) = firedFut state := by
  unfold firedFut
  repeat' split
  all_goals simp_all

/-- The cells of the batch are fired, the others are left alone. -/
theorem fireAll_state (s : Hub σ) (futs : List FutRef) :
    (fireAll s futs).1 = { s with futs := fun fut => if fut ∈ futs then firedFut (s.futs fut) else s.futs fut } := by
  induction futs generalizing s with
  | nil => rfl
  | cons fut rest ih =>
    simp only [fireAll, ih, fireOne_state, Hub.setFut]
    congr 1
    funext other
    by_cases same : other = fut
    · subst same
      simp
    · simp [same]

theorem fireOne_out (s : Hub σ) (fut : FutRef) {o : Obs} (member : o ∈ (fireOne s fut).2) :
    o = .fired fut ∨ ∃ waker, o = .woke waker := by
  unfold fireOne at member
  split at member
  · rcases List.mem_cons.mp member with rfl | woke
    · exact .inl rfl
    · obtain ⟨waker, -, rfl⟩ := List.mem_map.mp woke
      exact .inr ⟨waker, rfl⟩
  · cases member

/-- Firing shows which futures fired and which tasks woke. -/
theorem fireAll_out (s : Hub σ) (futs : List FutRef) {o : Obs} (member : o ∈ (fireAll s futs).2) :
    (∃ fut, o = .fired fut) ∨ ∃ waker, o = .woke waker := by
  induction futs generalizing s with
  | nil => cases member
  | cons fut rest ih =>
    rcases List.mem_append.mp member with now | later
    · exact (fireOne_out s fut now).imp_left fun same => ⟨fut, same⟩
    · exact ih _ later

/-- A listed wait that has not fired yet fires, and its latest waker is woken. -/
theorem fireAll_wakes (s : Hub σ) {futs : List FutRef} {fut : FutRef} {kind : PhaseKind} {cell : TrigShared}
    (listed : fut ∈ futs) (live : s.futs fut = some ⟨kind, some cell⟩) :
    .fired fut ∈ (fireAll s futs).2 ∧ ∀ waker, cell.waker = some waker → .woke waker ∈ (fireAll s futs).2 := by
  induction futs generalizing s with
  | nil => cases listed
  | cons first rest ih =>
    change _ ∈ (fireOne s first).2 ++ (fireAll (fireOne s first).1 rest).2 ∧ ∀ waker, _ →
      _ ∈ (fireOne s first).2 ++ (fireAll (fireOne s first).1 rest).2
    by_cases same : fut = first
    · subst same
      have out : (fireOne s fut).2 = .fired fut :: cell.waker.toList.map .woke := by
        simp only [fireOne, live]
      constructor
      · simp [out]
      · intro waker stored
        simp [out, stored]
    · have listed' := (List.mem_cons.mp listed).resolve_left same
      have live' : (fireOne s first).1.futs fut = some ⟨kind, some cell⟩ := by
        simpa only [fireOne_state, Hub.setFut, Function.update_of_ne same] using live
      obtain ⟨fired, woke⟩ := ih (fireOne s first).1 listed' live'
      exact ⟨List.mem_append_right _ fired, fun waker stored => List.mem_append_right _ (woke waker stored)⟩

variable (env) in
/-- The state in which a callback's tasks start. -/
theorem fire_state {s : Hub σ} (kind : PhaseKind) (valid : ∀ w ∈ s.writes, Valid w)
    (normal : s.phase = .normal) :
    (fire env s kind).1 = { s with
      phase := phaseOf (some kind)
      waiters := Function.update s.waiters kind []
      cb := Function.update s.cb kind false
      writes := if kind = .readWrite then [] else s.writes
      futs := fun fut => if fut ∈ s.waiters kind then firedFut (s.futs fut) else s.futs fut
      sim := if kind = .readWrite then replay (effect env) s.sim s.writes else s.sim
      inside := some kind } := by
  cases kind with
  | readWrite =>
    simp only [fire, applyAll_of_valid valid, fireWaiters, fireAll_state, phaseOf, ↓reduceIte]
  | readOnly => simp only [fire, fireWaiters, fireAll_state, phaseOf, reduceCtorEq, ↓reduceIte]
  | nextTimeStep =>
    simp only [fire, fireWaiters, fireAll_state, phaseOf, normal, reduceCtorEq, ↓reduceIte]

variable (env) in
/-- What a callback shows: itself, then the writes, then the waits it fires. -/
theorem fire_out {s : Hub σ} (kind : PhaseKind) (valid : ∀ w ∈ s.writes, Valid w) :
    ∃ later, (fire env s kind).2 = .callback kind ::
        (if kind = .readWrite then s.writes.map fun w => .applied w.1 w.2 else []) ++ later ∧
      (∀ o ∈ later, (∃ fut, o = .fired fut) ∨ ∃ waker, o = .woke waker) ∧
      ∀ fut cell, fut ∈ s.waiters kind → s.futs fut = some ⟨kind, some cell⟩ →
        .fired fut ∈ later ∧ ∀ waker, cell.waker = some waker → .woke waker ∈ later := by
  cases kind with
  | readWrite =>
    simp only [fire, applyAll_of_valid valid, fireWaiters, ↓reduceIte]
    exact ⟨_, rfl, fun o => fireAll_out _ _, fun fut cell listed live => fireAll_wakes _ listed live⟩
  | readOnly =>
    simp only [fire, fireWaiters, reduceCtorEq, ↓reduceIte]
    exact ⟨_, rfl, fun o => fireAll_out _ _, fun fut cell listed live => fireAll_wakes _ listed live⟩
  | nextTimeStep =>
    simp only [fire, fireWaiters, reduceCtorEq, ↓reduceIte]
    exact ⟨_, rfl, fun o => fireAll_out _ _, fun fut cell listed live => fireAll_wakes _ listed live⟩

variable (env) in
/-- Everything that a callback can show. -/
theorem mem_fire_out {s : Hub σ} (kind : PhaseKind) (valid : ∀ w ∈ s.writes, Valid w) (o : Obs)
    (member : o ∈ (fire env s kind).2) : o = .callback kind ∨ (∃ target val, o = .applied target val) ∨
      (∃ fut, o = .fired fut) ∨ ∃ waker, o = .woke waker := by
  obtain ⟨later, shown, waits, -⟩ := fire_out env kind valid
  rw [shown] at member
  rcases List.mem_append.mp member with front | last
  · split_ifs at front
    · rcases List.mem_cons.mp front with same | written
      · exact .inl same
      · obtain ⟨w, -, rfl⟩ := List.mem_map.mp written
        exact .inr (.inl ⟨_, _, rfl⟩)
    · exact .inl (List.mem_singleton.mp front)
  · exact .inr (.inr (waits o last))

end Operations

/-- A typed setter that finds no interior NUL passes a write that can be applied. -/
theorem SetCall.valid (call : SetCall) (clean : call.interiorNul = false) : Valid (call.target, call.val) := by
  obtain ⟨target, val, typed⟩ := call
  cases target with
  | logic h =>
    obtain ⟨words, same⟩ := Option.isSome_iff_exists.mp typed
    exact ⟨.vector (setVectorWords h.width words), by simp only [applyWrite, same]⟩
  | real obj =>
    cases val with
    | real bits => exact ⟨_, rfl⟩
    | _ => cases typed
  | string obj =>
    cases val with
    | string v => exact ⟨.string v, if_neg (Bool.eq_false_iff.mp clean)⟩
    | _ => cases typed

/-- Everything an action can do. -/
inductive Transition (env : Simulator σ Val) (s : Hub σ) : Action → Hub σ → List Obs → Prop where
  | make (kind : PhaseKind) :
      Transition env s (.make kind) { s.setFut s.fresh (some ⟨kind, none⟩) with fresh := s.fresh + 1 } []
  | misused {a : Action} (text : String) (passive : ∀ kind, a ≠ .fire kind) : Transition env s a s [.panicked text]
  | refused {a : Action} (target : WriteTarget) (passive : ∀ kind, a ≠ .fire kind) :
      Transition env s a s [.refused target]
  | completed (fut : FutRef) (waker : Waker) (kind : PhaseKind) (cell : TrigShared)
      (live : s.futs fut = some ⟨kind, some cell⟩) (fired : cell.fired = true) :
      Transition env s (.poll fut waker) s [.completed fut]
  | polled (fut : FutRef) (waker : Waker) (kind : PhaseKind) (cell : TrigShared)
      (live : s.futs fut = some ⟨kind, some cell⟩) (unfired : cell.fired = false) :
      Transition env s (.poll fut waker)
        (s.setFut fut (some ⟨kind, some { cell with waker := some waker }⟩)) []
  | registered (fut : FutRef) (waker : Waker) (kind : PhaseKind) (live : s.futs fut = some ⟨kind, none⟩) :
      Transition env s (.poll fut waker)
        (prime { s.setFut fut (some ⟨kind, some ⟨false, some waker⟩⟩) with
          waiters := Function.update s.waiters kind (s.waiters kind ++ [fut]) } kind) [.registered fut kind]
  | dropped (fut : FutRef) : Transition env s (.drop fut) (s.setFut fut none) []
  | buffered (call : SetCall) (normal : s.phase = .normal) (valid : Valid (call.target, call.val)) :
      Transition env s (.set call)
        (prime { s with writes := upsert call.target call.val s.writes } .readWrite)
        [.buffered call.target call.val]
  | applied {a : Action} (target : WriteTarget) (val : WriteVal) (passive : ∀ kind, a ≠ .fire kind) :
      Transition env s a { s with sim := effect env s.sim target val } [.applied target val]
  | fire (kind : PhaseKind) (armed : s.cb kind = true) (outside : s.inside = none) :
      Transition env s (.fire kind) (fire env s kind).1 (fire env s kind).2
  | finish (kind : PhaseKind) (inside : s.inside = some kind) :
      Transition env s .finish (finish s kind).1 (finish s kind).2

private theorem schedule_transition {s : Hub σ} (call : SetCall) (clean : call.interiorNul = false) :
    Transition env s (.set call) (schedule env s call.target call.val).1
      (schedule env s call.target call.val).2 := by
  have valid := call.valid clean
  unfold schedule
  split
  · exact .misused _ (by simp)
  · rw [apply_of_valid valid]
    exact .applied _ _ (by simp)
  · next normal => exact .buffered call normal valid

private theorem poll_transition {s : Hub σ} {fut : FutRef} {state : PhaseFut} (live : s.futs fut = some state)
    (waker : Waker) :
    Transition env s (.poll fut waker) (poll s fut state waker).1 (poll s fut state waker).2 := by
  obtain ⟨kind, shared⟩ := state
  cases shared with
  | none =>
    simp only [poll, register]
    split_ifs
    · exact .misused _ (by simp)
    · exact .misused _ (by simp)
    · exact .registered fut waker kind live
  | some cell =>
    simp only [poll]
    split_ifs with fired
    · exact .completed fut waker kind cell live fired
    · exact .polled fut waker kind cell live (by simpa using fired)

/-- An accepted step is a transition. -/
theorem transition_of_step {s t : Hub σ} {a : Action} {out : List Obs} (stepped : step env s a = some (t, out)) :
    Transition env s a t out := by
  have result {result : Hub σ × List Obs} (same : some result = some (t, out))
      (moved : Transition env s a result.1 result.2) : Transition env s a t out := by
    rwa [Option.some.inj same] at moved
  cases a with
  | make kind => exact result stepped (.make kind)
  | poll fut waker =>
    obtain ⟨state, live, same⟩ := Option.map_eq_some_iff.mp stepped
    exact result (congrArg some same) (poll_transition live waker)
  | drop fut =>
    obtain ⟨state, live, same⟩ := Option.map_eq_some_iff.mp stepped
    exact result (congrArg some same) (.dropped fut)
  | set call =>
    refine result stepped ?_
    unfold set
    split_ifs with interior readOnly
    · exact .misused _ (by simp)
    · exact .refused _ (by simp)
    · exact schedule_transition call (by simpa using interior)
  | setNow call =>
    refine result stepped ?_
    unfold setNow
    split_ifs with readOnly interior
    · exact .misused _ (by simp)
    · exact .refused _ (by simp)
    · rw [apply_of_valid (call.valid (by simpa using interior))]
      exact .applied _ _ (by simp)
  | fire kind =>
    obtain ⟨⟨armed, outside⟩, same⟩ := Option.ite_none_right_eq_some.mp stepped
    exact result same (.fire kind armed outside)
  | finish =>
    obtain ⟨kind, inside, same⟩ := Option.map_eq_some_iff.mp stepped
    exact result (congrArg some same) (.finish kind inside)

section Books

/-- Waits, callbacks and the phase. -/
structure Layout (s : Hub σ) : Prop where
  phase : s.phase = phaseOf s.inside
  writes : s.writes ≠ [] → s.cb .readWrite = true
  armed : ∀ kind, s.waiters kind ≠ [] → s.cb kind = true
  waiting : ∀ fut kind cell, s.futs fut = some ⟨kind, some cell⟩ → cell.fired = false →
    fut ∈ s.waiters kind ∧ cell.waker.isSome = true
  listed : ∀ kind, ∀ fut ∈ s.waiters kind, fut < s.fresh ∧
    ∀ state, s.futs fut = some state → state.kind = kind ∧ state.shared.isSome = true
  unborn : ∀ fut, s.fresh ≤ fut → s.futs fut = none

/-- One observation's part in the buffer's content. -/
def account (pending : List (WriteTarget × WriteVal)) : Obs → List (WriteTarget × WriteVal)
  | .buffered target val => pending ++ [(target, val)]
  | .callback .readWrite => []
  | _ => pending

/-- The writes scheduled in the Normal phase since the last ReadWrite callback, in order. -/
def bufferedSince (obs : List Obs) : List (WriteTarget × WriteVal) := obs.foldl account []

/-- The buffer holds those writes, coalesced, and all of them can be applied. -/
structure Buffer (s : Hub σ) (obs : List Obs) : Prop where
  writes : s.writes = coalesce (bufferedSince obs)
  valid : ∀ w ∈ bufferedSince obs, Valid w

/-- The future was registered once, for this kind, and this has been observed since. -/
def Since (fut : FutRef) (kind : PhaseKind) (obs mid : List Obs) : Prop :=
  ∃ pre, obs = pre ++ .registered fut kind :: mid ∧ ∀ kind', .registered fut kind' ∉ pre ++ mid

/-- What the cells of the futures say about the past. -/
structure Ledger (s : Hub σ) (obs : List Obs) : Prop where
  unpolled : ∀ fut kind, s.futs fut = some ⟨kind, none⟩ → ∀ kind', .registered fut kind' ∉ obs
  unborn : ∀ fut, s.fresh ≤ fut → ∀ kind, .registered fut kind ∉ obs
  polled : ∀ fut kind cell, s.futs fut = some ⟨kind, some cell⟩ → ∃ mid, Since fut kind obs mid ∧
    (cell.fired = true → .callback kind ∈ mid)
  completed : ∀ pre post fut, obs = pre ++ .completed fut :: post →
    ∃ kind mid, Since fut kind pre mid ∧ .callback kind ∈ mid

theorem Buffer.valid_writes {s : Hub σ} {obs : List Obs} (buffer : Buffer s obs) : ∀ w ∈ s.writes, Valid w := by
  intro w member
  rw [buffer.writes] at member
  exact buffer.valid w (mem_of_mem_coalesce member)

theorem layout_init (sim : σ) : Layout (initHub sim) := by
  constructor <;> simp [initHub, phaseOf]

theorem buffer_init (sim : σ) : Buffer (initHub sim) [] :=
  ⟨rfl, by simp [bufferedSince]⟩

theorem ledger_init (sim : σ) : Ledger (initHub sim) [] := by
  constructor <;> simp [initHub]

variable {s t : Hub σ} {a : Action} {obs out mid : List Obs}

theorem Since.append {fut : FutRef} {kind : PhaseKind} (since : Since fut kind obs mid)
    (quiet : ∀ kind', .registered fut kind' ∉ out) : Since fut kind (obs ++ out) (mid ++ out) := by
  obtain ⟨pre, rfl, once⟩ := since
  refine ⟨pre, by simp, ?_⟩
  intro kind' member
  rw [← List.append_assoc] at member
  exact (List.mem_append.mp member).elim (once kind') (quiet kind')

theorem bufferedSince_append (obs out : List Obs) : bufferedSince (obs ++ out) = out.foldl account (bufferedSince obs) :=
  List.foldl_append

/-- Observations that are neither a buffered write nor a ReadWrite callback leave the account. -/
theorem foldl_account_quiet (pending : List (WriteTarget × WriteVal)) (quiet : ∀ o ∈ out, account pending o = pending) :
    out.foldl account pending = pending := by
  induction out with
  | nil => rfl
  | cons o rest ih =>
    rw [List.foldl_cons, quiet o List.mem_cons_self]
    exact ih fun o member => quiet o (List.mem_cons_of_mem _ member)

/-- The phase is that of the callback whose tasks run. -/
theorem Transition.phase (moved : Transition env s a t out) (buffer : Buffer s obs)
    (phase : s.phase = phaseOf s.inside) : t.phase = phaseOf t.inside := by
  cases moved with
  | fire kind ready outside =>
    have normal : s.phase = .normal := by rw [phase, outside]; rfl
    rw [fire_state env kind buffer.valid_writes normal]
  | finish kind inside =>
    cases kind with
    | nextTimeStep => exact phase.trans (by rw [inside]; rfl)
    | _ => rfl
  | _ => exact phase

theorem Transition.layout (moved : Transition env s a t out) (layout : Layout s) (buffer : Buffer s obs) :
    Layout t := by
  have phase' := moved.phase buffer layout.phase
  obtain ⟨phase, writes, armed, waiting, listed, unborn⟩ := layout
  cases moved with
  | fire kind ready outside =>
    have normal : s.phase = .normal := by rw [phase, outside]; rfl
    rw [fire_state env kind buffer.valid_writes normal] at phase' ⊢
    refine ⟨phase', ?_, ?_, ?_, ?_, ?_⟩
    · intro pending
      simp only at pending ⊢
      split_ifs at pending with same
      · exact absurd rfl pending
      · rw [Function.update_of_ne (Ne.symm same)]
        exact writes pending
    · intro kind' nonempty
      have distinct : kind' ≠ kind := by
        rintro rfl
        simp at nonempty
      simp only [Function.update_of_ne distinct] at nonempty ⊢
      exact armed kind' nonempty
    · intro fut kind' cell live unfired
      simp only at live ⊢
      split_ifs at live with member
      · exact absurd unfired (by simp [fired_of_firedFut live])
      · obtain ⟨inside, waker⟩ := waiting fut kind' cell live unfired
        have distinct : kind' ≠ kind := fun same => member (same ▸ inside)
        exact ⟨by rwa [Function.update_of_ne distinct], waker⟩
    · intro kind' fut member
      simp only at member ⊢
      have distinct : kind' ≠ kind := by
        rintro rfl
        simp at member
      rw [Function.update_of_ne distinct] at member
      obtain ⟨bound, same⟩ := listed kind' fut member
      refine ⟨bound, fun state live => ?_⟩
      split_ifs at live with batch
      · obtain ⟨before, there, kinds, shared⟩ := of_firedFut live
        have kept := same before there
        exact ⟨kinds ▸ kept.1, shared ▸ kept.2⟩
      · exact same state live
    · intro fut beyond
      have gone := unborn fut beyond
      simp [gone, firedFut]
  | finish kind inside =>
    refine ⟨phase', ?_, ?_, ?_, ?_, ?_⟩
    all_goals cases kind <;> assumption
  | misused | refused | completed => exact ⟨phase, writes, armed, waiting, listed, unborn⟩
  | applied => exact ⟨phase, writes, armed, waiting, listed, unborn⟩
  | _ =>
    simp only [Hub.setFut, prime]
    refine ⟨phase, ?_, ?_, ?_, ?_, ?_⟩ <;> grind

theorem finish_out (s : Hub σ) (kind : PhaseKind) : (finish s kind).2 = [.returned kind] := by
  cases kind <;> rfl

/-- Firing waits leaves the account. -/
private theorem foldl_account_waits {later : List Obs}
    (waits : ∀ o ∈ later, (∃ fut, o = .fired fut) ∨ ∃ waker, o = .woke waker)
    (pending : List (WriteTarget × WriteVal)) : later.foldl account pending = pending := by
  refine foldl_account_quiet pending ?_
  intro o member
  rcases waits o member with ⟨fut, rfl⟩ | ⟨waker, rfl⟩ <;> rfl

variable (env obs) in
/-- A ReadWrite callback closes the account. -/
theorem bufferedSince_fire (valid : ∀ w ∈ s.writes, Valid w) :
    bufferedSince (obs ++ (fire env s .readWrite).2) = [] := by
  obtain ⟨later, shown, waits, -⟩ := fire_out env .readWrite valid
  rw [bufferedSince_append, shown, if_pos rfl, List.cons_append, List.foldl_cons, List.foldl_append,
    foldl_account_waits waits]
  refine foldl_account_quiet [] ?_
  intro o member
  obtain ⟨w, -, rfl⟩ := List.mem_map.mp member
  rfl

theorem Transition.buffer (moved : Transition env s a t out) (buffer : Buffer s obs)
    (phase : s.phase = phaseOf s.inside) : Buffer t (obs ++ out) := by
  obtain ⟨writes, valid⟩ := id buffer
  have quiet (same : t.writes = s.writes) (silent : out.foldl account (bufferedSince obs) = bufferedSince obs) :
      Buffer t (obs ++ out) := by
    rw [← bufferedSince_append] at silent
    exact ⟨by rw [silent, same, writes], by rwa [silent]⟩
  cases moved with
  | buffered call normal accepted =>
    have account : bufferedSince (obs ++ [.buffered call.target call.val]) =
        bufferedSince obs ++ [(call.target, call.val)] := bufferedSince_append ..
    constructor
    · rw [account, coalesce_append_singleton, ← writes]
      rfl
    · rw [account]
      intro w member
      rcases List.mem_append.mp member with earlier | now
      · exact valid w earlier
      · rwa [List.mem_singleton.mp now]
  | fire kind armed outside =>
    have normal : s.phase = .normal := by rw [phase, outside]; rfl
    obtain ⟨later, shown, waits, -⟩ := fire_out env kind buffer.valid_writes
    have state := fire_state env kind buffer.valid_writes normal
    by_cases same : kind = .readWrite
    · subst same
      have empty := bufferedSince_fire env obs buffer.valid_writes
      exact ⟨by rw [empty, state]; rfl, by simp [empty]⟩
    · refine quiet (by rw [state]; exact if_neg same) ?_
      rw [shown, if_neg same, List.cons_append, List.nil_append, List.foldl_cons,
        foldl_account_waits waits]
      cases kind with
      | readWrite => exact absurd rfl same
      | _ => rfl
  | finish kind inside =>
    refine quiet ?_ ?_
    · cases kind <;> rfl
    · rw [finish_out]
      rfl
  | _ => exact quiet rfl rfl

/-- A step that registers nothing keeps the ledger, if every cell comes from an earlier one and
fires only at a callback of its kind. -/
private theorem Ledger.extend (ledger : Ledger s obs) (silent : ∀ fut kind, .registered fut kind ∉ out)
    (fresh : s.fresh ≤ t.fresh)
    (unpolled : ∀ fut kind, t.futs fut = some ⟨kind, none⟩ → s.futs fut = some ⟨kind, none⟩ ∨ s.fresh ≤ fut)
    (polled : ∀ fut kind cell, t.futs fut = some ⟨kind, some cell⟩ → ∃ before,
      s.futs fut = some ⟨kind, some before⟩ ∧ (cell.fired = true → before.fired = true ∨ .callback kind ∈ out))
    (completed : ∀ fut, .completed fut ∈ out → out = [.completed fut] ∧
      ∃ kind cell, s.futs fut = some ⟨kind, some cell⟩ ∧ cell.fired = true) :
    Ledger t (obs ++ out) := by
  refine ⟨?_, ?_, ?_, ?_⟩
  · intro fut kind live kind' member
    have earlier := (List.mem_append.mp member).resolve_right (silent fut kind')
    rcases unpolled fut kind live with before | beyond
    · exact ledger.unpolled fut kind before kind' earlier
    · exact ledger.unborn fut beyond kind' earlier
  · intro fut beyond kind member
    have earlier := (List.mem_append.mp member).resolve_right (silent fut kind)
    exact ledger.unborn fut (Nat.le_trans fresh beyond) kind earlier
  · intro fut kind cell live
    obtain ⟨before, there, fires⟩ := polled fut kind cell live
    obtain ⟨mid, since, called⟩ := ledger.polled fut kind before there
    refine ⟨mid ++ out, since.append (silent fut), ?_⟩
    intro fired
    rcases fires fired with earlier | now
    · exact List.mem_append_left _ (called earlier)
    · exact List.mem_append_right _ now
  · intro pre post fut cut
    have now (member : .completed fut ∈ out) : out = [.completed fut] ∧
        ∃ kind mid, Since fut kind obs mid ∧ .callback kind ∈ mid := by
      obtain ⟨same, kind, cell, live, fired⟩ := completed fut member
      obtain ⟨mid, since, called⟩ := ledger.polled fut kind cell live
      exact ⟨same, kind, mid, since, called fired⟩
    rcases List.append_eq_append_iff.mp cut with ⟨more, rfl, last⟩ | ⟨more, early, last⟩
    · obtain ⟨same, found⟩ := now (by simp [last])
      -- the completion is all that the step shows, so it stands right after what came before
      rw [same] at last
      cases more with
      | nil => rwa [List.append_nil]
      | cons first rest => simp at last
    · cases more with
      | nil =>
        rw [List.append_nil] at early
        exact early ▸ (now (by rw [← List.nil_append out, ← last]; simp)).2
      | cons first rest =>
        obtain ⟨rfl, -⟩ := List.cons.inj last
        exact ledger.completed pre rest fut early

theorem Transition.ledger (moved : Transition env s a t out) (ledger : Ledger s obs) (layout : Layout s)
    (buffer : Buffer s obs) : Ledger t (obs ++ out) := by
  cases moved with
  | registered fut waker kind live =>
    have clear := ledger.unpolled fut kind live
    refine ⟨?_, ?_, ?_, ?_⟩
    · intro other kind' live' kind'' member
      have distinct : other ≠ fut := by
        rintro rfl
        simp [prime, Hub.setFut] at live'
      simp only [prime, Hub.setFut, Function.update_of_ne distinct] at live'
      rcases List.mem_append.mp member with earlier | now
      · exact ledger.unpolled other kind' live' kind'' earlier
      · exact distinct (Obs.registered.inj (List.mem_singleton.mp now)).1
    · intro other beyond kind' member
      rcases List.mem_append.mp member with earlier | now
      · exact ledger.unborn other beyond kind' earlier
      · have same := (Obs.registered.inj (List.mem_singleton.mp now)).1
        have gone := layout.unborn other beyond
        rw [same, live] at gone
        cases gone
    · intro other kind' cell live'
      by_cases same : other = fut
      · subst same
        simp only [prime, Hub.setFut, Function.update_self, Option.some.injEq, PhaseFut.mk.injEq] at live'
        obtain ⟨rfl, rfl⟩ := live'
        exact ⟨[], ⟨obs, rfl, by simpa using clear⟩, by simp⟩
      · simp only [prime, Hub.setFut, Function.update_of_ne same] at live'
        obtain ⟨mid, since, called⟩ := ledger.polled other kind' cell live'
        exact ⟨mid ++ [.registered fut kind], since.append (by simp [same]),
          fun fired => List.mem_append_left _ (called fired)⟩
    · intro pre post other cut
      rcases List.append_eq_append_iff.mp cut with ⟨more, rfl, last⟩ | ⟨more, early, last⟩
      · cases more <;> simp at last
      · cases more with
        | nil => simp at last
        | cons first rest =>
          obtain ⟨rfl, -⟩ := List.cons.inj last
          exact ledger.completed pre rest other early
  | fire kind armed outside =>
    have normal : s.phase = .normal := by rw [layout.phase, outside]; rfl
    have callback : .callback kind ∈ (Phase.fire env s kind).2 := by
      obtain ⟨later, shown, -⟩ := fire_out env kind buffer.valid_writes
      simp [shown]
    have visible := mem_fire_out env kind buffer.valid_writes
    have state := fire_state env kind buffer.valid_writes normal
    rw [state] at *
    refine ledger.extend ?_ (Nat.le_refl _) ?_ ?_ ?_
    · intro fut kind' member
      rcases visible _ member with same | ⟨_, _, same⟩ | ⟨_, same⟩ | ⟨_, same⟩ <;> cases same
    · intro fut kind' live
      simp only at live
      split_ifs at live
      · exact .inl (unpolled_of_firedFut live)
      · exact .inl live
    · intro fut kind' cell live
      simp only at live
      split_ifs at live with batch
      · obtain ⟨before, there⟩ := polled_of_firedFut live
        obtain rfl := ((layout.listed kind fut batch).2 _ there).1
        exact ⟨before, there, fun _ => .inr callback⟩
      · exact ⟨cell, live, .inl⟩
    · intro fut member
      rcases visible _ member with same | ⟨_, _, same⟩ | ⟨_, same⟩ | ⟨_, same⟩ <;> cases same
  | completed fut waker kind cell live fired =>
    refine ledger.extend (by simp) (Nat.le_refl _) (fun _ _ => .inl) (fun _ _ cell live => ⟨cell, live, .inl⟩) ?_
    intro other member
    obtain rfl := Obs.completed.inj (List.mem_singleton.mp member)
    exact ⟨rfl, kind, cell, live, fired⟩
  | finish kind inside =>
    have same : (Phase.finish s kind).1.futs = s.futs ∧ (Phase.finish s kind).1.fresh = s.fresh := by
      cases kind <;> exact ⟨rfl, rfl⟩
    rw [finish_out]
    refine ledger.extend (by simp) (by rw [same.2]) ?_ ?_ (by simp)
    · exact fun _ _ live => .inl (same.1 ▸ live)
    · exact fun _ _ cell live => ⟨cell, same.1 ▸ live, .inl⟩
  | misused | refused | applied =>
    exact ledger.extend (by simp) (Nat.le_refl _) (fun _ _ => .inl) (fun _ _ cell live => ⟨cell, live, .inl⟩)
      (by simp)
  | buffered =>
    exact ledger.extend (by simp) (Nat.le_refl _) (fun _ _ => .inl) (fun _ _ cell live => ⟨cell, live, .inl⟩)
      (by simp)
  | make | polled | dropped =>
    refine ledger.extend (by simp) ?_ ?_ ?_ (by simp) <;> simp only [Hub.setFut] <;> grind

/-- The hub's books. -/
structure Books (s : Hub σ) (obs : List Obs) : Prop where
  layout : Layout s
  buffer : Buffer s obs
  ledger : Ledger s obs

/-- The books are kept by every step. -/
theorem Books.step (books : Books s obs) (stepped : step env s a = some (t, out)) : Books t (obs ++ out) := by
  obtain ⟨layout, buffer, ledger⟩ := books
  have moved := transition_of_step stepped
  exact ⟨moved.layout layout buffer, moved.buffer buffer layout.phase, moved.ledger ledger layout buffer⟩

/-- And along every run. -/
theorem books_of_run {sim : σ} {actions : List Action} (ran : (machine env).run (initHub sim) actions = some (s, obs)) :
    Books s obs :=
  (machine env).run_invariant_nil Books ⟨layout_init sim, buffer_init sim, ledger_init sim⟩
    (fun books stepped => books.step stepped) ran

end Books

end Rustdv.Phase
