import Rustdv.Soundness.PhaseBooks

/-! # Phase waits

Between callbacks the phase is Normal and every kind with a wait has its callback armed. A wait is
kept by everything except its own drop and a callback of its kind; that callback releases it, and the
released future completes when it is polled.
-/

namespace Rustdv.Phase

open Coalesce

variable {σ Val : Type*} {env : Simulator σ Val} {s t : Hub σ} {a : Action} {obs out later : List Obs}
  {fut : FutRef} {kind : PhaseKind}

/-- The future has been polled and no callback has set its cell; the last poll left this waker. -/
def Waits (s : Hub σ) (fut : FutRef) (kind : PhaseKind) (waker : Waker) : Prop :=
  s.futs fut = some ⟨kind, some ⟨false, some waker⟩⟩

/-- A callback has set the future's cell. -/
def Released (s : Hub σ) (fut : FutRef) (kind : PhaseKind) : Prop :=
  ∃ waker, s.futs fut = some ⟨kind, some ⟨true, waker⟩⟩

/-- A polled future that has not been released waits. -/
theorem Layout.waits (layout : Layout s) {cell : TrigShared} (live : s.futs fut = some ⟨kind, some cell⟩)
    (unfired : cell.fired = false) : ∃ waker, Waits s fut kind waker := by
  obtain ⟨-, stored⟩ := layout.waiting fut kind cell live unfired
  obtain ⟨waker, same⟩ := Option.isSome_iff_exists.mp stored
  obtain ⟨fired, wakes⟩ := cell
  cases unfired
  cases same
  exact ⟨waker, live⟩

variable (env) in
/-- A callback lets go of every wait of its kind and wakes the task that polled last. -/
theorem Books.released_by_callback (books : Books s obs) {waker : Waker} (waits : Waits s fut kind waker)
    (outside : s.inside = none) :
    Released (fire env s kind).1 fut kind ∧ .fired fut ∈ (fire env s kind).2 ∧
      .woke waker ∈ (fire env s kind).2 := by
  obtain ⟨layout, buffer, -⟩ := books
  have normal : s.phase = .normal := by rw [layout.phase, outside]; rfl
  have listed := (layout.waiting fut kind _ waits rfl).1
  obtain ⟨later, shown, -, wakes⟩ := fire_out env kind buffer.valid_writes
  obtain ⟨fired, woke⟩ := wakes fut _ listed waits
  refine ⟨?_, ?_, ?_⟩
  · rw [fire_state env kind buffer.valid_writes normal]
    refine ⟨none, ?_⟩
    simp only [if_pos listed]
    rw [waits, firedFut]
  · rw [shown]
    exact List.mem_append_right _ fired
  · rw [shown]
    exact List.mem_append_right _ (woke waker rfl)

/-- A callback of another kind does not touch the wait. -/
theorem Books.kept_by_callback (books : Books s obs) {waker : Waker} (waits : Waits s fut kind waker)
    (outside : s.inside = none) {other : PhaseKind} (distinct : other ≠ kind) :
    Waits (fire env s other).1 fut kind waker := by
  obtain ⟨layout, buffer, -⟩ := books
  have normal : s.phase = .normal := by rw [layout.phase, outside]; rfl
  have elsewhere : fut ∉ s.waiters other := by
    intro listed
    have same := ((layout.listed other fut listed).2 _ waits).1
    exact distinct same.symm
  rw [Waits, fire_state env other buffer.valid_writes normal]
  simp only [if_neg elsewhere]
  exact waits

variable (env fut) in
/-- The observations of a callback: only its own kind is called, and nothing completes. -/
theorem Books.callback_out (books : Books s obs) (other : PhaseKind) :
    (∀ kind, .callback kind ∈ (fire env s other).2 ↔ kind = other) ∧ .completed fut ∉ (fire env s other).2 := by
  have quiet := mem_fire_out env other books.buffer.valid_writes
  refine ⟨fun kind => ⟨?_, ?_⟩, ?_⟩
  · intro member
    rcases quiet _ member with same | ⟨_, _, same⟩ | ⟨_, same⟩ | ⟨_, same⟩
    · exact Obs.callback.inj same
    all_goals cases same
  · rintro rfl
    obtain ⟨later, shown, -⟩ := fire_out env kind books.buffer.valid_writes
    simp [shown]
  · intro member
    rcases quiet _ member with same | ⟨_, _, same⟩ | ⟨_, same⟩ | ⟨_, same⟩ <;> cases same

/-- One action on a wait: a callback of its kind releases it; anything else but its own drop keeps it. -/
theorem Transition.wait (moved : Transition env s a t out) (books : Books s obs) {waker : Waker}
    (waits : Waits s fut kind waker) (kept : a ≠ .drop fut) : .completed fut ∉ out ∧
      (.callback kind ∈ out ∧ Released t fut kind ∨ .callback kind ∉ out ∧ ∃ waker, Waits t fut kind waker) := by
  unfold Waits at waits
  cases moved with
  | fire other armed outside =>
    obtain ⟨called, silent⟩ := books.callback_out env fut other
    refine ⟨silent, ?_⟩
    by_cases same : kind = other
    · subst same
      exact .inl ⟨(called kind).mpr rfl, (books.released_by_callback env waits outside).1⟩
    · exact .inr ⟨mt (called kind).mp same, waker, books.kept_by_callback waits outside (Ne.symm same)⟩
  | finish other inside =>
    rw [finish_out]
    refine ⟨by simp, .inr ⟨by simp, waker, ?_⟩⟩
    cases other <;> exact waits
  | completed other waker' kind' cell live fired =>
    have distinct : other ≠ fut := by
      rintro rfl
      rw [waits] at live
      cases live
      cases fired
    exact ⟨by simpa using Ne.symm distinct, .inr ⟨by simp, waker, waits⟩⟩
  | make kind' =>
    have old : fut ≠ s.fresh := by
      rintro rfl
      have gone := books.layout.unborn s.fresh (Nat.le_refl _)
      rw [waits] at gone
      cases gone
    refine ⟨by simp, .inr ⟨by simp, waker, ?_⟩⟩
    simpa only [Waits, Hub.setFut, Function.update_of_ne old] using waits
  | polled other waker' kind' cell live unfired =>
    refine ⟨by simp, .inr ⟨by simp, ?_⟩⟩
    by_cases same : fut = other
    · subst same
      rw [waits] at live
      cases live
      exact ⟨waker', by simp only [Waits, Hub.setFut, Function.update_self]⟩
    · exact ⟨waker, by simpa only [Waits, Hub.setFut, Function.update_of_ne same] using waits⟩
  | registered other waker' kind' live =>
    have distinct : fut ≠ other := by
      rintro rfl
      rw [waits] at live
      cases live
    refine ⟨by simp, .inr ⟨by simp, waker, ?_⟩⟩
    simpa only [Waits, prime, Hub.setFut, Function.update_of_ne distinct] using waits
  | dropped other =>
    have distinct : fut ≠ other := by
      rintro rfl
      exact kept rfl
    refine ⟨by simp, .inr ⟨by simp, waker, ?_⟩⟩
    simpa only [Waits, Hub.setFut, Function.update_of_ne distinct] using waits
  | _ => exact ⟨by simp, .inr ⟨by simp, waker, waits⟩⟩

/-- A released future stays so until it is dropped. -/
theorem Transition.released (moved : Transition env s a t out) (books : Books s obs)
    (released : Released s fut kind) (kept : a ≠ .drop fut) : Released t fut kind := by
  obtain ⟨waker, live⟩ := released
  cases moved with
  | fire other armed outside =>
    have normal : s.phase = .normal := by rw [books.layout.phase, outside]; rfl
    rw [Released, fire_state env other books.buffer.valid_writes normal]
    simp only
    split_ifs
    · exact ⟨none, by rw [live, firedFut]⟩
    · exact ⟨waker, live⟩
  | finish other inside => cases other <;> exact ⟨waker, live⟩
  | misused | refused | completed | applied | buffered => exact ⟨waker, live⟩
  | make kind' =>
    have old : fut ≠ s.fresh := by
      rintro rfl
      have gone := books.layout.unborn s.fresh (Nat.le_refl _)
      rw [live] at gone
      cases gone
    exact ⟨waker, by simpa only [Hub.setFut, Function.update_of_ne old] using live⟩
  | polled other waker' kind' cell live' unfired =>
    have distinct : fut ≠ other := by
      rintro rfl
      rw [live] at live'
      cases live'
      cases unfired
    exact ⟨waker, by simpa only [Hub.setFut, Function.update_of_ne distinct] using live⟩
  | registered other waker' kind' live' =>
    have distinct : fut ≠ other := by
      rintro rfl
      rw [live] at live'
      cases live'
    exact ⟨waker, by simpa only [prime, Hub.setFut, Function.update_of_ne distinct] using live⟩
  | dropped other =>
    have distinct : fut ≠ other := by
      rintro rfl
      exact kept rfl
    exact ⟨waker, by simpa only [Hub.setFut, Function.update_of_ne distinct] using live⟩

/-- Until its own drop, a released future stays released along every run. -/
theorem released_of_run {more : List Action} (books : Books s obs) (released : Released s fut kind)
    (ran : (machine env).run s more = some (t, later)) (kept : .drop fut ∉ more) : Released t fut kind := by
  induction more generalizing s obs later with
  | nil =>
    cases ran
    exact released
  | cons a rest ih =>
    obtain ⟨mid, first, last, stepped, suffix, rfl⟩ := (machine env).run_cons_eq_some_iff.mp ran
    obtain ⟨now, after⟩ := List.ne_and_not_mem_of_not_mem_cons kept
    have moved := transition_of_step stepped
    exact ih (books.step stepped) (moved.released books released (Ne.symm now)) suffix after

/-- Until its own drop, a wait is kept along every run without a callback of its kind, and released
in every run with one. -/
theorem wait_of_run {more : List Action} (books : Books s obs) {waker : Waker} (waits : Waits s fut kind waker)
    (ran : (machine env).run s more = some (t, later)) (kept : .drop fut ∉ more) :
    .callback kind ∈ later ∧ Released t fut kind ∨
      .callback kind ∉ later ∧ .completed fut ∉ later ∧ ∃ waker, Waits t fut kind waker := by
  induction more generalizing s obs later waker with
  | nil =>
    cases ran
    exact .inr ⟨List.not_mem_nil, List.not_mem_nil, waker, waits⟩
  | cons a rest ih =>
    obtain ⟨mid, first, last, stepped, suffix, rfl⟩ := (machine env).run_cons_eq_some_iff.mp ran
    obtain ⟨now, after⟩ := List.ne_and_not_mem_of_not_mem_cons kept
    have moved := transition_of_step stepped
    obtain ⟨silent, ⟨called, released⟩ | ⟨uncalled, waker', waits'⟩⟩ := moved.wait books waits (Ne.symm now)
    · have stays := released_of_run (books.step stepped) released suffix after
      exact .inl ⟨List.mem_append_left _ called, stays⟩
    · rcases ih (books.step stepped) waits' suffix after with ⟨called, released⟩ | ⟨uncalled', silent', still⟩
      · exact .inl ⟨List.mem_append_right _ called, released⟩
      · refine .inr ⟨?_, ?_, still⟩
        · simp [uncalled, uncalled']
        · simp [silent, silent']

/-- What holds in a state of the hub with these observations behind it. -/
structure PhaseWaits (env : Simulator σ Val) (s : Hub σ) (obs : List Obs) : Prop where
  /-- Between callbacks the phase is Normal. -/
  normal : s.inside = none → s.phase = .normal
  /-- A buffered write has the ReadWrite callback armed. -/
  armedWrites : s.writes ≠ [] → s.cb .readWrite = true
  /-- So has a kind with a waiter its callback. -/
  armedWaits : ∀ kind, s.waiters kind ≠ [] → s.cb kind = true
  /-- Every live wait is among the waiters of its kind. -/
  listed : ∀ fut kind waker, Waits s fut kind waker → fut ∈ s.waiters kind
  /-- A polled future waits with a waker, or has been released. -/
  polled : ∀ fut kind cell, s.futs fut = some ⟨kind, some cell⟩ →
    Released s fut kind ∨ ∃ waker, Waits s fut kind waker
  /-- A completed future was first polled once, and a callback of its kind has fired since. -/
  completed : ∀ pre post fut, obs = pre ++ .completed fut :: post →
    ∃ kind mid, Since fut kind pre mid ∧ .callback kind ∈ mid
  /-- Whatever happens, a wait that is not dropped itself neither completes nor is lost before the next
  callback of its kind; from that callback on, the future completes when it is polled. -/
  kept : ∀ fut kind waker, Waits s fut kind waker →
    ∀ more t later, (machine env).run s more = some (t, later) → .drop fut ∉ more →
      if .callback kind ∈ later then ∀ waker, step env t (.poll fut waker) = some (t, [.completed fut])
      else .completed fut ∉ later ∧ ∃ waker, Waits t fut kind waker
  /-- The callback wakes the task that polled last. -/
  woken : ∀ fut kind waker, Waits s fut kind waker →
    ∀ t out, step env s (.fire kind) = some (t, out) → .woke waker ∈ out
  /-- At a ReadWrite callback all buffered writes are applied first, before anything is woken. -/
  writesFirst : ∀ t out, step env s (.fire .readWrite) = some (t, out) → t.writes = [] ∧
    ∃ later, out = .callback .readWrite :: (s.writes.map fun w => .applied w.1 w.2) ++ later ∧
      ∀ o ∈ later, (∃ fut, o = .fired fut) ∨ ∃ waker, o = .woke waker

/-- Arming and waiting, over every run of the hub. -/
theorem phase_waits {sim : σ} {actions : List Action}
    (ran : (machine env).run (initHub sim) actions = some (s, obs)) : PhaseWaits env s obs := by
  have books := books_of_run ran
  have layout := books.layout
  have normal (outside : s.inside = none) : s.phase = .normal := by rw [layout.phase, outside]; rfl
  refine ⟨normal, layout.writes, layout.armed, ?_, ?_, books.ledger.completed, ?_, ?_, ?_⟩
  · intro fut kind waker waits
    exact (layout.waiting fut kind _ waits rfl).1
  · intro fut kind cell live
    by_cases fired : cell.fired = true
    · exact .inl ⟨cell.waker, by rw [live, ← fired]⟩
    · exact .inr (layout.waits live (by simpa using fired))
  · intro fut kind waker waits more t later ran' undropped
    rcases wait_of_run books waits ran' undropped with ⟨called, last, live⟩ | ⟨uncalled, silent, still⟩
    · rw [if_pos called]
      intro waker'
      simp only [step, live, Option.map_some, poll, ↓reduceIte]
    · rw [if_neg uncalled]
      exact ⟨silent, still⟩
  · intro fut kind waker waits t out fired
    obtain ⟨⟨-, outside⟩, same⟩ := Option.ite_none_right_eq_some.mp fired
    obtain ⟨-, -, woke⟩ := books.released_by_callback env waits outside
    rwa [Option.some.inj same] at woke
  · intro t out fired
    obtain ⟨⟨-, outside⟩, same⟩ := Option.ite_none_right_eq_some.mp fired
    have state := fire_state env .readWrite books.buffer.valid_writes (normal outside)
    obtain ⟨later, shown, waits, -⟩ := fire_out env .readWrite books.buffer.valid_writes
    rw [Option.some.inj same] at state shown
    exact ⟨congrArg Hub.writes state, later, shown, waits⟩

/-- Puts are forgotten. -/
def noSimulator : Simulator Unit Unit where
  put _ _ _ := ()
  value _ _ := ()
  fullName _ := "top"
  put_self _ _ _ _ := rfl
  put_other _ _ _ _ _ := rfl

/-- A ReadWrite wait with a spurious poll, another one that is dropped, and a third registered while
the callback's tasks run. -/
def nestedWait : List Action :=
  [.make .readWrite, .make .readWrite, .poll 0 (.task 1), .poll 1 (.task 2), .poll 0 (.task 3),
    .set ⟨.logic ⟨7, 8⟩, .u8 3, rfl⟩, .drop 1, .fire .readWrite, .poll 0 (.task 3), .make .readWrite,
    .poll 2 (.task 3), .poll 2 (.task 3), .finish]

theorem phase_waits_nested :
    ∃ s obs, (machine noSimulator).run (initHub ()) nestedWait = some (s, obs) ∧
      obs = [.registered 0 .readWrite, .registered 1 .readWrite, .buffered (.logic ⟨7, 8⟩) (.u8 3),
        .callback .readWrite, .applied (.logic ⟨7, 8⟩) (.u8 3), .fired 0, .woke (.task 3), .completed 0,
        .registered 2 .readWrite, .returned .readWrite] ∧
      s.cb .readWrite = true ∧ PhaseWaits noSimulator s obs := by
  have seen : ((machine noSimulator).run (initHub ()) nestedWait).map (fun last => (last.2, last.1.cb .readWrite)) =
      some ([.registered 0 .readWrite, .registered 1 .readWrite, .buffered (.logic ⟨7, 8⟩) (.u8 3),
        .callback .readWrite, .applied (.logic ⟨7, 8⟩) (.u8 3), .fired 0, .woke (.task 3), .completed 0,
        .registered 2 .readWrite, .returned .readWrite], true) := by decide
  obtain ⟨⟨s, obs⟩, ran, same⟩ := Option.map_eq_some_iff.mp seen
  obtain ⟨shown, armed⟩ := Prod.mk.inj same
  exact ⟨s, obs, ran, shown, armed, phase_waits ran⟩

end Rustdv.Phase
