import Rustdv.Soundness.ExecutorBooks

/-! # The life of a task

What the handles of a task can learn has a life of its own: the task is live, with those who join it, it
ends with a result in one of three ways, and the result stays until somebody takes it. The cell that the
executor keeps for the task follows that life in every run, and what a step shows is what it does.
-/

namespace Rustdv.Executor

variable {V : Type*}

/-- A task as its handles know it. -/
inductive Life (V : Type*) where
  | unborn
  /-- With the wakers of those who join it. It is leaving if it has asked to be cancelled in its own poll. -/
  | live (joiners : List Waker) (leaving : Bool)
  | ended (result : Except TaskError V)
  /-- Somebody has taken the result. -/
  | taken (result : Except TaskError V)

namespace Life

/-- A task ends in one of three ways, and only once. -/
def finish (result : Except TaskError V) : Life V → Life V
  | live _ _ => ended result
  | life => life

/-- The result is consumed. -/
def take : Life V → Life V
  | ended result => taken result
  | life => life

/-- A joiner leaves its waker, or gets the result. -/
def join (waker : Waker) : Life V → Life V
  | live joiners leaving => live (joiners ++ [waker]) leaving
  | life => life.take

def leave : Life V → Life V
  | live joiners _ => live joiners true
  | life => life

/-- The results that it has had. -/
def results : Life V → List (Except TaskError V)
  | ended result | taken result => [result]
  | _ => []

/-- What an action does to the life of a task, where `control` says whose code is running and `born` whether
the next task to be spawned is this one. -/
def next (id : TaskId) (control : Control) (born : Prop) [Decidable born] (life : Life V) : Action V → Life V
  | .spawnNamed _ => if born then live [] false else life
  | .pollReady value => if control = .polling id then life.finish (.ok value) else life
  | .pollPanic message => if control = .polling id then life.finish (.error (.panicked message)) else life
  | .pollPending =>
      match life with
      | live _ true => ended (.error .cancelled)
      | life => life
  | .cancel target =>
      if target = id then if control = .polling id then life.leave else life.finish (.error .cancelled) else life
  | .pollHandle target waker => if target = id then life.join waker else life
  | .takeResult target => if target = id then life.take else life
  | _ => life

end Life

/-- The life of a task through a run. -/
def lifeOf (id : TaskId) : ExecInner V → Life V → List (Action V) → Life V
  | _, life, [] => life
  | s, life, a :: rest =>
      match step s a with
      | some (t, _) => lifeOf id t (life.next id s.control (s.nextId = id) a) rest
      | none => life

/-- The state that a task with this result ends in. -/
def outcome : Except TaskError V → TaskState
  | .ok _ => .finished
  | .error error => error.state

/-- The entry and the cell of a task are those of its life. -/
def Life.Shows (id : TaskId) (s : ExecInner V) : Life V → Prop
  | .unborn => s.nextId ≤ id
  | .live joiners _ => (s.tasks id).isSome ∧ (s.shared id).result = none ∧ (s.shared id).joiners = joiners
  | .ended result => id < s.nextId ∧ s.tasks id = none ∧ s.shared id = ⟨outcome result, some result, []⟩
  | .taken result => id < s.nextId ∧ s.tasks id = none ∧ s.shared id = ⟨outcome result, none, []⟩

/-- A task that is leaving is the one being polled, and the executor remembers it. -/
def Life.Leaves (id : TaskId) (s : ExecInner V) : Life V → Prop
  | .live _ leaving => (leaving = true ↔ id ∈ s.cancelPending) ∧ (leaving = true → s.control = .polling id)
  | _ => True

/-! ## Tasks that end -/

/-- A store or a wake. -/
def Obs.ofEnd : Obs V → Bool
  | .stored .. | .woke _ => true
  | _ => false

/-- The task is live in the first state and not in the second. -/
def Finishes (id : TaskId) (s t : ExecInner V) : Prop := (s.tasks id).isSome ∧ t.tasks id = none

/-- Some live tasks end with this result, and the others stay as they are. -/
structure Ends (result : Except TaskError V) (s t : ExecInner V) (out : List (Obs V)) : Prop where
  nextId : t.nextId = s.nextId
  control : t.control = s.control
  cancelPending : t.cancelPending = s.cancelPending
  dead : ∀ id, s.tasks id = none → t.tasks id = none ∧ t.shared id = s.shared id
  live : ∀ id, (t.tasks id).isSome → t.tasks id = s.tasks id ∧ t.shared id = s.shared id
  ended : ∀ id, Finishes id s t → t.shared id = ⟨outcome result, some result, []⟩
  stored : ∀ id result' joiners, .stored id result' joiners ∈ out ↔
    Finishes id s t ∧ result' = result ∧ joiners = (s.shared id).joiners
  woke : ∀ waker, .woke waker ∈ out ↔ ∃ id, Finishes id s t ∧ waker ∈ (s.shared id).joiners
  woken : ∀ id, id ∈ s.woken ∨ .woke (.task id) ∈ out → id ∈ t.woken
  only : ∀ o ∈ out, o.ofEnd = true

section Ending

variable {result : Except TaskError V} {s m t : ExecInner V} {first later out : List (Obs V)} {id : TaskId}

theorem not_finishes (id : TaskId) (s : ExecInner V) : ¬ Finishes id s s := by
  rintro ⟨live, gone⟩
  simp [gone] at live

theorem ends_refl (result : Except TaskError V) (s : ExecInner V) : Ends result s s [] where
  nextId := rfl
  control := rfl
  cancelPending := rfl
  dead _ gone := ⟨gone, rfl⟩
  live _ _ := ⟨rfl, rfl⟩
  ended id finishes := absurd finishes (not_finishes id s)
  stored id result' joiners := by simp [not_finishes]
  woke waker := by simp [not_finishes]
  woken id member := by simpa using member
  only := by simp

/-- A task that finishes does so before the middle or behind it. -/
theorem Ends.finishes_iff (front : Ends result s m first) (back : Ends result m t later) (id : TaskId) :
    Finishes id s t ↔ Finishes id s m ∨ Finishes id m t := by
  unfold Finishes
  cases there : m.tasks id with
  | none => simp [(back.dead id there).1]
  | some entry =>
    have same := (front.live id (by simp [there])).1
    simp [← same, there]

theorem Ends.trans (front : Ends result s m first) (back : Ends result m t later) :
    Ends result s t (first ++ later) where
  nextId := back.nextId.trans front.nextId
  control := back.control.trans front.control
  cancelPending := back.cancelPending.trans front.cancelPending
  dead id gone := by
    obtain ⟨gone', same⟩ := front.dead id gone
    obtain ⟨gone'', same'⟩ := back.dead id gone'
    exact ⟨gone'', same'.trans same⟩
  live id live := by
    obtain ⟨tasks', shared'⟩ := back.live id live
    obtain ⟨tasks, shared⟩ := front.live id (tasks' ▸ live)
    exact ⟨tasks'.trans tasks, shared'.trans shared⟩
  ended id finishes := by
    rcases (front.finishes_iff back id).mp finishes with before | behind
    · exact (back.dead id before.2).2.trans (front.ended id before)
    · exact back.ended id behind
  stored id result' joiners := by
    rw [List.mem_append, front.stored, back.stored, front.finishes_iff back, or_and_right]
    refine or_congr_right (and_congr_right fun behind => ?_)
    rw [(front.live id behind.1).2]
  woke waker := by
    rw [List.mem_append, front.woke, back.woke, ← exists_or]
    refine exists_congr fun id => ?_
    rw [front.finishes_iff back, or_and_right]
    refine or_congr_right (and_congr_right fun behind => ?_)
    rw [(front.live id behind.1).2]
  woken id member := by
    rw [List.mem_append] at member
    refine back.woken id ?_
    rcases member with early | shown | shown
    · exact .inl (front.woken id (.inl early))
    · exact .inl (front.woken id (.inr shown))
    · exact .inr shown
  only o member := (List.mem_append.mp member).elim (front.only o) (back.only o)

theorem ends_finish (live : (s.tasks id).isSome = true) :
    Ends result s (Executor.finish s id (outcome result) result).1 (Executor.finish s id (outcome result) result).2 := by
  have gone (other : TaskId) : Finishes other s (Executor.finish s id (outcome result) result).1 ↔ other = id := by
    unfold Finishes
    by_cases here : other = id
    · simp [here, live]
    · rw [finish_tasks, Function.update_of_ne here]
      exact iff_of_false (not_finishes other s) here
  refine ⟨rfl, rfl, rfl, ?_, ?_, ?_, ?_, ?_, ?_, ?_⟩
  · intro other none
    have here : other ≠ id := by
      rintro rfl
      simp [none] at live
    simp [here, none]
  · intro other some
    have here : other ≠ id := by
      rintro rfl
      simp at some
    simp [here]
  · intro other finishes
    obtain rfl := (gone other).mp finishes
    simp
  · intro other result' joiners
    rw [finish_out, gone]
    simp only [List.mem_cons, Obs.stored.injEq, List.mem_map, reduceCtorEq, and_false, exists_false, or_false]
    constructor
    · rintro ⟨rfl, rfl, rfl⟩
      exact ⟨rfl, rfl, rfl⟩
    · rintro ⟨rfl, rfl, rfl⟩
      exact ⟨rfl, rfl, rfl⟩
  · intro waker
    rw [finish_out]
    simp only [gone, List.mem_cons, reduceCtorEq, List.mem_map, Obs.woke.injEq, exists_eq_right, false_or,
      exists_eq_left]
  · intro other member
    rw [finish_woken, List.mem_append]
    refine member.imp_right fun shown => ?_
    rw [finish_out] at shown
    simp only [List.mem_cons, reduceCtorEq, List.mem_map, Obs.woke.injEq, exists_eq_right, false_or] at shown
    exact List.mem_filterMap.mpr ⟨_, shown, rfl⟩
  · rw [finish_out]
    simp only [List.mem_cons, List.mem_map]
    rintro o (rfl | ⟨waker, -, rfl⟩) <;> rfl

/-- What is cancelled from outside its own poll ends, if it is live. -/
theorem ends_cancel (other : s.currentlyPolling ≠ some id) :
    Ends (.error .cancelled) s (cancel s id).1 (cancel s id).2 ∧ (cancel s id).1.tasks id = none ∧
      (∀ target ≠ id, (cancel s id).1.tasks target = s.tasks target) ∧
      (cancel s id).1.currentlyPolling = s.currentlyPolling := by
  cases live : s.tasks id with
  | none =>
    have same : cancel s id = (s, []) := by simp only [cancel, other, ↓reduceIte, live]
    rw [same]
    exact ⟨ends_refl _ s, live, fun _ _ => rfl, rfl⟩
  | some entry =>
    rw [cancel_of_live other live]
    refine ⟨ends_finish (by simp [live]), by simp, fun target apart => by simp [apart], rfl⟩

theorem ends_cancelAll (ids : List TaskId) (nobody : s.currentlyPolling = none) :
    Ends (.error .cancelled) s (cancelAll s ids).1 (cancelAll s ids).2 ∧
      ∀ id, (cancelAll s ids).1.tasks id = if id ∈ ids then none else s.tasks id := by
  induction ids generalizing s with
  | nil => exact ⟨ends_refl _ s, fun id => by simp [cancelAll]⟩
  | cons target rest ih =>
    obtain ⟨ends, own, others, polling⟩ := @ends_cancel V s target (by simp [nobody])
    obtain ⟨more, tasks⟩ := ih (polling.trans nobody)
    refine ⟨ends.trans more, fun id => ?_⟩
    simp only [cancelAll, tasks, List.mem_cons]
    by_cases here : id = target
    · simp [here, own]
    · simp [here, others id here]

end Ending

/-! ## A life step by step -/

/-- Nothing changes of a task that its life tells. -/
structure Looks (id : TaskId) (s t : ExecInner V) : Prop where
  unborn : s.nextId ≤ id → t.nextId ≤ id
  born : s.nextId ≤ t.nextId
  pending : id ∈ t.cancelPending ↔ id ∈ s.cancelPending
  tasks : (t.tasks id).isSome = (s.tasks id).isSome
  result : (t.shared id).result = (s.shared id).result
  joiners : (t.shared id).joiners = (s.shared id).joiners
  dead : s.tasks id = none → t.shared id = s.shared id

/-- The state of the executor goes with the life of the task. -/
structure Life.Follows (id : TaskId) (s : ExecInner V) (life : Life V) : Prop where
  shows : life.Shows id s
  leaves : life.Leaves id s

section Looking

variable {id : TaskId} {s m t : ExecInner V} {life : Life V}

theorem looks_refl (id : TaskId) (s : ExecInner V) : Looks id s s :=
  ⟨(·), Nat.le_refl _, Iff.rfl, rfl, rfl, rfl, fun _ => rfl⟩

theorem Looks.gone (looks : Looks id s t) (dead : s.tasks id = none) : t.tasks id = none := by
  refine Option.not_isSome_iff_eq_none.mp ?_
  rw [looks.tasks, dead]
  exact Bool.false_ne_true

theorem Looks.trans (first : Looks id s m) (later : Looks id m t) : Looks id s t where
  unborn beyond := later.unborn (first.unborn beyond)
  born := Nat.le_trans first.born later.born
  pending := later.pending.trans first.pending
  tasks := later.tasks.trans first.tasks
  result := later.result.trans first.result
  joiners := later.joiners.trans first.joiners
  dead gone := (later.dead (first.gone gone)).trans (first.dead gone)

theorem Looks.shows (looks : Looks id s t) (shows : life.Shows id s) : life.Shows id t := by
  cases life with
  | unborn => exact looks.unborn shows
  | live joiners leaving =>
    obtain ⟨some, result, same⟩ := shows
    exact ⟨looks.tasks.trans some, looks.result.trans result, looks.joiners.trans same⟩
  | ended result | taken result =>
    obtain ⟨born, dead, same⟩ := shows
    exact ⟨Nat.lt_of_lt_of_le born looks.born, looks.gone dead, (looks.dead dead).trans same⟩

theorem Looks.follows (looks : Looks id s t) (follows : life.Follows id s)
    (control : s.control = .polling id → t.control = .polling id) : life.Follows id t := by
  refine ⟨looks.shows follows.shows, ?_⟩
  cases life with
  | live joiners leaving =>
    exact ⟨follows.leaves.1.trans looks.pending.symm, fun leaving => control (follows.leaves.2 leaving)⟩
  | unborn | ended | taken => trivial

/-- A task other than the one whose entry and cell are replaced. -/
theorem looks_elsewhere {other : TaskId} (apart : id ≠ other) (entry : Option TaskEntry) (cell : TaskShared V) :
    Looks id s ((s.setEntry other entry).setShared other cell) := by
  refine ⟨(·), Nat.le_refl _, Iff.rfl, ?_, ?_, ?_, fun _ => ?_⟩ <;>
    simp [ExecInner.setEntry, ExecInner.setShared, apart]

/-- Only the state of a live task changes. -/
theorem looks_restate {other : TaskId} {entry : TaskEntry} (live : s.tasks other = some entry) (state : TaskState) :
    Looks id s (restate s other entry state) := by
  by_cases here : id = other
  · subst here
    refine ⟨(·), Nat.le_refl _, Iff.rfl, ?_, ?_, ?_, fun gone => ?_⟩
    · simp [restate, ExecInner.setEntry, ExecInner.setShared, ExecInner.setState, live]
    · simp [restate, ExecInner.setEntry, ExecInner.setShared, ExecInner.setState]
    · simp [restate, ExecInner.setEntry, ExecInner.setShared, ExecInner.setState]
    · simp [live] at gone
  · exact looks_elsewhere here _ _

theorem looks_drainWoken (id : TaskId) (s : ExecInner V) : Looks id s (drainWoken s) := by
  have cleared : Looks id s { s with woken := [] } := { looks_refl id s with }
  suffices drained : ∀ (ids : List TaskId) (s : ExecInner V), Looks id s (ids.foldl drainOne s) from
    cleared.trans (drained s.woken { s with woken := [] })
  intro ids
  induction ids with
  | nil => exact looks_refl id
  | cons other rest ih =>
    intro s
    rw [List.foldl_cons]
    refine Looks.trans ?_ (ih _)
    unfold drainOne
    split
    · next entry live =>
      split_ifs
      · exact { looks_restate live .scheduled with }
      · exact looks_refl id s
    · exact looks_refl id s

theorem looks_turn (id : TaskId) (s : ExecInner V) : Looks id s (turn s).1 := by
  refine (looks_drainWoken id s).trans ?_
  cases front : (drainWoken s).runQueue with
  | nil =>
    rw [turn_of_nil front]
    exact { looks_refl id (drainWoken s) with }
  | cons other rest =>
    rw [turn_of_cons front]
    unfold pollTask
    split
    · exact { looks_refl id (drainWoken s) with }
    · next entry live =>
      split_ifs
      · have held : (drainWoken s).tasks other = some entry := live
        have kept : Looks id (drainWoken s) (restate (drainWoken s) other entry .running) := looks_restate held .running
        exact { kept with }
      · exact { looks_refl id (drainWoken s) with }

theorem Ends.looks {result : Except TaskError V} {out : List (Obs V)} (ends : Ends result s t out)
    (stays : ¬ Finishes id s t) : Looks id s t := by
  have same : t.tasks id = s.tasks id ∧ t.shared id = s.shared id := by
    cases there : t.tasks id with
    | some entry =>
      have kept := ends.live id (by simp [there])
      rwa [there] at kept
    | none =>
      have gone : s.tasks id = none := by
        by_contra live
        exact stays ⟨Option.isSome_iff_ne_none.mpr live, there⟩
      exact ⟨gone.symm, (ends.dead id gone).2⟩
  refine ⟨by rw [ends.nextId]; exact (·), Nat.le_of_eq ends.nextId.symm, by rw [ends.cancelPending], ?_, ?_, ?_, ?_⟩
  · rw [same.1]
  · rw [same.2]
  · rw [same.2]
  · exact fun _ => same.2

/-- The end of a live task is the end of its life. -/
theorem Ends.finish {result : Except TaskError V} {out : List (Obs V)} (ends : Ends result s t out) (layout : Layout s)
    (finishes : Finishes id s t) (follows : life.Follows id s) : (life.finish result).Follows id t := by
  obtain ⟨entry, live⟩ := Option.isSome_iff_exists.mp finishes.1
  have born := (layout.bound live).2
  cases life with
  | unborn => exact absurd born (Nat.not_lt.mpr follows.shows)
  | live joiners leaving =>
    refine ⟨⟨?_, finishes.2, ends.ended id finishes⟩, trivial⟩
    rw [ends.nextId]
    exact born
  | ended result' => simp [follows.shows.2.1] at live
  | taken result' => simp [follows.shows.2.1] at live

end Looking

section Steps

variable {s : ExecInner V} {id : TaskId} {life : Life V}

theorem takeResult_frame (s : ExecInner V) (id : TaskId) :
    (takeResult s id).1.tasks = s.tasks ∧ (takeResult s id).1.control = s.control := by
  unfold takeResult
  dsimp only
  split <;> exact ⟨rfl, rfl⟩

theorem takeResult_pending (s : ExecInner V) (id : TaskId) :
    (takeResult s id).1.nextId = s.nextId ∧ (takeResult s id).1.cancelPending = s.cancelPending := by
  unfold takeResult
  dsimp only
  split <;> exact ⟨rfl, rfl⟩

theorem looks_setShared {target : TaskId} (apart : id ≠ target) (cell : TaskShared V) :
    Looks id s (s.setShared target cell) := by
  refine ⟨(·), Nat.le_refl _, Iff.rfl, rfl, ?_, ?_, fun _ => ?_⟩ <;> simp [ExecInner.setShared, apart]

theorem looks_takeResult {target : TaskId} (apart : id ≠ target) : Looks id s (takeResult s target).1 := by
  unfold takeResult
  dsimp only
  split
  · exact looks_setShared apart _
  · exact looks_refl id s

/-- The result of a task that has ended is taken; others have none to take. -/
theorem Life.Follows.takeResult (follows : life.Follows id s) (bound : id < s.nextId) :
    life.take.Follows id (takeResult s id).1 := by
  obtain ⟨shows, leaves⟩ := follows
  cases life with
  | unborn => exact absurd bound (Nat.not_lt.mpr shows)
  | live joiners leaving =>
    have same : (Executor.takeResult s id).1 = s := by simp only [Executor.takeResult, shows.2.1]
    rw [same]
    exact ⟨shows, leaves⟩
  | ended result =>
    obtain ⟨born, dead, cell⟩ := shows
    refine ⟨⟨?_, ?_, ?_⟩, trivial⟩ <;> simp [Executor.takeResult, cell, ExecInner.setShared, born, dead]
  | taken result =>
    have same : (Executor.takeResult s id).1 = s := by simp only [Executor.takeResult, shows.2.2]
    rw [same]
    exact ⟨shows, trivial⟩

/-- A handle is done when the task is not live any more. -/
theorem Layout.done_iff (layout : Layout s) (positive : 0 < id) (born : id < s.nextId) :
    (s.shared id).state.done = true ↔ s.tasks id = none := by
  constructor
  · intro done
    by_contra some
    obtain ⟨entry, live⟩ := Option.ne_none_iff_exists'.mp some
    have stands := layout.standing id entry live
    rw [layout.handle id entry live] at done
    cases state : entry.state <;> rw [state] at stands done <;> first | exact stands | cases done
  · exact layout.ended id positive born

/-- A join of a live task waits, one of a task that has ended takes the result. -/
theorem Life.Follows.pollHandle (follows : life.Follows id s) (layout : Layout s) (positive : 0 < id)
    (born : id < s.nextId) (waker : Waker) : (life.join waker).Follows id (Executor.pollHandle s id waker).1 := by
  have done_iff := layout.done_iff positive born
  unfold Executor.pollHandle
  dsimp only
  split_ifs with done
  · have dead := done_iff.mp done
    have taken := follows.takeResult born
    cases life with
    | live => exact absurd dead (Option.isSome_iff_ne_none.mp follows.shows.1)
    | unborn | ended | taken => exact taken
  · have alive : s.tasks id ≠ none := fun dead => done (done_iff.mpr dead)
    obtain ⟨shows, leaves⟩ := follows
    cases life with
    | unborn => exact absurd born (Nat.not_lt.mpr shows)
    | live joiners leaving =>
      obtain ⟨some, result, same⟩ := shows
      refine ⟨⟨some, ?_, ?_⟩, leaves⟩ <;> simp [ExecInner.setShared, result, same]
    | ended | taken => exact absurd shows.2.1 alive

/-- The polled task goes back to the others, and nobody is polled. -/
def parked (s : ExecInner V) (target : TaskId) (entry : TaskEntry) : ExecInner V :=
  { restate s target entry .pending with control := .looping, currentlyPolling := none, cancelPending := [] }

theorem pollPending_eq {target : TaskId} {entry : TaskEntry} (live : s.tasks target = some entry) :
    pollPending s target = cancelAll (parked s target entry) s.cancelPending := by
  simp only [pollPending, live]
  rfl

/-- When its poll is over, a task that is leaving is cancelled, and no other one. -/
theorem Life.Follows.pollPending (follows : life.Follows id s) (layout : Layout s) {target : TaskId}
    {entry : TaskEntry} (live : s.tasks target = some entry) :
    (life.next id s.control (s.nextId = id) .pollPending).Follows id (Executor.pollPending s target).1 := by
  have same : Looks id s (restate s target entry .pending) := looks_restate live .pending
  obtain ⟨ends, tasks⟩ := @ends_cancelAll V (parked s target entry) s.cancelPending rfl
  rw [pollPending_eq live]
  generalize cancelAll (parked s target entry) s.cancelPending = last at ends tasks ⊢
  obtain ⟨shows, leaves⟩ := follows
  cases life with
  | unborn =>
    refine ⟨?_, trivial⟩
    change last.1.nextId ≤ id
    rw [ends.nextId]
    exact shows
  | live joiners leaving =>
    have alive : ((parked s target entry).tasks id).isSome = true := same.tasks.trans shows.1
    obtain ⟨own, there⟩ := Option.isSome_iff_exists.mp shows.1
    cases leaving with
    | true =>
      have gone : last.1.tasks id = none := by rw [tasks, if_pos (leaves.1.mp rfl)]
      refine ⟨⟨?_, gone, ends.ended id ⟨alive, gone⟩⟩, trivial⟩
      rw [ends.nextId]
      exact (layout.bound there).2
    | false =>
      have absent : id ∉ s.cancelPending := fun member => Bool.false_ne_true (leaves.1.mpr member)
      have stays : ¬ Finishes id (parked s target entry) last.1 := by
        rintro ⟨-, gone⟩
        rw [tasks, if_neg absent] at gone
        simp [gone] at alive
      have kept : (Life.live joiners false).Shows id (parked s target entry) := same.shows shows
      refine ⟨(ends.looks stays).shows kept, ?_, fun leaving => absurd leaving Bool.false_ne_true⟩
      rw [ends.cancelPending]
      simp [parked]
  | ended result | taken result =>
    obtain ⟨born, dead, cell⟩ := same.shows shows
    obtain ⟨dead', kept⟩ := ends.dead id dead
    refine ⟨⟨?_, dead', kept.trans cell⟩, trivial⟩
    rw [ends.nextId]
    exact born

/-- What one step does to the life of a task is what the action says. -/
theorem Transition.follows {a : Action V} {next : ExecInner V × List (Obs V)} (moved : Transition s a next)
    (layout : Layout s) (pending : ∀ other ∈ s.cancelPending, other < s.nextId) (positive : 0 < id)
    (follows : life.Follows id s) : (life.next id s.control (s.nextId = id) a).Follows id next.1 := by
  -- The task that ends its poll, and any other one.
  have pollEnds (target : TaskId) (result : Except TaskError V) (polling : s.control = .polling target) :
      (if s.control = .polling id then life.finish result else life).Follows id
        { (Executor.finish s target (outcome result) result).1 with control := .looping, currentlyPolling := none } := by
    obtain ⟨entry, live, -⟩ := layout.polled target polling
    have ends := @ends_finish V result s target (by simp [live])
    split_ifs with own
    · obtain rfl := Control.polling.inj (own.symm.trans polling)
      obtain ⟨shows, -⟩ := ends.finish layout ⟨by simp [live], by simp⟩ follows
      cases life with
      | live => exact ⟨shows, trivial⟩
      | unborn | ended | taken => exact ⟨shows, trivial⟩
    · have apart : id ≠ target := fun same => own (same ▸ polling)
      have looks : Looks id s _ := ends.looks (by simp [Finishes, apart, Option.isSome_iff_ne_none])
      exact Looks.follows { looks with } follows (fun own' => absurd own' own)
  cases moved with
  | turn looping =>
    exact (looks_turn id s).follows follows fun polling => by simp [looping] at polling
  | pollReady target value polling => exact pollEnds target (.ok value) polling
  | pollPanic target message polling =>
    rw [pollPanic_eq]
    exact pollEnds target (.error (.panicked message)) polling
  | pollPending target polling =>
    obtain ⟨entry, live, -⟩ := layout.polled target polling
    exact follows.pollPending layout live
  | spawnNamed name user =>
    dsimp only [Life.next]
    split_ifs with born
    · subst born
      refine ⟨⟨?_, ?_, ?_⟩, ?_, fun leaving => absurd leaving Bool.false_ne_true⟩
      · simp [Executor.spawnNamed, ExecInner.setEntry]
      · simp [Executor.spawnNamed, ExecInner.setEntry, ExecInner.setShared]
      · simp [Executor.spawnNamed, ExecInner.setEntry, ExecInner.setShared]
      · exact iff_of_false Bool.false_ne_true fun member => Nat.lt_irrefl _ (pending _ member)
    · refine Looks.follows ⟨fun beyond => ?_, Nat.le_succ _, Iff.rfl, ?_, ?_, ?_, fun _ => ?_⟩ follows (·)
      · exact Nat.lt_of_le_of_ne beyond born
      all_goals simp [Executor.spawnNamed, ExecInner.setEntry, ExecInner.setShared, Ne.symm born]
  | wake waker user => exact Looks.follows { looks_refl id s with } follows (·)
  | setFailureSink user => exact Looks.follows { looks_refl id s with } follows (·)
  | runUntilIdle user =>
    unfold Executor.runUntilIdle
    split_ifs with running
    · exact follows
    · refine Looks.follows { looks_refl id s with } follows fun polling => absurd (layout.running.mpr ?_) running
      simp [polling]
  | cancel target user =>
    by_cases self : s.currentlyPolling = some target
    · have polling := (layout.current target).mp self
      have same : Executor.cancel s target = ({ s with cancelPending := s.cancelPending ++ [target] }, [.deferred target]) :=
        if_pos self
      dsimp only [Life.next]
      rw [same]
      split_ifs with own polled
      · subst own
        obtain ⟨shows, -⟩ := follows
        cases life with
        | live joiners leaving => exact ⟨shows, by simp, fun _ => polling⟩
        | unborn | ended | taken => exact ⟨shows, trivial⟩
      · exact absurd (own ▸ polling) polled
      · exact Looks.follows { looks_refl id s with pending := by simp [Ne.symm own] } follows (·)
    · obtain ⟨ends, gone, others, -⟩ := ends_cancel self
      have away : s.control ≠ .polling target := fun polling => self ((layout.current target).mpr polling)
      have control : s.control = .polling id → (Executor.cancel s target).1.control = .polling id :=
        fun polling => ends.control.trans polling
      dsimp only [Life.next]
      split_ifs with own polled
      · exact absurd polled (own ▸ away)
      · subst own
        cases alive : (s.tasks target).isSome with
        | true => exact ends.finish layout ⟨alive, gone⟩ follows
        | false =>
          have looks : Looks target s _ := ends.looks (by simp [Finishes, alive])
          have kept := looks.follows follows control
          cases life with
          | live => simp [follows.shows.1] at alive
          | unborn | ended | taken => exact kept
      · refine (ends.looks ?_).follows follows control
        rintro ⟨some, none⟩
        rw [others id (Ne.symm own)] at none
        simp [none] at some
  | pollHandle target waker user born =>
    dsimp only [Life.next]
    split_ifs with own
    · subst own
      exact follows.pollHandle layout positive born waker
    · unfold Executor.pollHandle
      dsimp only
      split_ifs
      · refine (looks_takeResult (Ne.symm own)).follows follows fun polling => ?_
        rw [(takeResult_frame s target).2, polling]
      · exact (looks_setShared (Ne.symm own) _).follows follows (·)
  | takeResult target user born =>
    dsimp only [Life.next]
    split_ifs with own
    · subst own
      exact follows.takeResult born
    · refine (looks_takeResult (Ne.symm own)).follows follows fun polling => ?_
      rw [(takeResult_frame s target).2, polling]

/-- Only tasks that exist are remembered for cancellation. -/
theorem Transition.pending {a : Action V} {next : ExecInner V × List (Obs V)} (moved : Transition s a next)
    (layout : Layout s) (pending : ∀ other ∈ s.cancelPending, other < s.nextId) :
    ∀ other ∈ next.1.cancelPending, other < next.1.nextId := by
  cases moved with
  | turn =>
    intro other member
    have looks := looks_turn other s
    exact Nat.lt_of_lt_of_le (pending other (looks.pending.mp member)) looks.born
  | pollReady | pollPanic | wake | setFailureSink => exact pending
  | pollPending target polling =>
    obtain ⟨entry, live, -⟩ := layout.polled target polling
    rw [pollPending_eq live]
    have ends := (@ends_cancelAll V (parked s target entry) s.cancelPending rfl).1
    rw [ends.cancelPending]
    simp [parked]
  | spawnNamed name => exact fun other member => Nat.lt_succ_of_lt (pending other member)
  | runUntilIdle =>
    unfold Executor.runUntilIdle
    split_ifs <;> exact pending
  | cancel target =>
    by_cases self : s.currentlyPolling = some target
    · obtain ⟨entry, live, -⟩ := layout.polled target ((layout.current target).mp self)
      rw [Executor.cancel, if_pos self]
      intro other member
      rcases List.mem_append.mp member with early | here
      · exact pending other early
      · rw [List.mem_singleton.mp here]
        exact (layout.bound live).2
    · have ends := (ends_cancel self).1
      rw [ends.cancelPending, ends.nextId]
      exact pending
  | pollHandle target waker =>
    unfold Executor.pollHandle
    dsimp only
    split_ifs
    · rw [(takeResult_pending s target).1, (takeResult_pending s target).2]
      exact pending
    · exact pending
  | takeResult target =>
    rw [(takeResult_pending s target).1, (takeResult_pending s target).2]
    exact pending

end Steps

/-! ## What a step shows -/

/-- What one step shows is what it does to the tasks, the joiners and the loop. -/
structure Shown (s : ExecInner V) (a : Action V) (t : ExecInner V) (out : List (Obs V)) : Prop where
  /-- A wake comes from the action, or from the end of a task that is joined. -/
  woke : ∀ waker, .woke waker ∈ out ↔ a = .wake waker ∨ ∃ id, Finishes id s t ∧ waker ∈ (s.shared id).joiners
  /-- And it is remembered. -/
  woken : ∀ id, .woke (.task id) ∈ out → id ∈ t.woken
  /-- A result is stored where a task ends, and there it is in the cell. -/
  stored : ∀ id result joiners, .stored id result joiners ∈ out ↔
    Finishes id s t ∧ (t.shared id).result = some result ∧ joiners = (s.shared id).joiners
  began : ∀ id, .pollBegan id ∈ out ↔ a = .turn ∧ t.control = .polling id
  idled : .idled ∈ out ↔ a = .turn ∧ t.control = .outside
  registered : ∀ id waker, 0 < id → (.registered id waker ∈ out ↔ a = .pollHandle id waker ∧ (s.tasks id).isSome)
  /-- Who asks for a result, or joins a task that has ended, gets what is in the cell. -/
  joined : ∀ id result, 0 < id → (.joined id result ∈ out ↔
    (a = .takeResult id ∨ (∃ waker, a = .pollHandle id waker) ∧ s.tasks id = none) ∧
      result = (s.shared id).result.getD (.error .invalidState))

section Showing

variable {s t : ExecInner V} {a : Action V} {out more : List (Obs V)}

/-- An observation that `Shown` says nothing of. -/
def Obs.isPlain : Obs V → Bool
  | .spawned .. | .deferred _ | .nested | .sank _ | .printed _ => true
  | _ => false

/-- An action that is neither a wake nor a turn nor a join. -/
def Action.isPlain : Action V → Bool
  | .wake _ | .turn | .pollHandle .. | .takeResult _ => false
  | _ => true

theorem Action.ne_of_isPlain {b : Action V} (plain : a.isPlain = true) (other : b.isPlain = false) : a ≠ b := by
  rintro rfl
  simp [plain] at other

/-- A plain step in which no task ends. -/
theorem shown_plain (still : ∀ id, ¬ Finishes id s t) (plain : ∀ o ∈ out, o.isPlain = true)
    (action : a.isPlain = true) : Shown s a t out := by
  have absent (o : Obs V) (shown : o.isPlain = false) : o ∉ out := fun member => by simp [plain o member] at shown
  have apart (b : Action V) (other : b.isPlain = false) : a ≠ b := Action.ne_of_isPlain action other
  refine ⟨?_, ?_, ?_, ?_, ?_, ?_, ?_⟩
  · intro waker
    simp [absent (.woke waker) rfl, apart (.wake waker) rfl, still]
  · exact fun id member => absurd member (absent _ rfl)
  · intro id result joiners
    simp [absent (.stored id result joiners) rfl, still]
  · intro id
    simp [absent (.pollBegan id) rfl, apart .turn rfl]
  · simp [absent .idled rfl, apart .turn rfl]
  · intro id waker _
    simp [absent (.registered id waker) rfl, apart (.pollHandle id waker) rfl]
  · intro id result _
    simp [absent (.joined id result) rfl, apart (.takeResult id) rfl, apart (.pollHandle id _) rfl]

/-- Tasks end, perhaps another one runs then, and perhaps something plain is shown behind it. -/
theorem Ends.shown {u : ExecInner V} {result : Except TaskError V} (ends : Ends result s t out)
    (same : u.tasks = t.tasks ∧ u.shared = t.shared ∧ u.woken = t.woken) (plain : ∀ o ∈ more, o.isPlain = true)
    (action : a.isPlain = true) : Shown s a u (out ++ more) := by
  obtain ⟨tasks, shared, woken⟩ := same
  have finishes (id : TaskId) : Finishes id s u ↔ Finishes id s t := by rw [Finishes, Finishes, tasks]
  have absent (o : Obs V) (shown : o.isPlain = false) : o ∉ more := fun member => by simp [plain o member] at shown
  have other (o : Obs V) (plain : o.isPlain = false) (end_ : o.ofEnd = false) : o ∉ out ++ more := by
    intro member
    rcases List.mem_append.mp member with here | there
    · simp [ends.only o here] at end_
    · exact absent o plain there
  have apart (b : Action V) (other : b.isPlain = false) : a ≠ b := Action.ne_of_isPlain action other
  refine ⟨?_, ?_, ?_, ?_, ?_, ?_, ?_⟩
  · intro waker
    simp only [List.mem_append, absent (.woke waker) rfl, or_false, ends.woke, apart (.wake waker) rfl, false_or,
      finishes]
  · intro id member
    rw [woken]
    exact ends.woken id (.inr ((List.mem_append.mp member).resolve_right (absent _ rfl)))
  · intro id result' joiners
    rw [List.mem_append, or_iff_left (absent _ rfl), ends.stored, finishes, shared]
    refine and_congr_right fun finishes => and_congr_left fun _ => ?_
    rw [ends.ended id finishes, Option.some_inj, eq_comm]
  · intro id
    simp [other (.pollBegan id) rfl rfl, apart .turn rfl]
  · simp [other .idled rfl rfl, apart .turn rfl]
  · intro id waker _
    simp [other (.registered id waker) rfl rfl, apart (.pollHandle id waker) rfl]
  · intro id result' _
    simp [other (.joined id result') rfl rfl, apart (.takeResult id) rfl, apart (.pollHandle id _) rfl]

/-- What a step shows can be told from any state in which the same tasks are live, with the same cells. -/
theorem Shown.of_same {m : ExecInner V} (shown : Shown m a t out) (same : ∀ id,
    (m.tasks id).isSome = (s.tasks id).isSome ∧ (m.shared id).joiners = (s.shared id).joiners ∧
      (m.shared id).result = (s.shared id).result) : Shown s a t out := by
  have finishes (id : TaskId) : Finishes id s t ↔ Finishes id m t := by rw [Finishes, Finishes, (same id).1]
  refine ⟨?_, shown.woken, ?_, shown.began, shown.idled, ?_, ?_⟩
  · intro waker
    simp only [shown.woke, finishes, (same _).2.1]
  · intro id result joiners
    rw [shown.stored, finishes, (same id).2.1]
  · intro id waker positive
    rw [shown.registered id waker positive, (same id).1]
  · intro id result positive
    have live := (same id).1
    rw [shown.joined id result positive, (same id).2.2]
    simp only [← Option.not_isSome_iff_eq_none, live]

theorem looks_still {id : TaskId} (looks : Looks id s t) : ¬ Finishes id s t := by
  rintro ⟨live, gone⟩
  rw [← looks.tasks, gone] at live
  cases live

theorem shown_turn (looping : s.control = .looping) : Shown s .turn (turn s).1 (turn s).2 := by
  have still (id : TaskId) : ¬ Finishes id s (turn s).1 := looks_still (looks_turn id s)
  have control : (drainWoken s).control = .looping := (drainWoken_frame s).2.trans looping
  cases front : (drainWoken s).runQueue with
  | nil =>
    rw [turn_of_nil front] at still ⊢
    refine ⟨?_, ?_, ?_, ?_, ?_, ?_, ?_⟩ <;> simp [still]
  | cons next rest =>
    rw [turn_of_cons front] at still ⊢
    rcases pollTask_out { drainWoken s with runQueue := rest } next with ⟨quiet, same⟩ | ⟨began, polling⟩
    · rw [quiet]
      have idle : (pollTask { drainWoken s with runQueue := rest } next).1.control = .looping := by rw [same]; exact control
      refine ⟨?_, ?_, ?_, ?_, ?_, ?_, ?_⟩ <;> simp [still, idle]
    · rw [began]
      refine ⟨?_, ?_, ?_, ?_, ?_, ?_, ?_⟩
      case refine_4 =>
        intro id
        simp only [List.mem_singleton, Obs.pollBegan.injEq, polling, Control.polling.injEq, true_and]
        exact eq_comm
      all_goals simp [still, polling]

theorem takeResult_joined (s : ExecInner V) (id : TaskId) :
    (takeResult s id).2 = (s.shared id).result.getD (.error .invalidState) := by
  unfold takeResult
  dsimp only
  split
  · next result there => rw [there, Option.getD_some]
  · next none => rw [none, Option.getD_none]

theorem takeResult_still (s : ExecInner V) (target id : TaskId) : ¬ Finishes id s (takeResult s target).1 := by
  rw [Finishes, (takeResult_frame s target).1]
  exact not_finishes id s

/-- The join of a task that has ended shows its result, that of a live one its waker. -/
theorem shown_pollHandle (layout : Layout s) {target : TaskId} (born : target < s.nextId) (waker : Waker) :
    Shown s (.pollHandle target waker) (pollHandle s target waker).1 (pollHandle s target waker).2 := by
  unfold Executor.pollHandle
  dsimp only
  split_ifs with done
  · refine ⟨?_, ?_, ?_, ?_, ?_, ?_, ?_⟩
    case refine_6 =>
      intro id waker' positive
      simp only [List.mem_singleton, reduceCtorEq, Action.pollHandle.injEq, false_iff]
      rintro ⟨⟨rfl, rfl⟩, live⟩
      simp [(layout.done_iff positive born).mp done] at live
    case refine_7 =>
      intro id result positive
      simp only [List.mem_singleton, Obs.joined.injEq, Action.pollHandle.injEq, reduceCtorEq, false_or, takeResult_joined]
      constructor
      · rintro ⟨rfl, rfl⟩
        exact ⟨⟨⟨waker, rfl, rfl⟩, (layout.done_iff positive born).mp done⟩, rfl⟩
      · rintro ⟨⟨⟨_, rfl, -⟩, -⟩, rfl⟩
        exact ⟨rfl, rfl⟩
    all_goals simp [takeResult_still]
  · have still (id : TaskId) (cell : TaskShared V) : ¬ Finishes id s (s.setShared target cell) := not_finishes id s
    refine ⟨?_, ?_, ?_, ?_, ?_, ?_, ?_⟩
    case refine_6 =>
      intro id waker' positive
      simp only [List.mem_singleton, Obs.registered.injEq, Action.pollHandle.injEq]
      constructor
      · rintro ⟨rfl, rfl⟩
        refine ⟨⟨rfl, rfl⟩, Option.isSome_iff_ne_none.mpr fun dead => done ((layout.done_iff positive born).mpr dead)⟩
      · rintro ⟨⟨rfl, rfl⟩, -⟩
        exact ⟨rfl, rfl⟩
    case refine_7 =>
      intro id result positive
      simp only [List.mem_singleton, reduceCtorEq, Action.pollHandle.injEq, false_or, false_iff]
      rintro ⟨⟨⟨_, rfl, -⟩, dead⟩, -⟩
      exact done ((layout.done_iff positive born).mpr dead)
    all_goals simp [still]

theorem Transition.shown {next : ExecInner V × List (Obs V)} (moved : Transition s a next) (layout : Layout s) :
    Shown s a next.1 next.2 := by
  have polled (target : TaskId) (polling : s.control = .polling target) : (s.tasks target).isSome = true := by
    obtain ⟨entry, live, -⟩ := layout.polled target polling
    simp [live]
  cases moved with
  | turn looping => exact shown_turn looping
  | pollReady target value polling =>
    have ends := @ends_finish V (.ok value) s target (polled target polling)
    rw [pollReady_eq, ← List.append_nil (Executor.finish ..).2]
    exact ends.shown ⟨rfl, rfl, rfl⟩ (by simp) rfl
  | pollPanic target message polling =>
    have ends := @ends_finish V (.error (.panicked message)) s target (polled target polling)
    rw [pollPanic_eq]
    refine ends.shown ⟨rfl, rfl, rfl⟩ ?_ rfl
    simp only [List.mem_singleton, forall_eq, reportPanic]
    split_ifs <;> rfl
  | pollPending target polling =>
    obtain ⟨entry, live, -⟩ := layout.polled target polling
    rw [pollPending_eq live]
    have ends := (@ends_cancelAll V (parked s target entry) s.cancelPending rfl).1
    rw [← List.append_nil (cancelAll ..).2]
    refine Shown.of_same (ends.shown ⟨rfl, rfl, rfl⟩ (by simp) rfl) fun id => ?_
    have looks := @looks_restate V id s target entry live .pending
    exact ⟨looks.tasks, looks.joiners, looks.result⟩
  | spawnNamed name user =>
    refine shown_plain (fun id => ?_) (by simp [Executor.spawnNamed, Obs.isPlain]) rfl
    rintro ⟨live, gone⟩
    by_cases here : id = s.nextId
    · simp [Executor.spawnNamed, ExecInner.setEntry, here] at gone
    · simp [Executor.spawnNamed, ExecInner.setEntry, ExecInner.setShared, here] at gone
      simp [gone] at live
  | wake waker user =>
    have still (id : TaskId) : ¬ Finishes id s (Executor.wake s [waker]) := not_finishes id s
    refine ⟨?_, ?_, ?_, ?_, ?_, ?_, ?_⟩
    case refine_1 =>
      intro other
      simp only [List.mem_singleton, Obs.woke.injEq, Action.wake.injEq, still, false_and, exists_false, or_false]
      exact eq_comm
    case refine_2 =>
      intro id member
      obtain rfl := Obs.woke.inj (List.mem_singleton.mp member)
      simp [Executor.wake, Waker.taskId]
    all_goals simp [still]
  | setFailureSink user => exact shown_plain (not_finishes · s) (by simp) rfl
  | runUntilIdle user =>
    unfold Executor.runUntilIdle
    split_ifs
    · exact shown_plain (not_finishes · s) (by simp [Obs.isPlain]) rfl
    · exact shown_plain (not_finishes · s) (by simp) rfl
  | cancel target user =>
    by_cases self : s.currentlyPolling = some target
    · rw [Executor.cancel, if_pos self]
      exact shown_plain (not_finishes · s) (by simp [Obs.isPlain]) rfl
    · have ends := (ends_cancel self).1
      rw [← List.append_nil (Executor.cancel ..).2]
      exact ends.shown ⟨rfl, rfl, rfl⟩ (by simp) rfl
  | pollHandle target waker user born => exact shown_pollHandle layout born waker
  | takeResult target user born =>
    refine ⟨?_, ?_, ?_, ?_, ?_, ?_, ?_⟩
    case refine_7 =>
      intro id result _
      simp only [List.mem_singleton, Obs.joined.injEq, Action.takeResult.injEq, reduceCtorEq, exists_false, false_and,
        or_false, takeResult_joined]
      constructor
      · rintro ⟨rfl, rfl⟩
        exact ⟨rfl, rfl⟩
      · rintro ⟨rfl, rfl⟩
        exact ⟨rfl, rfl⟩
    all_goals simp [takeResult_still]

end Showing

/-! ## Lives in a run -/

section Runs

variable {id : TaskId} {life : Life V}

/-- A result is had when a live task ends, and stays the same from then on. -/
theorem Life.next_results {control : Control} {born : Prop} [Decidable born] (a : Action V)
    (first : born → life.results = []) :
    (life.next id control born a).results = life.results ∨
      ∃ joiners leaving result, life = .live joiners leaving ∧ life.next id control born a = .ended result := by
  cases life with
  | live joiners leaving =>
    cases a with
    | pollReady | pollPanic | cancel =>
      simp only [Life.next, Life.finish, Life.leave]
      split_ifs <;> simp [Life.results]
    | pollPending => cases leaving <;> simp [Life.next, Life.results]
    | spawnNamed | pollHandle | takeResult =>
      simp only [Life.next, Life.join, Life.take]
      split_ifs <;> exact .inl rfl
    | wake | setFailureSink | runUntilIdle | turn => exact .inl rfl
  | unborn | ended | taken =>
    left
    cases a with
    | spawnNamed =>
      simp only [Life.next]
      split_ifs with here
      · exact (first here).symm
      · rfl
    | pollReady | pollPanic | cancel | pollHandle | takeResult =>
      simp only [Life.next, Life.finish, Life.leave, Life.join, Life.take]
      split_ifs <;> rfl
    | pollPending | wake | setFailureSink | runUntilIdle | turn => rfl

/-- The state, what has been seen and the life of a task. -/
structure Lives (id : TaskId) (s : ExecInner V) (obs : List (Obs V)) (life : Life V) : Prop where
  books : Books s obs
  pending : ∀ other ∈ s.cancelPending, other < s.nextId
  follows : life.Follows id s
  told : ∀ result ∈ life.results, result ∈ resultsOf id obs

variable {s t : ExecInner V} {obs later out : List (Obs V)} {actions : List (Action V)}

theorem Lives.step (lives : Lives id s obs life) (positive : 0 < id) {a : Action V}
    (stepped : Executor.step s a = some (t, out)) :
    Lives id t (obs ++ out) (life.next id s.control (s.nextId = id) a) := by
  have moved := transition_of_step stepped
  have follows := moved.follows lives.books.layout lives.pending positive lives.follows
  refine ⟨lives.books.step stepped, moved.pending lives.books.layout lives.pending, follows, ?_⟩
  have first : s.nextId = id → life.results = [] := by
    intro here
    cases life with
    | unborn | live => rfl
    | ended | taken => exact absurd here.symm (Nat.ne_of_lt lives.follows.shows.1)
  rcases @Life.next_results V id life s.control (s.nextId = id) _ a first with same | ⟨joiners, leaving, result, rfl, ended⟩
  · rw [same, resultsOf_append]
    exact fun result member => List.mem_append_left _ (lives.told result member)
  · rw [ended] at follows ⊢
    obtain ⟨-, gone, cell⟩ := follows.shows
    have stored : .stored id result (s.shared id).joiners ∈ out := by
      refine ((moved.shown lives.books.layout).stored id result _).mpr ⟨⟨lives.follows.shows.1, gone⟩, ?_, rfl⟩
      rw [cell]
    rw [resultsOf_append]
    intro result' member
    rw [List.mem_singleton.mp member]
    exact List.mem_append_right _ (List.mem_filterMap.mpr ⟨_, stored, by simp [Obs.storedFor]⟩)

theorem Lives.run (lives : Lives id s obs life) (positive : 0 < id)
    (ran : (machine V).run s actions = some (t, later)) : Lives id t (obs ++ later) (lifeOf id s life actions) := by
  induction actions generalizing s obs life later with
  | nil =>
    cases ran
    rw [List.append_nil]
    exact lives
  | cons a rest ih =>
    obtain ⟨mid, first, tail, stepped, suffix, rfl⟩ := (machine V).run_cons_eq_some_iff.mp ran
    have next := ih (lives.step positive stepped) suffix
    have accepted : Executor.step s a = some (mid, first) := stepped
    rw [← List.append_assoc]
    simpa only [lifeOf, accepted] using next

theorem lives_init (positive : 0 < id) : Lives id (init V) [] .unborn where
  books := ⟨layout_init, ledger_init⟩
  pending := by simp [init]
  follows := ⟨positive, trivial⟩
  told := by simp [Life.results]

/-- The results that were stored are those of the life. -/
theorem Lives.results (lives : Lives id s obs life) (positive : 0 < id) : resultsOf id obs = life.results := by
  cases life with
  | unborn => exact (lives.books.ledger.unborn id lives.follows.shows).1
  | live joiners leaving =>
    obtain ⟨entry, there⟩ := Option.isSome_iff_exists.mp lives.follows.shows.1
    exact lives.books.ledger.live id entry there
  | ended result | taken result =>
    obtain ⟨born, gone, -⟩ := lives.follows.shows
    obtain ⟨only, same⟩ := List.length_eq_one_iff.mp (lives.books.ledger.ended id positive born gone)
    have member := lives.told result (by simp [Life.results])
    rw [same, List.mem_singleton] at member
    rw [same, Life.results, member]

end Runs

end Rustdv.Executor
