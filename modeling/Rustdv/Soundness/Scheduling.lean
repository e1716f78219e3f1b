import Rustdv.Soundness.TaskLives

/-! # The executor loses no wake and stores every result once

From the books of the executor (`ExecutorBooks`): a live task in the queue is there once, a handle
reports what the entry says, the loop returns only when there is nothing left to do, every result is
stored once and wakes its joiners, and a woken task is polled again or cancelled before that.
-/

namespace Rustdv.Executor

variable {V : Type*}

section Steps

variable {s : ExecInner V} {obs out : List (Obs V)}

/-- Only a turn of the loop shows that a poll begins or that the loop returns. -/
def Obs.ofTurn : Obs V → Bool
  | .pollBegan _ | .idled => true
  | _ => false

theorem finish_not_ofTurn (s : ExecInner V) (id : TaskId) (state : TaskState) (result : Except TaskError V) :
    ∀ o ∈ (finish s id state result).2, o.ofTurn = false := by
  simp only [finish_out, List.mem_cons, List.mem_map]
  rintro o (rfl | ⟨waker, -, rfl⟩) <;> rfl

theorem cancel_not_ofTurn (s : ExecInner V) (id : TaskId) : ∀ o ∈ (cancel s id).2, o.ofTurn = false := by
  by_cases self : s.currentlyPolling = some id
  · simp [cancel, self, Obs.ofTurn]
  · cases live : s.tasks id with
    | none => simp [cancel, self, live]
    | some entry =>
      rw [cancel_of_live self live]
      exact finish_not_ofTurn _ _ _ _

theorem cancelAll_not_ofTurn (s : ExecInner V) (ids : List TaskId) :
    ∀ o ∈ (cancelAll s ids).2, o.ofTurn = false := by
  induction ids generalizing s with
  | nil => simp [cancelAll]
  | cons id rest ih =>
    intro o member
    rcases List.mem_append.mp member with now | later
    · exact cancel_not_ofTurn s id o now
    · exact ih _ o later

theorem Transition.not_ofTurn {a : Action V} {next : ExecInner V × List (Obs V)} (moved : Transition s a next)
    (user : a ≠ .turn) : ∀ o ∈ next.2, o.ofTurn = false := by
  cases moved with
  | turn => exact absurd rfl user
  | pollReady id value => exact finish_not_ofTurn _ _ _ _
  | pollPending id => exact cancelAll_not_ofTurn _ _
  | pollPanic id message =>
    rw [pollPanic_eq]
    intro o member
    rcases List.mem_append.mp member with now | report
    · exact finish_not_ofTurn _ _ _ _ o now
    · rw [List.mem_singleton.mp report, reportPanic]
      split_ifs <;> rfl
  | cancel id => exact cancel_not_ofTurn s id
  | pollHandle id waker =>
    unfold Executor.pollHandle
    dsimp only
    split_ifs <;> simp [Obs.ofTurn]
  | runUntilIdle =>
    unfold Executor.runUntilIdle
    split_ifs <;> simp [Obs.ofTurn]
  | spawnNamed | wake | takeResult | setFailureSink => simp [Executor.spawnNamed, Obs.ofTurn]

/-- The task was cancelled among these observations. -/
def CancelledIn (id : TaskId) (obs : List (Obs V)) : Prop :=
  ∃ joiners, .stored id (.error .cancelled) joiners ∈ obs

/-- A live task that is not the one being polled is cancelled or stays live. -/
def Keeps (id : TaskId) (t : ExecInner V) (out : List (Obs V)) : Prop :=
  CancelledIn id out ∨ (t.tasks id).isSome = true

theorem cancel_keeps {id : TaskId} (live : (s.tasks id).isSome = true) (target : TaskId) :
    Keeps id (cancel s target).1 (cancel s target).2 := by
  by_cases self : s.currentlyPolling = some target
  · rw [cancel, if_pos self]
    exact .inr live
  · cases there : s.tasks target with
    | none =>
      have same : cancel s target = (s, []) := by simp only [cancel, self, ↓reduceIte, there]
      rw [same]
      exact .inr live
    | some entry =>
      rw [cancel_of_live self there]
      by_cases same : id = target
      · subst same
        exact .inl ⟨_, by rw [finish_out]; exact List.mem_cons_self⟩
      · exact .inr (by rwa [finish_tasks, Function.update_of_ne same])

theorem cancelAll_keeps {id : TaskId} (live : (s.tasks id).isSome = true) (targets : List TaskId) :
    Keeps id (cancelAll s targets).1 (cancelAll s targets).2 := by
  induction targets generalizing s with
  | nil => exact .inr live
  | cons target rest ih =>
    rcases cancel_keeps live target with ⟨joiners, cancelled⟩ | live'
    · exact .inl ⟨joiners, List.mem_append_left _ cancelled⟩
    · rcases ih live' with ⟨joiners, cancelled⟩ | live''
      · exact .inl ⟨joiners, List.mem_append_right _ cancelled⟩
      · exact .inr live''

@[simp] theorem cancel_control (s : ExecInner V) (target : TaskId) : (cancel s target).1.control = s.control := by
  unfold cancel
  split_ifs
  · rfl
  · split <;> rfl

@[simp] theorem cancelAll_control (s : ExecInner V) (targets : List TaskId) :
    (cancelAll s targets).1.control = s.control := by
  induction targets generalizing s with
  | nil => rfl
  | cons target rest ih => exact (ih _).trans (cancel_control s target)

theorem drainWoken_live (s : ExecInner V) (id : TaskId) :
    ((drainWoken s).tasks id).isSome = (s.tasks id).isSome := by
  suffices frame : ∀ (ids : List TaskId) (s : ExecInner V),
      ((ids.foldl drainOne s).tasks id).isSome = (s.tasks id).isSome from frame s.woken { s with woken := [] }
  intro ids
  induction ids with
  | nil => exact fun s => rfl
  | cons other rest ih =>
    intro s
    rw [List.foldl_cons, ih]
    unfold drainOne
    split
    · next entry there =>
      split_ifs
      · simp only [ExecInner.setState, ExecInner.setShared, ExecInner.setEntry, Function.update_apply]
        split_ifs with same
        · simp [same, there]
        · rfl
      · rfl
    · rfl

theorem pollHandle_frame (s : ExecInner V) (id : TaskId) (waker : Waker) :
    (pollHandle s id waker).1.tasks = s.tasks ∧ (pollHandle s id waker).1.control = s.control := by
  unfold pollHandle
  dsimp only
  split_ifs
  · exact takeResult_frame s id
  · exact ⟨rfl, rfl⟩

/-- A turn of the loop begins the poll of a live task, or leaves it alone. -/
theorem turn_keeps {id : TaskId} (looping : s.control = .looping) (live : (s.tasks id).isSome = true) :
    .pollBegan id ∈ (turn s).2 ∨ CancelledIn id (turn s).2 ∨
      ((turn s).1.tasks id).isSome = true ∧ (turn s).1.control ≠ .polling id := by
  have live' : ((drainWoken s).tasks id).isSome = true := (drainWoken_live s id).trans live
  have control : (drainWoken s).control = .looping := (drainWoken_frame s).2.trans looping
  cases front : (drainWoken s).runQueue with
  | nil =>
    rw [turn_of_nil front]
    exact .inr (.inr ⟨live', by simp⟩)
  | cons next rest =>
    rw [turn_of_cons front]
    rcases pollTask_out { drainWoken s with runQueue := rest } next with ⟨-, same⟩ | ⟨began, polling⟩
    · rw [same]
      exact .inr (.inr ⟨live', by simp [control]⟩)
    · by_cases same : id = next
      · exact .inl (by simp [began, same])
      · refine .inr (.inr ⟨?_, by simp [polling, Ne.symm same]⟩)
        unfold pollTask
        split
        · exact live'
        · split_ifs
          · simpa only [ExecInner.setState, ExecInner.setShared, ExecInner.setEntry,
              Function.update_of_ne same] using live'
          · exact live'

/-- What one step can do to a live task that is not being polled: begin its next poll, cancel it, or
leave it alone. -/
theorem Transition.keeps {a : Action V} {next : ExecInner V × List (Obs V)} {id : TaskId} (moved : Transition s a next)
    (books : Books s obs) (live : (s.tasks id).isSome = true) (elsewhere : s.control ≠ .polling id) :
    .pollBegan id ∈ next.2 ∨ CancelledIn id next.2 ∨
      (next.1.tasks id).isSome = true ∧ next.1.control ≠ .polling id := by
  have quiet {last : ExecInner V × List (Obs V)} (kept : Keeps id last.1 last.2)
      (control : last.1.control ≠ .polling id) : .pollBegan id ∈ last.2 ∨ CancelledIn id last.2 ∨
        (last.1.tasks id).isSome = true ∧ last.1.control ≠ .polling id :=
    .inr (kept.imp_right fun live => ⟨live, control⟩)
  have apart {target : TaskId} (polling : s.control = .polling target) : id ≠ target :=
    fun same => elsewhere (same ▸ polling)
  cases moved with
  | turn looping => exact turn_keeps looping live
  | pollReady target value polling =>
    refine quiet (.inr ?_) (by simp [pollReady_eq])
    rwa [pollReady_eq, finish_tasks, Function.update_of_ne (apart polling)]
  | pollPending target polling =>
    obtain ⟨entry, there, -⟩ := books.layout.polled target polling
    refine quiet ?_ ?_
    · simp only [Executor.pollPending, there]
      refine cancelAll_keeps ?_ s.cancelPending
      simpa only [ExecInner.setState, ExecInner.setShared, ExecInner.setEntry,
        Function.update_of_ne (apart polling)] using live
    · simp only [Executor.pollPending, there, cancelAll_control]
      simp [ExecInner.setState, ExecInner.setShared, ExecInner.setEntry]
  | pollPanic target message polling =>
    refine quiet (.inr ?_) (by simp [pollPanic_eq])
    rwa [pollPanic_eq, finish_tasks, Function.update_of_ne (apart polling)]
  | spawnNamed name =>
    have distinct : id ≠ s.nextId := by
      rintro rfl
      simp [(books.layout.unborn s.nextId (Nat.le_refl _)).1] at live
    refine quiet (.inr ?_) elsewhere
    simpa only [Executor.spawnNamed, ExecInner.setShared, ExecInner.setEntry,
      Function.update_of_ne distinct] using live
  | wake | setFailureSink => exact quiet (.inr live) elsewhere
  | cancel target => exact quiet (cancel_keeps live target) (by rwa [cancel_control])
  | pollHandle target waker =>
    obtain ⟨tasks, control⟩ := pollHandle_frame s target waker
    exact quiet (.inr (tasks ▸ live)) (control ▸ elsewhere)
  | takeResult target =>
    obtain ⟨tasks, control⟩ := takeResult_frame s target
    exact quiet (.inr (tasks ▸ live)) (control ▸ elsewhere)
  | runUntilIdle =>
    refine quiet (.inr ?_) ?_ <;> unfold Executor.runUntilIdle <;> split_ifs
    · exact live
    · exact live
    · exact elsewhere
    · simp

/-- The loop's return is all that its step shows. -/
theorem Transition.eq_of_idled {a : Action V} {next : ExecInner V × List (Obs V)} (moved : Transition s a next)
    (idled : .idled ∈ next.2) : next.2 = [.idled] ∧ next = Executor.turn s ∧ s.control = .looping := by
  by_cases loop : a = .turn
  · subst loop
    cases moved with
    | turn looping =>
      refine ⟨?_, rfl, looping⟩
      cases front : (drainWoken s).runQueue with
      | nil => rw [turn_of_nil front]
      | cons first rest =>
        rw [turn_of_cons front] at idled
        rcases pollTask_out { drainWoken s with runQueue := rest } first with ⟨quiet, -⟩ | ⟨began, -⟩
        · simp [quiet] at idled
        · simp [began] at idled
  · cases moved.not_ofTurn loop _ idled

theorem Transition.idle {a : Action V} {next : ExecInner V × List (Obs V)} (moved : Transition s a next)
    (books : Books s obs) (idled : .idled ∈ next.2) : Idle next.1 := by
  obtain ⟨-, rfl, looping⟩ := moved.eq_of_idled idled
  exact books.turn_idle looping idled

end Steps

section Runs

variable {s t : ExecInner V} {obs later : List (Obs V)}

def Obs.isIdled : Obs V → Bool
  | .idled => true
  | _ => false

/-- What is observed before the next return of the outermost `run_until_idle`. -/
def untilIdle (obs : List (Obs V)) : List (Obs V) := obs.takeWhile fun o => !o.isIdled

theorem untilIdle_append {first rest : List (Obs V)} (busy : .idled ∉ first) :
    untilIdle (first ++ rest) = first ++ untilIdle rest := by
  refine List.takeWhile_append_of_pos ?_
  intro o member
  cases o with
  | idled => exact absurd member busy
  | _ => rfl

/-- A live task that was woken since its last poll began is polled or cancelled before the loop
returns. -/
theorem Books.polled_before_idle {id : TaskId} {actions : List (Action V)} (books : Books s obs)
    (live : (s.tasks id).isSome = true) (elsewhere : s.control ≠ .polling id) (woken : WokenSincePoll id obs)
    (ran : (machine V).run s actions = some (t, later)) (idled : .idled ∈ later) :
    .pollBegan id ∈ untilIdle later ∨ CancelledIn id (untilIdle later) := by
  induction actions generalizing s obs later with
  | nil =>
    cases ran
    cases idled
  | cons a rest ih =>
    obtain ⟨mid, first, tail, stepped, suffix, rfl⟩ := (machine V).run_cons_eq_some_iff.mp ran
    have after := books.step stepped
    have moved := transition_of_step stepped
    by_cases returns : .idled ∈ first
    · -- the loop cannot return here: the task is scheduled or still in the woken list
      exfalso
      have rest : Idle mid := moved.idle books returns
      have shown : first = [.idled] := (moved.eq_of_idled returns).1
      subst shown
      rcases moved.keeps books live elsewhere with began | ⟨joiners, cancelled⟩ | ⟨live', -⟩
      · simp at began
      · simp at cancelled
      · obtain ⟨entry, there⟩ := Option.isSome_iff_exists.mp live'
        have since : WokenSincePoll id (obs ++ [.idled]) :=
          wokenSincePoll_append.mpr (.inr ⟨woken, by simp⟩)
        rcases after.ledger.due id entry there since with scheduled | member
        · simp [rest.pending id entry there] at scheduled
        · simp [rest.woken] at member
    · rw [untilIdle_append returns]
      rcases moved.keeps books live elsewhere with began | ⟨joiners, cancelled⟩ | ⟨live', elsewhere'⟩
      · exact .inl (List.mem_append_left _ began)
      · exact .inr ⟨joiners, List.mem_append_left _ cancelled⟩
      · by_cases began : .pollBegan id ∈ first
        · exact .inl (List.mem_append_left _ began)
        · have since : WokenSincePoll id (obs ++ first) := wokenSincePoll_append.mpr (.inr ⟨woken, began⟩)
          have later := (List.mem_append.mp idled).resolve_left returns
          rcases ih after live' elsewhere' since suffix later with polled | ⟨joiners, cancelled⟩
          · exact .inl (List.mem_append_right _ polled)
          · exact .inr ⟨joiners, List.mem_append_right _ cancelled⟩

end Runs

/-- What holds of the executor after any run. -/
structure Scheduling (actions : List (Action V)) (s : ExecInner V) (obs : List (Obs V)) : Prop where
  /-- Between polls a live task is scheduled and queued once, or pending and not queued. -/
  queued : (∀ id, s.control ≠ .polling id) → ∀ id entry, s.tasks id = some entry →
    entry.state = .scheduled ∧ s.runQueue.count id = 1 ∨ entry.state = .pending ∧ id ∉ s.runQueue
  /-- A live task's handle reports the state of its entry. -/
  handle : ∀ id entry, s.tasks id = some entry → (s.shared id).state = entry.state
  /-- A live task woken since its last poll began is polled or cancelled before the outermost
  `run_until_idle` returns. -/
  woken : ∀ id, (s.tasks id).isSome = true → s.control ≠ .polling id → WokenSincePoll id obs →
    ∀ actions t later, (machine V).run s actions = some (t, later) → .idled ∈ later →
      .pollBegan id ∈ untilIdle later ∨ CancelledIn id (untilIdle later)
  /-- The outermost `run_until_idle` returns only when there is nothing left to do. -/
  idle : ∀ a t out, step s a = some (t, out) → .idled ∈ out → Idle t
  /-- A task ends once, with the value, the panic or the cancellation, and not before that is it done. The
  result of how it ended is in its cell until somebody takes it. -/
  life : ∀ id, 0 < id → (lifeOf id (init V) .unborn actions).Shows id s
  /-- This result has been stored, once, and nothing else. -/
  once : ∀ id, 0 < id → resultsOf id obs = (lifeOf id (init V) .unborn actions).results
  /-- What every step shows is what it does. -/
  shown : ∀ front a back, actions = front ++ a :: back → ∃ u before v out later,
    (machine V).run (init V) front = some (u, before) ∧ step u a = some (v, out) ∧ obs = before ++ (out ++ later) ∧
      Shown u a v out
  /-- The store wakes every joiner registered before it. -/
  joiners : JoinersWoken obs

theorem books_of_run {actions : List (Action V)} {s : ExecInner V} {obs : List (Obs V)}
    (ran : (machine V).run (init V) actions = some (s, obs)) : Books s obs :=
  (machine V).run_invariant_nil Books ⟨layout_init, ledger_init⟩ (fun books stepped => books.step stepped) ran

/-- The scheduling invariant of the executor, over every run. -/
theorem executor_scheduling {actions : List (Action V)} {s : ExecInner V} {obs : List (Obs V)}
    (ran : (machine V).run (init V) actions = some (s, obs)) : Scheduling actions s obs := by
  have books := books_of_run ran
  have lives (id : TaskId) (positive : 0 < id) : Lives id s obs (lifeOf id (init V) .unborn actions) :=
    (lives_init positive).run positive ran
  refine ⟨?_, books.layout.handle, ?_, fun a t out stepped idled => (transition_of_step stepped).idle books idled,
    fun id positive => (lives id positive).follows.shows, fun id positive => (lives id positive).results positive, ?_,
    books.ledger.woken⟩
  · intro between id entry live
    have stands := books.layout.standing id entry live
    cases state : entry.state <;> rw [state] at stands
    case scheduled => exact .inl ⟨rfl, stands⟩
    case pending => exact .inr ⟨rfl, stands⟩
    case running => exact absurd stands.2 (between id)
    all_goals exact stands.elim
  · intro id live elsewhere woken actions t later ran' idled
    exact books.polled_before_idle live elsewhere woken ran' idled
  · rintro front a back rfl
    obtain ⟨u, before, rest, prior, onward, rfl⟩ := (machine V).run_append_eq_some_iff.mp ran
    obtain ⟨v, out, later, stepped, -, rfl⟩ := (machine V).run_cons_eq_some_iff.mp onward
    exact ⟨u, before, v, out, later, prior, stepped, rfl,
      (transition_of_step stepped).shown (books_of_run prior).layout⟩

/-- Two tasks: the first joins the second, is woken by its own poll and by the result, takes it, and is
cancelled from outside in the end. -/
def joinedTasks : List (Action ℕ) :=
  [.spawnNamed none, .spawnNamed (some "worker"), .runUntilIdle, .turn, .pollHandle 2 (.task 1), .wake (.task 1),
    .runUntilIdle, .pollPending, .turn, .pollReady 7, .turn, .pollHandle 2 (.task 1), .pollPending, .turn, .cancel 1]

example : lifeOf 2 (init ℕ) .unborn joinedTasks = .taken (.ok 7) := rfl

theorem executor_scheduling_joined_tasks :
    ∃ s obs, (machine ℕ).run (init ℕ) joinedTasks = some (s, obs) ∧ resultsOf 1 obs = [.error .cancelled] ∧
      resultsOf 2 obs = [.ok 7] ∧ Scheduling joinedTasks s obs := by
  have accepted : ((machine ℕ).run (init ℕ) joinedTasks).isSome = true := rfl
  obtain ⟨⟨s, obs⟩, ran⟩ := Option.isSome_iff_exists.mp accepted
  have scheduling := executor_scheduling ran
  exact ⟨s, obs, ran, scheduling.once 1 (by decide), scheduling.once 2 (by decide), scheduling⟩

end Rustdv.Executor
