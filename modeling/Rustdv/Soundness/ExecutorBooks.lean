import Rustdv.Model.Executor
import Mathlib.Data.List.Count

/-! # The executor's books

One invariant joins the run queue, the entries, the handles' cells, the woken list and the
observations so far. Every operation of user code, every way a poll can end and every part of a
loop turn keeps it. A live task that was woken since its last poll began is scheduled or still in
the woken list, so no wake is lost.
-/

namespace Rustdv.Executor

variable {V : Type*}

/-- The result stored for this task, if that is what was observed. -/
def Obs.storedFor (id : TaskId) : Obs V → Option (Except TaskError V)
  | .stored owner result _ => if owner = id then some result else none
  | _ => none

/-- The results stored for a task. -/
def resultsOf (id : TaskId) (obs : List (Obs V)) : List (Except TaskError V) :=
  obs.filterMap (Obs.storedFor id)

/-- The task was woken after its most recent poll began. -/
def WokenSincePoll (id : TaskId) (obs : List (Obs V)) : Prop :=
  ∃ pre post, obs = pre ++ .woke (.task id) :: post ∧ .pollBegan id ∉ post

theorem wokenSincePoll_append {id : TaskId} {seen out : List (Obs V)} :
    WokenSincePoll id (seen ++ out) ↔
      WokenSincePoll id out ∨ WokenSincePoll id seen ∧ .pollBegan id ∉ out := by
  constructor
  · rintro ⟨pre, post, cut, clear⟩
    rcases List.append_eq_append_iff.mp cut with ⟨more, rfl, last⟩ | ⟨more, early, last⟩
    · exact .inl ⟨more, post, last, clear⟩
    · cases more with
      | nil => exact .inl ⟨[], post, last.symm, clear⟩
      | cons first rest =>
        obtain ⟨rfl, rfl⟩ := List.cons.inj last
        exact .inr ⟨⟨pre, rest, early, fun member => clear (List.mem_append_left _ member)⟩,
          fun member => clear (List.mem_append_right _ member)⟩
  · rintro (⟨pre, post, rfl, clear⟩ | ⟨⟨pre, post, rfl, clear⟩, later⟩)
    · exact ⟨seen ++ pre, post, by simp, clear⟩
    · refine ⟨pre, post ++ out, by simp, ?_⟩
      intro member
      exact (List.mem_append.mp member).elim clear later

/-- Every joiner registered before a result was stored is woken by it, and nothing else comes
between the store and these wakes. -/
def JoinersWoken (obs : List (Obs V)) : Prop :=
  ∀ pre post id result joiners, obs = pre ++ .stored id result joiners :: post →
    (∀ waker, .registered id waker ∈ pre → waker ∈ joiners) ∧ joiners.map .woke <+: post

section Observed

variable {seen out : List (Obs V)} {id : TaskId}

theorem resultsOf_append (id : TaskId) (seen out : List (Obs V)) :
    resultsOf id (seen ++ out) = resultsOf id seen ++ resultsOf id out := List.filterMap_append

theorem resultsOf_wakes (id : TaskId) (wakers : List Waker) :
    resultsOf id (wakers.map .woke : List (Obs V)) = [] := by
  simp [resultsOf, Obs.storedFor]

theorem JoinersWoken.append (earlier : JoinersWoken seen)
    (quiet : ∀ id result joiners, .stored id result joiners ∉ out) : JoinersWoken (seen ++ out) := by
  intro pre post id result joiners cut
  rcases List.append_eq_append_iff.mp cut with ⟨more, rfl, last⟩ | ⟨more, early, last⟩
  · exact absurd (by simp [last]) (quiet id result joiners)
  · cases more with
    | nil => exact absurd (by rw [← List.nil_append out, ← last]; simp) (quiet id result joiners)
    | cons first rest =>
      obtain ⟨rfl, rfl⟩ := List.cons.inj last
      obtain ⟨registered, woken⟩ := earlier pre rest id result joiners early
      exact ⟨registered, woken.trans (List.prefix_append ..)⟩

theorem JoinersWoken.store (earlier : JoinersWoken seen) {result : Except TaskError V} {joiners : List Waker}
    (all : ∀ waker, .registered id waker ∈ seen → waker ∈ joiners) :
    JoinersWoken (seen ++ .stored id result joiners :: joiners.map .woke) := by
  intro pre post owner result' joiners' cut
  rcases List.append_eq_append_iff.mp cut with ⟨more, rfl, last⟩ | ⟨more, early, last⟩
  · cases more with
    | nil =>
      obtain ⟨same, rfl⟩ := List.cons.inj last
      cases same
      rw [List.append_nil]
      exact ⟨all, List.prefix_rfl⟩
    | cons first rest =>
      -- the wakes after the store are no stores
      have member : .stored owner result' joiners' ∈ (joiners.map .woke : List (Obs V)) := by
        rw [(List.cons.inj last).2]
        simp
      simp at member
  · cases more with
    | nil =>
      obtain ⟨same, rfl⟩ := List.cons.inj last
      cases same
      rw [List.append_nil] at early
      exact ⟨early ▸ all, List.prefix_rfl⟩
    | cons first rest =>
      obtain ⟨rfl, rfl⟩ := List.cons.inj last
      obtain ⟨registered, woken⟩ := earlier pre rest owner result' joiners' early
      exact ⟨registered, woken.trans (List.prefix_append ..)⟩

theorem not_wokenSincePoll_of_quiet (quiet : .woke (.task id) ∉ out) : ¬ WokenSincePoll id out := by
  rintro ⟨pre, post, rfl, -⟩
  simp at quiet

end Observed

/-- Where a live task in this state stands. -/
def Standing (runQueue : List TaskId) (control : Control) (id : TaskId) : TaskState → Prop
  | .scheduled => runQueue.count id = 1
  | .pending => id ∉ runQueue
  | .running => id ∉ runQueue ∧ control = .polling id
  | _ => False

/-- Only the standing of the polled task depends on who runs. -/
theorem Standing.of_control {runQueue : List TaskId} {control control' : Control} {id : TaskId}
    {state : TaskState} (standing : Standing runQueue control id state)
    (kept : control = .polling id → control' = .polling id) : Standing runQueue control' id state := by
  cases state with
  | running => exact ⟨standing.1, kept standing.2⟩
  | _ => exact standing

/-- Entries, handles, queue and control agree. -/
structure Layout (s : ExecInner V) : Prop where
  standing : ∀ id entry, s.tasks id = some entry → Standing s.runQueue s.control id entry.state
  handle : ∀ id entry, s.tasks id = some entry → (s.shared id).state = entry.state
  polled : ∀ id, s.control = .polling id → ∃ entry, s.tasks id = some entry ∧ entry.state = .running
  current : ∀ id, s.currentlyPolling = some id ↔ s.control = .polling id
  running : s.running = true ↔ s.control ≠ .outside
  first : s.tasks 0 = none ∧ 0 < s.nextId
  unborn : ∀ id, s.nextId ≤ id → s.tasks id = none ∧ id ∉ s.runQueue
  ended : ∀ id, 0 < id → id < s.nextId → s.tasks id = none → (s.shared id).state.done = true

/-- The state agrees with what has been observed. -/
structure Ledger (s : ExecInner V) (obs : List (Obs V)) : Prop where
  unborn : ∀ id, s.nextId ≤ id → resultsOf id obs = [] ∧ ∀ waker, .registered id waker ∉ obs
  ended : ∀ id, 0 < id → id < s.nextId → s.tasks id = none → (resultsOf id obs).length = 1
  live : ∀ id entry, s.tasks id = some entry → resultsOf id obs = []
  joiners : ∀ id entry, s.tasks id = some entry → ∀ waker, .registered id waker ∈ obs →
    waker ∈ (s.shared id).joiners
  due : ∀ id entry, s.tasks id = some entry → WokenSincePoll id obs →
    entry.state = .scheduled ∨ id ∈ s.woken
  woken : JoinersWoken obs

theorem layout_init : Layout (init V) where
  standing _ _ live := by cases live
  handle _ _ live := by cases live
  polled _ polling := by cases polling
  current _ := by simp [init]
  running := by simp [init]
  first := ⟨rfl, Nat.one_pos⟩
  unborn _ _ := ⟨rfl, by simp [init]⟩
  ended id positive bound := absurd bound (Nat.not_lt.mpr positive)

theorem ledger_init : Ledger (init V) [] where
  unborn _ _ := ⟨rfl, by simp⟩
  ended id positive bound := absurd bound (Nat.not_lt.mpr positive)
  live _ _ live := by cases live
  joiners _ _ live := by cases live
  due _ _ live := by cases live
  woken pre post id result joiners cut := by simp at cut

/-- An observation that concerns no result, no join and no wake. -/
def Obs.neutral : Obs V → Bool
  | .stored .. | .registered .. | .woke _ => false
  | _ => true

/-- One more task in the queue changes nothing for the others. -/
theorem Standing.snoc {runQueue : List TaskId} {control : Control} {id other : TaskId} {state : TaskState}
    (standing : Standing runQueue control other state) (distinct : other ≠ id) :
    Standing (runQueue ++ [id]) control other state := by
  have absent : other ∉ [id] := by simpa using distinct
  cases state with
  | scheduled =>
    rw [Standing, List.count_append, List.count_eq_zero_of_not_mem absent]
    exact standing
  | pending => exact fun member => (List.mem_append.mp member).elim standing absent
  | running => exact ⟨fun member => (List.mem_append.mp member).elim standing.1 absent, standing.2⟩
  | _ => exact standing

section Elsewhere

variable {s t : ExecInner V} {obs : List (Obs V)} {id : TaskId}

/-- All tasks but one are as they were. -/
structure Elsewhere (id : TaskId) (s t : ExecInner V) : Prop where
  tasks : ∀ other ≠ id, t.tasks other = s.tasks other
  shared : ∀ other ≠ id, t.shared other = s.shared other
  nextId : s.nextId ≤ t.nextId
  /-- Only this one may be new. -/
  born : ∀ other < t.nextId, other < s.nextId ∨ other = id
  bound : id < t.nextId

theorem Layout.queued (layout : Layout s) (other : TaskId) (member : other ∈ s.runQueue) : other < s.nextId := by
  by_contra beyond
  exact (layout.unborn other (Nat.not_lt.mp beyond)).2 member

theorem Layout.bound (layout : Layout s) {entry : TaskEntry} (live : s.tasks id = some entry) :
    0 < id ∧ id < s.nextId := by
  refine ⟨?_, ?_⟩
  · by_contra zero
    rw [Nat.eq_zero_of_not_pos zero, layout.first.1] at live
    cases live
  · by_contra beyond
    rw [(layout.unborn id (Nat.not_lt.mp beyond)).1] at live
    cases live

/-- The layout has to be checked for the task that changes, the queue and who runs. -/
theorem Layout.of_elsewhere (layout : Layout s) (elsewhere : Elsewhere id s t)
    (own : ∀ entry, t.tasks id = some entry →
      0 < id ∧ Standing t.runQueue t.control id entry.state ∧ (t.shared id).state = entry.state)
    (others : ∀ other ≠ id, ∀ entry, s.tasks other = some entry → Standing t.runQueue t.control other entry.state)
    (polled : ∀ other, t.control = .polling other → ∃ entry, t.tasks other = some entry ∧ entry.state = .running)
    (current : ∀ other, t.currentlyPolling = some other ↔ t.control = .polling other)
    (running : t.running = true ↔ t.control ≠ .outside) (queued : ∀ other ∈ t.runQueue, other < t.nextId)
    (ended : 0 < id → t.tasks id = none → (t.shared id).state.done = true) : Layout t := by
  refine ⟨?_, ?_, polled, current, running, ⟨?_, Nat.lt_of_lt_of_le layout.first.2 elsewhere.nextId⟩, ?_, ?_⟩
  · intro other entry live
    by_cases here : other = id
    · subst here
      exact (own entry live).2.1
    · exact others other here entry ((elsewhere.tasks other here).symm.trans live)
  · intro other entry live
    by_cases here : other = id
    · subst here
      exact (own entry live).2.2
    · rw [elsewhere.shared other here]
      exact layout.handle other entry ((elsewhere.tasks other here).symm.trans live)
  · by_cases here : 0 = id
    · subst here
      by_contra some
      obtain ⟨entry, live⟩ := Option.ne_none_iff_exists'.mp some
      exact Nat.lt_irrefl 0 (own entry live).1
    · rw [elsewhere.tasks 0 here]
      exact layout.first.1
  · intro other beyond
    have here : other ≠ id := Nat.ne_of_gt (Nat.lt_of_lt_of_le elsewhere.bound beyond)
    rw [elsewhere.tasks other here]
    refine ⟨(layout.unborn other (Nat.le_trans elsewhere.nextId beyond)).1, ?_⟩
    intro member
    exact Nat.not_lt.mpr beyond (queued other member)
  · intro other positive small gone
    by_cases here : other = id
    · subst here
      exact ended positive gone
    · rw [elsewhere.shared other here]
      rw [elsewhere.tasks other here] at gone
      exact layout.ended other positive ((elsewhere.born other small).resolve_right here) gone

/-- The ledger has to be checked for the task that changes. -/
theorem Ledger.of_elsewhere (ledger : Ledger s obs) (elsewhere : Elsewhere id s t)
    (ended : 0 < id → t.tasks id = none → (resultsOf id obs).length = 1)
    (live : ∀ entry, t.tasks id = some entry →
      resultsOf id obs = [] ∧ ∀ waker, .registered id waker ∈ obs → waker ∈ (t.shared id).joiners)
    (due : ∀ entry, t.tasks id = some entry → WokenSincePoll id obs → entry.state = .scheduled ∨ id ∈ t.woken)
    (woken : ∀ other ≠ id, other ∈ s.woken → other ∈ t.woken) : Ledger t obs := by
  refine ⟨?_, ?_, ?_, ?_, ?_, ledger.woken⟩
  · intro other beyond
    exact ledger.unborn other (Nat.le_trans elsewhere.nextId beyond)
  · intro other positive small gone
    by_cases here : other = id
    · subst here
      exact ended positive gone
    · rw [elsewhere.tasks other here] at gone
      exact ledger.ended other positive ((elsewhere.born other small).resolve_right here) gone
  · intro other entry present
    by_cases here : other = id
    · subst here
      exact (live entry present).1
    · exact ledger.live other entry ((elsewhere.tasks other here).symm.trans present)
  · intro other entry present
    by_cases here : other = id
    · subst here
      exact (live entry present).2
    · rw [elsewhere.shared other here]
      exact ledger.joiners other entry ((elsewhere.tasks other here).symm.trans present)
  · intro other entry present since
    by_cases here : other = id
    · subst here
      exact due entry present since
    · rw [elsewhere.tasks other here] at present
      exact (ledger.due other entry present since).imp_right (woken other here)

end Elsewhere

section Steps

variable {s : ExecInner V} {obs out : List (Obs V)}

/-- The ledger does not care about neutral observations, nor about how much of the woken list is
still to come, as long as no due task is left out. -/
theorem Ledger.neutral (ledger : Ledger s obs) (out : List (Obs V)) (neutral : ∀ o ∈ out, o.neutral = true) :
    Ledger s (obs ++ out) := by
  have results (id : TaskId) : resultsOf id (obs ++ out) = resultsOf id obs := by
    have quiet : resultsOf id out = [] := by
      refine List.filterMap_eq_nil_iff.mpr ?_
      intro o member
      have kept := neutral o member
      cases o <;> first | rfl | cases kept
    rw [resultsOf_append, quiet, List.append_nil]
  have registered (id : TaskId) (waker : Waker) (member : .registered id waker ∈ obs ++ out) :
      .registered id waker ∈ obs := by
    rcases List.mem_append.mp member with earlier | now
    · exact earlier
    · cases neutral _ now
  refine ⟨?_, ?_, ?_, ?_, ?_, ledger.woken.append ?_⟩
  · intro id bound
    rw [results]
    exact ⟨(ledger.unborn id bound).1, fun waker member => (ledger.unborn id bound).2 waker (registered id waker member)⟩
  · simpa only [results] using ledger.ended
  · simpa only [results] using ledger.live
  · intro id entry live waker member
    exact ledger.joiners id entry live waker (registered id waker member)
  · intro id entry live woken
    rcases wokenSincePoll_append.mp woken with ⟨pre, post, rfl, -⟩ | ⟨earlier, -⟩
    · cases neutral (.woke (.task id)) (by simp)
    · exact ledger.due id entry live earlier
  · intro id result joiners member
    cases neutral _ member

/-- `TaskWaker::wake` from anywhere. -/
theorem Layout.wake (layout : Layout s) (wakers : List Waker) : Layout (wake s wakers) :=
  { layout with }

theorem Ledger.wake (ledger : Ledger s obs) (wakers : List Waker) :
    Ledger (wake s wakers) (obs ++ wakers.map .woke) := by
  have results (id : TaskId) : resultsOf id (obs ++ wakers.map .woke) = resultsOf id obs := by
    rw [resultsOf_append, resultsOf_wakes, List.append_nil]
  refine ⟨?_, ?_, ?_, ?_, ?_, ledger.woken.append (by simp)⟩
  · intro id bound
    simpa [results] using ledger.unborn id bound
  · simp only [results]
    exact ledger.ended
  · simp only [results]
    exact ledger.live
  · intro id entry live other member
    exact ledger.joiners id entry live other (by simpa using member)
  · intro id entry live woken
    rcases wokenSincePoll_append.mp woken with ⟨pre, post, last, -⟩ | ⟨earlier, -⟩
    · right
      have member : .woke (.task id) ∈ (wakers.map .woke : List (Obs V)) := by simp [last]
      obtain ⟨waker, inside, same⟩ := List.mem_map.mp member
      cases same
      exact List.mem_append_right _ (List.mem_filterMap.mpr ⟨.task id, inside, rfl⟩)
    · exact (ledger.due id entry live earlier).imp_right fun member => List.mem_append_left _ member

/-- A live task ends: its entry goes, its cell gets the final state and the result, and the joiners
are woken. -/
def finish (s : ExecInner V) (id : TaskId) (state : TaskState) (result : Except TaskError V) :
    ExecInner V × List (Obs V) :=
  complete ((s.setEntry id none).setState id state) id result

section Finish

variable (s : ExecInner V) (id : TaskId) (state : TaskState) (result : Except TaskError V)

theorem finish_out : (finish s id state result).2 =
    .stored id result (s.shared id).joiners :: (s.shared id).joiners.map .woke := by
  simp [finish, complete, ExecInner.setState, ExecInner.setShared, ExecInner.setEntry]

@[simp] theorem finish_tasks : (finish s id state result).1.tasks = Function.update s.tasks id none := rfl

@[simp] theorem finish_shared :
    (finish s id state result).1.shared = Function.update s.shared id ⟨state, some result, []⟩ := by
  simp [finish, complete, wake, ExecInner.setState, ExecInner.setShared, ExecInner.setEntry]

@[simp] theorem finish_woken :
    (finish s id state result).1.woken = s.woken ++ (s.shared id).joiners.filterMap Waker.taskId := by
  simp [finish, complete, wake, ExecInner.setState, ExecInner.setShared, ExecInner.setEntry]

@[simp] theorem finish_nextId : (finish s id state result).1.nextId = s.nextId := rfl
@[simp] theorem finish_runQueue : (finish s id state result).1.runQueue = s.runQueue := rfl
@[simp] theorem finish_running : (finish s id state result).1.running = s.running := rfl
@[simp] theorem finish_polling : (finish s id state result).1.currentlyPolling = s.currentlyPolling := rfl
@[simp] theorem finish_control : (finish s id state result).1.control = s.control := rfl

end Finish

/-- The loop takes over again when the task that ends is the one being polled. -/
def Resumes (s : ExecInner V) (id : TaskId) (control : Control) (polling : Option TaskId) : Prop :=
  s.control ≠ .polling id ∧ control = s.control ∧ polling = s.currentlyPolling ∨
    s.control = .polling id ∧ control = .looping ∧ polling = none

theorem Layout.finish (layout : Layout s) {id : TaskId} {entry : TaskEntry} (live : s.tasks id = some entry)
    {state : TaskState} (done : state.done = true) (result : Except TaskError V) {control : Control}
    {polling : Option TaskId} (resumes : Resumes s id control polling) :
    Layout { (finish s id state result).1 with control := control, currentlyPolling := polling } := by
  obtain ⟨-, bound⟩ := layout.bound live
  have elsewhere : Elsewhere id s
      { (Executor.finish s id state result).1 with control := control, currentlyPolling := polling } := by
    refine ⟨fun _ apart => Function.update_of_ne apart .., ?_, Nat.le_refl _, fun _ => .inl, bound⟩
    intro other apart
    simp [apart]
  have kept (other : TaskId) (apart : other ≠ id) (before : s.control = .polling other) : control = .polling other := by
    rcases resumes with ⟨-, same, -⟩ | ⟨here, -, -⟩
    · exact same.trans before
    · exact absurd (Control.polling.inj (before.symm.trans here)) apart
  refine layout.of_elsewhere elsewhere (by simp) ?_ ?_ ?_ ?_ layout.queued (by simp [done])
  · intro other apart entry' live'
    exact (layout.standing other entry' live').of_control (kept other apart)
  · intro other now
    rcases resumes with ⟨away, same, -⟩ | ⟨-, looping, -⟩
    · have before : s.control = .polling other := same.symm.trans now
      have apart : other ≠ id := fun here => away (here ▸ before)
      rw [elsewhere.tasks other apart]
      exact layout.polled other before
    · cases looping.symm.trans now
  · intro other
    rcases resumes with ⟨-, rfl, rfl⟩ | ⟨-, rfl, rfl⟩
    · exact layout.current other
    · simp
  · rcases resumes with ⟨-, rfl, -⟩ | ⟨here, rfl, -⟩
    · exact layout.running
    · simp [layout.running, here]

theorem Ledger.finish (ledger : Ledger s obs) (layout : Layout s) {id : TaskId} {entry : TaskEntry}
    (live : s.tasks id = some entry) {state : TaskState} (result : Except TaskError V) (control : Control)
    (polling : Option TaskId) :
    Ledger { (finish s id state result).1 with control := control, currentlyPolling := polling }
      (obs ++ (finish s id state result).2) := by
  obtain ⟨unborn, ended, earlier, joiners, due, woken⟩ := ledger
  rw [finish_out]
  have results (other : TaskId) : resultsOf other (obs ++ .stored id result (s.shared id).joiners ::
      (s.shared id).joiners.map .woke) = resultsOf other obs ++ if id = other then [result] else [] := by
    rw [resultsOf_append, ← List.singleton_append, resultsOf_append, resultsOf_wakes, List.append_nil]
    congr 1
    simp only [resultsOf, List.filterMap_cons, Obs.storedFor, List.filterMap_nil]
    split <;> split_ifs at * <;> simp_all
  have bound : id < s.nextId := by
    by_contra beyond
    rw [(layout.unborn id (Nat.not_lt.mp beyond)).1] at live
    cases live
  refine ⟨?_, ?_, ?_, ?_, ?_, woken.store (joiners id entry live)⟩ <;>
    simp only [finish_tasks, finish_shared, finish_nextId, finish_woken, results]
  · intro other beyond
    have distinct : id ≠ other := by
      rintro rfl
      exact absurd bound (Nat.not_lt.mpr beyond)
    simpa [distinct] using unborn other beyond
  · intro other positive small gone
    by_cases same : id = other
    · subst same
      simp [earlier id entry live]
    · rw [Function.update_of_ne (Ne.symm same)] at gone
      simpa [same] using ended other positive small gone
  · intro other entry' live'
    have distinct : other ≠ id := by
      rintro rfl
      simp at live'
    rw [Function.update_of_ne distinct] at live'
    simpa [Ne.symm distinct] using earlier other entry' live'
  · intro other entry' live' waker member
    have distinct : other ≠ id := by
      rintro rfl
      simp at live'
    rw [Function.update_of_ne distinct] at live' ⊢
    exact joiners other entry' live' waker (by simpa using member)
  · intro other entry' live' since
    have distinct : other ≠ id := by
      rintro rfl
      simp at live'
    rw [Function.update_of_ne distinct] at live'
    rw [← List.singleton_append, ← List.append_assoc] at since
    rcases wokenSincePoll_append.mp since with ⟨pre, post, last, -⟩ | ⟨before, -⟩
    · right
      have member : .woke (.task other) ∈ ((s.shared id).joiners.map .woke : List (Obs V)) := by simp [last]
      obtain ⟨waker, inside, same⟩ := List.mem_map.mp member
      cases same
      exact List.mem_append_right _ (List.mem_filterMap.mpr ⟨.task other, inside, rfl⟩)
    · rcases wokenSincePoll_append.mp before with now | ⟨before, -⟩
      · exact absurd now (not_wokenSincePoll_of_quiet (by simp))
      · exact (due other entry' live' before).imp_right fun member => List.mem_append_left _ member

/-- Both halves of the invariant. -/
structure Books (s : ExecInner V) (obs : List (Obs V)) : Prop where
  layout : Layout s
  ledger : Ledger s obs

theorem Books.finish (books : Books s obs) {id : TaskId} {entry : TaskEntry} (live : s.tasks id = some entry)
    {state : TaskState} (done : state.done = true) (result : Except TaskError V) {control : Control}
    {polling : Option TaskId} (resumes : Resumes s id control polling) :
    Books { (finish s id state result).1 with control := control, currentlyPolling := polling }
      (obs ++ (finish s id state result).2) :=
  ⟨books.layout.finish live done result resumes, books.ledger.finish books.layout live result control polling⟩

theorem cancel_of_live {id : TaskId} {entry : TaskEntry} (other : s.currentlyPolling ≠ some id)
    (live : s.tasks id = some entry) : cancel s id = finish s id .cancelled (.error .cancelled) := by
  simp only [cancel, other, ↓reduceIte, live]
  rfl

theorem Books.cancel (books : Books s obs) (id : TaskId) :
    Books (cancel s id).1 (obs ++ (cancel s id).2) := by
  by_cases self : s.currentlyPolling = some id
  · rw [Executor.cancel, if_pos self]
    have ledger := books.ledger.neutral [.deferred id] (by simp [Obs.neutral])
    exact ⟨{ books.layout with }, { ledger with }⟩
  · cases live : s.tasks id with
    | none =>
      simpa only [Executor.cancel, self, ↓reduceIte, live, List.append_nil] using books
    | some entry =>
      rw [cancel_of_live self live]
      have elsewhere : s.control ≠ .polling id := fun polling => self ((books.layout.current id).mpr polling)
      exact books.finish live rfl _ (.inl ⟨elsewhere, rfl, rfl⟩)

theorem Books.cancelAll (books : Books s obs) (ids : List TaskId) :
    Books (cancelAll s ids).1 (obs ++ (cancelAll s ids).2) := by
  induction ids generalizing s obs with
  | nil => simpa only [Executor.cancelAll, List.append_nil] using books
  | cons id rest ih =>
    simp only [Executor.cancelAll, ← List.append_assoc]
    exact ih (books.cancel id)

theorem Books.spawnNamed (books : Books s obs) (name : Option String) :
    Books (spawnNamed s name).1 (obs ++ (spawnNamed s name).2) := by
  have layout := books.layout
  have fresh := layout.unborn s.nextId (Nat.le_refl _)
  have ledger := books.ledger.neutral (Executor.spawnNamed s name).2 (by simp [Executor.spawnNamed, Obs.neutral])
  have elsewhere : Elsewhere s.nextId s (Executor.spawnNamed s name).1 :=
    ⟨fun _ apart => Function.update_of_ne apart .., fun _ apart => Function.update_of_ne apart .., Nat.le_succ _,
      fun _ => Nat.lt_succ_iff_lt_or_eq.mp, Nat.lt_succ_self _⟩
  have entry : (Executor.spawnNamed s name).1.tasks s.nextId =
      some ⟨name.getD s!"task_{s.nextId}", .scheduled⟩ := Function.update_self ..
  constructor
  · refine layout.of_elsewhere elsewhere ?_ ?_ ?_ layout.current layout.running ?_ ?_
    · intro entry' live
      obtain rfl := Option.some.inj (entry.symm.trans live)
      refine ⟨layout.first.2, ?_, ?_⟩
      · simp [Standing, Executor.spawnNamed, List.count_eq_zero_of_not_mem fresh.2]
      · simp [Executor.spawnNamed, ExecInner.setShared, ExecInner.setEntry]
    · intro other apart entry' live
      exact (layout.standing other entry' live).snoc apart
    · intro other polling
      obtain ⟨entry', live, state⟩ := layout.polled other polling
      refine ⟨entry', ?_, state⟩
      rw [elsewhere.tasks other (Nat.ne_of_lt (layout.bound live).2)]
      exact live
    · intro other member
      rcases List.mem_append.mp member with earlier | new
      · exact Nat.lt_succ_of_lt (layout.queued other earlier)
      · exact Nat.lt_succ_of_le (Nat.le_of_eq (List.mem_singleton.mp new))
    · intro _ gone
      rw [entry] at gone
      cases gone
  · obtain ⟨quiet, unregistered⟩ := ledger.unborn s.nextId (Nat.le_refl _)
    refine ledger.of_elsewhere elsewhere ?_ ?_ ?_ fun _ _ => id
    · intro _ gone
      rw [entry] at gone
      cases gone
    · exact fun _ _ => ⟨quiet, fun waker member => absurd member (unregistered waker)⟩
    · intro entry' live _
      obtain rfl := Option.some.inj (entry.symm.trans live)
      exact .inl rfl

/-- A cell changes, not its state. -/
theorem Layout.recell (layout : Layout s) {id : TaskId} (bound : id < s.nextId) (cell : TaskShared V)
    (same : cell.state = (s.shared id).state) : Layout (s.setShared id cell) := by
  have elsewhere : Elsewhere id s (s.setShared id cell) :=
    ⟨fun _ _ => rfl, fun _ apart => Function.update_of_ne apart .., Nat.le_refl _, fun _ => .inl, bound⟩
  have state : ((s.setShared id cell).shared id).state = (s.shared id).state := by simp [ExecInner.setShared, same]
  refine layout.of_elsewhere elsewhere ?_ (fun other _ => layout.standing other) layout.polled layout.current
    layout.running layout.queued ?_
  · intro entry live
    exact ⟨(layout.bound live).1, layout.standing id entry live, state.trans (layout.handle id entry live)⟩
  · intro positive gone
    rw [state]
    exact layout.ended id positive bound gone

theorem Books.takeResult (books : Books s obs) {id : TaskId} (bound : id < s.nextId) :
    Books (takeResult s id).1 (obs ++ [.joined id (takeResult s id).2]) := by
  have ledger := books.ledger.neutral [.joined id (Executor.takeResult s id).2] (by simp [Obs.neutral])
  unfold Executor.takeResult at ledger ⊢
  dsimp only at ledger ⊢
  split
  · next result stored =>
    rw [stored] at ledger
    refine ⟨books.layout.recell bound _ rfl, ?_⟩
    have elsewhere : Elsewhere id s (s.setShared id { s.shared id with result := none }) :=
      ⟨fun _ _ => rfl, fun _ apart => Function.update_of_ne apart .., Nat.le_refl _, fun _ => .inl, bound⟩
    refine ledger.of_elsewhere elsewhere (fun positive => ledger.ended id positive bound) ?_ (ledger.due id)
      fun _ _ => (·)
    intro entry live
    refine ⟨ledger.live id entry live, ?_⟩
    simpa [ExecInner.setShared] using ledger.joiners id entry live
  · next empty =>
    rw [empty] at ledger
    exact ⟨books.layout, ledger⟩

theorem Books.pollHandle (books : Books s obs) {id : TaskId} (bound : id < s.nextId) (waker : Waker) :
    Books (pollHandle s id waker).1 (obs ++ (pollHandle s id waker).2) := by
  unfold Executor.pollHandle
  dsimp only
  split_ifs with done
  · exact books.takeResult bound
  · refine ⟨books.layout.recell bound _ rfl, ?_⟩
    dsimp only [ExecInner.setShared]
    obtain ⟨unborn, ended, live, joiners, due, woken⟩ := books.ledger
    have results (other : TaskId) : resultsOf other (obs ++ [.registered id waker]) = resultsOf other obs := by
      rw [resultsOf_append]
      exact List.append_nil _
    refine ⟨?_, ?_, ?_, ?_, ?_, woken.append (by simp)⟩
    · intro other beyond
      rw [results]
      refine ⟨(unborn other beyond).1, fun waker' member => ?_⟩
      rcases List.mem_append.mp member with earlier | now
      · exact (unborn other beyond).2 waker' earlier
      · have same := Obs.registered.inj (List.mem_singleton.mp now)
        exact absurd bound (Nat.not_lt.mpr (same.1 ▸ beyond))
    · simpa only [results] using ended
    · simpa only [results] using live
    · intro other entry live' waker' member
      by_cases here : other = id
      · subst here
        simp only [Function.update_self, List.mem_append]
        rcases List.mem_append.mp member with earlier | now
        · exact .inl (joiners other entry live' waker' earlier)
        · exact .inr (List.mem_singleton.mpr (Obs.registered.inj (List.mem_singleton.mp now)).2)
      · simp only [Function.update_of_ne here]
        refine joiners other entry live' waker' ?_
        rcases List.mem_append.mp member with earlier | now
        · exact earlier
        · exact absurd (Obs.registered.inj (List.mem_singleton.mp now)).1 here
    · intro other entry live' since
      rcases wokenSincePoll_append.mp since with now | ⟨before, -⟩
      · exact absurd now (not_wokenSincePoll_of_quiet (by simp))
      · exact due other entry live' before

theorem Books.runUntilIdle (books : Books s obs) :
    Books (runUntilIdle s).1 (obs ++ (runUntilIdle s).2) := by
  unfold Executor.runUntilIdle
  split_ifs with running
  · exact ⟨books.layout, books.ledger.neutral _ (by simp [Obs.neutral])⟩
  · have outside : s.control = .outside := by
      by_contra inside
      exact running (books.layout.running.mpr inside)
    rw [List.append_nil]
    obtain ⟨standing, handle, polled, current, -, first, unborn, ended⟩ := books.layout
    refine ⟨⟨?_, handle, ?_, ?_, by simp, first, unborn, ended⟩, { books.ledger with }⟩
    · intro id entry live
      exact (standing id entry live).of_control fun polling => by simp [outside] at polling
    · intro id polling
      simp at polling
    · intro id
      simpa [outside] using current id

/-- A poll that ended the task, whichever way. -/
theorem Books.endPoll (books : Books s obs) {id : TaskId} (polling : s.control = .polling id)
    (state : TaskState) (done : state.done = true) (result : Except TaskError V) :
    Books { (Executor.finish s id state result).1 with control := .looping, currentlyPolling := none }
      (obs ++ (Executor.finish s id state result).2) := by
  obtain ⟨entry, live, -⟩ := books.layout.polled id polling
  exact books.finish live done result (.inr ⟨polling, rfl, rfl⟩)

theorem pollReady_eq (s : ExecInner V) (id : TaskId) (value : V) :
    pollReady s id value = ({ (finish s id .finished (.ok value)).1 with control := .looping, currentlyPolling := none },
      (finish s id .finished (.ok value)).2) := rfl

theorem pollPanic_eq (s : ExecInner V) (id : TaskId) (message : String) :
    pollPanic s id message =
      ({ (finish s id .failed (.error (.panicked message))).1 with control := .looping, currentlyPolling := none },
        (finish s id .failed (.error (.panicked message))).2 ++
          [reportPanic s.failureSink (((s.tasks id).map TaskEntry.name).getD "") message]) := by
  simp only [pollPanic, onAbort, TaskError.state, finish, complete, wake, ExecInner.setState, ExecInner.setShared,
    ExecInner.setEntry, Function.update_self, Function.update_idem]

theorem Books.pollPanic (books : Books s obs) {id : TaskId} (polling : s.control = .polling id)
    (message : String) : Books (pollPanic s id message).1 (obs ++ (pollPanic s id message).2) := by
  have ended := books.endPoll polling .failed rfl (.error (.panicked message))
  rw [pollPanic_eq, ← List.append_assoc]
  refine ⟨ended.layout, ended.ledger.neutral _ ?_⟩
  simp only [List.mem_singleton, forall_eq, reportPanic]
  split_ifs <;> rfl

/-- The task goes over to another state. -/
def restate (s : ExecInner V) (id : TaskId) (entry : TaskEntry) (state : TaskState) : ExecInner V :=
  (s.setEntry id (some { entry with state := state })).setState id state

/-- A task changes its state, the queue changes or another one runs, or nobody. -/
theorem Books.restate (books : Books s obs) {id : TaskId} {entry : TaskEntry} (live : s.tasks id = some entry)
    {state : TaskState} {queue woken : List TaskId} {control : Control} {polling : Option TaskId}
    {pending : List TaskId} (stands : Standing queue control id state)
    (others : ∀ other ≠ id, ∀ entry, s.tasks other = some entry → Standing queue control other entry.state)
    (polled : ∀ other, control = .polling other → other = id ∧ state = .running)
    (current : ∀ other, polling = some other ↔ control = .polling other)
    (running : s.running = true ↔ control ≠ .outside) (queued : ∀ other ∈ queue, other < s.nextId)
    (due : WokenSincePoll id obs → state = .scheduled ∨ id ∈ woken)
    (waking : ∀ other ≠ id, other ∈ s.woken → other ∈ woken) :
    Books { (Executor.restate s id entry state) with
      runQueue := queue, woken := woken, control := control, currentlyPolling := polling, cancelPending := pending } obs := by
  obtain ⟨positive, bound⟩ := books.layout.bound live
  have elsewhere : Elsewhere id s { (Executor.restate s id entry state) with
      runQueue := queue, woken := woken, control := control, currentlyPolling := polling, cancelPending := pending } :=
    ⟨fun _ apart => Function.update_of_ne apart .., fun _ apart => Function.update_of_ne apart .., Nat.le_refl _,
      fun _ => .inl, bound⟩
  have present : (Executor.restate s id entry state).tasks id = some { entry with state := state } :=
    Function.update_self ..
  have cell : (Executor.restate s id entry state).shared id = { s.shared id with state := state } :=
    Function.update_self ..
  constructor
  · refine books.layout.of_elsewhere elsewhere ?_ others ?_ current running queued ?_
    · intro entry' live'
      obtain rfl := Option.some.inj (present.symm.trans live')
      exact ⟨positive, stands, congrArg TaskShared.state cell⟩
    · intro other now
      obtain ⟨rfl, runs⟩ := polled other now
      exact ⟨_, present, runs⟩
    · intro _ gone
      cases present.symm.trans gone
  · refine books.ledger.of_elsewhere elsewhere ?_ ?_ ?_ waking
    · intro _ gone
      cases present.symm.trans gone
    · intro _ _
      refine ⟨books.ledger.live id entry live, ?_⟩
      intro waker member
      exact (congrArg TaskShared.joiners cell).symm ▸ books.ledger.joiners id entry live waker member
    · intro entry' live' since
      obtain rfl := Option.some.inj (present.symm.trans live')
      exact due since

theorem Books.pollPending (books : Books s obs) {id : TaskId} (polling : s.control = .polling id) :
    Books (pollPending s id).1 (obs ++ (pollPending s id).2) := by
  obtain ⟨entry, live, state⟩ := books.layout.polled id polling
  simp only [Executor.pollPending, live]
  refine Books.cancelAll ?_ s.cancelPending
  have absent : id ∉ s.runQueue := by
    have before := books.layout.standing id entry live
    rw [state] at before
    exact before.1
  change Books { (Executor.restate s id entry .pending) with
    runQueue := s.runQueue, woken := s.woken, control := .looping, currentlyPolling := none, cancelPending := [] } obs
  refine books.restate live absent ?_ (by simp) (by simp) ?_ books.layout.queued ?_ fun _ _ => (·)
  · intro other apart entry' live'
    refine (books.layout.standing other entry' live').of_control fun polling' => ?_
    exact absurd (Control.polling.inj (polling'.symm.trans polling)) apart
  · simp [books.layout.running, polling]
  · intro since
    exact .inr ((books.ledger.due id entry live since).resolve_left (by simp [state]))

/-- Taking in one wake. -/
theorem Books.drainOne {id : TaskId} {rest : List TaskId} (books : Books { s with woken := id :: rest } obs)
    (looping : s.control = .looping) : Books (drainOne { s with woken := rest } id) obs := by
  obtain ⟨standing, handle, polled, current, running, first, unborn, ended⟩ := books.layout
  have ledger := books.ledger
  obtain ⟨unborn', ended', quiet, joiners, due, woken⟩ := ledger
  simp only at *
  unfold Executor.drainOne
  dsimp only
  split
  · next entry live =>
    split_ifs with pending
    · have absent : id ∉ s.runQueue := by
        have before := standing id entry live
        rwa [pending] at before
      refine books.restate live ?_ ?_ (fun _ now => by cases looping.symm.trans now) current running ?_
        (fun _ => .inl rfl) ?_
      · simp [Standing, List.count_eq_zero_of_not_mem absent]
      · intro other apart entry' live'
        exact (standing other entry' live').snoc apart
      · intro other member
        rcases List.mem_append.mp member with earlier | now
        · exact books.layout.queued other earlier
        · exact List.mem_singleton.mp now ▸ (books.layout.bound live).2
      · intro other apart member
        exact (List.mem_cons.mp member).resolve_left apart
    · refine ⟨⟨standing, handle, polled, current, running, first, unborn, ended⟩,
        ⟨unborn', ended', quiet, joiners, ?_, woken⟩⟩
      intro other entry' live' since
      rcases due other entry' live' since with scheduled | member
      · exact .inl scheduled
      · rcases List.mem_cons.mp member with rfl | later
        · -- a live task that is not pending is scheduled, for nothing runs between polls
          left
          have before := standing other entry' live'
          obtain rfl := Option.some.inj (live.symm.trans live')
          cases state : entry.state <;> simp_all [Standing]
        · exact .inr later
  · next gone =>
    refine ⟨⟨standing, handle, polled, current, running, first, unborn, ended⟩,
      ⟨unborn', ended', quiet, joiners, ?_, woken⟩⟩
    intro other entry' live' since
    rcases due other entry' live' since with scheduled | member
    · exact .inl scheduled
    · rcases List.mem_cons.mp member with rfl | later
      · rw [gone] at live'
        cases live'
      · exact .inr later

private theorem Books.drain (ids : List TaskId) : ∀ {s : ExecInner V}, Books { s with woken := ids } obs →
    s.control = .looping → Books (ids.foldl Executor.drainOne { s with woken := [] }) obs := by
  induction ids with
  | nil => exact fun books _ => books
  | cons id rest ih =>
    intro s books looping
    -- `drainOne` neither reads nor writes the woken list
    have frame (ids : List TaskId) : Executor.drainOne { s with woken := ids } id =
        { Executor.drainOne s id with woken := ids } := by
      unfold Executor.drainOne
      dsimp only
      split
      · split_ifs <;> rfl
      · rfl
    have control : (Executor.drainOne s id).control = .looping := by
      unfold Executor.drainOne
      split
      · split_ifs <;> exact looping
      · exact looping
    have taken := books.drainOne looping
    rw [frame] at taken
    rw [List.foldl_cons, frame]
    exact ih taken control

theorem Books.drainWoken (books : Books s obs) (looping : s.control = .looping) : Books (drainWoken s) obs :=
  Books.drain s.woken books looping

theorem drainWoken_frame (s : ExecInner V) :
    (drainWoken s).woken = [] ∧ (drainWoken s).control = s.control := by
  suffices frame : ∀ (ids : List TaskId) (s : ExecInner V), (ids.foldl drainOne s).woken = s.woken ∧
      (ids.foldl drainOne s).control = s.control from frame s.woken { s with woken := [] }
  intro ids
  induction ids with
  | nil => exact fun s => ⟨rfl, rfl⟩
  | cons id rest ih =>
    intro s
    have one : (drainOne s id).woken = s.woken ∧ (drainOne s id).control = s.control := by
      unfold drainOne
      split
      · split_ifs <;> exact ⟨rfl, rfl⟩
      · exact ⟨rfl, rfl⟩
    rw [List.foldl_cons, ← one.1, ← one.2]
    exact ih (drainOne s id)

/-- The front of the queue is popped: a live task is there because it is scheduled. -/
theorem Books.pollTask (books : Books s obs) (looping : s.control = .looping) {id : TaskId} {rest : List TaskId}
    (front : s.runQueue = id :: rest) :
    Books (pollTask { s with runQueue := rest } id).1 (obs ++ (pollTask { s with runQueue := rest } id).2) := by
  obtain ⟨standing, handle, polled, current, running, first, unborn, ended⟩ := books.layout
  have ledger := books.ledger
  have others (other : TaskId) (distinct : other ≠ id) (entry : TaskEntry) (live : s.tasks other = some entry)
      (control : Control) : Standing rest control other entry.state := by
    have before := standing other entry live
    rw [front, looping] at before
    rw [Standing.eq_def] at before ⊢
    simp only [List.count_cons_of_ne distinct.symm, List.mem_cons, distinct, false_or] at before
    cases state : entry.state <;> simp_all
  unfold Executor.pollTask
  dsimp only
  split
  · next gone =>
    rw [List.append_nil]
    refine ⟨⟨?_, handle, polled, current, running, first, ?_, ended⟩, { ledger with }⟩
    · intro other entry live
      refine others other ?_ entry live _
      rintro rfl
      rw [gone] at live
      cases live
    · intro other beyond
      have before := unborn other beyond
      rw [front] at before
      exact ⟨before.1, fun member => before.2 (List.mem_cons_of_mem _ member)⟩
  · next entry live =>
    have before := standing id entry live
    rw [front, looping] at before
    split_ifs with scheduled
    · rw [scheduled] at before
      have absent : id ∉ rest := by
        simp only [Standing, List.count_cons_self, Nat.add_eq_right, List.count_eq_zero] at before
        exact before
      have began : Books s (obs ++ [.pollBegan id]) := ⟨books.layout, ledger.neutral _ (by simp [Obs.neutral])⟩
      refine began.restate live ⟨absent, rfl⟩ ?_ ?_ ?_ ?_ ?_ ?_ fun _ _ => (·)
      · intro other apart entry' live'
        exact others other apart entry' live' _
      · intro other now
        exact ⟨(Control.polling.inj now).symm, rfl⟩
      · intro other
        rw [Option.some.injEq, Control.polling.injEq]
      · simp [running, looping]
      · intro other member
        refine books.layout.queued other ?_
        rw [front]
        exact List.mem_cons_of_mem _ member
      · intro since
        -- the poll that begins here answers every wake so far
        rcases wokenSincePoll_append.mp since with now | ⟨-, clear⟩
        · exact absurd now (not_wokenSincePoll_of_quiet (by simp))
        · simp at clear
    · -- a live task in the queue is scheduled
      exfalso
      cases state : entry.state <;> simp_all [Standing]

/-- Nothing is queued, nothing is woken and every live task is pending. -/
structure Idle (s : ExecInner V) : Prop where
  runQueue : s.runQueue = []
  woken : s.woken = []
  pending : ∀ id entry, s.tasks id = some entry → entry.state = .pending

theorem turn_of_nil (empty : (drainWoken s).runQueue = []) :
    turn s = ({ drainWoken s with running := false, control := .outside }, [.idled]) := by
  simp only [turn, empty]

theorem turn_of_cons {id : TaskId} {rest : List TaskId} (front : (drainWoken s).runQueue = id :: rest) :
    turn s = pollTask { drainWoken s with runQueue := rest } id := by
  simp only [turn, front]

/-- The beginning of a poll shows at most that. -/
theorem pollTask_out (s : ExecInner V) (id : TaskId) :
    (pollTask s id).2 = [] ∧ (pollTask s id).1 = s ∨
      (pollTask s id).2 = [.pollBegan id] ∧ (pollTask s id).1.control = .polling id := by
  unfold pollTask
  split
  · exact .inl ⟨rfl, rfl⟩
  · split_ifs
    · exact .inr ⟨rfl, rfl⟩
    · exact .inl ⟨rfl, rfl⟩

theorem Books.turn (books : Books s obs) (looping : s.control = .looping) :
    Books (turn s).1 (obs ++ (turn s).2) := by
  have drained := books.drainWoken looping
  have control : (Executor.drainWoken s).control = .looping := (drainWoken_frame s).2.trans looping
  cases front : (Executor.drainWoken s).runQueue with
  | nil =>
    rw [turn_of_nil front]
    obtain ⟨standing, handle, polled, current, running, first, unborn, ended⟩ := drained.layout
    refine ⟨⟨?_, handle, ?_, ?_, by simp, first, unborn, ended⟩,
      { drained.ledger.neutral [.idled] (by simp [Obs.neutral]) with }⟩
    · intro id entry live
      exact (standing id entry live).of_control fun polling => by simp [control] at polling
    · intro id polling
      cases polling
    · intro id
      simpa [control] using current id
  | cons id rest =>
    rw [turn_of_cons front]
    exact drained.pollTask control front

/-- When the loop returns, it has nothing left to do. -/
theorem Books.turn_idle (books : Books s obs) (looping : s.control = .looping)
    (idled : .idled ∈ (Executor.turn s).2) : Idle (Executor.turn s).1 := by
  have drained := books.drainWoken looping
  have control : (Executor.drainWoken s).control = .looping := (drainWoken_frame s).2.trans looping
  cases front : (Executor.drainWoken s).runQueue with
  | nil =>
    rw [turn_of_nil front]
    refine ⟨front, (drainWoken_frame s).1, ?_⟩
    intro id entry live
    have stands := drained.layout.standing id entry live
    rw [front, control] at stands
    cases state : entry.state <;> simp_all [Standing]
  | cons id rest =>
    rw [turn_of_cons front] at idled
    rcases pollTask_out { Executor.drainWoken s with runQueue := rest } id with ⟨quiet, -⟩ | ⟨began, -⟩
    · simp [quiet] at idled
    · simp [began] at idled

/-- Every step keeps the books. -/
theorem Transition.books {a : Action V} {next : ExecInner V × List (Obs V)} (moved : Transition s a next)
    (books : Books s obs) : Books next.1 (obs ++ next.2) := by
  cases moved with
  | turn looping => exact books.turn looping
  | pollReady id value polling => exact books.endPoll polling _ rfl (.ok value)
  | pollPending id polling => exact books.pollPending polling
  | pollPanic id message polling => exact books.pollPanic polling message
  | spawnNamed name => exact books.spawnNamed name
  | wake waker => exact ⟨books.layout.wake [waker], books.ledger.wake [waker]⟩
  | cancel id => exact books.cancel id
  | pollHandle id waker _ born => exact books.pollHandle born waker
  | takeResult id _ born => exact books.takeResult born
  | setFailureSink =>
    rw [List.append_nil]
    exact ⟨{ books.layout with }, { books.ledger with }⟩
  | runUntilIdle => exact books.runUntilIdle

theorem Books.step {t : ExecInner V} {a : Action V} (books : Books s obs) (stepped : step s a = some (t, out)) :
    Books t (obs ++ out) :=
  (transition_of_step stepped).books books

end Steps

end Rustdv.Executor
