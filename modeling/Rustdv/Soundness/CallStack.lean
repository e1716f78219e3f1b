import Mathlib.Data.List.TakeWhile
import Rustdv.Machine.Simulation
import Rustdv.Model.Teardown
import Rustdv.Soundness.Scheduling

/-! # The executor's call stack

What user code does to the executor is the same wherever it runs: it leaves the loop's own fields
alone, adds a task, removes tasks it cancels, and wakes. So the loop finds its stack frames as it left
them, and a task that is scheduled, or pending and woken, stays so until it is polled or cancelled.
-/

namespace Rustdv.Executor

variable {V : Type*}

/-- The loop owes this task a poll. -/
def Due (s : ExecInner V) (id : TaskId) : Prop :=
  ∃ entry, s.tasks id = some entry ∧ (entry.state = .scheduled ∨ entry.state = .pending ∧ id ∈ s.woken)

/-- What a call that user code makes, or the end of a destructor, can do to the executor. -/
structure Meddled (s t : ExecInner V) (out : List (Obs V)) : Prop where
  control : t.control = s.control
  polling : t.currentlyPolling = s.currentlyPolling
  running : t.running = s.running
  nextId : s.nextId ≤ t.nextId
  runQueue : ∀ id ∈ s.runQueue, id ∈ t.runQueue
  woken : ∀ id ∈ s.woken, id ∈ t.woken
  tasks : ∀ id, t.tasks id = s.tasks id ∨ CancelledIn id out ∧ t.tasks id = none ∨
    id = s.nextId ∧ id < t.nextId ∧ id ∈ t.runQueue ∧ ∃ name, t.tasks id = some ⟨name, .scheduled⟩
  quiet : ∀ o ∈ out, o.ofTurn = false

section Meddling

variable (s : ExecInner V)

theorem spawnNamed_meddled (name : Option String) : Meddled s (spawnNamed s name).1 (spawnNamed s name).2 := by
  refine ⟨rfl, rfl, rfl, Nat.le_succ _, fun id => List.mem_append_left _, fun id => (·), ?_, ?_⟩
  · intro id
    by_cases new : id = s.nextId
    · refine .inr (.inr ⟨new, ?_, ?_, name.getD s!"task_{s.nextId}", ?_⟩)
      · exact Nat.lt_succ_of_le (Nat.le_of_eq new)
      · exact List.mem_append_right _ (List.mem_singleton.mpr new)
      · rw [new]
        exact Function.update_self ..
    · exact .inl (Function.update_of_ne new ..)
  · simp [spawnNamed, Obs.ofTurn]

theorem wake_meddled (wakers : List Waker) : Meddled s (wake s wakers) (wakers.map .woke) where
  control := rfl
  polling := rfl
  running := rfl
  nextId := Nat.le_refl _
  runQueue _ := (·)
  woken _ := List.mem_append_left _
  tasks _ := .inl rfl
  quiet := by simp [Obs.ofTurn]

theorem cancel_meddled (id : TaskId) : Meddled s (cancel s id).1 (cancel s id).2 := by
  by_cases self : s.currentlyPolling = some id
  · rw [cancel, if_pos self]
    exact ⟨rfl, rfl, rfl, Nat.le_refl _, fun _ => (·), fun _ => (·), fun _ => .inl rfl, by simp [Obs.ofTurn]⟩
  · cases there : s.tasks id with
    | none =>
      have same : cancel s id = (s, []) := by simp only [cancel, self, ↓reduceIte, there]
      rw [same]
      exact ⟨rfl, rfl, rfl, Nat.le_refl _, fun _ => (·), fun _ => (·), fun _ => .inl rfl, by simp⟩
    | some entry =>
      rw [cancel_of_live self there]
      refine ⟨rfl, rfl, rfl, Nat.le_refl _, fun _ => (·), ?_, ?_, finish_not_ofTurn _ _ _ _⟩
      · intro other member
        rw [finish_woken]
        exact List.mem_append_left _ member
      · intro other
        by_cases here : other = id
        · refine .inr (.inl ⟨⟨(s.shared id).joiners, ?_⟩, ?_⟩)
          · rw [here, finish_out]
            exact List.mem_cons_self
          · rw [here, finish_tasks, Function.update_self]
        · exact .inl (Function.update_of_ne here ..)

theorem pollHandle_meddled (id : TaskId) (waker : Waker) :
    Meddled s (pollHandle s id waker).1 (pollHandle s id waker).2 := by
  unfold pollHandle takeResult
  dsimp only
  split_ifs
  · split <;>
      exact ⟨rfl, rfl, rfl, Nat.le_refl _, fun _ => (·), fun _ => (·), fun _ => .inl rfl, by simp [Obs.ofTurn]⟩
  · exact ⟨rfl, rfl, rfl, Nat.le_refl _, fun _ => (·), fun _ => (·), fun _ => .inl rfl, by simp [Obs.ofTurn]⟩

theorem takeResult_meddled (id : TaskId) :
    Meddled s (takeResult s id).1 [.joined id (takeResult s id).2] := by
  unfold takeResult
  dsimp only
  split <;>
    exact ⟨rfl, rfl, rfl, Nat.le_refl _, fun _ => (·), fun _ => (·), fun _ => .inl rfl, by simp [Obs.ofTurn]⟩

theorem failTask_meddled (id : TaskId) (name message : String) :
    Meddled s (failTask s id name message).1 (failTask s id name message).2 := by
  refine ⟨rfl, rfl, rfl, Nat.le_refl _, fun _ => (·), ?_, fun _ => .inl rfl, ?_⟩
  · intro other member
    exact List.mem_append_left _ member
  · simp only [failTask, onAbort, complete, reportPanic, List.mem_append, List.mem_cons, List.mem_map,
      List.not_mem_nil, or_false]
    rintro o ((rfl | ⟨waker, -, rfl⟩) | rfl)
    · rfl
    · rfl
    · split_ifs <;> rfl

end Meddling

/-- A task that is due stays due, or it is cancelled. -/
theorem Due.meddled {s t : ExecInner V} {out : List (Obs V)} {id : TaskId} (due : Due s id)
    (meddled : Meddled s t out) : CancelledIn id out ∨ Due t id := by
  obtain ⟨entry, live, owed⟩ := due
  rcases meddled.tasks id with same | ⟨cancelled, -⟩ | ⟨-, -, -, name, new⟩
  · exact .inr ⟨entry, same.trans live, owed.imp_right fun ⟨pending, woken⟩ => ⟨pending, meddled.woken id woken⟩⟩
  · exact .inl cancelled
  · exact .inr ⟨_, new, .inl rfl⟩

/-! ## A turn of the loop -/

/-- What taking in some woken ids does. -/
structure Drained (ids : List TaskId) (s t : ExecInner V) : Prop where
  control : t.control = s.control
  polling : t.currentlyPolling = s.currentlyPolling
  running : t.running = s.running
  nextId : t.nextId = s.nextId
  runQueue : ∀ id ∈ s.runQueue, id ∈ t.runQueue
  woken : t.woken = s.woken
  tasks : ∀ id, t.tasks id = s.tasks id ∧ (∀ entry, s.tasks id = some entry → entry.state = .pending → id ∉ ids) ∨
    ∃ entry, s.tasks id = some entry ∧ entry.state = .pending ∧
      t.tasks id = some { entry with state := .scheduled } ∧ id ∈ t.runQueue

theorem drained_one (s : ExecInner V) (id : TaskId) : Drained [id] s (drainOne s id) := by
  unfold drainOne
  split
  · next entry live =>
    split_ifs with pending
    · refine ⟨rfl, rfl, rfl, rfl, fun _ => List.mem_append_left _, rfl, ?_⟩
      intro other
      by_cases here : other = id
      · refine .inr ⟨entry, here ▸ live, pending, ?_, List.mem_append_right _ (List.mem_singleton.mpr here)⟩
        rw [here]
        exact Function.update_self ..
      · exact .inl ⟨Function.update_of_ne here .., fun _ _ _ => by simpa using here⟩
    · refine ⟨rfl, rfl, rfl, rfl, fun _ => (·), rfl, fun other => .inl ⟨rfl, ?_⟩⟩
      intro entry' live' pending' member
      obtain rfl := List.mem_singleton.mp member
      exact pending (Option.some.inj (live.symm.trans live') ▸ pending')
  · next gone =>
    refine ⟨rfl, rfl, rfl, rfl, fun _ => (·), rfl, fun other => .inl ⟨rfl, ?_⟩⟩
    intro entry' live' _ member
    obtain rfl := List.mem_singleton.mp member
    cases gone.symm.trans live'

theorem Drained.trans {front back : List TaskId} {s t u : ExecInner V} (first : Drained front s t)
    (second : Drained back t u) : Drained (front ++ back) s u := by
  refine ⟨second.control.trans first.control, second.polling.trans first.polling, second.running.trans first.running,
    second.nextId.trans first.nextId, fun id member => second.runQueue id (first.runQueue id member),
    second.woken.trans first.woken, ?_⟩
  intro id
  rcases first.tasks id with ⟨same, clear⟩ | ⟨entry, live, pending, now, queued⟩
  · rcases second.tasks id with ⟨same', clear'⟩ | ⟨entry, live, rest⟩
    · refine .inl ⟨same'.trans same, ?_⟩
      intro entry live pending member
      rcases List.mem_append.mp member with early | late
      · exact clear entry live pending early
      · exact clear' entry (same.trans live) pending late
    · exact .inr ⟨entry, same.symm.trans live, rest⟩
  · rcases second.tasks id with ⟨same', -⟩ | ⟨entry', live', pending', -⟩
    · exact .inr ⟨entry, live, pending, same'.trans now, second.runQueue id queued⟩
    · obtain rfl := Option.some.inj (now.symm.trans live')
      cases pending'

theorem drained (ids : List TaskId) (s : ExecInner V) : Drained ids s (ids.foldl drainOne s) := by
  induction ids generalizing s with
  | nil => exact ⟨rfl, rfl, rfl, rfl, fun _ => (·), rfl, fun id => .inl ⟨rfl, fun _ _ _ => List.not_mem_nil⟩⟩
  | cons id rest ih => exact (drained_one s id).trans (ih (drainOne s id))

/-- Every scheduled task is in the queue. -/
def Queued (s : ExecInner V) : Prop :=
  ∀ id entry, s.tasks id = some entry → entry.state = .scheduled → id ∈ s.runQueue

theorem Queued.drained {ids : List TaskId} {s t : ExecInner V} (queued : Queued s) (drained : Drained ids s t) :
    Queued t := by
  intro id entry live scheduled
  rcases drained.tasks id with ⟨same, -⟩ | ⟨_, -, -, -, member⟩
  · exact drained.runQueue id (queued id entry (same.symm.trans live) scheduled)
  · exact member

/-- After the wakes have been taken in, what is due is scheduled. -/
theorem Due.scheduled {s : ExecInner V} {id : TaskId} (due : Due s id) :
    ∃ entry, (drainWoken s).tasks id = some entry ∧ entry.state = .scheduled := by
  obtain ⟨entry, live, owed⟩ := due
  have taken := drained s.woken { s with woken := [] }
  rcases taken.tasks id with ⟨same, clear⟩ | ⟨entry', -, -, now, -⟩
  · rcases owed with scheduled | ⟨pending, woken⟩
    · exact ⟨entry, same.trans live, scheduled⟩
    · exact absurd woken (clear entry live pending)
  · exact ⟨_, now, rfl⟩

/-! ## The end of a poll -/

/-- The poll of a task is over: the task is gone or pending, and the loop goes on. -/
structure Left (id : TaskId) (s t : ExecInner V) (out : List (Obs V)) : Prop where
  control : t.control = .looping
  polling : t.currentlyPolling = none
  running : t.running = s.running
  nextId : t.nextId = s.nextId
  runQueue : t.runQueue = s.runQueue
  woken : ∀ other ∈ s.woken, other ∈ t.woken
  others : ∀ other ≠ id, t.tasks other = s.tasks other
  own : ∀ entry, t.tasks id = some entry → entry.state = .pending
  quiet : ∀ o ∈ out, o.ofTurn = false

section Leaving

variable (s : ExecInner V) (id : TaskId)

theorem pollReady_left (value : V) : Left id s (pollReady s id value).1 (pollReady s id value).2 := by
  rw [pollReady_eq]
  refine ⟨rfl, rfl, rfl, rfl, rfl, ?_, fun other apart => Function.update_of_ne apart .., ?_, finish_not_ofTurn _ _ _ _⟩
  · intro other member
    simp only [finish_woken]
    exact List.mem_append_left _ member
  · intro entry live
    simp at live

theorem park_left : Left id s (park s id) [] := by
  unfold park
  dsimp only
  split
  · next entry live =>
    refine ⟨rfl, rfl, rfl, rfl, rfl, fun _ => (·), fun other apart => Function.update_of_ne apart .., ?_, by simp⟩
    intro entry' live'
    simp only [ExecInner.setState, ExecInner.setShared, ExecInner.setEntry, Function.update_self] at live'
    exact (Option.some.inj live') ▸ rfl
  · next gone =>
    refine ⟨rfl, rfl, rfl, rfl, rfl, fun _ => (·), fun _ _ => rfl, ?_, by simp⟩
    intro entry live
    cases gone.symm.trans live

theorem catchPanic_left : Left id s (catchPanic s id) [] := by
  refine ⟨rfl, rfl, rfl, rfl, rfl, fun _ => (·), fun other apart => Function.update_of_ne apart .., ?_, by simp⟩
  intro entry live
  simp [catchPanic, ExecInner.setEntry] at live

end Leaving

/-! ## What a step can do -/

/-- The frames that belong to `run_until_idle` and its polls. -/
def Frame.ofLoop : Frame → Bool
  | .draining | .polling _ => true
  | _ => false

def Control.frames : Control → List Frame
  | .outside => []
  | .looping => [.draining]
  | .polling id => [.polling id, .draining]

/-- The five things that a step can do. -/
inductive Stepped (s : Thread V) : Move V → Thread V → List (Obs V) → Prop where
  | meddle {a : Move V} {inner : ExecInner V} {stack : List Frame} {out : List (Obs V)}
      (calm : ∀ message, a ≠ .panic message) (meddled : Meddled s.inner inner out)
      (same : stack.filter Frame.ofLoop = s.stack.filter Frame.ofLoop) : Stepped s a ⟨inner, stack⟩ out
  | enter (idle : s.inner.running = false) :
      Stepped s .runUntilIdle ⟨{ s.inner with running := true, control := .looping }, .draining :: s.stack⟩ []
  | turn {below : List Frame} (top : s.stack = .draining :: below) :
      Stepped s .turn (s.turn below).1 (s.turn below).2
  | leave {a : Move V} {upper below : List Frame} {id : TaskId} {inner : ExecInner V} {stack : List Frame}
      {out : List (Obs V)} (cut : s.stack = upper ++ .polling id :: below)
      (clear : ∀ frame ∈ upper, frame.isPolling = false) (left : Left id s.inner inner out)
      (same : stack.filter Frame.ofLoop = below.filter Frame.ofLoop) : Stepped s a ⟨inner, stack⟩ out
  | escape {message : String} (clear : ∀ frame ∈ s.stack, frame.isPolling = false) :
      Stepped s (.panic message) ⟨{ s.inner with control := .outside }, []⟩ []

theorem cancel_stepped (s : Thread V) (id : TaskId) :
    Stepped s (.cancel id) (s.cancel id).1 (s.cancel id).2 := by
  refine .meddle (by simp) (cancel_meddled s.inner id) ?_
  split_ifs
  · exact List.filter_cons_of_neg (by simp [Frame.ofLoop])
  · rfl

/-- A panic unwinds down to the innermost poll, or out of the executor. -/
theorem panic_cases (s : Thread V) (message : String) :
    (∃ upper id below, s.stack = upper ++ .polling id :: below ∧ (∀ frame ∈ upper, frame.isPolling = false) ∧
      s.panic message = (⟨catchPanic s.inner id,
        .discarding id (((s.inner.tasks id).map TaskEntry.name).getD "") message :: below⟩, [])) ∨
    (∀ frame ∈ s.stack, frame.isPolling = false) ∧
      s.panic message = (⟨{ s.inner with control := .outside }, []⟩, []) := by
  have cut := List.takeWhile_append_dropWhile (p := fun frame : Frame => !frame.isPolling) (l := s.stack)
  have clear : ∀ frame ∈ s.stack.takeWhile (fun frame => !frame.isPolling), frame.isPolling = false := by
    intro frame member
    simpa using List.mem_takeWhile_imp member
  cases found : s.stack.dropWhile (fun frame => !frame.isPolling) with
  | nil =>
    rw [found, List.append_nil] at cut
    rw [cut] at clear
    refine .inr ⟨clear, ?_⟩
    rw [Thread.panic, found]
  | cons frame below =>
    have polling : frame.isPolling = true := by
      simpa [found] using List.head_dropWhile_not (fun frame : Frame => !frame.isPolling) (l := s.stack) (by simp [found])
    cases frame with
    | polling id =>
      rw [found] at cut
      refine .inl ⟨_, id, below, cut.symm, clear, ?_⟩
      rw [Thread.panic, found]
    | _ => cases polling

theorem panic_stepped (s : Thread V) (message : String) :
    Stepped s (.panic message) (s.panic message).1 (s.panic message).2 := by
  rcases panic_cases s message with ⟨upper, id, below, cut, clear, same⟩ | ⟨clear, same⟩
  · rw [same]
    exact .leave cut clear (catchPanic_left s.inner id) (List.filter_cons_of_neg (by simp [Frame.ofLoop]))
  · rw [same]
    exact .escape clear

/-- An accepted step does one of the five. -/
theorem stepped_of_step {s t : Thread V} {a : Move V} {out : List (Obs V)} (moved : s.step a = some (t, out)) :
    Stepped s a t out := by
  have lifted {result : ExecInner V × List (Obs V)} {stack : List Frame} (calm : ∀ message, a ≠ .panic message)
      (meddled : Meddled s.inner result.1 result.2)
      (same : stack.filter Frame.ofLoop = s.stack.filter Frame.ofLoop)
      (now : some (Thread.lift { s with stack := stack } result) = some (t, out)) : Stepped s a t out := by
    cases now
    exact .meddle calm meddled same
  have still : Meddled s.inner s.inner [] :=
    ⟨rfl, rfl, rfl, Nat.le_refl _, fun _ => (·), fun _ => (·), fun _ => .inl rfl, by simp⟩
  cases a with
  | spawnNamed name => exact lifted (by simp) (spawnNamed_meddled s.inner name) rfl (Option.ite_none_right_eq_some.mp moved).2
  | wake waker => exact lifted (by simp) (wake_meddled s.inner [waker]) rfl (Option.ite_none_right_eq_some.mp moved).2
  | cancel id =>
    have stepped := cancel_stepped s id
    rwa [Option.some.inj (Option.ite_none_right_eq_some.mp moved).2] at stepped
  | cancelAfter watermark order =>
    obtain ⟨-, same⟩ := Option.ite_none_right_eq_some.mp moved
    cases same
    exact .meddle (by simp) still (List.filter_cons_of_neg (by simp [Frame.ofLoop]))
  | pollHandle id waker =>
    exact lifted (by simp) (pollHandle_meddled s.inner id waker) rfl (Option.ite_none_right_eq_some.mp moved).2
  | takeResult id => exact lifted (by simp) (takeResult_meddled s.inner id) rfl (Option.ite_none_right_eq_some.mp moved).2
  | setFailureSink =>
    obtain ⟨-, same⟩ := Option.ite_none_right_eq_some.mp moved
    cases same
    exact .meddle (by simp) ⟨rfl, rfl, rfl, Nat.le_refl _, fun _ => (·), fun _ => (·), fun _ => .inl rfl, by simp⟩ rfl
  | runUntilIdle =>
    obtain ⟨-, same⟩ := Option.ite_none_right_eq_some.mp moved
    cases running : s.inner.running with
    | true =>
      simp only [Thread.runUntilIdle, Executor.runUntilIdle, running, ↓reduceIte, Option.some.injEq, Prod.mk.injEq] at same
      obtain ⟨rfl, rfl⟩ := same
      exact .meddle (by simp) { still with tasks := fun _ => .inl rfl, quiet := by simp [Obs.ofTurn] } rfl
    | false =>
      simp only [Thread.runUntilIdle, Executor.runUntilIdle, running, Bool.false_eq_true, ↓reduceIte, Option.some.injEq,
        Prod.mk.injEq] at same
      obtain ⟨rfl, rfl⟩ := same
      exact .enter running
  | turn =>
    simp only [Thread.step] at moved
    split at moved
    · next below top =>
      have turned := Stepped.turn top
      rwa [Option.some.inj moved] at turned
    · cases moved
  | next =>
    simp only [Thread.step] at moved
    split at moved
    · next below top =>
      cases moved
      exact .meddle (by simp) still (by rw [top]; exact (List.filter_cons_of_neg (by simp [Frame.ofLoop])).symm)
    · next id rest below top =>
      have cancelled := cancel_meddled s.inner id
      cases moved
      refine .meddle (by simp) cancelled ?_
      rw [top]
      split_ifs <;> simp [Frame.ofLoop]
    · cases moved
  | dropped =>
    simp only [Thread.step] at moved
    split at moved
    · next below top =>
      cases moved
      exact .meddle (by simp) still (by rw [top]; exact (List.filter_cons_of_neg (by simp [Frame.ofLoop])).symm)
    · next id name message below top =>
      exact lifted (by simp) (failTask_meddled s.inner id name message) (by simp [top, Frame.ofLoop]) moved
    · cases moved
  | pollReady value =>
    simp only [Thread.step] at moved
    split at moved
    · next id below top =>
      cases moved
      have cut : s.stack = [] ++ .polling id :: below := top
      exact .leave cut (by simp) (pollReady_left s.inner id value) (by simp [Frame.ofLoop])
    · cases moved
  | pollPending =>
    simp only [Thread.step] at moved
    split at moved
    · next id below top =>
      cases moved
      have cut : s.stack = [] ++ .polling id :: below := top
      exact .leave cut (by simp) (park_left s.inner id) (by simp [Frame.ofLoop])
    · cases moved
  | panic message =>
    have stepped := panic_stepped s message
    rwa [Option.some.inj (Option.ite_none_right_eq_some.mp moved).2] at stepped

/-! ## What holds of every reachable stack -/

/-- The stack, the control and the entries agree. -/
structure Sound (s : Thread V) : Prop where
  frames : s.stack.filter Frame.ofLoop = s.inner.control.frames
  current : ∀ id, s.inner.currentlyPolling = some id ↔ s.inner.control = .polling id
  busy : s.inner.control ≠ .outside → s.inner.running = true
  born : ∀ id entry, s.inner.tasks id = some entry → id < s.inner.nextId
  polled : ∀ id, s.inner.control = .polling id →
    id < s.inner.nextId ∧ ∀ entry, s.inner.tasks id = some entry → entry.state = .running
  queued : Queued s.inner

theorem sound_init : Sound (Thread.init V) where
  frames := rfl
  current _ := by simp [Thread.init, init]
  busy outside := absurd rfl outside
  born _ _ live := by cases live
  polled _ polling := by cases polling
  queued _ _ live := by cases live

section Frames

variable {s : Thread V}

/-- `run_until_idle` is in progress exactly when its frame is there. -/
theorem Sound.draining_iff (sound : Sound s) : .draining ∈ s.stack ↔ s.inner.control ≠ .outside := by
  have frames : Frame.draining ∈ s.inner.control.frames ↔ s.inner.control ≠ .outside := by
    cases s.inner.control <;> simp [Control.frames]
  rw [← frames, ← sound.frames, List.mem_filter]
  exact ⟨fun member => ⟨member, rfl⟩, And.left⟩

theorem Sound.of_draining (sound : Sound s) {below : List Frame} (top : s.stack = .draining :: below) :
    s.inner.control = .looping ∧ below.filter Frame.ofLoop = [] := by
  have frames := sound.frames
  rw [top, List.filter_cons_of_pos rfl] at frames
  cases control : s.inner.control with
  | looping => exact ⟨rfl, by simpa [control, Control.frames] using frames⟩
  | _ => simp [control, Control.frames] at frames

/-- Only one poll is in progress, and it lies right above its loop. -/
theorem Sound.of_polling (sound : Sound s) {upper below : List Frame} {id : TaskId}
    (cut : s.stack = upper ++ .polling id :: below) (clear : ∀ frame ∈ upper, frame.isPolling = false) :
    s.inner.control = .polling id ∧ below.filter Frame.ofLoop = [.draining] := by
  have frames := sound.frames
  rw [cut, List.filter_append, List.filter_cons_of_pos rfl] at frames
  cases above : upper.filter Frame.ofLoop with
  | nil =>
    rw [above, List.nil_append] at frames
    cases control : s.inner.control with
    | polling other =>
      simp only [control, Control.frames, List.cons.injEq, Frame.polling.injEq] at frames
      exact ⟨by rw [frames.1], frames.2⟩
    | _ => simp [control, Control.frames] at frames
  | cons frame rest =>
    exfalso
    have member : frame ∈ upper := (List.mem_filter.mp (above ▸ List.mem_cons_self)).1
    rw [above] at frames
    cases control : s.inner.control with
    | outside => simp [control, Control.frames] at frames
    | looping => simp [control, Control.frames] at frames
    | polling other =>
      simp only [control, Control.frames, List.cons_append, List.cons.injEq] at frames
      have polling := clear frame member
      rw [frames.1] at polling
      cases polling

/-- A panic with no poll around it finds none in progress. -/
theorem Sound.of_clear (sound : Sound s) (clear : ∀ frame ∈ s.stack, frame.isPolling = false) (id : TaskId) :
    s.inner.control ≠ .polling id := by
  intro control
  have member : Frame.polling id ∈ s.stack.filter Frame.ofLoop := by simp [sound.frames, control, Control.frames]
  cases clear _ (List.mem_filter.mp member).1

end Frames

@[simp] theorem restate_tasks (s : ExecInner V) (id : TaskId) (entry : TaskEntry) (state : TaskState) :
    (restate s id entry state).tasks = Function.update s.tasks id (some { entry with state := state }) := rfl

/-- The front of the queue is stale, or its poll begins. -/
theorem pollTask_cases (s : ExecInner V) (id : TaskId) :
    pollTask s id = (s, []) ∧ (∀ entry, s.tasks id = some entry → entry.state ≠ .scheduled) ∨
      ∃ entry, s.tasks id = some entry ∧ entry.state = .scheduled ∧
        pollTask s id = ({ restate s id entry .running with currentlyPolling := some id, control := .polling id },
          [.pollBegan id]) := by
  unfold pollTask
  split
  · next gone => exact .inl ⟨rfl, fun entry live => by cases gone.symm.trans live⟩
  · next entry live =>
    split_ifs with scheduled
    · exact .inr ⟨entry, live, scheduled, rfl⟩
    · exact .inl ⟨rfl, fun entry' live' => Option.some.inj (live.symm.trans live') ▸ scheduled⟩

section Steps

variable {s t : Thread V} {a : Move V} {out : List (Obs V)}

theorem Sound.meddled (sound : Sound s) {inner : ExecInner V} {stack : List Frame} (meddled : Meddled s.inner inner out)
    (same : stack.filter Frame.ofLoop = s.stack.filter Frame.ofLoop) : Sound ⟨inner, stack⟩ := by
  refine ⟨?_, ?_, ?_, ?_, ?_, ?_⟩
  · exact same.trans (sound.frames.trans (by rw [meddled.control]))
  · simpa only [meddled.polling, meddled.control] using sound.current
  · simpa only [meddled.running, meddled.control] using sound.busy
  · intro id entry live
    rcases meddled.tasks id with kept | ⟨-, gone⟩ | ⟨-, bound, -⟩
    · exact Nat.lt_of_lt_of_le (sound.born id entry (kept.symm.trans live)) meddled.nextId
    · cases gone.symm.trans live
    · exact bound
  · intro id polling
    obtain ⟨bound, running⟩ := sound.polled id (meddled.control.symm.trans polling)
    refine ⟨Nat.lt_of_lt_of_le bound meddled.nextId, fun entry live => ?_⟩
    rcases meddled.tasks id with kept | ⟨-, gone⟩ | ⟨rfl, -⟩
    · exact running entry (kept.symm.trans live)
    · cases gone.symm.trans live
    · exact absurd bound (Nat.lt_irrefl _)
  · intro id entry live scheduled
    rcases meddled.tasks id with kept | ⟨-, gone⟩ | ⟨-, -, member, -⟩
    · exact meddled.runQueue id (sound.queued id entry (kept.symm.trans live) scheduled)
    · cases gone.symm.trans live
    · exact member

theorem Sound.left (sound : Sound s) {upper below stack : List Frame} {id : TaskId} {inner : ExecInner V}
    (cut : s.stack = upper ++ .polling id :: below) (clear : ∀ frame ∈ upper, frame.isPolling = false)
    (left : Left id s.inner inner out) (same : stack.filter Frame.ofLoop = below.filter Frame.ofLoop) :
    Sound ⟨inner, stack⟩ := by
  obtain ⟨control, frames⟩ := sound.of_polling cut clear
  refine ⟨?_, ?_, ?_, ?_, ?_, ?_⟩
  · simp only [same, frames, left.control, Control.frames]
  · simp [left.polling, left.control]
  · intro _
    rw [left.running]
    exact sound.busy (by simp [control])
  · intro other entry live
    rw [left.nextId]
    by_cases here : other = id
    · rw [here]
      exact (sound.polled id control).1
    · exact sound.born other entry ((left.others other here).symm.trans live)
  · simp [left.control]
  · intro other entry live scheduled
    rw [left.runQueue]
    by_cases here : other = id
    · subst here
      cases scheduled.symm.trans (left.own entry live)
    · exact sound.queued other entry ((left.others other here).symm.trans live) scheduled

theorem Sound.drainWoken (sound : Sound s) : Sound ⟨drainWoken s.inner, s.stack⟩ := by
  have taken := drained s.inner.woken { s.inner with woken := [] }
  have control : (Executor.drainWoken s.inner).control = s.inner.control := taken.control
  have polling : (Executor.drainWoken s.inner).currentlyPolling = s.inner.currentlyPolling := taken.polling
  have running : (Executor.drainWoken s.inner).running = s.inner.running := taken.running
  have nextId : (Executor.drainWoken s.inner).nextId = s.inner.nextId := taken.nextId
  refine ⟨?_, ?_, ?_, ?_, ?_, Queued.drained (s := { s.inner with woken := [] }) sound.queued taken⟩
  · simpa only [control] using sound.frames
  · simpa only [control, polling] using sound.current
  · simpa only [control, running] using sound.busy
  · intro id entry live
    rw [nextId]
    rcases taken.tasks id with ⟨same, -⟩ | ⟨before, was, -⟩
    · exact sound.born id entry (same.symm.trans live)
    · exact sound.born id before was
  · intro id now
    rw [nextId]
    obtain ⟨bound, runs⟩ := sound.polled id (control.symm.trans now)
    refine ⟨bound, fun entry live => ?_⟩
    rcases taken.tasks id with ⟨same, -⟩ | ⟨before, was, pending, -⟩
    · exact runs entry (same.symm.trans live)
    · cases (runs before was).symm.trans pending

/-- The front of the queue is popped. -/
theorem Sound.pollTask (sound : Sound s) (looping : s.inner.control = .looping) {below : List Frame}
    (frames : below.filter Frame.ofLoop = []) {id : TaskId} {rest : List TaskId}
    (front : s.inner.runQueue = id :: rest) {next : ExecInner V × List (Obs V)}
    (polled : pollTask { s.inner with runQueue := rest } id = next) :
    Sound ⟨next.1, match next.1.control with
      | .polling id => .polling id :: .draining :: below
      | .looping => .draining :: below
      | .outside => below⟩ := by
  have others (other : TaskId) (apart : other ≠ id) (entry : TaskEntry) (live : s.inner.tasks other = some entry)
      (scheduled : entry.state = .scheduled) : other ∈ rest := by
    have member := sound.queued other entry live scheduled
    rw [front] at member
    exact (List.mem_cons.mp member).resolve_left apart
  have idle (id : TaskId) : s.inner.currentlyPolling ≠ some id := by
    simp [sound.current id, looping]
  rcases pollTask_cases { s.inner with runQueue := rest } id with ⟨same, stale⟩ | ⟨entry, live, -, same⟩
  · obtain rfl := same.symm.trans polled
    simp only [looping]
    refine ⟨?_, by simp [idle], fun _ => sound.busy (by simp [looping]), sound.born, by simp, ?_⟩
    · rw [List.filter_cons_of_pos rfl, frames]
      rfl
    · intro other entry live scheduled
      by_cases here : other = id
      · exact absurd scheduled (stale entry (here ▸ live))
      · exact others other here entry live scheduled
  · obtain rfl := same.symm.trans polled
    have bound : id < s.inner.nextId := sound.born id entry live
    have own (entry' : TaskEntry)
        (live' : (restate { s.inner with runQueue := rest } id entry .running).tasks id = some entry') :
        entry'.state = .running := by
      rw [restate_tasks, Function.update_self] at live'
      exact (Option.some.inj live') ▸ rfl
    have apart (other : TaskId) (distinct : other ≠ id) :
        (restate { s.inner with runQueue := rest } id entry .running).tasks other = s.inner.tasks other :=
      Function.update_of_ne distinct ..
    refine ⟨?_, ?_, fun _ => sound.busy (by simp [looping]), ?_, ?_, ?_⟩
    · rw [List.filter_cons_of_pos rfl, List.filter_cons_of_pos rfl, frames]
      rfl
    · intro other
      rw [Option.some.injEq, Control.polling.injEq]
    · intro other entry' live'
      by_cases here : other = id
      · exact here ▸ bound
      · exact sound.born other entry' ((apart other here).symm.trans live')
    · intro other polling
      obtain rfl := Control.polling.inj polling
      exact ⟨bound, own⟩
    · intro other entry' live' scheduled
      by_cases here : other = id
      · subst here
        cases scheduled.symm.trans (own entry' live')
      · exact others other here entry' ((apart other here).symm.trans live') scheduled

theorem Sound.turn (sound : Sound s) {below : List Frame} (top : s.stack = .draining :: below) :
    Sound (s.turn below).1 := by
  obtain ⟨looping, frames⟩ := sound.of_draining top
  have taken := sound.drainWoken
  have control : (Executor.drainWoken s.inner).control = .looping := (drainWoken_frame s.inner).2.trans looping
  unfold Thread.turn
  cases front : (Executor.drainWoken s.inner).runQueue with
  | nil =>
    rw [turn_of_nil front]
    refine ⟨frames, ?_, fun out => absurd rfl out, taken.born, fun id polling => (by cases polling), taken.queued⟩
    intro id
    simpa [control] using taken.current id
  | cons id rest => exact taken.pollTask control frames front (turn_of_cons front).symm

theorem Sound.stepped (sound : Sound s) (stepped : Stepped s a t out) : Sound t := by
  cases stepped with
  | meddle calm meddled same => exact sound.meddled meddled same
  | enter idle =>
    have outside : s.inner.control = .outside := by
      by_contra inside
      exact absurd (sound.busy inside) (by simp [idle])
    refine ⟨?_, ?_, fun _ => rfl, sound.born, fun id polling => (by cases polling), sound.queued⟩
    · have frames := sound.frames
      simp only [outside, Control.frames] at frames
      rw [List.filter_cons_of_pos rfl, frames]
      rfl
    · intro id
      simpa [outside] using sound.current id
  | turn top => exact sound.turn top
  | leave cut clear left same => exact sound.left cut clear left same
  | escape clear =>
    refine ⟨rfl, ?_, fun out => absurd rfl out, sound.born, fun id polling => (by cases polling), sound.queued⟩
    intro id
    simpa [sound.of_clear clear id] using sound.current id

theorem Sound.step (sound : Sound s) (moved : s.step a = some (t, out)) : Sound t :=
  sound.stepped (stepped_of_step moved)

/-- Every state that a run reaches is sound. -/
theorem sound_of_run {actions : List (Move V)} {obs : List (Obs V)}
    (ran : (threads V).run (Thread.init V) actions = some (s, obs)) : Sound s :=
  (threads V).run_invariant_nil (fun s _ => Sound s) sound_init (fun sound moved => sound.step moved) ran

end Steps

/-! ## Destructors that do nothing -/

section Silent

/-- The executor's state with the calls in progress that its control stands for. -/
def Thread.ofControl (s : ExecInner V) : Thread V := ⟨s, s.control.frames⟩

theorem userRuns_ofControl {s : ExecInner V} (user : s.control ≠ .looping) : (Thread.ofControl s).userRuns = true := by
  unfold Thread.ofControl Thread.userRuns
  cases control : s.control with
  | looping => exact absurd control user
  | _ => rfl

/-- One cancellation, with a destructor that returns at once. -/
theorem cancel_silent (s : ExecInner V) (id : TaskId) (stack : List Frame) :
    ∃ actions, (threads V).run (Thread.cancel ⟨s, stack⟩ id).1 actions = some (⟨(cancel s id).1, stack⟩, []) := by
  unfold Thread.cancel
  dsimp only
  split_ifs with removed
  · exact ⟨[.dropped], rfl⟩
  · exact ⟨[], rfl⟩

/-- A loop over `cancel` whose destructors return at once. -/
theorem cancelAll_silent (s : ExecInner V) (ids : List TaskId) (below : List Frame) :
    ∃ actions, (threads V).run ⟨s, .cancelling ids :: below⟩ actions =
      some (⟨(cancelAll s ids).1, below⟩, (cancelAll s ids).2) := by
  induction ids generalizing s with
  | nil => exact ⟨[.next], rfl⟩
  | cons id rest ih =>
    obtain ⟨drop, dropped⟩ := cancel_silent s id (.cancelling rest :: below)
    obtain ⟨others, ran⟩ := ih (cancel s id).1
    refine ⟨.next :: (drop ++ others), (threads V).run_cons_eq_some_iff.mpr ⟨_, _, _, rfl, ?_, rfl⟩⟩
    exact (threads V).run_append dropped ran

theorem step_polling {s : ExecInner V} {id : TaskId} (polling : s.control = .polling id) :
    Thread.ofControl s = ⟨s, [.polling id, .draining]⟩ := by
  rw [Thread.ofControl, polling, Control.frames]

@[simp] theorem cancelAll_control_park (s : ExecInner V) (id : TaskId) (ids : List TaskId) :
    (cancelAll (park s id) ids).1.control = .looping := by
  rw [cancelAll_control]
  exact (park_left s id).control

/-- An action of the executor, with destructors that return at once. -/
theorem Transition.silent {s : ExecInner V} {obs : List (Obs V)} {a : Action V} {next : ExecInner V × List (Obs V)}
    (moved : Transition s a next) (books : Books s obs) :
    ∃ actions, (threads V).run (Thread.ofControl s) actions = some (Thread.ofControl next.1, next.2) := by
  have one (move : Move V) (taken : (Thread.ofControl s).step move = some (Thread.ofControl next.1, next.2)) :
      ∃ actions, (threads V).run (Thread.ofControl s) actions = some (Thread.ofControl next.1, next.2) :=
    ⟨[move], ((threads V).run_singleton _ _).trans taken⟩
  have lifted (move : Move V) (control : next.1.control = s.control)
      (taken : (Thread.ofControl s).step move = some ((Thread.ofControl s).lift next)) :
      ∃ actions, (threads V).run (Thread.ofControl s) actions = some (Thread.ofControl next.1, next.2) :=
    one move (by rw [taken, Thread.lift, Thread.ofControl, Thread.ofControl, control])
  cases moved with
  | turn looping =>
    refine one .turn ?_
    simp only [Thread.ofControl, Thread.step, looping, Control.frames, Thread.turn]
    cases (Executor.turn s).1.control <;> rfl
  | pollReady id value polling =>
    refine ⟨[.pollReady value, .dropped], ?_⟩
    rw [step_polling polling, (threads V).run_cons_eq_some_iff]
    exact ⟨_, _, [], rfl, rfl, (List.append_nil _).symm⟩
  | pollPending id polling =>
    obtain ⟨actions, ran⟩ := cancelAll_silent (park s id) s.cancelPending [.draining]
    refine ⟨.pollPending :: actions, ?_⟩
    rw [step_polling polling, (threads V).run_cons_eq_some_iff]
    refine ⟨⟨park s id, .cancelling s.cancelPending :: [.draining]⟩, [], _, rfl, ran.trans ?_, rfl⟩
    rw [show Executor.pollPending s id = cancelAll (park s id) s.cancelPending from rfl, Thread.ofControl,
      cancelAll_control_park, Control.frames]
  | pollPanic id message polling =>
    refine ⟨[.panic message, .dropped], ?_⟩
    rw [step_polling polling, (threads V).run_cons_eq_some_iff]
    exact ⟨_, [], _, rfl, rfl, (List.append_nil _).symm⟩
  | spawnNamed name user =>
    exact lifted (.spawnNamed name) rfl (if_pos (userRuns_ofControl user))
  | wake waker user => exact lifted (.wake waker) rfl (if_pos (userRuns_ofControl user))
  | cancel id user =>
    obtain ⟨actions, ran⟩ := cancel_silent s id s.control.frames
    refine ⟨.cancel id :: actions, (threads V).run_cons_eq_some_iff.mpr ⟨_, (Executor.cancel s id).2, [], ?_, ran.trans ?_, ?_⟩⟩
    · exact if_pos (userRuns_ofControl user)
    · rw [Thread.ofControl, cancel_control]
    · exact (List.append_nil _).symm
  | pollHandle id waker user born =>
    refine lifted (.pollHandle id waker) (pollHandle_frame s id waker).2 ?_
    exact if_pos ⟨userRuns_ofControl user, born⟩
  | takeResult id user born =>
    refine lifted (.takeResult id) (takeResult_frame s id).2 ?_
    exact if_pos ⟨userRuns_ofControl user, born⟩
  | setFailureSink user =>
    exact lifted .setFailureSink rfl (if_pos (userRuns_ofControl user))
  | runUntilIdle user =>
    refine one .runUntilIdle ((if_pos (userRuns_ofControl user)).trans ?_)
    simp only [Thread.runUntilIdle, Executor.runUntilIdle, Thread.ofControl]
    by_cases running : s.running = true
    · simp only [running, ↓reduceIte]
    · have outside : s.control = .outside := not_not.mp (mt books.layout.running.mpr running)
      simp only [running, outside, Bool.false_eq_true, ↓reduceIte, Control.frames]

/-- The executor is the one whose destructors do nothing. -/
theorem executor_simulated :
    (machine V).Simulates (threads V) (fun s => ∃ obs, Books s obs) Thread.ofControl fun _ => true := by
  rintro s a t out ⟨obs, books⟩ stepped
  refine ⟨⟨_, books.step stepped⟩, ?_⟩
  rw [List.filter_true]
  exact (transition_of_step stepped).silent books

end Silent

end Rustdv.Executor
