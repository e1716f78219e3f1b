import Rustdv.Soundness.CallStack

/-! # The executor after a panic

The poll of a task is guarded, the destructors that the loop runs itself are not: those of a task that
cancelled itself, of the future whose poll has just panicked, and of a result that nobody can claim.
As long as none of these panics, every panic leaves a loop that goes on, or no loop and a cleared flag.
One such panic leaves the flag set for good.
-/

namespace Rustdv.Executor

variable {V : Type*}

/-- No destructor that the loop runs itself panics here. -/
def Thread.guarded (s : Thread V) : Move V → Bool
  | .panic _ => s.inner.control ≠ .looping
  | _ => true

section Steps

variable {s t : Thread V} {a : Move V} {out : List (Obs V)} {id : TaskId}

/-- A turn of the loop with a task due does not end the loop, and leaves the task due unless it begins
its poll. -/
theorem Sound.due_turn (sound : Sound s) (below : List Frame) (due : Due s.inner id) :
    .idled ∉ (s.turn below).2 ∧ (.pollBegan id ∈ (s.turn below).2 ∨ Due (s.turn below).1.inner id) := by
  obtain ⟨entry, live, scheduled⟩ := due.scheduled
  have queued : id ∈ (Executor.drainWoken s.inner).runQueue := sound.drainWoken.queued id entry live scheduled
  unfold Thread.turn
  cases front : (Executor.drainWoken s.inner).runQueue with
  | nil =>
    rw [front] at queued
    cases queued
  | cons first rest =>
    rw [turn_of_cons front]
    rcases pollTask_cases { Executor.drainWoken s.inner with runQueue := rest } first with
      ⟨same, -⟩ | ⟨entry', -, -, same⟩
    · rw [same]
      exact ⟨List.not_mem_nil, .inr ⟨entry, live, .inl scheduled⟩⟩
    · rw [same]
      refine ⟨by simp, ?_⟩
      by_cases here : id = first
      · exact .inl (List.mem_singleton.mpr (by rw [here]))
      · exact .inr ⟨entry, (Function.update_of_ne here ..).trans live, .inl scheduled⟩

/-- As long as a task is due the loop does not return, and only a poll or a cancellation settles it. -/
theorem Sound.due_step (sound : Sound s) (due : Due s.inner id) (stepped : Stepped s a t out) :
    .idled ∉ out ∧ (.pollBegan id ∈ out ∨ CancelledIn id out ∨ Due t.inner id) := by
  have silent {shown : List (Obs V)} (quiet : ∀ o ∈ shown, o.ofTurn = false) : .idled ∉ shown := by
    intro member
    cases quiet _ member
  cases stepped with
  | meddle calm meddled same => exact ⟨silent meddled.quiet, .inr (due.meddled meddled)⟩
  | enter idle => exact ⟨List.not_mem_nil, .inr (.inr due)⟩
  | turn top => exact (sound.due_turn _ due).imp_right (·.imp_right .inr)
  | leave cut clear left same =>
    obtain ⟨entry, live, owed⟩ := due
    refine ⟨silent left.quiet, .inr (.inr ⟨entry, ?_, ?_⟩)⟩
    · rw [left.others id ?_]
      · exact live
      · rintro rfl
        -- the task that is polled is not due
        have running := (sound.polled id (sound.of_polling cut clear).1).2 entry live
        rcases owed with scheduled | ⟨pending, -⟩
        · cases running.symm.trans scheduled
        · cases running.symm.trans pending
    · exact owed.imp_right fun ⟨pending, woken⟩ => ⟨pending, left.woken id woken⟩
  | escape clear => exact ⟨List.not_mem_nil, .inr (.inr due)⟩

/-- A task that is due is polled or cancelled before the loop returns. -/
theorem Sound.polled_before_idle {actions : List (Move V)} {later : List (Obs V)} (sound : Sound s)
    (due : Due s.inner id) (ran : (threads V).run s actions = some (t, later)) (idled : .idled ∈ later) :
    .pollBegan id ∈ untilIdle later ∨ CancelledIn id (untilIdle later) := by
  induction actions generalizing s later with
  | nil =>
    cases ran
    cases idled
  | cons a rest ih =>
    obtain ⟨mid, first, tail, moved, suffix, rfl⟩ := (threads V).run_cons_eq_some_iff.mp ran
    have stepped := stepped_of_step moved
    obtain ⟨busy, settled⟩ := sound.due_step due stepped
    rw [untilIdle_append busy]
    rcases settled with began | ⟨joiners, cancelled⟩ | due
    · exact .inl (List.mem_append_left _ began)
    · exact .inr ⟨joiners, List.mem_append_left _ cancelled⟩
    · have later := (List.mem_append.mp idled).resolve_left busy
      rcases ih (sound.stepped stepped) due suffix later with polled | ⟨joiners, cancelled⟩
      · exact .inl (List.mem_append_right _ polled)
      · exact .inr ⟨joiners, List.mem_append_right _ cancelled⟩

/-- Outside the loop the flag is clear. -/
def Cleared (s : Thread V) : Prop := s.inner.control = .outside → s.inner.running = false

/-- No step but an unguarded panic leaves the loop with the flag set. -/
theorem Cleared.step (cleared : Cleared s) (sound : Sound s) (guarded : s.guarded a = true)
    (stepped : Stepped s a t out) : Cleared t := by
  cases stepped with
  | meddle calm meddled same =>
    intro outside
    rw [meddled.running]
    exact cleared (meddled.control.symm.trans outside)
  | enter idle => exact fun outside => by cases outside
  | @turn below top =>
    have looping : (drainWoken s.inner).control = .looping :=
      (drainWoken_frame s.inner).2.trans (sound.of_draining top).1
    intro outside
    unfold Thread.turn at outside ⊢
    cases front : (drainWoken s.inner).runQueue with
    | nil => rw [turn_of_nil front]
    | cons first rest =>
      rw [turn_of_cons front] at outside
      rcases pollTask_cases { drainWoken s.inner with runQueue := rest } first with ⟨same, -⟩ | ⟨entry, -, -, same⟩
      · rw [same] at outside
        cases looping.symm.trans outside
      · rw [same] at outside
        cases outside
  | leave cut clear left same => exact fun outside => by cases left.control.symm.trans outside
  | escape clear =>
    intro _
    refine cleared ?_
    cases control : s.inner.control with
    | outside => rfl
    | looping => simp [Thread.guarded, control] at guarded
    | polling id => exact absurd control (sound.of_clear clear id)

/-- An unguarded panic leaves the flag set and no loop to clear it. -/
theorem Sound.panic_stuck (sound : Sound s) {message : String} (exposed : s.guarded (.panic message) = false)
    (stepped : Stepped s (.panic message) t out) : t.inner.running = true ∧ .draining ∉ t.stack := by
  have looping : s.inner.control = .looping := by simpa [Thread.guarded] using exposed
  have busy : s.inner.running = true := sound.busy (by simp [looping])
  cases stepped with
  | meddle calm meddled same => exact absurd rfl (calm message)
  | leave cut clear left same => cases looping.symm.trans (sound.of_polling cut clear).1
  | escape clear => exact ⟨busy, List.not_mem_nil⟩

/-- The flag is set and there is no loop to clear it. -/
def Stuck (s : Thread V) : Prop := s.inner.running = true ∧ s.inner.control = .outside

theorem Stuck.step (stuck : Stuck s) (sound : Sound s) (stepped : Stepped s a t out) :
    Stuck t ∧ ∀ o ∈ out, o.ofTurn = false := by
  cases stepped with
  | meddle calm meddled same =>
    exact ⟨⟨meddled.running.trans stuck.1, meddled.control.trans stuck.2⟩, meddled.quiet⟩
  | enter idle => cases idle.symm.trans stuck.1
  | turn top => cases stuck.2.symm.trans (sound.of_draining top).1
  | leave cut clear left same => cases stuck.2.symm.trans (sound.of_polling cut clear).1
  | escape clear => exact ⟨⟨stuck.1, rfl⟩, by simp⟩

/-- After one unguarded panic no task is ever polled again. -/
theorem Sound.stuck_for_good (sound : Sound s) {message : String} (exposed : s.guarded (.panic message) = false)
    (moved : s.step (.panic message) = some (t, out)) {actions : List (Move V)} {u : Thread V}
    {later : List (Obs V)} (ran : (threads V).run t actions = some (u, later)) :
    u.inner.running = true ∧ .draining ∉ u.stack ∧ ∀ o ∈ later, o.ofTurn = false := by
  have stepped := stepped_of_step moved
  obtain ⟨running, gone⟩ := sound.panic_stuck exposed stepped
  have sound := sound.stepped stepped
  have stuck : Stuck t := ⟨running, not_not.mp (mt sound.draining_iff.mpr gone)⟩
  obtain ⟨⟨sound, stuck⟩, quiet⟩ := (threads V).run_invariant_nil
    (fun s obs => (Sound s ∧ Stuck s) ∧ ∀ o ∈ obs, o.ofTurn = false) ⟨⟨sound, stuck⟩, by simp⟩ (by
      rintro s t seen out a ⟨⟨sound, stuck⟩, earlier⟩ moved
      have stepped := stepped_of_step moved
      obtain ⟨stuck', now⟩ := stuck.step sound stepped
      refine ⟨⟨sound.stepped stepped, stuck'⟩, fun o member => ?_⟩
      exact (List.mem_append.mp member).elim (earlier o) (now o)) ran
  exact ⟨stuck.1, fun member => sound.draining_iff.mp member stuck.2, quiet⟩

end Steps

/-- The executor has survived whatever panicked so far. -/
structure Survives (s : Thread V) : Prop where
  /-- The flag says whether a call of `run_until_idle` is in progress. -/
  flag : s.inner.running = true ↔ .draining ∈ s.stack
  /-- If none is, the next call enters the loop. -/
  enters : s.userRuns = true → .draining ∉ s.stack →
    s.step .runUntilIdle = some (⟨{ s.inner with running := true, control := .looping }, .draining :: s.stack⟩, [])
  /-- A live task that is scheduled, or pending and woken, is polled or cancelled before the loop returns. -/
  polls : ∀ id, Due s.inner id → ∀ actions t later, (threads V).run s actions = some (t, later) → .idled ∈ later →
    .pollBegan id ∈ untilIdle later ∨ CancelledIn id (untilIdle later)

theorem Sound.survives {s : Thread V} (sound : Sound s) (cleared : Cleared s) : Survives s := by
  have flag : s.inner.running = true ↔ .draining ∈ s.stack := by
    rw [sound.draining_iff]
    refine ⟨fun running outside => ?_, sound.busy⟩
    cases running.symm.trans (cleared outside)
  refine ⟨flag, ?_, fun id due actions t later ran idled => sound.polled_before_idle due ran idled⟩
  intro user gone
  have idle : s.inner.running = false := by simpa [gone] using flag
  simp only [Thread.step, user, ↓reduceIte, Thread.runUntilIdle, Executor.runUntilIdle, idle, Bool.false_eq_true]

/-- The executor survives every panic of a run in which no destructor that the loop runs itself panics. -/
theorem panic_survival {actions : List (Move V)} {s : Thread V} {obs : List (Obs V)}
    (ran : ((threads V).restrict fun s a => s.guarded a = true).run (Thread.init V) actions = some (s, obs)) :
    Survives s := by
  have holds : Sound s ∧ Cleared s :=
    ((threads V).restrict fun s a => s.guarded a = true).run_invariant_nil (fun s _ => Sound s ∧ Cleared s)
      ⟨sound_init, fun _ => rfl⟩ (by
        intro u v seen out a holds moved
        obtain ⟨guarded, moved⟩ := (threads V).restrict_step_eq_some_iff.mp moved
        have stepped := stepped_of_step moved
        exact ⟨holds.1.stepped stepped, holds.2.step holds.1 guarded stepped⟩) ran
  exact holds.1.survives holds.2

/-- The first task cancels the third, whose destructor panics in the middle of the first one's poll;
the second is polled all the same. -/
def panicInPoll : List (Move ℕ) :=
  [.spawnNamed none, .spawnNamed none, .spawnNamed none, .runUntilIdle, .turn, .cancel 3, .panic "drop", .dropped,
    .turn, .pollReady 7, .dropped, .turn, .turn]

theorem panic_survival_in_poll :
    ∃ s obs, ((threads ℕ).restrict fun s a => s.guarded a = true).run (Thread.init ℕ) panicInPoll = some (s, obs) ∧
      s.stack = [] ∧ Survives s := by
  have seen : (((threads ℕ).restrict fun s a => s.guarded a = true).run (Thread.init ℕ) panicInPoll).map
      (fun last => last.1.stack) = some [] := by decide
  obtain ⟨⟨s, obs⟩, ran, same⟩ := Option.map_eq_some_iff.mp seen
  exact ⟨s, obs, ran, same, panic_survival ran⟩

/-- The first task cancels itself in its own poll, and its destructor panics. -/
def selfCancelled : List (Move ℕ) :=
  [.spawnNamed none, .runUntilIdle, .turn, .cancel 1, .pollPending, .next, .panic "drop", .spawnNamed none]

/-- The second task is scheduled, and no call of `run_until_idle` will poll it. -/
theorem selfCancelled_stuck :
    ∃ s obs, (threads ℕ).run (Thread.init ℕ) selfCancelled = some (s, obs) ∧ s.stack = [] ∧ Due s.inner 2 ∧
      s.step .runUntilIdle = some (s, [.nested]) ∧ ¬ Survives s := by
  have seen : ((threads ℕ).run (Thread.init ℕ) selfCancelled).map
      (fun last => (last.1.stack, last.1.inner.running, (last.1.inner.tasks 2).map TaskEntry.state)) =
        some ([], true, some .scheduled) := by decide
  obtain ⟨⟨s, obs⟩, ran, same⟩ := Option.map_eq_some_iff.mp seen
  obtain ⟨stack, running, state⟩ : s.stack = [] ∧ s.inner.running = true ∧
      (s.inner.tasks 2).map TaskEntry.state = some .scheduled := by simpa using same
  obtain ⟨entry, live, scheduled⟩ := Option.map_eq_some_iff.mp state
  refine ⟨s, obs, ran, stack, ⟨entry, live, .inl scheduled⟩, ?_, ?_⟩
  · simp only [Thread.step, Thread.userRuns, stack, ↓reduceIte, Thread.runUntilIdle, Executor.runUntilIdle, running]
    rw [← stack]
  · intro survives
    have member := survives.flag.mp running
    rw [stack] at member
    cases member

end Rustdv.Executor
