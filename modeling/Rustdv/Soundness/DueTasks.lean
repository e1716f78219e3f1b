import Rustdv.Soundness.Survival

/-! # Tasks that are due

A task that is due is polled before the loop returns, is cancelled, or will never be polled. Whatever
holds throughout a run of the loop holds where the poll of such a task begins.
-/

namespace Rustdv.Executor

variable {V : Type*} {s t : Thread V} {a : Move V} {out : List (Obs V)} {id : TaskId}

/-- There is no such task any more. -/
def Gone (s : Thread V) (id : TaskId) : Prop :=
  id < s.inner.nextId ∧ s.inner.tasks id = none ∧ s.inner.control ≠ .polling id

/-- If the task is ever polled again, it is polled by the loop that is running, and `safe` holds. -/
def Secured (safe : Prop) (s : Thread V) (id : TaskId) : Prop :=
  Stuck s ∨ Gone s id ∨ s.inner.control ≠ .outside ∧ safe ∧ Due s.inner id

/-- A live task is scheduled, pending, or the one that is polled. -/
def Entries (s : Thread V) : Prop :=
  ∀ id entry, s.inner.tasks id = some entry →
    entry.state = .scheduled ∨ entry.state = .pending ∨ s.inner.control = .polling id

/-- After the wakes are taken in, a turn pops a stale id, begins a poll, or returns. -/
theorem turn_cases (s : Thread V) (below : List Frame) :
    (drainWoken s.inner).runQueue = [] ∧ s.turn below =
        (⟨{ drainWoken s.inner with running := false, control := .outside }, below⟩, [.idled]) ∨
      ∃ first rest, (drainWoken s.inner).runQueue = first :: rest ∧
        ((∀ entry, (drainWoken s.inner).tasks first = some entry → entry.state ≠ .scheduled) ∧
            (s.turn below).1.inner = { drainWoken s.inner with runQueue := rest } ∧ (s.turn below).2 = [] ∨
          ∃ entry, (drainWoken s.inner).tasks first = some entry ∧ entry.state = .scheduled ∧
            (s.turn below).1.inner =
              { restate { drainWoken s.inner with runQueue := rest } first entry .running with
                currentlyPolling := some first, control := .polling first } ∧
            (s.turn below).2 = [.pollBegan first]) := by
  unfold Thread.turn
  cases front : (drainWoken s.inner).runQueue with
  | nil =>
    rw [turn_of_nil front]
    exact .inl ⟨rfl, rfl⟩
  | cons first rest =>
    rw [turn_of_cons front]
    refine .inr ⟨first, rest, rfl, ?_⟩
    rcases pollTask_cases { drainWoken s.inner with runQueue := rest } first with
      ⟨same, stale⟩ | ⟨entry, live, scheduled, same⟩
    · rw [same]
      exact .inl ⟨stale, rfl, rfl⟩
    · rw [same]
      exact .inr ⟨entry, live, scheduled, rfl, rfl⟩

theorem drainWoken_gone (gone : s.inner.tasks id = none) : (drainWoken s.inner).tasks id = none := by
  rcases (drained s.inner.woken { s.inner with woken := [] }).tasks id with ⟨same, -⟩ | ⟨entry, live, -⟩
  · exact same.trans gone
  · cases gone.symm.trans live

theorem Entries.stepped (entries : Entries s) (sound : Sound s) (stepped : Stepped s a t out) : Entries t := by
  cases stepped with
  | meddle calm meddled same =>
    intro id entry live
    simp only [meddled.control]
    rcases meddled.tasks id with kept | ⟨-, gone⟩ | ⟨-, -, -, name, new⟩
    · exact entries id entry (kept.symm.trans live)
    · cases gone.symm.trans live
    · cases new.symm.trans live
      exact .inl rfl
  | enter idle =>
    intro id entry live
    refine (entries id entry live).imp_right (·.imp_right fun polling => ?_)
    have busy := sound.busy (by simp [polling])
    cases idle.symm.trans busy
  | @turn below top =>
    have looping := (sound.of_draining top).1
    have taken := drained s.inner.woken { s.inner with woken := [] }
    have idle (id : TaskId) (entry : TaskEntry) (live : (drainWoken s.inner).tasks id = some entry) :
        entry.state = .scheduled ∨ entry.state = .pending := by
      rcases taken.tasks id with ⟨same, -⟩ | ⟨before, -, -, now, -⟩
      · rcases entries id entry (same.symm.trans live) with scheduled | pending | polling
        · exact .inl scheduled
        · exact .inr pending
        · cases looping.symm.trans polling
      · cases now.symm.trans live
        exact .inl rfl
    rcases turn_cases s below with ⟨-, same⟩ | ⟨first, rest, -, ⟨-, same, -⟩ | ⟨entry, live, -, same, -⟩⟩
    · rw [same]
      exact fun id entry live => (idle id entry live).imp_right .inl
    · intro id entry live
      rw [same] at live
      exact (idle id entry live).imp_right .inl
    · intro id entry' live'
      rw [same] at live' ⊢
      by_cases here : id = first
      · exact .inr (.inr (by rw [here]))
      · refine (idle id entry' ?_).imp_right .inl
        exact (Function.update_of_ne here ..).symm.trans live'
  | @leave _ upper below id inner stack _ cut clear left same =>
    have polling := (sound.of_polling cut clear).1
    intro other entry live
    by_cases here : other = id
    · subst here
      exact .inr (.inl (left.own entry live))
    · rcases entries other entry ((left.others other here).symm.trans live) with scheduled | pending | now
      · exact .inl scheduled
      · exact .inr (.inl pending)
      · exact absurd (Control.polling.inj (now.symm.trans polling)) here
  | escape clear =>
    intro id entry live
    refine (entries id entry live).imp_right (·.imp_right fun polling => ?_)
    exact absurd polling (sound.of_clear clear id)

theorem Gone.stepped (gone : Gone s id) (sound : Sound s) (stepped : Stepped s a t out) :
    .pollBegan id ∉ out ∧ Gone t id := by
  obtain ⟨born, absent, apart⟩ := gone
  have unpolled {shown : List (Obs V)} (quiet : ∀ o ∈ shown, o.ofTurn = false) : .pollBegan id ∉ shown := by
    intro member
    cases quiet _ member
  cases stepped with
  | meddle calm meddled same =>
    refine ⟨unpolled meddled.quiet, Nat.lt_of_lt_of_le born meddled.nextId, ?_, ?_⟩
    · rcases meddled.tasks id with kept | ⟨-, gone⟩ | ⟨rfl, -⟩
      · exact kept.trans absent
      · exact gone
      · exact absurd born (Nat.lt_irrefl _)
    · rw [meddled.control]
      exact apart
  | enter idle => exact ⟨List.not_mem_nil, born, absent, by simp⟩
  | @turn below top =>
    have control : (drainWoken s.inner).control ≠ .polling id := by
      rw [(drainWoken_frame s.inner).2]
      exact apart
    have nextId : (drainWoken s.inner).nextId = s.inner.nextId :=
      (drained s.inner.woken { s.inner with woken := [] }).nextId
    have none := drainWoken_gone absent
    rcases turn_cases s below with ⟨-, same⟩ | ⟨first, rest, -, ⟨-, same, shown⟩ | ⟨entry, live, -, same, shown⟩⟩
    · rw [same]
      exact ⟨by simp, nextId.symm ▸ born, none, by simp⟩
    · rw [Gone, same, shown]
      exact ⟨List.not_mem_nil, nextId.symm ▸ born, none, control⟩
    · have distinct : id ≠ first := by
        rintro rfl
        cases none.symm.trans live
      rw [Gone, same, shown]
      refine ⟨by simp [distinct], nextId.symm ▸ born, ?_, by simp [distinct.symm]⟩
      exact (Function.update_of_ne distinct ..).trans none
  | @leave _ upper below other inner stack _ cut clear left same =>
    have polling := (sound.of_polling cut clear).1
    have distinct : id ≠ other := by
      rintro rfl
      exact apart polling
    refine ⟨unpolled left.quiet, left.nextId.symm ▸ born, (left.others id distinct).trans absent, ?_⟩
    rw [left.control]
    simp
  | escape clear => exact ⟨List.not_mem_nil, born, absent, by simp⟩

/-- A task that is due is polled, or cancelled, or still due with the loop running, or the loop is stuck. -/
theorem Sound.due_stepped {safe : Prop} (sound : Sound s) (busy : s.inner.control ≠ .outside) (holds : safe)
    (due : Due s.inner id) (stepped : Stepped s a t out) :
    .pollBegan id ∈ out ∧ t.inner.control = .polling id ∨ Secured safe t id := by
  obtain ⟨entry, live, owed⟩ := due
  have unpolled : s.inner.control ≠ .polling id := by
    intro polling
    have running := (sound.polled id polling).2 entry live
    rcases owed with scheduled | ⟨pending, -⟩
    · cases running.symm.trans scheduled
    · cases running.symm.trans pending
  cases stepped with
  | meddle calm meddled same =>
    refine .inr (.inr ?_)
    rcases meddled.tasks id with kept | ⟨-, gone⟩ | ⟨-, -, -, name, new⟩
    · refine .inr ⟨meddled.control ▸ busy, holds, entry, kept.trans live, ?_⟩
      exact owed.imp_right fun ⟨pending, woken⟩ => ⟨pending, meddled.woken id woken⟩
    · exact .inl ⟨Nat.lt_of_lt_of_le (sound.born id entry live) meddled.nextId, gone, meddled.control ▸ unpolled⟩
    · exact .inr ⟨meddled.control ▸ busy, holds, _, new, .inl rfl⟩
  | enter idle => cases idle.symm.trans (sound.busy busy)
  | @turn below top =>
    obtain ⟨looping, -⟩ := sound.of_draining top
    obtain ⟨entry', live', scheduled⟩ := Due.scheduled ⟨entry, live, owed⟩
    have queued : id ∈ (Executor.drainWoken s.inner).runQueue := sound.drainWoken.queued id entry' live' scheduled
    rcases turn_cases s below with
      ⟨empty, -⟩ | ⟨first, rest, front, ⟨stale, same, -⟩ | ⟨_, -, -, same, shown⟩⟩
    · rw [empty] at queued
      cases queued
    · refine .inr (.inr (.inr ⟨?_, holds, ?_⟩))
      · rw [same]
        simp [(drainWoken_frame s.inner).2, looping]
      · rw [same]
        exact ⟨entry', live', .inl scheduled⟩
    · by_cases here : id = first
      · rw [same, shown, here]
        exact .inl ⟨List.mem_singleton.mpr rfl, rfl⟩
      · refine .inr (.inr (.inr ⟨by simp [same], holds, ?_⟩))
        rw [same]
        exact ⟨entry', (Function.update_of_ne here ..).trans live', .inl scheduled⟩
  | @leave _ upper below other inner stack _ cut clear left same =>
    have polling := (sound.of_polling cut clear).1
    have distinct : id ≠ other := by
      rintro rfl
      exact unpolled polling
    refine .inr (.inr (.inr ⟨by simp [left.control], holds, entry, (left.others id distinct).trans live, ?_⟩))
    exact owed.imp_right fun ⟨pending, woken⟩ => ⟨pending, left.woken id woken⟩
  | escape clear => exact .inr (.inl ⟨sound.busy busy, rfl⟩)

theorem Secured.stepped {safe : Prop} (secured : Secured safe s id) (sound : Sound s) (stepped : Stepped s a t out) :
    .pollBegan id ∈ out ∧ safe ∧ t.inner.control = .polling id ∨ Secured safe t id := by
  rcases secured with stuck | gone | ⟨busy, holds, due⟩
  · exact .inr (.inl (stuck.step sound stepped).1)
  · exact .inr (.inr (.inl (gone.stepped sound stepped).2))
  · exact (sound.due_stepped busy holds due stepped).imp_left fun ⟨polled, control⟩ => ⟨polled, holds, control⟩

/-- Where its poll begins, it is safe. -/
theorem Secured.of_polled {safe : Prop} (secured : Secured safe s id) (sound : Sound s) (stepped : Stepped s a t out)
    (polled : .pollBegan id ∈ out) : safe := by
  rcases secured with stuck | gone | ⟨-, holds, -⟩
  · cases (stuck.step sound stepped).2 _ polled
  · exact absurd polled (gone.stepped sound stepped).1
  · exact holds

/-- Outside of the loop nothing is due, so it does not matter what is safe. -/
theorem Secured.outside {safe safe' : Prop} (secured : Secured safe s id) (outside : s.inner.control = .outside) :
    Secured safe' s id := by
  rcases secured with stuck | gone | ⟨busy, -⟩
  · exact .inl stuck
  · exact .inr (.inl gone)
  · exact absurd outside busy

/-- A woken task is secured when the loop is entered. -/
theorem secured_of_woken {safe : Prop} (entries : Entries s) (born : id < s.inner.nextId)
    (outside : s.inner.control = .outside) (woken : id ∈ s.inner.woken) (holds : safe) :
    Secured safe (⟨{ s.inner with running := true, control := .looping }, .draining :: s.stack⟩ : Thread V) id := by
  cases there : s.inner.tasks id with
  | none => exact .inr (.inl ⟨born, there, by simp⟩)
  | some entry =>
    refine .inr (.inr ⟨by simp, holds, entry, there, ?_⟩)
    rcases entries id entry there with scheduled | pending | polling
    · exact .inl scheduled
    · exact .inr ⟨pending, woken⟩
    · cases outside.symm.trans polling

theorem Stepped.nextId_le (stepped : Stepped s a t out) : s.inner.nextId ≤ t.inner.nextId := by
  cases stepped with
  | meddle calm meddled same => exact meddled.nextId
  | enter idle => exact Nat.le_refl _
  | @turn below top =>
    have nextId : (drainWoken s.inner).nextId = s.inner.nextId :=
      (drained s.inner.woken { s.inner with woken := [] }).nextId
    rcases turn_cases s below with ⟨-, same⟩ | ⟨first, rest, -, ⟨-, same, -⟩ | ⟨entry, -, -, same, -⟩⟩
    · rw [same]
      exact Nat.le_of_eq nextId.symm
    · rw [same]
      exact Nat.le_of_eq nextId.symm
    · rw [same]
      exact Nat.le_of_eq nextId.symm
  | leave cut clear left same => exact Nat.le_of_eq left.nextId.symm
  | escape clear => exact Nat.le_refl _

/-- Only the end of a poll takes the control from the task that is polled. -/
theorem Sound.control_of_step (sound : Sound s) (polling : s.inner.control = .polling id)
    (moved : s.step a = some (t, out)) :
    t.inner.control = .polling id ∨ (∃ value, a = .pollReady value) ∨ a = .pollPending ∨ ∃ message, a = .panic message := by
  cases a with
  | pollReady value => exact .inr (.inl ⟨value, rfl⟩)
  | pollPending => exact .inr (.inr (.inl rfl))
  | panic message => exact .inr (.inr (.inr ⟨message, rfl⟩))
  | spawnNamed name =>
    cases (Option.ite_none_right_eq_some.mp moved).2
    exact .inl polling
  | wake waker =>
    cases (Option.ite_none_right_eq_some.mp moved).2
    exact .inl polling
  | cancel other =>
    cases (Option.ite_none_right_eq_some.mp moved).2
    exact .inl ((cancel_meddled s.inner other).control.trans polling)
  | cancelAfter watermark order =>
    cases (Option.ite_none_right_eq_some.mp moved).2
    exact .inl polling
  | pollHandle other waker =>
    cases (Option.ite_none_right_eq_some.mp moved).2
    exact .inl ((pollHandle_meddled s.inner other waker).control.trans polling)
  | takeResult other =>
    cases (Option.ite_none_right_eq_some.mp moved).2
    exact .inl ((takeResult_meddled s.inner other).control.trans polling)
  | setFailureSink =>
    cases (Option.ite_none_right_eq_some.mp moved).2
    exact .inl polling
  | runUntilIdle =>
    have running : s.inner.running = true := sound.busy (by simp [polling])
    have same := (Option.ite_none_right_eq_some.mp moved).2
    simp only [Thread.runUntilIdle, Executor.runUntilIdle, running, ↓reduceIte, Option.some.injEq, Prod.mk.injEq] at same
    rw [← same.1]
    exact .inl polling
  | turn =>
    simp only [Thread.step] at moved
    split at moved
    · next below top => cases polling.symm.trans (sound.of_draining top).1
    · cases moved
  | next =>
    simp only [Thread.step] at moved
    split at moved
    · cases moved
      exact .inl polling
    · next other rest below top =>
      cases moved
      exact .inl ((cancel_meddled s.inner other).control.trans polling)
    · cases moved
  | dropped =>
    simp only [Thread.step] at moved
    split at moved
    · cases moved
      exact .inl polling
    · next other name message below top =>
      cases moved
      exact .inl ((failTask_meddled s.inner other name message).control.trans polling)
    · cases moved

/-- A panic that leaves the loop leaves it stuck. -/
theorem Sound.stuck_of_escape (sound : Sound s) (clear : ∀ frame ∈ s.stack, frame.isPolling = false)
    (busy : s.inner.control ≠ .outside) (message : String) : Stuck (s.panic message).1 := by
  have stepped := panic_stepped s message
  have looping : s.inner.control = .looping := by
    cases control : s.inner.control with
    | outside => exact absurd control busy
    | looping => rfl
    | polling id => exact absurd control (sound.of_clear clear id)
  obtain ⟨running, gone⟩ := sound.panic_stuck (by simp [Thread.guarded, looping]) stepped
  exact ⟨running, not_not.mp (mt (sound.stepped stepped).draining_iff.mpr gone)⟩

/-- A panic in a poll ends the task. -/
theorem Sound.panic_gone (sound : Sound s) (polling : s.inner.control = .polling id) (message : String) :
    Gone (s.panic message).1 id := by
  rcases panic_cases s message with ⟨upper, other, below, cut, clear, same⟩ | ⟨clear, -⟩
  · obtain rfl := Control.polling.inj ((sound.of_polling cut clear).1.symm.trans polling)
    rw [Gone, same]
    exact ⟨(sound.polled other polling).1, Function.update_self .., by simp [catchPanic]⟩
  · exact absurd polling (sound.of_clear clear id)

/-- The poll on top of the stack is of the task in control. -/
theorem Sound.eq_of_top (sound : Sound s) (polling : s.inner.control = .polling id)
    (top : s.stack = .polling other :: below) : other = id := by
  have cut : s.stack = [] ++ .polling other :: below := top
  exact Control.polling.inj ((sound.of_polling cut (by simp)).1.symm.trans polling)

/-- A task that returns is gone. -/
theorem Sound.ready_gone (sound : Sound s) (polling : s.inner.control = .polling id) {value : V}
    (moved : s.step (.pollReady value) = some (t, out)) : Gone t id := by
  simp only [Thread.step] at moved
  split at moved
  · next other below top =>
    obtain rfl := sound.eq_of_top polling top
    cases moved
    refine ⟨(sound.polled other polling).1, Function.update_self .., ?_⟩
    simp [(pollReady_left s.inner other value).control]
  · cases moved

theorem Sound.top_of_pending (sound : Sound s) (polling : s.inner.control = .polling id)
    (moved : s.step .pollPending = some (t, out)) : s.stack.head? = some (.polling id) := by
  simp only [Thread.step] at moved
  split at moved
  · next other below top =>
    obtain rfl := sound.eq_of_top polling top
    rw [top, List.head?_cons]
  · cases moved

theorem Sound.outside_of_nil (sound : Sound s) (top : s.stack = []) : s.inner.control = .outside := by
  by_contra busy
  have member := sound.draining_iff.mpr busy
  rw [top] at member
  cases member

end Rustdv.Executor
