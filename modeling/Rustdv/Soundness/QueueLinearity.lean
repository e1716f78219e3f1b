import Rustdv.Machine.WaitList
import Rustdv.Model.Queue

/-! # The queue is linear and loses no wake-up

Whatever is done with the futures, the queue itself changes in five ways only (`Queue.Effect`): not
at all, by accepting an item, by giving one up, and by storing a waker on the side whose condition
fails. An item that enters wakes every getter and one that leaves wakes every putter, so a waker is
stored on a side only while that side has to wait.
-/

namespace Rustdv.Queue

variable {α : Type*}

/-- The items that entered the buffer, in order. -/
def accepted (obs : List (Obs α)) : List α :=
  obs.filterMap fun
    | .accepted item => some item
    | _ => none

/-- The items that left the buffer, in order. -/
def taken (obs : List (Obs α)) : List α :=
  obs.filterMap fun
    | .taken item => some item
    | _ => none

@[simp] theorem accepted_append (obs out : List (Obs α)) : accepted (obs ++ out) = accepted obs ++ accepted out :=
  List.filterMap_append

@[simp] theorem taken_append (obs out : List (Obs α)) : taken (obs ++ out) = taken obs ++ taken out :=
  List.filterMap_append

@[simp] theorem accepted_woke (wakers : List Waker) : accepted (woke wakers : List (Obs α)) = [] := by
  simp [accepted, woke]

@[simp] theorem taken_woke (wakers : List Waker) : taken (woke wakers : List (Obs α)) = [] := by
  simp [taken, woke]

@[simp] theorem accepted_accepted (item : α) (out : List (Obs α)) :
    accepted (.accepted item :: out) = item :: accepted out := rfl

@[simp] theorem accepted_taken (item : α) (out : List (Obs α)) :
    accepted (.taken item :: out) = accepted out := rfl

@[simp] theorem taken_taken (item : α) (out : List (Obs α)) :
    taken (.taken item :: out) = item :: taken out := rfl

@[simp] theorem taken_accepted (item : α) (out : List (Obs α)) :
    taken (.accepted item :: out) = taken out := rfl

@[simp] theorem registered_not_mem_woke (side : Side) (waker : Waker) (wakers : List Waker) :
    .registered side waker ∉ (woke wakers : List (Obs α)) := by
  simp [woke]

/-- Observations of steps that leave the queue alone. -/
def Obs.idle : Obs α → Bool
  | .refused _ | .peeked _ | .spacious | .nothing | .panicked => true
  | .woke _ | .registered .. | .accepted _ | .taken _ => false

/-- Everything a step can do to the queue, with what it shows. -/
inductive Effect (queue : Queue α) : Queue α → List (Obs α) → Prop where
  | idle (out : List (Obs α)) (quiet : ∀ o ∈ out, o.idle) : Effect queue queue out
  | accept (item : α) (space : queue.hasSpace = true) :
      Effect queue (queue.accept item).1 (.accepted item :: woke queue.getWaiters)
  | take (item : α) (rest : List α) (front : queue.buf = item :: rest) :
      Effect queue { queue with buf := rest, putWaiters := [] } (.taken item :: woke queue.putWaiters)
  | awaitItem (waker : Waker) (empty : queue.buf = []) :
      Effect queue { queue with getWaiters := queue.getWaiters ++ [waker] } [.registered .getters waker]
  | awaitSpace (waker : Waker) (full : queue.hasSpace = false) :
      Effect queue { queue with putWaiters := queue.putWaiters ++ [waker] } [.registered .putters waker]

section Step

variable {s t : System α} {a : Action α} {out : List (Obs α)}

theorem effect_pollFut (s : System α) (ref : FutRef) (waker : Waker) (fut : Fut α) :
    Effect s.queue (pollFut s ref waker fut).1.queue (pollFut s ref waker fut).2 := by
  have space : s.queue.hasSpace = true ∨ s.queue.hasSpace = false := by
    cases s.queue.hasSpace <;> simp
  have front : s.queue.buf = [] ∨ ∃ item rest, s.queue.buf = item :: rest := by
    cases s.queue.buf <;> simp
  cases fut with
  | put item =>
    cases item with
    | some item =>
      rcases space with room | full
      · simp only [pollFut, pollPut, room, if_true]
        exact .accept item room
      · simp only [pollFut, pollPut, full, Bool.false_eq_true, if_false]
        exact .awaitSpace waker full
    | none =>
      rcases space with room | full
      · simp only [pollFut, pollSpace, room, if_true]
        exact .idle _ (by simp [Obs.idle])
      · simp only [pollFut, pollSpace, full, Bool.false_eq_true, if_false]
        exact .awaitSpace waker full
  | get =>
    rcases front with empty | ⟨item, rest, front⟩
    · simp only [pollFut, pollGet, tryGet_of_nil empty]
      exact .awaitItem waker empty
    · simp only [pollFut, pollGet, tryGet_of_cons front]
      exact .take item rest front
  | peek =>
    rcases front with empty | ⟨item, rest, front⟩
    · simp only [pollFut, pollPeek, tryPeek_of_nil empty]
      exact .awaitItem waker empty
    · simp only [pollFut, pollPeek, tryPeek_of_cons front]
      exact .idle _ (by simp [Obs.idle])
  | space =>
    rcases space with room | full
    · simp only [pollFut, pollSpace, room, if_true]
      exact .idle _ (by simp [Obs.idle])
    · simp only [pollFut, pollSpace, full, Bool.false_eq_true, if_false]
      exact .awaitSpace waker full

theorem effect_of_step (stepped : step s a = some (t, out)) : Effect s.queue t.queue out := by
  cases a with
  | put item | get | peek | waitForSpace =>
    cases stepped
    exact .idle _ (by simp)
  | poll ref waker =>
    obtain ⟨fut, -, polled⟩ := Option.map_eq_some_iff.mp stepped
    have effect := effect_pollFut s ref waker fut
    rwa [polled] at effect
  | drop ref =>
    obtain ⟨-, same⟩ := Option.ite_none_right_eq_some.mp stepped
    cases same
    exact .idle _ (by simp)
  | tryPut item =>
    simp only [step, tryPut] at stepped
    split_ifs at stepped with room
    · cases stepped
      exact .accept item room
    · cases stepped
      exact .idle _ (by simp [Obs.idle])
  | tryGet =>
    cases front : s.queue.buf with
    | nil =>
      simp only [step, tryGet_of_nil front] at stepped
      cases stepped
      exact .idle _ (by simp [Obs.idle])
    | cons item rest =>
      simp only [step, tryGet_of_cons front] at stepped
      cases stepped
      exact .take item rest front
  | tryPeek =>
    simp only [step] at stepped
    split at stepped <;> cases stepped <;> exact .idle _ (by simp [Obs.idle])

end Step

/-- The books of one queue: order, bound and wakers. -/
structure Linear (cap : Option ℕ) (queue : Queue α) (obs : List (Obs α)) : Prop where
  capacity : queue.cap = cap
  fifo : taken obs ++ queue.buf = accepted obs
  bound : ∀ bound, cap = some bound → queue.buf.length ≤ bound
  /-- Nobody waits for an item while there is one. -/
  getters : queue.buf ≠ [] → queue.getWaiters = []
  /-- Nobody waits for room while there is some. -/
  putters : queue.hasSpace = true → queue.putWaiters = []
  bookedGetters : Booked (.registered .getters) .woke queue.getWaiters obs
  bookedPutters : Booked (.registered .putters) .woke queue.putWaiters obs

section Linear

variable {cap : Option ℕ} {queue queue' : Queue α} {seen out : List (Obs α)}

theorem linear_new (cap : Option ℕ) : Linear cap (new cap : Queue α) [] where
  capacity := rfl
  fifo := rfl
  bound _ _ := Nat.zero_le _
  getters _ := rfl
  putters _ := rfl
  bookedGetters := .nil
  bookedPutters := .nil

theorem hasSpace_eq (queue : Queue α) :
    queue.hasSpace = true ↔ ∀ bound, queue.cap = some bound → queue.buf.length < bound := by
  cases capacity : queue.cap <;> simp [hasSpace, capacity]

theorem Effect.linear (effect : Effect queue queue' out) (linear : Linear cap queue seen) :
    Linear cap queue' (seen ++ out) := by
  obtain ⟨capacity, fifo, bound, getters, putters, bookedGetters, bookedPutters⟩ := linear
  cases effect with
  | idle out quiet =>
    have idle (o : Obs α) (loud : o.idle = false) : o ∉ out := by
      intro member
      rw [quiet o member] at loud
      cases loud
    have noneAccepted : accepted out = [] := by
      refine List.filterMap_eq_nil_iff.mpr fun o member => ?_
      cases o <;> first | rfl | exact absurd member (idle _ rfl)
    have noneTaken : taken out = [] := by
      refine List.filterMap_eq_nil_iff.mpr fun o member => ?_
      cases o <;> first | rfl | exact absurd member (idle _ rfl)
    refine ⟨capacity, ?_, bound, getters, putters, ?_, ?_⟩
    · simpa [noneAccepted, noneTaken] using fifo
    · exact bookedGetters.quiet fun waker => idle _ rfl
    · exact bookedPutters.quiet fun waker => idle _ rfl
  | accept item space =>
    refine ⟨capacity, ?_, ?_, fun _ => rfl, ?_, ?_, ?_⟩
    · simp [Queue.accept, ← fifo]
    · intro limit limited
      have room := (hasSpace_eq queue).mp space limit (capacity.trans limited)
      simp only [Queue.accept, List.length_append, List.length_cons, List.length_nil]
      omega
    · intro _
      exact putters space
    · exact bookedGetters.drain (by simp) (by simp [woke])
    · exact bookedPutters.quiet (by simp)
  | take item rest front =>
    refine ⟨capacity, ?_, ?_, ?_, fun _ => rfl, ?_, ?_⟩
    · simp [← fifo, front]
    · intro limit limited
      have filled := bound limit limited
      simp only [front, List.length_cons] at filled
      simp only
      omega
    · intro _
      exact getters (by simp [front])
    · exact bookedGetters.quiet (by simp)
    · exact bookedPutters.drain (by simp) (by simp [woke])
  | awaitItem waker empty =>
    refine ⟨capacity, ?_, bound, ?_, putters, ?_, ?_⟩
    · simpa [accepted, taken] using fifo
    · intro filled
      exact absurd empty filled
    · exact bookedGetters.register (by simp)
    · exact bookedPutters.quiet (by simp)
  | awaitSpace waker full =>
    refine ⟨capacity, ?_, bound, getters, ?_, ?_, ?_⟩
    · simpa [accepted, taken] using fifo
    · intro space
      change queue.hasSpace = true at space
      rw [full] at space
      cases space
    · exact bookedGetters.quiet (by simp)
    · exact bookedPutters.register (by simp)

/-- The books are kept along every run. -/
theorem linear_of_run {actions : List (Action α)} {s : System α} {obs : List (Obs α)}
    (ran : (machine α).run (initial cap) actions = some (s, obs)) : Linear cap s.queue obs :=
  (machine α).run_invariant_nil (fun s obs => Linear cap s.queue obs) (linear_new cap)
    (fun linear stepped => (effect_of_step stepped).linear linear) ran

end Linear

/-- In every state a run reaches: what was taken and what is stored is what was accepted, in order;
the bound holds; a refused item comes back and nothing changes; a dropped future changes no item;
and a stored waker that has not been woken since waits for a condition that still fails. -/
theorem queue_linearity (cap : Option ℕ) {actions : List (Action α)} {s : System α} {obs : List (Obs α)}
    (ran : (machine α).run (initial cap) actions = some (s, obs)) :
    taken obs ++ s.queue.buf = accepted obs ∧
    (∀ bound, cap = some bound → s.queue.buf.length ≤ bound) ∧
    (∀ item back t out, step s (.tryPut item) = some (t, out) → .refused back ∈ out →
      back = item ∧ t = s ∧ out = [.refused item]) ∧
    (∀ ref t out, step s (.drop ref) = some (t, out) → t.queue = s.queue ∧ out = []) ∧
    (s.queue.buf ≠ [] → s.queue.getWaiters = [] ∧
      ∀ waker, ¬ Owed (.registered .getters waker) (.woke waker) obs) ∧
    (s.queue.hasSpace = true → s.queue.putWaiters = [] ∧
      ∀ waker, ¬ Owed (.registered .putters waker) (.woke waker) obs) := by
  have linear := linear_of_run ran
  refine ⟨linear.fifo, linear.bound, ?_, ?_, ?_, ?_⟩
  · intro item back t out stepped refused
    simp only [step, tryPut] at stepped
    split_ifs at stepped with room
    · cases stepped
      simp [woke] at refused
    · cases stepped
      simp only [List.mem_singleton, Obs.refused.injEq] at refused
      exact ⟨refused, rfl, rfl⟩
  · intro ref t out stepped
    obtain ⟨-, same⟩ := Option.ite_none_right_eq_some.mp stepped
    cases same
    exact ⟨rfl, rfl⟩
  · intro filled
    exact ⟨linear.getters filled, linear.bookedGetters.none_owed (linear.getters filled)⟩
  · intro space
    exact ⟨linear.putters space, linear.bookedPutters.none_owed (linear.putters space)⟩

/-- A getter and a peeker wait on a queue of one; the getter is dropped, the item that arrives wakes
both and is peeked at; a second item is refused. A put waits for space until the item is taken. -/
def ofOne : List (Action ℕ) :=
  [.get, .peek, .poll 0 (.task 1), .poll 1 (.task 2), .drop 0, .tryPut 7, .tryPut 8, .poll 1 (.task 2), .put 9,
    .poll 2 (.task 3), .tryGet, .poll 2 (.task 3)]

theorem queue_linearity_of_one :
    ∃ s obs, (machine ℕ).run (initial (some 1)) ofOne = some (s, obs) ∧
      obs = [.registered .getters (.task 1), .registered .getters (.task 2), .accepted 7, .woke (.task 1),
        .woke (.task 2), .refused 8, .peeked 7, .registered .putters (.task 3), .taken 7, .woke (.task 3), .accepted 9] ∧
      s.queue.buf = [9] ∧ taken obs ++ s.queue.buf = accepted obs := by
  obtain ⟨s, obs, ran, shown, filled⟩ : ∃ s obs, (machine ℕ).run (initial (some 1)) ofOne = some (s, obs) ∧
      obs = [.registered .getters (.task 1), .registered .getters (.task 2), .accepted 7, .woke (.task 1),
        .woke (.task 2), .refused 8, .peeked 7, .registered .putters (.task 3), .taken 7, .woke (.task 3), .accepted 9] ∧
      s.queue.buf = [9] := ⟨_, _, rfl, by decide, rfl⟩
  exact ⟨s, obs, ran, shown, filled, (queue_linearity (some 1) ran).1⟩

end Rustdv.Queue
