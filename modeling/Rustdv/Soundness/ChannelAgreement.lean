import Rustdv.Machine.WaitList
import Rustdv.Model.Channel

/-! # What the two sides of a channel agree on

Items are received at most once, in the order in which they were accepted, and stay in the buffer
until then; wakers are stored only while the side they wait for has to wait. A `recv` that returns
`Disconnected` has found the buffer empty and no sender left. That is final as long as no send
future that has outlived the last sender is polled into the drained channel: such a send is still
accepted, although the receivers have been told that nothing more comes.
-/

namespace Rustdv.Chan

variable {α : Type*}

/-- The items whose `send` or `try_send` returned `Ok`, in order. -/
def accepted (obs : List (Obs α)) : List α :=
  obs.filterMap fun
    | .accepted item => some item
    | _ => none

/-- The items that `recv` or `try_recv` returned, in order. -/
def received (obs : List (Obs α)) : List α :=
  obs.filterMap fun
    | .received item => some item
    | _ => none

section Observations

variable (obs out : List (Obs α)) (item : α) (wakers : List Waker)

@[simp] theorem accepted_append : accepted (obs ++ out) = accepted obs ++ accepted out := List.filterMap_append

@[simp] theorem received_append : received (obs ++ out) = received obs ++ received out := List.filterMap_append

@[simp] theorem accepted_woke : accepted (woke wakers : List (Obs α)) = [] := by
  simp [accepted, woke]

@[simp] theorem received_woke : received (woke wakers : List (Obs α)) = [] := by
  simp [received, woke]

@[simp] theorem accepted_accepted : accepted (.accepted item :: out) = item :: accepted out := rfl

@[simp] theorem accepted_received : accepted (.received item :: out) = accepted out := rfl

@[simp] theorem received_received : received (.received item :: out) = item :: received out := rfl

@[simp] theorem received_accepted : received (.accepted item :: out) = received out := rfl

@[simp] theorem mem_woke (o : Obs α) : o ∈ (woke wakers : List (Obs α)) ↔ ∃ waker ∈ wakers, .woke waker = o :=
  List.mem_map

end Observations

/-- Observations of steps that leave the channel alone. -/
def Obs.idle : Obs α → Bool
  | .peeked _ | .refused _ | .empty | .sendDisconnected | .recvDisconnected | .peekDisconnected | .panicked => true
  | .woke _ | .registered .. | .accepted _ | .received _ => false

/-- Everything a step can do to the channel, with what it shows. -/
inductive Effect (chan : Chan α) : Chan α → List (Obs α) → Prop where
  | idle (out : List (Obs α)) (quiet : ∀ o ∈ out, o.idle)
      (told : .recvDisconnected ∈ out → chan.buf = [] ∧ chan.senders = 0) : Effect chan chan out
  | accept (item : α) (space : chan.hasSpace = true) :
      Effect chan (chan.accept item).1 (.accepted item :: woke chan.recvWaiters)
  | take (item : α) (rest : List α) (front : chan.buf = item :: rest) :
      Effect chan { chan with buf := rest, sendWaiters := [] } (.received item :: woke chan.sendWaiters)
  | awaitItem (waker : Waker) (empty : chan.buf = []) (live : chan.senders ≠ 0) :
      Effect chan { chan with recvWaiters := chan.recvWaiters ++ [waker] } [.registered .receivers waker]
  | awaitSpace (waker : Waker) (full : chan.hasSpace = false) (live : chan.receivers ≠ 0) :
      Effect chan { chan with sendWaiters := chan.sendWaiters ++ [waker] } [.registered .senders waker]
  | cloneSender (live : chan.senders ≠ 0) : Effect chan { chan with senders := chan.senders + 1 } []
  | dropSender : Effect chan chan.dropSender.1 (woke chan.dropSender.2)
  | cloneReceiver (live : chan.receivers ≠ 0) : Effect chan { chan with receivers := chan.receivers + 1 } []
  | dropReceiver : Effect chan chan.dropReceiver.1 (woke chan.dropReceiver.2)

section Step

variable {s t : System α} {a : Action α} {out : List (Obs α)}

theorem pop_of_nil {chan : Chan α} (empty : chan.buf = []) : chan.pop = none := by
  simp only [pop, empty]

theorem pop_of_cons {chan : Chan α} {item : α} {rest : List α} (front : chan.buf = item :: rest) :
    chan.pop = some (item, { chan with buf := rest, sendWaiters := [] }, chan.sendWaiters) := by
  simp only [pop, front]

theorem effect_pollSend (s : System α) (ref : FutRef) (waker : Waker) (item : Option α) :
    Effect s.chan (pollSend s ref waker item).1.chan (pollSend s ref waker item).2 := by
  unfold pollSend
  split_ifs with gone space
  · exact .idle _ (by simp [Obs.idle]) (by simp)
  · cases item with
    | some item => exact .accept item space
    | none => exact .idle _ (by simp [Obs.idle]) (by simp)
  · exact .awaitSpace waker (by simpa using space) gone

theorem effect_pollRecv (s : System α) (waker : Waker) :
    Effect s.chan (pollRecv s waker).1.chan (pollRecv s waker).2 := by
  cases front : s.chan.buf with
  | nil =>
    simp only [pollRecv, pop_of_nil front]
    split_ifs with gone
    · exact .idle _ (by simp [Obs.idle]) fun _ => ⟨front, gone⟩
    · exact .awaitItem waker front gone
  | cons item rest =>
    simp only [pollRecv, pop_of_cons front]
    exact .take item rest front

theorem effect_pollPeek (s : System α) (waker : Waker) :
    Effect s.chan (pollPeek s waker).1.chan (pollPeek s waker).2 := by
  cases front : s.chan.buf with
  | nil =>
    simp only [pollPeek, front, List.head?_nil]
    split_ifs with gone
    · exact .idle _ (by simp [Obs.idle]) (by simp)
    · exact .awaitItem waker front gone
  | cons item rest =>
    simp only [pollPeek, front, List.head?_cons]
    exact .idle _ (by simp [Obs.idle]) (by simp)

theorem effect_trySend (s : System α) (item : α) :
    Effect s.chan (trySend s item).1.chan (trySend s item).2 := by
  unfold trySend
  split_ifs with gone space
  · exact .idle _ (by simp [Obs.idle]) (by simp)
  · exact .accept item space
  · exact .idle _ (by simp [Obs.idle]) (by simp)

theorem effect_tryRecv (s : System α) : Effect s.chan (tryRecv s).1.chan (tryRecv s).2 := by
  cases front : s.chan.buf with
  | nil =>
    simp only [tryRecv, pop_of_nil front]
    exact .idle _ (by simp [Obs.idle]) (by simp)
  | cons item rest =>
    simp only [tryRecv, pop_of_cons front]
    exact .take item rest front

theorem effect_tryPeek (s : System α) : Effect s.chan (tryPeek s).1.chan (tryPeek s).2 := by
  unfold tryPeek
  split <;> exact .idle _ (by simp [Obs.idle]) (by simp)

theorem effect_of_step (stepped : step s a = some (t, out)) : Effect s.chan t.chan out := by
  have result {result : System α × List (Obs α)} (same : some result = some (t, out))
      (effect : Effect s.chan result.1.chan result.2) : Effect s.chan t.chan out := by
    rwa [Option.some.inj same] at effect
  have untouched : Effect s.chan s.chan [] := .idle _ (by simp) (by simp)
  cases a with
  | poll ref waker =>
    obtain ⟨fut, -, polled⟩ := Option.map_eq_some_iff.mp stepped
    refine result (congrArg some polled) ?_
    cases fut with
    | send item => exact effect_pollSend s ref waker item
    | recv => exact effect_pollRecv s waker
    | peek => exact effect_pollPeek s waker
  | drop ref =>
    obtain ⟨-, same⟩ := Option.ite_none_right_eq_some.mp stepped
    exact result same untouched
  | cloneSender =>
    obtain ⟨live, same⟩ := Option.ite_none_left_eq_some.mp stepped
    exact result same (.cloneSender live)
  | cloneReceiver =>
    obtain ⟨live, same⟩ := Option.ite_none_left_eq_some.mp stepped
    exact result same (.cloneReceiver live)
  | dropSender => exact result (Option.ite_none_left_eq_some.mp stepped).2 .dropSender
  | dropReceiver => exact result (Option.ite_none_left_eq_some.mp stepped).2 .dropReceiver
  | trySend item => exact result (Option.ite_none_left_eq_some.mp stepped).2 (effect_trySend s item)
  | tryRecv => exact result (Option.ite_none_left_eq_some.mp stepped).2 (effect_tryRecv s)
  | tryPeek => exact result (Option.ite_none_left_eq_some.mp stepped).2 (effect_tryPeek s)
  | send item => exact result (Option.ite_none_left_eq_some.mp stepped).2 untouched
  | recv | peek => exact result (Option.ite_none_left_eq_some.mp stepped).2 untouched

end Step

/-- The books of one channel: order, bound and wakers. -/
structure Linear (capacity : ℕ) (chan : Chan α) (obs : List (Obs α)) : Prop where
  cap : chan.cap = max capacity 1
  fifo : received obs ++ chan.buf = accepted obs
  bound : chan.buf.length ≤ chan.cap
  /-- A receiver waits for an item that may still come. -/
  receivers : chan.recvWaiters ≠ [] → chan.buf = [] ∧ chan.senders ≠ 0
  /-- A sender waits for room that may still come. -/
  senders : chan.sendWaiters ≠ [] → chan.hasSpace = false ∧ chan.receivers ≠ 0
  bookedReceivers : Booked (.registered .receivers) .woke chan.recvWaiters obs
  bookedSenders : Booked (.registered .senders) .woke chan.sendWaiters obs

section Linear

variable {capacity : ℕ} {chan chan' : Chan α} {seen out : List (Obs α)}

theorem linear_new (capacity : ℕ) : Linear capacity (new capacity : Chan α) [] where
  cap := rfl
  fifo := rfl
  bound := Nat.zero_le _
  receivers waiting := absurd rfl waiting
  senders waiting := absurd rfl waiting
  bookedReceivers := .nil
  bookedSenders := .nil

theorem Effect.linear (effect : Effect chan chan' out) (linear : Linear capacity chan seen) :
    Linear capacity chan' (seen ++ out) := by
  obtain ⟨cap, fifo, bound, receivers, senders, bookedReceivers, bookedSenders⟩ := linear
  cases effect with
  | idle out quiet told =>
    have idle (o : Obs α) (loud : o.idle = false) : o ∉ out := by
      intro member
      rw [quiet o member] at loud
      cases loud
    have noneAccepted : accepted out = [] := by
      refine List.filterMap_eq_nil_iff.mpr fun o member => ?_
      cases o <;> first | rfl | exact absurd member (idle _ rfl)
    have noneReceived : received out = [] := by
      refine List.filterMap_eq_nil_iff.mpr fun o member => ?_
      cases o <;> first | rfl | exact absurd member (idle _ rfl)
    refine ⟨cap, ?_, bound, receivers, senders, ?_, ?_⟩
    · simpa [noneAccepted, noneReceived] using fifo
    · exact bookedReceivers.quiet fun waker => idle _ rfl
    · exact bookedSenders.quiet fun waker => idle _ rfl
  | accept item space =>
    have room : chan.buf.length < chan.cap := by simpa [hasSpace] using space
    refine ⟨cap, ?_, ?_, fun waiting => absurd rfl waiting, ?_, ?_, ?_⟩
    · simp [Chan.accept, ← fifo]
    · simp only [Chan.accept, List.length_append, List.length_cons, List.length_nil]
      omega
    · intro waiting
      have full := (senders waiting).1
      rw [space] at full
      cases full
    · exact bookedReceivers.drain (by simp) (by simp)
    · exact bookedSenders.quiet (by simp)
  | take item rest front =>
    refine ⟨cap, ?_, ?_, ?_, fun waiting => absurd rfl waiting, ?_, ?_⟩
    · simp [← fifo, front]
    · simp only [front, List.length_cons] at bound
      simp only
      omega
    · intro waiting
      have empty := (receivers waiting).1
      rw [front] at empty
      cases empty
    · exact bookedReceivers.quiet (by simp)
    · exact bookedSenders.drain (by simp) (by simp)
  | awaitItem waker empty live =>
    refine ⟨cap, ?_, bound, fun _ => ⟨empty, live⟩, senders, ?_, ?_⟩
    · simpa [accepted, received] using fifo
    · exact bookedReceivers.register (by simp)
    · exact bookedSenders.quiet (by simp)
  | awaitSpace waker full live =>
    refine ⟨cap, ?_, bound, receivers, fun _ => ⟨full, live⟩, ?_, ?_⟩
    · simpa [accepted, received] using fifo
    · exact bookedReceivers.quiet (by simp)
    · exact bookedSenders.register (by simp)
  | cloneSender live =>
    rw [List.append_nil]
    exact ⟨cap, fifo, bound, fun waiting => ⟨(receivers waiting).1, Nat.succ_ne_zero _⟩, senders,
      bookedReceivers, bookedSenders⟩
  | cloneReceiver live =>
    rw [List.append_nil]
    exact ⟨cap, fifo, bound, receivers, fun waiting => ⟨(senders waiting).1, Nat.succ_ne_zero _⟩,
      bookedReceivers, bookedSenders⟩
  | dropSender =>
    simp only [Chan.dropSender]
    split_ifs with last
    · refine ⟨cap, by simpa using fifo, bound, fun waiting => absurd rfl waiting, senders, ?_, ?_⟩
      · exact bookedReceivers.drain (by simp) (by simp)
      · exact bookedSenders.quiet (by simp)
    · refine ⟨cap, by simpa using fifo, bound, fun waiting => ⟨(receivers waiting).1, last⟩, senders, ?_, ?_⟩
      · exact bookedReceivers.quiet (by simp)
      · exact bookedSenders.quiet (by simp)
  | dropReceiver =>
    simp only [Chan.dropReceiver]
    split_ifs with last
    · refine ⟨cap, by simpa using fifo, bound, receivers, fun waiting => absurd rfl waiting, ?_, ?_⟩
      · exact bookedReceivers.quiet (by simp)
      · exact bookedSenders.drain (by simp) (by simp)
    · refine ⟨cap, by simpa using fifo, bound, receivers, fun waiting => ⟨(senders waiting).1, last⟩, ?_, ?_⟩
      · exact bookedReceivers.quiet (by simp)
      · exact bookedSenders.quiet (by simp)

/-- The books are kept along every run. -/
theorem linear_of_run {actions : List (Action α)} {s : System α} {obs : List (Obs α)}
    (ran : (machine α).run (initial capacity) actions = some (s, obs)) : Linear capacity s.chan obs :=
  (machine α).run_invariant_nil (fun s obs => Linear capacity s.chan obs) (linear_new capacity)
    (fun linear stepped => (effect_of_step stepped).linear linear) ran

end Linear

/-- A send future that still owns its item is polled into the drained channel after the last sender
is gone. -/
def unattended (s : System α) : Action α → Bool
  | .poll ref _ =>
      match s.futs.getD ref none with
      | some (.send (some _)) => s.chan.senders == 0 && s.chan.receivers != 0 && s.chan.buf.isEmpty
      | _ => false
  | _ => false

/-- No send future is polled into a drained channel without senders. -/
def Attended (s : System α) (a : Action α) : Prop := unattended s a = false

instance (s : System α) (a : Action α) : Decidable (Attended s a) := inferInstanceAs (Decidable (_ = _))

/-- After a `recv` has returned `Disconnected` nothing is accepted. -/
def Final (obs : List (Obs α)) : Prop :=
  obs.Pairwise fun earlier later => earlier = .recvDisconnected → ∀ item, later ≠ .accepted item

section Final

variable {s t : System α} {a : Action α} {chan chan' : Chan α} {seen out : List (Obs α)}

/-- Who can get an item accepted: a sender, or a send future while a receiver is left. -/
theorem accepted_of_step {item : α} (stepped : step s a = some (t, out)) (shown : .accepted item ∈ out) :
    s.chan.senders ≠ 0 ∨ s.chan.receivers ≠ 0 ∧
      ∃ ref waker, a = .poll ref waker ∧ s.futs.getD ref none = some (.send (some item)) := by
  cases a with
  | poll ref waker =>
    obtain ⟨fut, present, polled⟩ := Option.map_eq_some_iff.mp stepped
    have shown : .accepted item ∈ (pollFut s ref waker fut).2 := by rw [polled]; exact shown
    cases fut with
    | send stored =>
      simp only [pollFut, pollSend] at shown
      split_ifs at shown with gone space
      · simp at shown
      · cases stored with
        | none => simp at shown
        | some stored =>
          obtain rfl : item = stored := by simpa using shown
          exact .inr ⟨gone, ref, waker, rfl, present⟩
      · simp [awaitSpace] at shown
    | recv =>
      simp only [pollFut, pollRecv] at shown
      split at shown
      · simp at shown
      · split_ifs at shown <;> simp [awaitItem] at shown
    | peek =>
      simp only [pollFut, pollPeek] at shown
      split at shown
      · simp at shown
      · split_ifs at shown <;> simp [awaitItem] at shown
  | trySend item => exact .inl (Option.ite_none_left_eq_some.mp stepped).1
  | dropSender | cloneSender | send => exact .inl (Option.ite_none_left_eq_some.mp stepped).1
  | drop ref =>
    obtain ⟨-, same⟩ := Option.ite_none_right_eq_some.mp stepped
    cases same
    cases shown
  | cloneReceiver | dropReceiver | recv | peek =>
    obtain ⟨-, same⟩ := Option.ite_none_left_eq_some.mp stepped
    cases same
    simp at shown
  | tryRecv | tryPeek =>
    obtain ⟨-, same⟩ := Option.ite_none_left_eq_some.mp stepped
    simp only [tryRecv, tryPeek, Option.some.injEq] at same
    split at same <;> cases same <;> simp at shown

/-- A drained channel without senders stays so, unless it accepts. -/
theorem Effect.drained (effect : Effect chan chan' out) (gone : chan.senders = 0) (empty : chan.buf = [])
    (none : ∀ item, .accepted item ∉ out) : chan'.senders = 0 ∧ chan'.buf = [] := by
  cases effect with
  | idle | awaitSpace | cloneReceiver => exact ⟨gone, empty⟩
  | accept item => exact absurd List.mem_cons_self (none item)
  | take item rest front => simp [empty] at front
  | awaitItem waker _ live => exact absurd gone live
  | cloneSender live => exact absurd gone live
  | dropSender => simp [Chan.dropSender, gone, empty]
  | dropReceiver =>
    simp only [Chan.dropReceiver]
    split_ifs <;> exact ⟨gone, empty⟩

/-- What a `recv` that returned `Disconnected` saw. -/
theorem Effect.told (effect : Effect chan chan' out) (told : .recvDisconnected ∈ out) :
    chan.senders = 0 ∧ chan.buf = [] ∧ ∀ item, .accepted item ∉ out := by
  cases effect with
  | idle out quiet seen =>
    obtain ⟨empty, gone⟩ := seen told
    refine ⟨gone, empty, fun item shown => ?_⟩
    have idle := quiet _ shown
    cases idle
  | _ => simp at told

/-- `Disconnected` is final along every run in which no send future is polled unattended. -/
theorem final_of_run {capacity : ℕ} {actions : List (Action α)} {obs : List (Obs α)}
    (ran : ((machine α).restrict Attended).run (initial capacity) actions = some (s, obs)) : Final obs := by
  refine (Machine.run_invariant_nil _ (fun s obs =>
    (.recvDisconnected ∈ obs → s.chan.senders = 0 ∧ s.chan.buf = []) ∧ Final obs) ⟨by simp, .nil⟩ ?_ ran).2
  rintro u v seen out a ⟨closed, final⟩ stepped
  obtain ⟨attended, stepped⟩ := (machine α).restrict_step_eq_some_iff.mp stepped
  have effect := effect_of_step stepped
  -- a step after the answer accepts nothing: there is no sender, and a send future is attended
  have silent (before : .recvDisconnected ∈ seen) (item : α) : .accepted item ∉ out := by
    intro shown
    obtain ⟨gone, empty⟩ := closed before
    rcases accepted_of_step stepped shown with live | ⟨listening, ref, waker, rfl, present⟩
    · exact live gone
    · simp only [Attended, unattended, present, gone, empty] at attended
      simp [listening] at attended
  refine ⟨?_, List.pairwise_append.mpr ⟨final, ?_, ?_⟩⟩
  · intro told
    rcases List.mem_append.mp told with before | now
    · obtain ⟨gone, empty⟩ := closed before
      exact effect.drained gone empty (silent before)
    · obtain ⟨gone, empty, none⟩ := effect.told now
      exact effect.drained gone empty none
  · refine List.pairwise_of_forall_mem_list fun earlier first later second same item accepted => ?_
    subst same accepted
    exact (effect.told first).2.2 item second
  · intro earlier first later second same item accepted
    subst same accepted
    exact silent first item second

end Final

/-- In every run, items are received at most once and in the order they were accepted, and none is
lost; the bound holds; a waker that has not been woken since it was stored waits for what may still
come. In every run in which no send future is polled into a drained channel without senders,
nothing is accepted after a `recv` has returned `Disconnected`. -/
theorem channel_agreement (capacity : ℕ) :
    (∀ (actions : List (Action α)) (s : System α) (obs : List (Obs α)),
      (machine α).run (initial capacity) actions = some (s, obs) →
      received obs ++ s.chan.buf = accepted obs ∧
      s.chan.buf.length ≤ max capacity 1 ∧
      (∀ waker, Owed (.registered .receivers waker) (.woke waker) obs → s.chan.buf = [] ∧ 0 < s.chan.senders) ∧
      (∀ waker, Owed (.registered .senders waker) (.woke waker) obs →
        s.chan.buf.length = max capacity 1 ∧ 0 < s.chan.receivers)) ∧
    (∀ (actions : List (Action α)) (s : System α) (obs : List (Obs α)),
      ((machine α).restrict Attended).run (initial capacity) actions = some (s, obs) → Final obs) := by
  refine ⟨?_, fun actions s obs ran => final_of_run ran⟩
  intro actions s obs ran
  have linear := linear_of_run ran
  refine ⟨linear.fifo, linear.cap ▸ linear.bound, ?_, ?_⟩
  · intro waker owed
    obtain ⟨empty, live⟩ := linear.receivers (List.ne_nil_of_mem (linear.bookedReceivers waker owed))
    exact ⟨empty, Nat.pos_of_ne_zero live⟩
  · intro waker owed
    obtain ⟨full, live⟩ := linear.senders (List.ne_nil_of_mem (linear.bookedSenders waker owed))
    have bound := linear.bound
    simp only [hasSpace, decide_eq_false_iff_not] at full
    exact ⟨by rw [← linear.cap]; omega, Nat.pos_of_ne_zero live⟩

/-- A send that completes before its sender goes: the item is received, then the channel reports
that nothing more comes. -/
theorem channel_agreement_attended :
    ∃ s obs, ((machine ℕ).restrict Attended).run (initial 0)
        [.send 7, .poll 0 (.task 1), .dropSender, .recv, .poll 1 (.task 2), .poll 1 (.task 2)] = some (s, obs) ∧
      obs = [.accepted 7, .received 7, .recvDisconnected] ∧ Final obs := by
  obtain ⟨s, obs, ran, shown⟩ : ∃ s obs, ((machine ℕ).restrict Attended).run (initial 0)
        [.send 7, .poll 0 (.task 1), .dropSender, .recv, .poll 1 (.task 2), .poll 1 (.task 2)] = some (s, obs) ∧
      obs = [.accepted 7, .received 7, .recvDisconnected] := ⟨_, _, rfl, by decide⟩
  exact ⟨s, obs, ran, shown, (channel_agreement 0).2 _ s obs ran⟩

/-- A send future outlives the only sender, a `recv` returns `Disconnected`, and then the send is
accepted. -/
theorem send_outlives_disconnect :
    ¬ ∀ (actions : List (Action ℕ)) (s : System ℕ) (obs : List (Obs ℕ)),
      (machine ℕ).run (initial 1) actions = some (s, obs) → Final obs := by
  intro final
  obtain ⟨s, obs, ran, shown⟩ : ∃ s obs, (machine ℕ).run (initial 1)
        [.send 7, .dropSender, .recv, .poll 1 (.task 2), .poll 0 (.task 1)] = some (s, obs) ∧
      obs = [.recvDisconnected, .accepted 7] := ⟨_, _, rfl, by decide⟩
  have pairs := final _ s obs ran
  rw [shown] at pairs
  exact (List.pairwise_cons.mp pairs).1 (.accepted 7) (by simp) rfl 7 rfl

end Rustdv.Chan
