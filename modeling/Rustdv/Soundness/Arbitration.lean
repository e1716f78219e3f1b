import Rustdv.Soundness.Agreement

/-! # Arbitration under both of the driver's calls

`get_next_item` takes slots from the front of the queue and stays with the one it took. `try_next_item`
also takes the front slot, but puts one that is not filled back at the end, behind sequences that came
later. Items are served in ticket order as long as this happens only to a slot that is alone in the
queue.
-/

namespace Rustdv.Sequencer

variable {ι Req Rsp : Type*} [DecidableEq ι]

/-- A pending `get_next_item` is never dropped. -/
def Action.completes : Action ι Req Rsp → Bool
  | .dropNext => false
  | _ => true

/-- `try_next_item` finds at most one slot, or a filled one in front; or it panics, as the driver still
has an item. -/
def System.orderly (s : System ι Req Rsp) : Action ι Req Rsp → Bool
  | .tryNextItem => s.inner.current.isSome || s.inner.queue.buf.length ≤ 1 ||
      s.inner.queue.buf.head?.any fun slot => (s.heap slot).payload.isSome
  | _ => true

/-- The machine on which pending `get_next_item`s are polled until they return, and on which the slot
that `try_next_item` puts back is alone. -/
def orderlyMachine (ι Req Rsp : Type*) [DecidableEq ι] : Machine (System ι Req Rsp) (Action ι Req Rsp) (Obs ι Req) :=
  (machine ι Req Rsp).restrict fun s a => a.completes = true ∧ s.orderly a = true

/-- What holds of the order of service after a run. -/
structure Arbitrated (s : System ι Req Rsp) (obs : List (Obs ι Req)) : Prop where
  /-- Tickets are handed out in increasing order. -/
  tickets : (obs.filterMap Obs.enqueuedId).Pairwise fun a b => a.val < b.val
  /-- Items are delivered in that order, and what is still to be delivered is in that order. -/
  order : obs.filterMap Obs.enqueuedId = (deliveries obs).map SeqItem.id ++
    (s.driver.wanted ++ s.inner.queue.buf).map fun slot => (s.heap slot).id
  /-- A `try_next_item` that returns `None` leaves the queue as it is exactly when it is orderly. -/
  unchanged : ∀ t out, step s .tryNextItem = some (t, out) → .nothing ∈ out →
    (t.inner.queue.buf = s.inner.queue.buf ↔ s.orderly .tryNextItem = true)

namespace Protocol

noncomputable instance (p : Protocol ι Req) (op : Op ι Req) : Decidable (p.Orderly op) :=
  Classical.propDecidable _

/-- Orderly runs conserve tickets. -/
theorem Fresh.tickets {p p' : Protocol ι Req} (fresh : p.Fresh) {ops : List (Op ι Req)} {obs : List (Obs ι Req)}
    (ran : ((protocol ι Req).restrict Orderly).run p ops = some (p', obs)) :
    obs.filterMap Obs.enqueuedId = (deliveries obs).map SeqItem.id ++ p'.pending.map ticketOf := by
  refine (((protocol ι Req).restrict Orderly).run_invariant_nil (fun q seen => q.Layout ∧
    seen.filterMap Obs.enqueuedId = (deliveries seen).map SeqItem.id ++ q.pending.map ticketOf)
    ⟨fresh.layout, ?_⟩ ?_ ran).2
  · simp [pending, fresh.queue, fresh.driver, DriverPos.wanted, deliveries]
  · rintro u v seen out op ⟨layout, conserved⟩ stepped
    obtain ⟨orderly, stepped⟩ := (protocol ι Req).restrict_step_eq_some_iff.mp stepped
    have moved := transition_of_step stepped
    exact ⟨moved.layout layout, moved.tickets_conserved orderly layout conserved⟩

end Protocol

section Simulation

variable {s t : System ι Req Rsp} {out : List (Obs ι Req)}

omit [DecidableEq ι] in
theorem orderly_cons_iff {slot : SlotRef} {rest : List SlotRef} (free : s.inner.current = none)
    (front : s.inner.queue.buf = slot :: rest) :
    s.orderly .tryNextItem = true ↔ rest = [] ∨ (s.heap slot).payload.isSome = true := by
  simp [System.orderly, free, front]

/-- An orderly `try_next_item` is an orderly run of the protocol. -/
theorem tryNextItem_orderly (unbounded : Unbounded s) (idle : s.driver = .idle) (fair : s.orderly .tryNextItem = true) :
    ∃ ops, ((protocol ι Req).restrict Protocol.Orderly).run s.protocol ops =
      some ((tryNextItem s).1.protocol, (tryNextItem s).2.filter Obs.visible) := by
  have one (op : Op ι Req) (allowed : s.protocol.Orderly op) (stepped : s.protocol.step op =
      some ((tryNextItem s).1.protocol, (tryNextItem s).2.filter Obs.visible)) :
      ∃ ops, ((protocol ι Req).restrict Protocol.Orderly).run s.protocol ops =
        some ((tryNextItem s).1.protocol, (tryNextItem s).2.filter Obs.visible) := by
    refine ⟨[op], ?_⟩
    rw [Machine.run_singleton]
    exact (protocol ι Req).restrict_step_eq_some_iff.mpr ⟨allowed, stepped⟩
  by_cases busy : s.inner.current.isSome = true
  · refine ⟨[], ?_⟩
    simp only [tryNextItem, busy, ↓reduceIte]
    rfl
  have free : s.protocol.current = none := Option.not_isSome_iff_eq_none.mp busy
  cases front : s.inner.queue.buf with
  | nil =>
    refine ⟨[], ?_⟩
    simp only [tryNextItem, busy, Queue.tryGet_of_nil front]
    rfl
  | cons slot rest =>
    cases filled : (s.heap slot).payload with
    | some payload => exact one .take trivial (tryNextItem_take s idle free front filled)
    | none =>
      refine one .rotate ?_ (tryNextItem_rotate s unbounded idle free front filled)
      rcases (orderly_cons_iff free front).mp fair with rfl | full
      · exact Nat.le_of_eq (congrArg List.length front)
      · rw [filled] at full
        cases full

/-- Orderly runs of the source are orderly runs of the protocol. -/
theorem orderly_simulates : (orderlyMachine ι Req Rsp).Simulates ((protocol ι Req).restrict Protocol.Orderly)
    Unbounded System.protocol Obs.visible := by
  intro s a t out unbounded stepped
  obtain ⟨⟨completes, fair⟩, stepped⟩ := (machine ι Req Rsp).restrict_step_eq_some_iff.mp stepped
  refine ⟨step_unbounded unbounded stepped, ?_⟩
  obtain ⟨ops, permitted, ran⟩ := step_matched unbounded stepped
  cases a with
  | tryNextItem =>
    obtain ⟨idle, same⟩ := Option.ite_none_right_eq_some.mp stepped
    obtain ⟨ops', ran'⟩ := tryNextItem_orderly unbounded idle fair
    rw [Option.some.inj same] at ran'
    exact ⟨ops', ran'⟩
  | dropNext => cases completes
  | _ =>
    refine ⟨ops, Machine.restrict_run _ ?_ ran⟩
    intro op member p
    cases op with
    | rotate | dropNext => exact (permitted _ member).elim
    | _ => trivial

/-- What a `None` of `try_next_item` does to the queue. -/
theorem tryNextItem_nothing (unbounded : Unbounded s) (nodup : s.inner.queue.buf.Nodup) (idle : s.driver = .idle)
    (nothing : .nothing ∈ (tryNextItem s).2) :
    (tryNextItem s).1.inner.queue.buf = s.inner.queue.buf ↔ s.orderly .tryNextItem = true := by
  by_cases busy : s.inner.current.isSome = true
  · simp [tryNextItem, busy] at nothing
  have free : s.inner.current = none := Option.not_isSome_iff_eq_none.mp busy
  cases front : s.inner.queue.buf with
  | nil =>
    refine iff_of_true ?_ (by simp [System.orderly, front])
    simp only [tryNextItem, busy, Queue.tryGet_of_nil front]
    exact front
  | cons slot rest =>
    cases filled : (s.heap slot).payload with
    | some payload =>
      simp [tryNextItem, free, Queue.tryGet_of_cons front, grant, Event.set, System.setSlot, System.setInner,
        filled, woke] at nothing
    | none =>
      have rotated := tryNextItem_rotate s unbounded idle free front filled
      rw [Protocol.step_rotate idle free front filled] at rotated
      have back : rest ++ [slot] = (tryNextItem s).1.inner.queue.buf :=
        congrArg (fun next => next.1.queue) (Option.some.inj rotated)
      rw [← back, orderly_cons_iff free front, filled]
      constructor
      · intro same
        -- the slot would be in the queue twice
        cases rest with
        | nil => exact .inl rfl
        | cons next rest =>
          obtain ⟨rfl, -⟩ := List.cons.inj same
          rw [front] at nodup
          simp at nodup
      · rintro (rfl | full)
        · rfl
        · cases full

end Simulation

/-- In every run in which `get_next_item` is always polled until it returns, and in which the slots that
`try_next_item` puts back are alone in the queue, items are delivered in ticket order. -/
theorem fifo_arbitration (names : ι → String) (attached : ι → Bool) {actions : List (Action ι Req Rsp)}
    {s : System ι Req Rsp} {obs : List (Obs ι Req)}
    (ran : (orderlyMachine ι Req Rsp).run (initial names attached) actions = some (s, obs)) : Arbitrated s obs := by
  obtain ⟨unbounded, ops, matched⟩ := orderly_simulates.run (unbounded_initial names attached) ran
  have fresh : (initial names attached : System ι Req Rsp).protocol.Fresh := initial_fresh names attached
  obtain ⟨layout, ledger⟩ := fresh.run (Machine.run_of_restrict _ matched)
  have order := fresh.tickets matched
  have enqueued := ledger.enqueued
  rw [filterMap_enqueuedId_visible, deliveries_visible] at order
  rw [filterMap_enqueuedId_visible] at enqueued
  refine ⟨?_, ?_, ?_⟩
  · rw [enqueued, List.pairwise_map]
    exact List.pairwise_lt_range.imp fun less => by simpa [ticketOf] using less
  · rw [order]
    congr 1
    refine List.map_congr_left ?_
    intro slot inside
    exact (layout.ticket slot (layout.bound slot (List.mem_append_right _ inside))).symm
  · intro t out stepped nothing
    obtain ⟨idle, same⟩ := Option.ite_none_right_eq_some.mp stepped
    have nodup : s.inner.queue.buf.Nodup := by
      have all := layout.nodup
      rw [Protocol.inFlight, Protocol.pending, List.nodup_append', List.nodup_append'] at all
      exact all.2.1.2.1
    have kept := tryNextItem_nothing unbounded nodup idle
    rw [Option.some.inj same] at kept
    exact kept nothing

/-- One sequence is offered to `try_next_item` twice, a second one to `get_next_item`. -/
def mixedCalls (first second : ι) : List (Action ι ℕ Unit) :=
  [.startItem first (.task 1), .tryNextItem, .pollStart first (.task 1), .finishItem first 7 (.task 1),
    .startItem second (.task 2), .tryNextItem, .itemDone none, .getNextItem (.task 0), .pollStart second (.task 2),
    .finishItem second 9 (.task 2), .pollNext (.task 0)]

theorem fifo_arbitration_mixed_calls :
    ∃ s obs, (orderlyMachine (Fin 2) ℕ Unit).run (initial (fun _ => "s") fun _ => true) (mixedCalls 0 1) = some (s, obs) ∧
      (deliveries obs).map SeqItem.id = [⟨1⟩, ⟨2⟩] ∧ Arbitrated s obs := by
  obtain ⟨s, obs, ran, delivered⟩ : ∃ s obs,
      (orderlyMachine (Fin 2) ℕ Unit).run (initial (fun _ => "s") fun _ => true) (mixedCalls 0 1) = some (s, obs) ∧
      (deliveries obs).map SeqItem.id = [⟨1⟩, ⟨2⟩] := ⟨_, _, rfl, by decide⟩
  exact ⟨s, obs, ran, delivered, fifo_arbitration _ _ ran⟩

/-- Two sequences are queued when `try_next_item` finds the first one's item not filled. -/
def putBack (first second : ι) : List (Action ι ℕ Unit) :=
  [.startItem first (.task 1), .startItem second (.task 2), .tryNextItem, .getNextItem (.task 0),
    .pollStart second (.task 2), .finishItem second 9 (.task 2), .pollNext (.task 0)]

/-- The second sequence is served although the first one was enqueued before it. -/
theorem putBack_not_arbitrated :
    ∃ s obs, (machine (Fin 2) ℕ Unit).run (initial (fun _ => "s") fun _ => true) (putBack 0 1) = some (s, obs) ∧
      (∀ a ∈ putBack (0 : Fin 2) 1, a.completes = true) ∧ obs.filterMap Obs.enqueuedId = [⟨1⟩, ⟨2⟩] ∧
      (deliveries obs).map SeqItem.id = [⟨2⟩] ∧ ¬ Arbitrated s obs := by
  obtain ⟨s, obs, ran, enqueued, delivered⟩ : ∃ s obs,
      (machine (Fin 2) ℕ Unit).run (initial (fun _ => "s") fun _ => true) (putBack 0 1) = some (s, obs) ∧
      obs.filterMap Obs.enqueuedId = [⟨1⟩, ⟨2⟩] ∧ (deliveries obs).map SeqItem.id = [⟨2⟩] :=
    ⟨_, _, rfl, by decide, by decide⟩
  refine ⟨s, obs, ran, by decide, enqueued, delivered, ?_⟩
  intro arbitrated
  have order := arbitrated.order
  rw [enqueued, delivered] at order
  simp at order

end Rustdv.Sequencer
