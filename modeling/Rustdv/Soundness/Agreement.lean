import Rustdv.Soundness.SequencerRefinement
import Rustdv.Soundness.Handshake

/-! # Sequencer handshake agreement

A driver that uses only `get_next_item` and `item_done` and sequences that are never cancelled agree
on every item, whatever the interleaving of their polls. The order comes from a conservation law of
the plain transitions: the tickets enqueued are those delivered followed by those still pending.
-/

namespace Rustdv.Sequencer

variable {ι Req Rsp : Type*} [DecidableEq ι]

/-- The driver never polls with `try_next_item` and nobody drops a future. -/
def Action.plain : Action ι Req Rsp → Bool
  | .tryNextItem | .dropNext | .dropCall _ | .dropSeq _ => false
  | _ => true

def Op.plain : Op ι Req → Bool
  | .take | .rotate | .dropNext | .dropCall _ | .dropSeq _ => false
  | _ => true

omit [DecidableEq ι] in
theorem plain_of_permits (a : Action ι Req Rsp) (op : Op ι Req) (plain : a.plain = true)
    (permitted : a.permits op) : op.plain = true := by
  cases a <;> cases op <;> simp_all [Action.plain, Op.plain, Action.permits]

/-- The slot a pending `finish_item` waits on. -/
def SeqPos.awaited : SeqPos → List SlotRef
  | .finishing slot => [slot]
  | _ => []

/-- The ticket of a payload handed over by this sequence. -/
def Obs.handedIdBy (seq : ι) : Obs ι Req → Option TxnId
  | .handed owner id _ => if owner = seq then some id else none
  | _ => none

/-- The ticket a `finish_item` of this sequence returned. -/
def Obs.returnedIdTo (seq : ι) : Obs ι Req → Option TxnId
  | .returned owner id => if owner = seq then some id else none
  | _ => none

/-- What both sides can rely on after any run. -/
structure Agreement (s : System ι Req Rsp) (obs : List (Obs ι Req)) : Prop where
  /-- Tickets are handed out in increasing order. -/
  tickets : (obs.filterMap Obs.enqueuedId).Pairwise fun a b => a.val < b.val
  /-- The driver receives items in ticket order, none skipped. -/
  order : (deliveries obs).map SeqItem.id <+: obs.filterMap Obs.enqueuedId
  /-- Every delivered item was handed to `finish_item` under its ticket. -/
  source : ∀ item ∈ deliveries obs, ∃ seq, .handed seq item.id item.payload ∈ obs
  /-- No ticket is handed over twice. -/
  handedOnce : (obs.filterMap Obs.handedId).Nodup
  /-- Every payload handed over is delivered exactly once, or is still in its slot. -/
  once : ∀ seq id payload, .handed seq id payload ∈ obs →
    (deliveries obs).filter (fun item => item.id = id) = [⟨id, payload⟩] ∨
    (deliveries obs).filter (fun item => item.id = id) = [] ∧
      ∃ slot < s.fresh, (s.heap slot).id = id ∧ (s.heap slot).payload = some payload
  /-- The `finish_item` calls of a sequence return, in order, the tickets their payloads were handed
  over under; at most the last one is still to return. -/
  returns : ∀ seq, obs.filterMap (Obs.handedIdBy seq) =
    obs.filterMap (Obs.returnedIdTo seq) ++ (s.seqs seq).pos.awaited.map fun slot => (s.heap slot).id
  /-- No `finish_item` returns before the `item_done` for its own ticket. -/
  released : ∀ pre post seq id, obs = pre ++ .returned seq id :: post → .released id ∈ pre
  /-- The payload of a ready item is never missing. -/
  noCrash : .panicked .payloadMissing ∉ obs

namespace Protocol

variable {p p' : Protocol ι Req} {op : Op ι Req} {out seen : List (Obs ι Req)}

/-- Tickets enqueued are tickets delivered or pending, in order; handovers are returns or awaited. -/
structure Conserved (p : Protocol ι Req) (obs : List (Obs ι Req)) : Prop where
  tickets : obs.filterMap Obs.enqueuedId = (deliveries obs).map SeqItem.id ++ p.pending.map ticketOf
  handed : ∀ seq, obs.filterMap (Obs.handedIdBy seq) =
    obs.filterMap (Obs.returnedIdTo seq) ++ (p.pos seq).awaited.map ticketOf

/-- The queue gives up only its front, and nothing in it changes places. -/
def Orderly (p : Protocol ι Req) : Op ι Req → Prop
  | .rotate => p.queue.length ≤ 1
  | .dropNext => False
  | _ => True

omit [DecidableEq ι] in
theorem orderly_of_plain (p : Protocol ι Req) (plain : op.plain = true) : p.Orderly op := by
  cases op with
  | rotate | dropNext => cases plain
  | _ => trivial

/-- As long as the queue is orderly, the tickets enqueued are those delivered and those pending. -/
theorem Transition.tickets_conserved (moved : Transition p op p' out) (orderly : p.Orderly op)
    (layout : p.Layout)
    (earlier : seen.filterMap Obs.enqueuedId = (deliveries seen).map SeqItem.id ++ p.pending.map ticketOf) :
    (seen ++ out).filterMap Obs.enqueuedId =
      (deliveries (seen ++ out)).map SeqItem.id ++ p'.pending.map ticketOf := by
  have bound := layout.bound
  simp only [deliveries, List.filterMap_append, List.map_append] at earlier ⊢
  rw [earlier]
  cases moved with
  | enqueue seq idle free =>
    simp [pending, setCell, List.filterMap_cons, Obs.enqueuedId, Obs.deliveredItem, ticketOf, layout.nextId]
  | pop slot rest driver front =>
    have idle : p.driver.wanted = [] := by
      rcases driver with waiting | ⟨idle, -⟩ <;> simp [DriverPos.wanted, *]
    rw [pending, pending, idle, front]
    simp [DriverPos.wanted]
  | deliver slot payload driver ready filled =>
    have inside : slot < p.fresh := bound slot (by simp [inFlight, pending, driver, DriverPos.wanted])
    simp [pending, driver, DriverPos.wanted, Protocol.deliver, setCell, List.filterMap_cons, Obs.enqueuedId, Obs.deliveredItem,
      layout.ticket slot inside]
  | take slot rest payload idle free front filled =>
    have inside : slot < p.fresh := bound slot (by simp [inFlight, pending, front])
    simp [pending, idle, front, DriverPos.wanted, Protocol.deliver, setCell, List.filterMap_cons, Obs.enqueuedId,
      Obs.deliveredItem, layout.ticket slot inside]
  | rotate slot rest idle free front missing =>
    have alone : rest = [] := by
      have short : p.queue.length ≤ 1 := orderly
      rw [front, List.length_cons] at short
      exact List.eq_nil_of_length_eq_zero (by omega)
    simp [pending, idle, front, alone, DriverPos.wanted, grant, setCell]
  | await idle free empty => simp [pending, idle, DriverPos.wanted]
  | crash slot driver ready missing => exact ((Transition.crash slot driver ready missing).crash_free layout).elim
  | dropNext => exact orderly.elim
  | _ => simp [pending, setPos, setCell, List.filterMap_cons, Obs.enqueuedId, Obs.deliveredItem]

theorem Transition.handed_conserved (moved : Transition p op p' out) (plain : op.plain = true)
    (layout : p.Layout) (conserved : p.Conserved seen) (seq : ι) :
    (seen ++ out).filterMap (Obs.handedIdBy seq) =
      (seen ++ out).filterMap (Obs.returnedIdTo seq) ++ (p'.pos seq).awaited.map ticketOf := by
  rw [List.filterMap_append, List.filterMap_append, conserved.handed seq]
  cases moved with
  | enqueue owner idle free =>
    by_cases same : seq = owner
    · subst same
      simp [List.filterMap_cons, Obs.handedIdBy, Obs.returnedIdTo, SeqPos.awaited, idle]
    · simp [List.filterMap_cons, Obs.handedIdBy, Obs.returnedIdTo, Function.update_of_ne same]
  | start owner slot starting granted =>
    by_cases same : seq = owner
    · subst same
      simp [List.filterMap_cons, Obs.handedIdBy, Obs.returnedIdTo, SeqPos.awaited, starting, setPos]
    · simp [List.filterMap_cons, Obs.handedIdBy, Obs.returnedIdTo, setPos, Function.update_of_ne same]
  | hand owner payload slot idle held =>
    by_cases same : seq = owner
    · subst same
      simp [List.filterMap_cons, Obs.handedIdBy, Obs.returnedIdTo, SeqPos.awaited, idle, setPos,
        layout.ticket slot (layout.held_bound seq slot held)]
    · simp [List.filterMap_cons, Obs.handedIdBy, Obs.returnedIdTo, setPos, setCell, Function.update_of_ne same, Ne.symm same]
  | finish owner slot finishing done =>
    by_cases same : seq = owner
    · subst same
      simp [List.filterMap_cons, Obs.handedIdBy, Obs.returnedIdTo, SeqPos.awaited, finishing, setPos,
        layout.ticket slot (layout.finishing seq slot finishing).1]
    · simp [List.filterMap_cons, Obs.handedIdBy, Obs.returnedIdTo, setPos, Function.update_of_ne same, Ne.symm same]
  | take | rotate | dropNext | dropCall | dropSeq => cases plain
  | _ => simp [List.filterMap_cons, Obs.handedIdBy, Obs.returnedIdTo, grant, setCell, Protocol.deliver]

/-- Plain runs conserve tickets and handovers. -/
theorem Fresh.conserved (fresh : p.Fresh) {ops : List (Op ι Req)} {obs : List (Obs ι Req)}
    (ran : ((protocol ι Req).restrict fun _ op => op.plain = true).run p ops = some (p', obs)) :
    p'.Conserved obs := by
  refine (((protocol ι Req).restrict _).run_invariant_nil (fun q seen => q.Layout ∧ q.Conserved seen)
    ⟨fresh.layout, ?_⟩ ?_ ran).2
  · constructor <;> simp [pending, fresh.queue, fresh.driver, fresh.pos, DriverPos.wanted, SeqPos.awaited,
      deliveries]
  · rintro u v seen out op ⟨layout, conserved⟩ stepped
    obtain ⟨plain, stepped⟩ := (protocol ι Req).restrict_step_eq_some_iff.mp stepped
    have moved := transition_of_step stepped
    exact ⟨moved.layout layout, moved.tickets_conserved (orderly_of_plain u plain) layout conserved.tickets,
      moved.handed_conserved plain layout conserved⟩

end Protocol

section Visible

omit [DecidableEq ι] in
theorem filterMap_enqueuedId_visible (obs : List (Obs ι Req)) :
    (obs.filter Obs.visible).filterMap Obs.enqueuedId = obs.filterMap Obs.enqueuedId :=
  List.filterMap_filter_of_observed _ _ (fun o => by cases o <;> simp [Obs.enqueuedId]) obs

omit [DecidableEq ι] in
theorem filterMap_handedId_visible (obs : List (Obs ι Req)) :
    (obs.filter Obs.visible).filterMap Obs.handedId = obs.filterMap Obs.handedId :=
  List.filterMap_filter_of_observed _ _ (fun o => by cases o <;> simp [Obs.handedId]) obs

theorem filterMap_handedIdBy_visible (seq : ι) (obs : List (Obs ι Req)) :
    (obs.filter Obs.visible).filterMap (Obs.handedIdBy seq) = obs.filterMap (Obs.handedIdBy seq) :=
  List.filterMap_filter_of_observed _ _ (fun o => by cases o <;> simp [Obs.handedIdBy]) obs

theorem filterMap_returnedIdTo_visible (seq : ι) (obs : List (Obs ι Req)) :
    (obs.filter Obs.visible).filterMap (Obs.returnedIdTo seq) = obs.filterMap (Obs.returnedIdTo seq) :=
  List.filterMap_filter_of_observed _ _ (fun o => by cases o <;> simp [Obs.returnedIdTo]) obs

end Visible

/-- In every interleaving of one plain driver and any number of uncancelled sequences, both sides
agree on every item. -/
theorem handshake_agreement (names : ι → String) (attached : ι → Bool) {actions : List (Action ι Req Rsp)}
    {s : System ι Req Rsp} {obs : List (Obs ι Req)}
    (ran : ((machine ι Req Rsp).restrict fun _ a => a.plain = true).run (initial names attached) actions =
      some (s, obs)) : Agreement s obs := by
  obtain ⟨-, ops, matched⟩ := (machine_simulates plain_of_permits).run (unbounded_initial names attached) ran
  have fresh : (initial names attached : System ι Req Rsp).protocol.Fresh := initial_fresh names attached
  obtain ⟨layout, ledger⟩ := fresh.run (Machine.run_of_restrict _ matched)
  have conserved := fresh.conserved matched
  have ticket : ∀ slot < s.fresh, (s.heap slot).id = ticketOf slot := layout.ticket
  obtain ⟨tickets, handed⟩ := conserved
  obtain ⟨enqueued, delivered, once, source, -, handovers, handedOnce, -, -, returned, noCrash⟩ := ledger
  simp only [filterMap_enqueuedId_visible, filterMap_handedId_visible, deliveries_visible,
    filterMap_handedIdBy_visible, filterMap_returnedIdTo_visible, List.mem_filter] at *
  refine ⟨?_, ?_, ?_, handedOnce, ?_, ?_, ?_, ?_⟩
  · rw [enqueued, List.pairwise_map]
    exact List.pairwise_lt_range.imp fun less => by simpa [ticketOf] using less
  · rw [tickets]
    exact List.prefix_append ..
  · intro item member
    obtain ⟨seq, handed, -⟩ := source item member
    exact ⟨seq, handed⟩
  · intro seq id payload member
    obtain ⟨slot, bound, rfl, -, waiting | gone⟩ := handovers seq id payload ⟨member, rfl⟩
    · refine .inr ⟨?_, slot, bound, ticket slot bound, waiting⟩
      -- a delivered item has left its slot
      simp only [List.filter_eq_nil_iff, decide_eq_true_eq]
      intro item member same
      obtain ⟨slot', same', settled⟩ := delivered item member
      obtain rfl := ticketOf_injective (same'.symm.trans same)
      have empty : (s.protocol.cells slot').payload = none := settled.payload
      rw [empty] at waiting
      cases waiting
    · exact .inl (filter_deliveries_of_mem once gone)
  · intro seq
    rw [handed seq]
    congr 1
    change (s.protocol.pos seq).awaited.map ticketOf = (s.protocol.pos seq).awaited.map _
    cases pos : s.protocol.pos seq with
    | finishing slot =>
      exact congrArg (· :: []) (ticket slot (layout.finishing seq slot pos).1).symm
    | _ => rfl
  · intro pre post seq id cut
    refine List.mem_of_mem_filter (returned (pre.filter Obs.visible) (post.filter Obs.visible) seq id ?_)
    rw [cut, List.filter_append, List.filter_cons]
    rfl
  · intro member
    exact noCrash ⟨member, rfl⟩

/-- Two sequences, the second enqueueing while the first holds the grant. -/
def twoSequences : List (Action (Fin 2) ℕ Unit) :=
  [.startItem 0 (.task 1), .getNextItem (.task 0), .startItem 1 (.task 2), .pollStart 0 (.task 1),
    .finishItem 0 7 (.task 1), .pollNext (.task 0), .itemDone none, .pollFinish 0 (.task 1),
    .getNextItem (.task 0), .pollStart 1 (.task 2), .finishItem 1 9 (.task 2), .pollNext (.task 0)]

theorem handshake_agreement_two_sequences :
    ∃ s obs, ((machine (Fin 2) ℕ Unit).restrict fun _ a => a.plain = true).run
        (initial (fun _ => "s") fun _ => true) twoSequences = some (s, obs) ∧
      deliveries obs = [⟨⟨1⟩, 7⟩, ⟨⟨2⟩, 9⟩] ∧ Agreement s obs := by
  have seen : (((machine (Fin 2) ℕ Unit).restrict fun _ a => a.plain = true).run
      (initial (fun _ => "s") fun _ => true) twoSequences).map (fun last => deliveries last.2) =
        some [⟨⟨1⟩, 7⟩, ⟨⟨2⟩, 9⟩] := by decide
  obtain ⟨⟨s, obs⟩, ran, delivered⟩ := Option.map_eq_some_iff.mp seen
  exact ⟨s, obs, ran, delivered, handshake_agreement _ _ ran⟩

end Rustdv.Sequencer
