import Rustdv.Soundness.Arbitration
import Rustdv.Soundness.DriverCancel

/-! # Dropping a sequence

A slot stays in the queue when its sequence is dropped. If the sequence had started the item and not yet
handed it over, nobody can fill the slot any more, and a driver that takes it waits for good. As long as
sequences are dropped only between items, or after the handover, every slot on its way to the driver is
filled or has a live sequence to fill it, and every payload handed over can be delivered: the slots before
it are served one after the other.
-/

namespace Rustdv.Sequencer

variable {ι Req Rsp : Type*} [DecidableEq ι]

/-- A sequence is dropped only when it holds no item that it has started and not handed over. -/
def System.parting (s : System ι Req Rsp) : Action ι Req Rsp → Bool
  | .dropSeq seq => (s.seqs seq).ctx.current.isNone
  | _ => true

/-- The machine on which pending `get_next_item`s are polled until they return, and on which no sequence
leaves a started item behind. -/
def partingMachine (ι Req Rsp : Type*) [DecidableEq ι] : Machine (System ι Req Rsp) (Action ι Req Rsp) (Obs ι Req) :=
  (machine ι Req Rsp).restrict fun s a => a.completes = true ∧ s.parting a = true

/-- The sequencer is not wedged. -/
structure Unwedged (s : System ι Req Rsp) (obs : List (Obs ι Req)) : Prop where
  /-- A slot that the driver waits for is filled, or a live sequence has it to fill. -/
  committed : ∀ slot, s.driver = .readying slot → (s.heap slot).ready.isSet = true ∨
    ∃ seq, (s.seqs seq).pos ≠ .dropped ∧ (s.seqs seq).ctx.current = some slot
  /-- Every payload handed over has been delivered, or is by some continuation in which the driver uses
  only `get_next_item` and `item_done` and nothing more is dropped. -/
  deliverable : ∀ seq id payload, .handed seq id payload ∈ obs → ∃ actions t later,
    ((machine ι Req Rsp).restrict fun _ a => a.plain = true).run s actions = some (t, later) ∧
      ⟨id, payload⟩ ∈ deliveries (obs ++ later)

namespace Protocol

variable {p p' : Protocol ι Req} {op : Op ι Req} {out seen : List (Obs ι Req)}

def Parting (p : Protocol ι Req) : Op ι Req → Prop
  | .dropNext => False
  | .dropSeq seq => p.held seq = none
  | _ => True

noncomputable instance (p : Protocol ι Req) (op : Op ι Req) : Decidable (p.Parting op) :=
  Classical.propDecidable _

/-- Every slot on its way to the driver can be or is filled, and every other slot has been delivered. -/
structure Attended (p : Protocol ι Req) : Prop where
  fillable : ∀ slot ∈ p.pending, (p.cells slot).ready = true ∨ ∃ seq, p.pos seq ≠ .dropped ∧ p.held seq = some slot
  kept : ∀ slot < p.fresh, slot ∈ p.pending ∨ (p.cells slot).ready = true ∧ (p.cells slot).payload = none

omit [DecidableEq ι] in
theorem Parting.careful (parting : p.Parting op) : p.Careful op := by
  cases op with
  | dropNext => exact parting.elim
  | _ => trivial

theorem Transition.fillable (moved : Transition p op p' out) (parting : p.Parting op) (layout : p.Layout)
    (attended : p.Attended) (slot : SlotRef) (inside : slot ∈ p'.pending) :
    (p'.cells slot).ready = true ∨ ∃ seq, p'.pos seq ≠ .dropped ∧ p'.held seq = some slot := by
  rcases moved.pending_subset inside with before | rfl
  · rcases attended.fillable slot before with filled | ⟨seq, live, held⟩
    · exact .inl ((moved.treated (layout.pending_bound before)).ready filled)
    · rcases moved.held_kept held with still | ready
      · refine .inr ⟨seq, moved.lives_on ?_ live, still⟩
        rintro rfl
        rw [parting] at held
        cases held
      · exact .inl ready
  · have grown : p.fresh < p'.fresh := (moved.layout layout).pending_bound inside
    obtain ⟨-, seq, held, starting⟩ := moved.allocates grown
    exact .inr ⟨seq, by simp [starting], held⟩

theorem Transition.kept_slots (moved : Transition p op p' out) (parting : p.Parting op) (layout : p.Layout)
    (attended : p.Attended) (slot : SlotRef) (bound : slot < p'.fresh) :
    slot ∈ p'.pending ∨ (p'.cells slot).ready = true ∧ (p'.cells slot).payload = none := by
  rcases moved.old_or_new bound with old | ⟨rfl, -⟩
  · have treated := moved.treated old
    rcases attended.kept slot old with inside | ⟨ready, gone⟩
    · rcases moved.pending_kept inside with stays | ⟨payload, stored, gone⟩ | rfl | rfl
      · exact .inl stays
      · exact .inr ⟨treated.ready (layout.ready_of_stored old stored), gone⟩
      · exact parting.elim
      · exact (moved.crash_free layout).elim
    · exact .inr ⟨treated.ready ready, treated.taken layout ready gone⟩
  · exact .inl (moved.allocates bound).1

omit [DecidableEq ι] in
theorem Fresh.attended (fresh : p.Fresh) : p.Attended := by
  constructor <;> simp [pending, fresh.queue, fresh.driver, fresh.fresh, DriverPos.wanted]

/-- The invariants hold along every run on which no sequence leaves a started item behind. -/
theorem Sound.run_parting (sound : p.Sound seen) (attended : p.Attended) {ops : List (Op ι Req)}
    (ran : ((protocol ι Req).restrict Parting).run p ops = some (p', out)) :
    p'.Sound (seen ++ out) ∧ p'.Attended := by
  refine Machine.run_invariant _ (fun q past => q.Sound past ∧ q.Attended) ⟨sound, attended⟩ ?_ ran
  rintro u v past now op ⟨sound, attended⟩ stepped
  obtain ⟨parting, stepped⟩ := (protocol ι Req).restrict_step_eq_some_iff.mp stepped
  have moved := transition_of_step stepped
  exact ⟨moved.sound parting.careful sound, moved.fillable parting sound.layout attended,
    moved.kept_slots parting sound.layout attended⟩

end Protocol

/-- Runs on which no sequence leaves a started item behind are such runs of the protocol. -/
theorem parting_simulates : (partingMachine ι Req Rsp).Simulates ((protocol ι Req).restrict Protocol.Parting)
    Unbounded System.protocol Obs.visible := by
  intro s a t out unbounded stepped
  obtain ⟨⟨completes, parting⟩, stepped⟩ := (machine ι Req Rsp).restrict_step_eq_some_iff.mp stepped
  refine ⟨step_unbounded unbounded stepped, ?_⟩
  obtain ⟨ops, permitted, ran⟩ := step_matched unbounded stepped
  cases a with
  | dropSeq seq =>
    simp only [machine, step, Option.ite_none_left_eq_some, Option.some.injEq, Prod.mk.injEq] at stepped
    obtain ⟨live, rfl, rfl⟩ := stepped
    refine ⟨[.dropSeq seq], ?_⟩
    rw [Machine.run_singleton, System.protocol_setPos]
    exact (protocol ι Req).restrict_step_eq_some_iff.mpr ⟨Option.isNone_iff_eq_none.mp parting, if_neg live⟩
  | dropNext => cases completes
  | _ =>
    refine ⟨ops, Machine.restrict_run _ ?_ ran⟩
    intro op member p
    cases op with
    | dropNext | dropSeq => exact (permitted _ member).elim
    | _ => trivial

/-! ## Serving what is pending -/

/-- The invariants of runs on which no sequence leaves a started item behind. -/
structure Steady (s : System ι Req Rsp) (obs : List (Obs ι Req)) : Prop where
  unbounded : Unbounded s
  sound : s.protocol.Sound (obs.filter Obs.visible)
  attended : s.protocol.Attended

/-- Calls and polls lead from one state to the other, without `try_next_item` and without drops. -/
def Reaches (s t : System ι Req Rsp) (out : List (Obs ι Req)) : Prop :=
  ∃ actions : List (Action ι Req Rsp), (∀ a ∈ actions, a.plain = true) ∧
    (machine ι Req Rsp).run s actions = some (t, out)

/-- The slot can be delivered, after which those behind it are all that is pending. -/
def System.Serves (s : System ι Req Rsp) (slot : SlotRef) (rest : List SlotRef) : Prop :=
  ∃ t out payload, Reaches s t out ∧ t.protocol.pending = rest ∧ ⟨ticketOf slot, payload⟩ ∈ deliveries out

section Serving

variable {s mid t : System ι Req Rsp} {past first out : List (Obs ι Req)} {seq : ι} {slot : SlotRef}
variable {rest : List SlotRef}

omit [DecidableEq ι] in
theorem steady_initial (names : ι → String) (attached : ι → Bool) :
    Steady (initial names attached : System ι Req Rsp) [] :=
  ⟨unbounded_initial names attached, (initial_fresh names attached).sound, (initial_fresh names attached).attended⟩

theorem Steady.run (steady : Steady s past) {actions : List (Action ι Req Rsp)}
    (ran : (partingMachine ι Req Rsp).run s actions = some (t, out)) : Steady t (past ++ out) := by
  obtain ⟨unbounded, ops, matched⟩ := parting_simulates.run steady.unbounded ran
  obtain ⟨sound, attended⟩ := steady.sound.run_parting steady.attended matched
  refine ⟨unbounded, ?_, attended⟩
  rwa [List.filter_append]

omit [DecidableEq ι] in
theorem parting_of_plain {a : Action ι Req Rsp} (plain : a.plain = true) (s : System ι Req Rsp) :
    a.completes = true ∧ s.parting a = true := by
  cases a with
  | dropNext | dropSeq => cases plain
  | _ => exact ⟨rfl, rfl⟩

theorem Reaches.steady (reaches : Reaches s t out) (steady : Steady s past) : Steady t (past ++ out) := by
  obtain ⟨actions, plain, ran⟩ := reaches
  exact steady.run (Machine.restrict_run _ (fun a member u => parting_of_plain (plain a member) u) ran)

theorem Reaches.one {a : Action ι Req Rsp} (plain : a.plain = true) (stepped : step s a = some (t, out)) :
    Reaches s t out := by
  refine ⟨[a], by simpa using plain, ?_⟩
  rw [Machine.run_singleton]
  exact stepped

theorem Reaches.trans (left : Reaches s mid first) (right : Reaches mid t out) : Reaches s t (first ++ out) := by
  obtain ⟨front, plain, left⟩ := left
  obtain ⟨back, plain', right⟩ := right
  refine ⟨front ++ back, ?_, Machine.run_append _ left right⟩
  intro a member
  exact (List.mem_append.mp member).elim (plain a) (plain' a)

/-- A call that performs one transition leads to its successor. -/
theorem Realizes.reaches {a : Action ι Req Rsp} {op : Op ι Req} {p' : Protocol ι Req} {shown : List (Obs ι Req)}
    (realizes : Realizes s a op) (plain : a.plain = true) (stepped : s.protocol.step op = some (p', shown)) :
    ∃ t out, Reaches s t out ∧ t.protocol = p' ∧ out.filter Obs.visible = shown := by
  obtain ⟨t, out, taken, last, seen⟩ := realizes.result stepped
  exact ⟨t, out, .one plain taken, last, seen⟩

theorem System.Serves.after (reached : Reaches s mid first) (serves : mid.Serves slot rest) : s.Serves slot rest := by
  obtain ⟨t, out, payload, onwards, pending, delivered⟩ := serves
  refine ⟨t, first ++ out, payload, reached.trans onwards, pending, ?_⟩
  rw [Protocol.mem_deliveries] at delivered ⊢
  exact List.mem_append_right _ delivered

/-- A run in which a pending slot's cell is the one delivery serves the slot. -/
theorem Steady.serves_of_delivered (steady : Steady s past) (inside : slot ∈ s.protocol.pending)
    (reaches : Reaches s t out) (left : t.protocol.pending = rest)
    (seen : out.filter Obs.visible = [.delivered ⟨(s.protocol.cells slot).ticket, payload⟩]) : s.Serves slot rest := by
  have layout := steady.sound.layout
  have ticket := layout.ticket slot (layout.bound slot (List.mem_append_right _ inside))
  refine ⟨t, out, payload, reaches, left, ?_⟩
  rw [← deliveries_visible, seen, ticket, Protocol.mem_deliveries]
  exact List.mem_singleton.mpr rfl

/-- The driver holds a filled slot. -/
theorem Steady.delivers (steady : Steady s past) (driver : s.protocol.driver = .readying slot)
    (ready : (s.protocol.cells slot).ready = true) : s.Serves slot s.protocol.queue := by
  have layout := steady.sound.layout
  have inside : slot ∈ s.protocol.pending := by simp [Protocol.pending, driver, DriverPos.wanted]
  obtain ⟨payload, filled⟩ := Option.isSome_iff_exists.mp (layout.filled slot inside ready)
  obtain ⟨t, out, reaches, last, seen⟩ := (realizes_deliver (.task 0) driver ready filled).reaches rfl
    (Protocol.step_deliver driver ready filled)
  have left : t.protocol.pending = s.protocol.queue := by
    rw [last]
    rfl
  exact steady.serves_of_delivered inside reaches left seen

/-- The driver holds a slot whose live sequence is between `start_item` and `finish_item`. -/
theorem Steady.hands (steady : Steady s past) (payload : Req) (driver : s.protocol.driver = .readying slot)
    (idle : s.protocol.pos seq = .idle) (held : s.protocol.held seq = some slot) :
    s.Serves slot s.protocol.queue := by
  have layout := steady.sound.layout
  have unready := layout.held_ready seq slot held
  have undone : (s.protocol.cells slot).done = false := by
    by_contra done
    rw [layout.done_ready slot (layout.held_bound seq slot held) (by simpa using done)] at unready
    cases unready
  obtain ⟨t, out, reaches, last, -⟩ := (realizes_hand (.task 0) payload idle held undone).reaches rfl
    (Protocol.step_hand idle held)
  have delivers : t.Serves slot t.protocol.queue :=
    (reaches.steady steady).delivers (by rw [last]; exact driver) (by rw [last]; simp)
  have queue : t.protocol.queue = s.protocol.queue := by rw [last]; rfl
  rw [queue] at delivers
  exact .after reaches delivers

/-- The driver holds a slot: a live sequence that has it to fill is taken to its handover. -/
theorem Steady.readied (steady : Steady s past) (payload : Req) (driver : s.protocol.driver = .readying slot) :
    s.Serves slot s.protocol.queue := by
  have inside : slot ∈ s.protocol.pending := by simp [Protocol.pending, driver, DriverPos.wanted]
  rcases steady.attended.fillable slot inside with ready | ⟨seq, live, held⟩
  · exact steady.delivers driver ready
  · cases pos : s.protocol.pos seq with
    | idle => exact steady.hands payload driver pos held
    | starting slot' =>
      obtain rfl := Option.some.inj (held.symm.trans (steady.sound.layout.starting seq slot' pos))
      have granted := steady.sound.kept.granted slot driver
      obtain ⟨t, out, reaches, last, -⟩ := (realizes_start (.task 0) pos granted).reaches rfl
        (Protocol.step_start pos granted)
      have hands : t.Serves slot t.protocol.queue :=
        (reaches.steady steady).hands payload (by rw [last]; exact driver)
          (by rw [last]; exact Protocol.setPos_pos ..) (by rw [last]; exact held)
      have queue : t.protocol.queue = s.protocol.queue := by rw [last]; rfl
      rw [queue] at hands
      exact .after reaches hands
    | enqueueing slot' => exact absurd pos (steady.sound.kept.room seq slot')
    | finishing slot' =>
      rw [steady.sound.kept.exclusive seq slot' pos] at held
      cases held
    | dropped => exact absurd pos live

/-- The driver has no slot: it takes the one in front of the queue. -/
theorem Steady.takes (steady : Steady s past) (payload : Req)
    (driver : s.protocol.driver = .waiting ∨ s.protocol.driver = .idle ∧ s.protocol.current = none)
    (front : s.protocol.queue = slot :: rest) : s.Serves slot rest := by
  have layout := steady.sound.layout
  have inside : slot ∈ s.protocol.pending := by simp [Protocol.pending, front]
  have plain : (s.nextCall (.task 0)).plain = true := by
    unfold System.nextCall
    split <;> rfl
  cases ready : (s.protocol.cells slot).ready with
  | true =>
    obtain ⟨stored, filled⟩ := Option.isSome_iff_exists.mp (layout.filled slot inside ready)
    obtain ⟨t, out, taken, last, seen⟩ := nextCall_delivered (.task 0) driver front ready filled
    have left : t.protocol.pending = rest := by
      rw [last]
      rfl
    exact steady.serves_of_delivered inside (.one plain taken) left seen
  | false =>
    obtain ⟨t, out, reaches, last, -⟩ := (realizes_pop (.task 0) driver front ready).reaches plain
      (Protocol.step_pop driver front)
    have readied : t.Serves slot t.protocol.queue :=
      (reaches.steady steady).readied payload (by rw [last])
    have queue : t.protocol.queue = rest := by rw [last]
    rw [queue] at readied
    exact .after reaches readied

/-- Whatever the driver is doing, it can go on to deliver the next pending slot. -/
theorem Steady.serves (steady : Steady s past) (payload : Req) (pending : s.protocol.pending = slot :: rest) :
    s.Serves slot rest := by
  cases driver : s.protocol.driver with
  | readying taken =>
    rw [Protocol.pending, driver] at pending
    obtain ⟨rfl, rfl⟩ := List.cons.inj pending
    exact steady.readied payload driver
  | waiting =>
    rw [Protocol.pending, driver] at pending
    exact steady.takes payload (.inl driver) pending
  | idle =>
    rw [Protocol.pending, driver] at pending
    cases current : s.protocol.current with
    | none => exact steady.takes payload (.inr ⟨driver, current⟩) pending
    | some item =>
      obtain ⟨t, out, reaches, last, -⟩ := (realizes_release none current).reaches rfl
        (Protocol.step_release current)
      refine .after reaches ((reaches.steady steady).takes payload (.inr ⟨?_, ?_⟩) ?_)
      · rw [last]
        exact driver
      · rw [last]
      · rw [last]
        exact pending

/-- Every pending slot can be delivered: those before it are served one after the other. -/
theorem Steady.served (payload : Req) (ahead : List SlotRef) : ∀ {s : System ι Req Rsp} {past : List (Obs ι Req)},
    Steady s past → s.protocol.pending = ahead ++ slot :: rest → s.Serves slot rest := by
  induction ahead with
  | nil =>
    intro s past steady pending
    exact steady.serves payload pending
  | cons front ahead ih =>
    intro s past steady pending
    obtain ⟨t, out, -, reaches, left, -⟩ := steady.serves payload pending
    exact .after reaches (ih (reaches.steady steady) left)

end Serving

/-- Every payload handed over has been delivered or can be. -/
theorem Steady.deliverable {s : System ι Req Rsp} {obs : List (Obs ι Req)} (steady : Steady s obs) {seq : ι}
    {id : TxnId} {payload : Req} (handed : .handed seq id payload ∈ obs) :
    ∃ t later, Reaches s t later ∧ ⟨id, payload⟩ ∈ deliveries (obs ++ later) := by
  have earlier := List.mem_filter.mpr ⟨handed, Obs.visible_handed seq id payload⟩
  obtain ⟨slot, bound, rfl, -, stored | delivered⟩ := steady.sound.ledger.handed seq id payload earlier
  · -- its slot is pending, so it can be served
    have inside : slot ∈ s.protocol.pending := by
      rcases steady.attended.kept slot bound with inside | ⟨-, gone⟩
      · exact inside
      · rw [gone] at stored
        cases stored
    obtain ⟨ahead, rest, pending⟩ := List.append_of_mem inside
    obtain ⟨t, later, other, reaches, -, delivered⟩ := steady.served payload ahead pending
    have ledger := (reaches.steady steady).sound.ledger
    have received : ⟨ticketOf slot, other⟩ ∈ deliveries ((obs ++ later).filter Obs.visible) := by
      rw [deliveries_visible, deliveries, List.filterMap_append]
      exact List.mem_append_right _ delivered
    -- what is served is what was handed over, as no ticket is handed over twice
    obtain ⟨giver, given⟩ := ledger.source _ received
    have own : .handed seq (ticketOf slot) payload ∈ (obs ++ later).filter Obs.visible := by
      rw [List.filter_append]
      exact List.mem_append_left _ earlier
    obtain ⟨-, -, rfl⟩ := Obs.handed.inj (ledger.handedOnce.eq_of_filterMap own given rfl rfl)
    rw [deliveries_visible] at received
    exact ⟨t, later, reaches, received⟩
  · refine ⟨s, [], ⟨[], by simp, rfl⟩, ?_⟩
    rwa [List.append_nil, ← deliveries_visible]

/-- In every run in which `get_next_item` is always polled until it returns, and in which no sequence is
dropped while it holds an item that it has started and not handed over, the sequencer is never wedged. -/
theorem sequence_cancel_safe (names : ι → String) (attached : ι → Bool) {actions : List (Action ι Req Rsp)}
    {s : System ι Req Rsp} {obs : List (Obs ι Req)}
    (ran : (partingMachine ι Req Rsp).run (initial names attached) actions = some (s, obs)) : Unwedged s obs := by
  have steady : Steady s obs := (steady_initial names attached).run ran
  refine ⟨?_, ?_⟩
  · intro slot readying
    have driver : s.protocol.driver = .readying slot := readying
    have inside : slot ∈ s.protocol.pending := by simp [Protocol.pending, driver, DriverPos.wanted]
    exact steady.attended.fillable slot inside
  · intro seq id payload handed
    obtain ⟨t, later, ⟨onwards, plain, reached⟩, delivered⟩ := steady.deliverable handed
    exact ⟨onwards, t, later, Machine.restrict_run _ (fun a member _ => plain a member) reached, delivered⟩

/-- One sequence is dropped while it waits for `item_done`, then the driver turns to a second one. -/
def droppedAfterHandover (first second : ι) : List (Action ι ℕ Unit) :=
  [.startItem first (.task 1), .getNextItem (.task 0), .pollStart first (.task 1), .finishItem first 7 (.task 1),
    .dropSeq first, .pollNext (.task 0), .itemDone none, .startItem second (.task 2), .getNextItem (.task 0)]

theorem sequence_cancel_safe_after_handover :
    ∃ s obs, (partingMachine (Fin 2) ℕ Unit).run (initial (fun _ => "s") fun _ => true) (droppedAfterHandover 0 1) =
        some (s, obs) ∧ s.driver = .readying 1 ∧ .handed 0 ⟨1⟩ 7 ∈ obs ∧ Unwedged s obs := by
  obtain ⟨s, obs, ran, driver, handed⟩ : ∃ s obs,
      (partingMachine (Fin 2) ℕ Unit).run (initial (fun _ => "s") fun _ => true) (droppedAfterHandover 0 1) =
        some (s, obs) ∧ s.driver = .readying 1 ∧ .handed 0 ⟨1⟩ 7 ∈ obs := ⟨_, _, rfl, by decide, by decide⟩
  exact ⟨s, obs, ran, driver, handed, sequence_cancel_safe _ _ ran⟩

/-- The first sequence is dropped with its slot in the queue. The second one is granted by `try_next_item`
and hands its payload over, and `get_next_item` takes the first one's slot. -/
def droppedWithItem (first second : ι) : List (Action ι ℕ Unit) :=
  [.startItem first (.task 1), .dropSeq first, .startItem second (.task 2), .tryNextItem, .tryNextItem,
    .pollStart second (.task 2), .finishItem second 9 (.task 2), .getNextItem (.task 0)]

/-- The driver waits for a slot that nobody can fill. -/
theorem droppedWithItem_wedged :
    ∃ s obs, (machine (Fin 2) ℕ Unit).run (initial (fun _ => "s") fun _ => true) (droppedWithItem 0 1) = some (s, obs) ∧
      (∀ a ∈ droppedWithItem (0 : Fin 2) 1, a.completes = true) ∧ .handed 1 ⟨2⟩ 9 ∈ obs ∧ ¬ Unwedged s obs := by
  obtain ⟨s, obs, ran, handed, driver, unready, unheld⟩ : ∃ s obs,
      (machine (Fin 2) ℕ Unit).run (initial (fun _ => "s") fun _ => true) (droppedWithItem 0 1) = some (s, obs) ∧
      .handed 1 ⟨2⟩ 9 ∈ obs ∧ s.driver = .readying 0 ∧ (s.heap 0).ready.isSet = false ∧
      ∀ seq, (s.seqs seq).pos = .dropped ∨ (s.seqs seq).ctx.current ≠ some 0 :=
    ⟨_, _, rfl, by decide, by decide, by decide, by decide⟩
  refine ⟨s, obs, ran, by decide, handed, ?_⟩
  intro unwedged
  rcases unwedged.committed 0 driver with ready | ⟨seq, live, held⟩
  · rw [unready] at ready
    cases ready
  · rcases unheld seq with gone | other
    · exact live gone
    · exact other held

end Rustdv.Sequencer
