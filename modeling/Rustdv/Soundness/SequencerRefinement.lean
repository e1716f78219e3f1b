import Rustdv.Machine.Simulation
import Rustdv.Soundness.Handshake

/-! # The sequencer refines the handshake protocol

Every poll of the source is a short run of protocol transitions. A call that does nothing but
register a waker, refuse or report misuse is the empty run. The only fact about the concrete state
that the simulation needs is that the queue is unbounded, so that `start_item` never waits for room.
-/

namespace Rustdv.Sequencer

variable {ι Req Rsp : Type*} [DecidableEq ι]

/-- The queue is the one `Sequencer::new` made, so nobody waits for room in it. -/
structure Unbounded (s : System ι Req Rsp) : Prop where
  cap : s.inner.queue.cap = none
  pos : ∀ seq slot, (s.seqs seq).pos ≠ .enqueueing slot

omit [DecidableEq ι] in
theorem unbounded_initial (names : ι → String) (attached : ι → Bool) :
    Unbounded (initial names attached : System ι Req Rsp) :=
  ⟨rfl, fun _ _ => by simp [initial]⟩

namespace System

omit [DecidableEq ι] in
@[simp] theorem protocol_setSlot (s : System ι Req Rsp) (slot : SlotRef) (cell : ItemSlot Req) :
    (s.setSlot slot cell).protocol = s.protocol.setCell slot cell.cell := by
  apply Protocol.ext <;> try rfl
  funext other
  simp only [protocol, setSlot, Protocol.setCell, Function.update_apply]
  split <;> rfl

@[simp] theorem protocol_setPos (s : System ι Req Rsp) (seq : ι) (pos : SeqPos) :
    (s.setPos seq pos).protocol = s.protocol.setPos seq pos := by
  apply Protocol.ext <;> try rfl
  all_goals
    funext other
    simp only [protocol, setPos, setSeq, Protocol.setPos, Function.update_apply]
    split
    · next same => subst same; rfl
    · rfl

omit [DecidableEq ι] in
@[simp] theorem protocol_setDriver (s : System ι Req Rsp) (driver : DriverPos) :
    (s.setDriver driver).protocol = { s.protocol with driver := driver } := rfl

end System

omit [DecidableEq ι] in
/-- Registering a waker changes no cell. -/
theorem setCell_self (p : Protocol ι Req) (slot : SlotRef) : p.setCell slot (p.cells slot) = p := by
  simp only [Protocol.setCell, Function.update_eq_self]

theorem setPos_self {p : Protocol ι Req} {seq : ι} {pos : SeqPos} (same : p.pos seq = pos) :
    p.setPos seq pos = p := by
  subst same
  simp only [Protocol.setPos, Function.update_eq_self]

omit [DecidableEq ι] in
@[simp] theorem filter_visible_woke (wakers : List Waker) :
    (woke wakers : List (Obs ι Req)).filter Obs.visible = [] := by
  simp [woke, Obs.visible]

/-- Which transitions an action of the source may be made of. -/
def Action.permits : Action ι Req Rsp → Op ι Req → Prop
  | .tryNextItem, .take | .tryNextItem, .rotate => True
  | .dropNext, .dropNext => True
  | .dropCall _, .dropCall _ => True
  | .dropSeq _, .dropSeq _ => True
  | _, .take | _, .rotate | _, .dropNext | _, .dropCall _ | _, .dropSeq _ => False
  | _, _ => True

/-- A permitted protocol run with the visible part of the observations. -/
def Matched (a : Action ι Req Rsp) (p p' : Protocol ι Req) (out : List (Obs ι Req)) : Prop :=
  ∃ ops, (∀ op ∈ ops, a.permits op) ∧ (protocol ι Req).run p ops = some (p', out.filter Obs.visible)

namespace Matched

variable {a : Action ι Req Rsp} {p mid p' : Protocol ι Req} {first later out : List (Obs ι Req)}

theorem stutter (invisible : out.filter Obs.visible = []) : Matched a p p out :=
  ⟨[], by simp, by rw [invisible]; rfl⟩

theorem one {op : Op ι Req} (permitted : a.permits op)
    (stepped : p.step op = some (p', out.filter Obs.visible)) : Matched a p p' out :=
  ⟨[op], by simpa using permitted, by rw [Machine.run_singleton]; exact stepped⟩

theorem trans (left : Matched a p mid first) (right : Matched a mid p' later) :
    Matched a p p' (first ++ later) := by
  obtain ⟨front, permitted, left⟩ := left
  obtain ⟨back, permitted', right⟩ := right
  refine ⟨front ++ back, ?_, ?_⟩
  · intro op member
    exact (List.mem_append.mp member).elim (permitted op) (permitted' op)
  · rw [List.filter_append]
    exact Machine.run_append _ left right

/-- The result of a call, read off the accepted step it is. -/
theorem of_step {s t : System ι Req Rsp} {result : System ι Req Rsp × List (Obs ι Req)}
    (stepped : some result = some (t, out)) (matched : Matched a s.protocol result.1.protocol result.2) :
    Matched a s.protocol t.protocol out := by
  rw [Option.some.inj stepped] at matched
  exact matched

end Matched

/-! ## The await points, once for each outcome -/

section Outcomes

variable (s : System ι Req Rsp) (seq : ι) (slot : SlotRef) (waker : Waker)

theorem pollGranted_started (latched : (s.heap slot).granted.isSet = true) :
    pollGranted s seq slot waker = (s.setPos seq .idle, [.started seq (s.heap slot).id]) := by
  simp only [pollGranted, Event.wait_of_isSet latched]

theorem pollGranted_pending (latched : (s.heap slot).granted.isSet = false) :
    (pollGranted s seq slot waker).1.protocol = s.protocol.setPos seq (.starting slot) ∧
      (pollGranted s seq slot waker).2 = [] := by
  simp only [pollGranted, Event.wait_of_not_isSet latched, System.protocol_setPos, System.protocol_setSlot,
    and_true]
  exact congrArg (·.setPos seq (.starting slot)) (setCell_self s.protocol slot)

theorem pollDone_returned (latched : (s.heap slot).done.isSet = true) :
    pollDone s seq slot waker = (s.setPos seq .idle, [.returned seq (s.heap slot).id]) := by
  simp only [pollDone, Event.wait_of_isSet latched]

theorem pollDone_pending (latched : (s.heap slot).done.isSet = false) :
    (pollDone s seq slot waker).1.protocol = s.protocol.setPos seq (.finishing slot) ∧
      (pollDone s seq slot waker).2 = [] := by
  simp only [pollDone, Event.wait_of_not_isSet latched, System.protocol_setPos, System.protocol_setSlot, and_true]
  exact congrArg (·.setPos seq (.finishing slot)) (setCell_self s.protocol slot)

omit [DecidableEq ι] in
theorem pollReady_pending (latched : (s.heap slot).ready.isSet = false) :
    (pollReady s slot waker).1.protocol = { s.protocol with driver := .readying slot } ∧
      (pollReady s slot waker).2 = [] := by
  simp only [pollReady, Event.wait_of_not_isSet latched, System.protocol_setDriver, System.protocol_setSlot,
    and_true]
  exact congrArg (fun p : Protocol ι Req => { p with driver := .readying slot }) (setCell_self s.protocol slot)

omit [DecidableEq ι] in
theorem pollReady_delivered {payload : Req} (latched : (s.heap slot).ready.isSet = true)
    (filled : (s.heap slot).payload = some payload) :
    (pollReady s slot waker).1.protocol = s.protocol.deliver slot ∧
      (pollReady s slot waker).2 = [.delivered ⟨(s.heap slot).id, payload⟩] := by
  simp only [pollReady, Event.wait_of_isSet latched, filled, System.protocol_setDriver, and_true]
  have stored := congrArg Protocol.cells (s.protocol_setSlot slot { s.heap slot with payload := none })
  apply Protocol.ext
  case cells => exact stored
  all_goals rfl

omit [DecidableEq ι] in
theorem pollReady_crashed (latched : (s.heap slot).ready.isSet = true)
    (missing : (s.heap slot).payload = none) :
    pollReady s slot waker = (s.setDriver .idle, [.panicked .payloadMissing]) := by
  simp only [pollReady, Event.wait_of_isSet latched, missing]

end Outcomes

private theorem pollGranted_matched {a : Action ι Req Rsp} (s : System ι Req Rsp) (seq : ι) (slot : SlotRef)
    (waker : Waker) (permitted : a.permits (.start seq)) :
    Matched a (s.protocol.setPos seq (.starting slot)) (pollGranted s seq slot waker).1.protocol
      (pollGranted s seq slot waker).2 := by
  cases latched : (s.heap slot).granted.isSet with
  | true =>
    rw [pollGranted_started s seq slot waker latched, System.protocol_setPos]
    apply Matched.one permitted
    rw [Protocol.step_start (Protocol.setPos_pos s.protocol seq (.starting slot)) latched, Protocol.setPos_setPos]
    rfl
  | false =>
    obtain ⟨same, quiet⟩ := pollGranted_pending s seq slot waker latched
    rw [same, quiet]
    exact .stutter rfl

private theorem pollDone_matched {a : Action ι Req Rsp} (s : System ι Req Rsp) (seq : ι) (slot : SlotRef)
    (waker : Waker) (permitted : a.permits (.finish seq)) :
    Matched a (s.protocol.setPos seq (.finishing slot)) (pollDone s seq slot waker).1.protocol
      (pollDone s seq slot waker).2 := by
  cases latched : (s.heap slot).done.isSet with
  | true =>
    rw [pollDone_returned s seq slot waker latched, System.protocol_setPos]
    apply Matched.one permitted
    rw [Protocol.step_finish (Protocol.setPos_pos s.protocol seq (.finishing slot)) latched, Protocol.setPos_setPos]
    rfl
  | false =>
    obtain ⟨same, quiet⟩ := pollDone_pending s seq slot waker latched
    rw [same, quiet]
    exact .stutter rfl

private theorem pollReady_matched {a : Action ι Req Rsp} (s : System ι Req Rsp) (slot : SlotRef)
    (waker : Waker) (permitted : a.permits .deliver) (crashes : a.permits .crash) :
    Matched a { s.protocol with driver := .readying slot } (pollReady s slot waker).1.protocol
      (pollReady s slot waker).2 := by
  cases latched : (s.heap slot).ready.isSet with
  | true =>
    cases filled : (s.heap slot).payload with
    | some payload =>
      obtain ⟨same, shown⟩ := pollReady_delivered s slot waker latched filled
      rw [same, shown]
      apply Matched.one permitted
      rw [Protocol.step_deliver rfl latched filled]
      rfl
    | none =>
      rw [pollReady_crashed s slot waker latched filled]
      apply Matched.one crashes
      rw [Protocol.step_crash rfl latched filled]
      rfl
  | false =>
    obtain ⟨same, quiet⟩ := pollReady_pending s slot waker latched
    rw [same, quiet]
    exact .stutter rfl

omit [DecidableEq ι] in
/-- The front slot is taken and granted, then its payload is awaited. -/
theorem pollQueue_of_cons (s : System ι Req Rsp) (waker : Waker) {slot : SlotRef} {rest : List SlotRef}
    (front : s.protocol.queue = slot :: rest) :
    ∃ (granted : System ι Req Rsp) (out : List (Obs ι Req)),
      granted.protocol = { s.protocol.grant slot with queue := rest } ∧ out.filter Obs.visible = [] ∧
      pollQueue s waker = ((pollReady granted slot waker).1, out ++ (pollReady granted slot waker).2) := by
  change s.inner.queue.buf = slot :: rest at front
  simp only [pollQueue, Queue.pollGet, Queue.tryGet_of_cons front, Prod.mk.injEq]
  refine ⟨_, _, ?_, ?_, rfl, rfl⟩
  · rw [grant, System.protocol_setSlot]
    rfl
  · simp only [List.filter_append, filter_visible_woke, grant, List.append_nil]

private theorem pollQueue_matched {a : Action ι Req Rsp} (s : System ι Req Rsp) (waker : Waker)
    (driver : s.driver = .waiting ∨ s.driver = .idle ∧ s.inner.current = none)
    (awaits : a.permits .await) (pops : a.permits .pop) (delivers : a.permits .deliver)
    (crashes : a.permits .crash) :
    Matched a s.protocol (pollQueue s waker).1.protocol (pollQueue s waker).2 := by
  cases front : s.inner.queue.buf with
  | nil =>
    simp only [pollQueue, Queue.pollGet, Queue.tryGet_of_nil front]
    rcases driver with waiting | ⟨idle, free⟩
    · have unchanged : (System.setDriver (s.setInner { s.inner with queue := { s.inner.queue with
          getWaiters := s.inner.queue.getWaiters ++ [waker] } }) .waiting).protocol = s.protocol := by
        apply Protocol.ext <;> try rfl
        exact waiting.symm
      rw [unchanged]
      exact .stutter rfl
    · exact .one awaits (Protocol.step_await (p := s.protocol) idle free front)
  | cons slot rest =>
    change s.protocol.queue = slot :: rest at front
    obtain ⟨granted, out, same, quiet, shown⟩ := pollQueue_of_cons s waker front
    rw [shown]
    have popped : Matched a s.protocol { granted.protocol with driver := .readying slot } out := by
      apply Matched.one pops
      change s.protocol.driver = .waiting ∨ s.protocol.driver = .idle ∧ s.protocol.current = none at driver
      rw [same, quiet]
      simp only [Protocol.step, driver, front, ↓reduceIte]
    exact popped.trans (pollReady_matched granted slot waker delivers crashes)

private theorem startItem_matched {a : Action ι Req Rsp} (s : System ι Req Rsp) (seq : ι) (waker : Waker)
    (unbounded : Unbounded s) (idle : (s.seqs seq).pos = .idle)
    (enqueues : a.permits (.enqueue seq)) (starts : a.permits (.start seq)) :
    Matched a s.protocol (startItem s seq waker).1.protocol (startItem s seq waker).2 := by
  unfold startItem
  dsimp only
  split_ifs with twice virtual
  · exact .stutter rfl
  · exact .stutter rfl
  · simp only [pollEnqueue, System.setSeq, Queue.pollPut_of_cap_none unbounded.cap]
    refine Matched.trans (.one enqueues ?_) (pollGranted_matched _ seq s.fresh waker starts)
    have held : s.protocol.held seq = none := by
      simpa only [System.protocol, Option.not_isSome_iff_eq_none] using twice
    change s.protocol.pos seq = .idle at idle
    simp only [Protocol.step, idle, held, and_self, ↓reduceIte, Option.some.injEq, Prod.mk.injEq]
    refine ⟨?_, ?_⟩
    · apply Protocol.ext
      case cells =>
        funext other
        simp only [Protocol.setCell, Protocol.setPos, System.protocol, System.setInner, System.setSlot,
          Function.update_apply]
        split <;> rfl
      case held =>
        funext other
        simp only [Protocol.setPos, System.protocol, System.setInner, System.setSlot, Function.update_apply]
        split <;> rfl
      case pos =>
        funext other
        simp only [Protocol.setPos, System.protocol, System.setInner, System.setSlot, Function.update_apply]
        split <;> rfl
      all_goals rfl
    · simp [List.filter_cons, System.setSlot, ItemSlot.new, System.protocol]

/-- The payload is handed over and announced, then the release is awaited. -/
theorem finishItem_of_held (s : System ι Req Rsp) (seq : ι) (payload : Req) (waker : Waker) {slot : SlotRef}
    (idle : s.protocol.pos seq = .idle) (held : s.protocol.held seq = some slot) :
    ∃ (filled : System ι Req Rsp) (out : List (Obs ι Req)),
      s.protocol.step (.hand seq payload) =
        some (filled.protocol.setPos seq (.finishing slot), out.filter Obs.visible) ∧
      (filled.heap slot).done = (s.heap slot).done ∧
      finishItem s seq payload waker =
        ((pollDone filled seq slot waker).1, out ++ (pollDone filled seq slot waker).2) := by
  simp only [Protocol.step, idle, held, Option.some.injEq, Prod.mk.injEq]
  change (s.seqs seq).ctx.current = some slot at held
  simp only [finishItem, held, System.setSeq, Event.set]
  refine ⟨_, _, ⟨?_, ?_⟩, ?_, rfl⟩
  · apply Protocol.ext
    case cells =>
      funext other
      simp only [Protocol.setCell, Protocol.setPos, System.protocol, System.setSlot, Function.update_apply]
      split <;> rfl
    case held =>
      funext other
      simp only [Protocol.setPos, System.protocol, System.setSlot, Function.update_apply]
      split <;> rfl
    case pos =>
      funext other
      simp only [Protocol.setCell, Protocol.setPos, System.protocol, System.setSlot, Function.update_apply]
      split <;> rfl
    all_goals rfl
  · simp [List.filter_cons, ItemSlot.cell]
  · simp only [System.setSlot, Function.update_self]

private theorem finishItem_matched {a : Action ι Req Rsp} (s : System ι Req Rsp) (seq : ι) (payload : Req)
    (waker : Waker) (idle : (s.seqs seq).pos = .idle) (hands : a.permits (.hand seq payload))
    (finishes : a.permits (.finish seq)) :
    Matched a s.protocol (finishItem s seq payload waker).1.protocol (finishItem s seq payload waker).2 := by
  cases held : (s.seqs seq).ctx.current with
  | none =>
    simp only [finishItem, held]
    exact .stutter rfl
  | some slot =>
    obtain ⟨filled, out, handed, -, same⟩ := finishItem_of_held s seq payload waker idle held
    rw [same]
    exact Matched.trans (.one hands handed) (pollDone_matched filled seq slot waker finishes)

theorem tryNextItem_take (s : System ι Req Rsp) {slot : SlotRef} {rest : List SlotRef} {payload : Req}
    (idle : s.protocol.driver = .idle) (free : s.protocol.current = none)
    (front : s.protocol.queue = slot :: rest) (filled : (s.protocol.cells slot).payload = some payload) :
    s.protocol.step .take = some ((tryNextItem s).1.protocol, (tryNextItem s).2.filter Obs.visible) := by
  simp only [Protocol.step, idle, free, front, filled, and_self, ↓reduceIte, Option.some.injEq, Prod.mk.injEq]
  change s.inner.current = none at free
  change s.inner.queue.buf = slot :: rest at front
  change (s.heap slot).payload = some payload at filled
  simp only [tryNextItem, free, Option.isSome_none, Bool.false_eq_true, ↓reduceIte, Queue.tryGet_of_cons front,
    grant, Event.set, System.setSlot, System.setInner, Function.update_self, filled]
  refine ⟨?_, ?_⟩
  · apply Protocol.ext
    case cells =>
      funext other
      simp only [Protocol.deliver, Protocol.grant, Protocol.setCell, System.protocol, Function.update_apply]
      split <;> rfl
    case driver => exact idle.symm
    all_goals rfl
  · simp [List.filter_cons, ItemSlot.cell]

theorem tryNextItem_rotate (s : System ι Req Rsp) {slot : SlotRef} {rest : List SlotRef} (unbounded : Unbounded s)
    (idle : s.protocol.driver = .idle) (free : s.protocol.current = none)
    (front : s.protocol.queue = slot :: rest) (missing : (s.protocol.cells slot).payload = none) :
    s.protocol.step .rotate = some ((tryNextItem s).1.protocol, (tryNextItem s).2.filter Obs.visible) := by
  simp only [Protocol.step, idle, free, front, missing, and_self, ↓reduceIte, Option.some.injEq, Prod.mk.injEq]
  change s.inner.current = none at free
  change s.inner.queue.buf = slot :: rest at front
  change (s.heap slot).payload = none at missing
  have space := Queue.tryPut_of_cap_none { s.inner.queue with buf := rest, putWaiters := [] } unbounded.cap slot
  simp only [tryNextItem, free, Option.isSome_none, Bool.false_eq_true, ↓reduceIte, Queue.tryGet_of_cons front,
    grant, Event.set, System.setSlot, System.setInner, Function.update_self, missing, space]
  refine ⟨?_, ?_⟩
  · apply Protocol.ext
    case cells =>
      funext other
      simp only [Protocol.grant, Protocol.setCell, System.protocol, ItemSlot.cell, missing, Function.update_apply]
      split <;> rfl
    case current => exact free
    all_goals rfl
  · simp

private theorem tryNextItem_matched {a : Action ι Req Rsp} (s : System ι Req Rsp) (unbounded : Unbounded s)
    (idle : s.driver = .idle) (takes : a.permits .take) (rotates : a.permits .rotate) :
    Matched a s.protocol (tryNextItem s).1.protocol (tryNextItem s).2 := by
  by_cases busy : s.inner.current.isSome = true
  · simp only [tryNextItem, busy, ↓reduceIte]
    exact .stutter rfl
  have free : s.protocol.current = none := Option.not_isSome_iff_eq_none.mp busy
  cases front : s.inner.queue.buf with
  | nil =>
    simp only [tryNextItem, busy, Queue.tryGet_of_nil front]
    exact .stutter rfl
  | cons slot rest =>
    cases filled : (s.heap slot).payload with
    | some payload => exact .one takes (tryNextItem_take s idle free front filled)
    | none => exact .one rotates (tryNextItem_rotate s unbounded idle free front filled)

theorem itemDone_release (s : System ι Req Rsp) (rsp : Option Rsp) {slot : SlotRef}
    (current : s.protocol.current = some slot) :
    s.protocol.step .release = some ((itemDone s rsp).1.protocol, (itemDone s rsp).2.filter Obs.visible) := by
  simp only [Protocol.step, current, Option.some.injEq, Prod.mk.injEq]
  change s.inner.current = some slot at current
  simp only [itemDone, current, Event.set]
  refine ⟨?_, ?_⟩
  · apply Protocol.ext
    case cells =>
      exact (congrArg Protocol.cells (s.protocol_setSlot slot { s.heap slot with done := ⟨true, []⟩ })).symm
    all_goals rfl
  · simp [List.filter_cons, ItemSlot.cell]

private theorem itemDone_matched {a : Action ι Req Rsp} (s : System ι Req Rsp) (rsp : Option Rsp)
    (releases : a.permits .release) :
    Matched a s.protocol (itemDone s rsp).1.protocol (itemDone s rsp).2 := by
  cases current : s.inner.current with
  | none =>
    simp only [itemDone, current]
    exact .stutter rfl
  | some slot => exact .one releases (itemDone_release s rsp current)

/-- Every step of the source is a permitted run of the protocol. -/
theorem step_matched {s t : System ι Req Rsp} {a : Action ι Req Rsp} {out : List (Obs ι Req)}
    (unbounded : Unbounded s) (stepped : step s a = some (t, out)) :
    Matched a s.protocol t.protocol out := by
  cases a with
  | startItem seq waker =>
    simp only [step, Option.ite_none_right_eq_some] at stepped
    exact .of_step stepped.2 (startItem_matched s seq waker unbounded stepped.1 trivial trivial)
  | pollStart seq waker =>
    simp only [step, pollStart] at stepped
    split at stepped
    · next slot pos => exact (unbounded.pos seq slot pos).elim
    · next slot pos =>
      have same := pollGranted_matched (a := .pollStart seq waker) s seq slot waker trivial
      rw [setPos_self (p := s.protocol) pos] at same
      exact .of_step stepped same
    · cases stepped
  | finishItem seq payload waker =>
    simp only [step, Option.ite_none_right_eq_some] at stepped
    exact .of_step stepped.2 (finishItem_matched s seq payload waker stepped.1 trivial trivial)
  | pollFinish seq waker =>
    simp only [step] at stepped
    split at stepped
    · next slot pos =>
      have same := pollDone_matched (a := .pollFinish seq waker) s seq slot waker trivial
      rw [setPos_self (p := s.protocol) pos] at same
      exact .of_step stepped same
    · cases stepped
  | dropCall seq =>
    simp only [step] at stepped
    split at stepped
    · cases stepped
    · cases stepped
    · next idle dropped =>
      refine .of_step stepped (.one (show Action.permits _ (.dropCall seq) from trivial) ?_)
      rw [System.protocol_setPos]
      simp only [Protocol.step]
      split
      · next pos => exact (idle pos).elim
      · next pos => exact (dropped pos).elim
      · rfl
  | dropSeq seq =>
    simp only [step, Option.ite_none_left_eq_some] at stepped
    refine .of_step stepped.2 (.one (show Action.permits _ (.dropSeq seq) from trivial) ?_)
    rw [System.protocol_setPos]
    exact if_neg stepped.1
  | getNextItem waker =>
    simp only [step, getNextItem, Option.ite_none_right_eq_some] at stepped
    obtain ⟨idle, stepped⟩ := stepped
    split_ifs at stepped with busy
    · cases stepped
      exact .stutter rfl
    · exact .of_step stepped (pollQueue_matched s waker
        (.inr ⟨idle, Option.not_isSome_iff_eq_none.mp busy⟩) trivial trivial trivial trivial)
  | pollNext waker =>
    simp only [step, pollNext] at stepped
    split at stepped
    · cases stepped
    · next waiting =>
      exact .of_step stepped (pollQueue_matched s waker (.inl waiting) trivial trivial trivial trivial)
    · next slot readying =>
      have same := pollReady_matched (a := .pollNext waker) s slot waker trivial trivial
      have driver : ({ s.protocol with driver := .readying slot } : Protocol ι Req) = s.protocol := by
        apply Protocol.ext <;> try rfl
        exact readying.symm
      rw [driver] at same
      exact .of_step stepped same
  | dropNext =>
    simp only [step, Option.ite_none_left_eq_some] at stepped
    exact .of_step stepped.2 (.one (show Action.permits _ .dropNext from trivial) (if_neg stepped.1))
  | tryNextItem =>
    simp only [step, Option.ite_none_right_eq_some] at stepped
    exact .of_step stepped.2 (tryNextItem_matched s unbounded stepped.1 trivial trivial)
  | itemDone rsp => exact .of_step stepped (itemDone_matched s rsp trivial)
  | putResponse id rsp =>
    cases stepped
    exact .stutter (filter_visible_woke _)

/-! ## Calls and polls that perform one transition -/

/-- The action performs the transition. -/
def Realizes (s : System ι Req Rsp) (a : Action ι Req Rsp) (op : Op ι Req) : Prop :=
  ∃ t out, step s a = some (t, out) ∧ s.protocol.step op = some (t.protocol, out.filter Obs.visible)

/-- The driver's next call: a fresh `get_next_item`, or a poll of the pending one. -/
def System.nextCall (s : System ι Req Rsp) (waker : Waker) : Action ι Req Rsp :=
  if s.driver = .idle then .getNextItem waker else .pollNext waker

section Realize

variable {s : System ι Req Rsp} {seq : ι} {slot : SlotRef} {rest : List SlotRef} {payload : Req}

theorem Realizes.result {a : Action ι Req Rsp} {op : Op ι Req} {p' : Protocol ι Req} {shown : List (Obs ι Req)}
    (realizes : Realizes s a op) (stepped : s.protocol.step op = some (p', shown)) :
    ∃ t out, step s a = some (t, out) ∧ t.protocol = p' ∧ out.filter Obs.visible = shown := by
  obtain ⟨t, out, taken, same⟩ := realizes
  obtain ⟨last, seen⟩ := Prod.mk.inj (Option.some.inj (same.symm.trans stepped))
  exact ⟨t, out, taken, last, seen⟩

theorem realizes_start (waker : Waker) (starting : s.protocol.pos seq = .starting slot)
    (granted : (s.protocol.cells slot).granted = true) : Realizes s (.pollStart seq waker) (.start seq) := by
  have pos : (s.seqs seq).pos = .starting slot := starting
  refine ⟨s.setPos seq .idle, [.started seq (s.heap slot).id], ?_, ?_⟩
  · simp only [step, pollStart, pos, pollGranted_started s seq slot _ granted]
  · rw [Protocol.step_start starting granted, System.protocol_setPos]
    rfl

theorem realizes_hand (waker : Waker) (payload : Req) (idle : s.protocol.pos seq = .idle)
    (held : s.protocol.held seq = some slot) (undone : (s.protocol.cells slot).done = false) :
    Realizes s (.finishItem seq payload waker) (.hand seq payload) := by
  obtain ⟨filled, out, handed, same, shown⟩ := finishItem_of_held s seq payload waker idle held
  have waits : (filled.heap slot).done.isSet = false := same ▸ undone
  obtain ⟨pending, quiet⟩ := pollDone_pending filled seq slot waker waits
  refine ⟨(finishItem s seq payload waker).1, (finishItem s seq payload waker).2, if_pos idle, ?_⟩
  rw [handed, shown, pending, quiet, List.append_nil]

theorem realizes_finish (waker : Waker) (finishing : s.protocol.pos seq = .finishing slot)
    (done : (s.protocol.cells slot).done = true) : Realizes s (.pollFinish seq waker) (.finish seq) := by
  have pos : (s.seqs seq).pos = .finishing slot := finishing
  refine ⟨s.setPos seq .idle, [.returned seq (s.heap slot).id], ?_, ?_⟩
  · simp only [step, pos, pollDone_returned s seq slot _ done]
  · rw [Protocol.step_finish finishing done, System.protocol_setPos]
    rfl

/-- A driver without an item goes to the queue. -/
theorem step_nextCall (waker : Waker)
    (driver : s.driver = .waiting ∨ s.driver = .idle ∧ s.inner.current = none) :
    step s (s.nextCall waker) = some (pollQueue s waker) := by
  rcases driver with waiting | ⟨idle, free⟩
  · simp only [System.nextCall, waiting, reduceCtorEq, ↓reduceIte, step, pollNext]
  · simp only [System.nextCall, idle, ↓reduceIte, step, getNextItem, free, Option.isSome_none, Bool.false_eq_true]

theorem realizes_pop (waker : Waker)
    (driver : s.protocol.driver = .waiting ∨ s.protocol.driver = .idle ∧ s.protocol.current = none)
    (front : s.protocol.queue = slot :: rest) (unready : (s.protocol.cells slot).ready = false) :
    Realizes s (s.nextCall waker) .pop := by
  obtain ⟨granted, out, same, quiet, shown⟩ := pollQueue_of_cons s waker front
  have latched : (granted.protocol.cells slot).ready = false := by
    rw [same]
    simpa [Protocol.grant] using unready
  obtain ⟨pending, more⟩ := pollReady_pending granted slot waker latched
  refine ⟨(pollQueue s waker).1, (pollQueue s waker).2, step_nextCall waker driver, ?_⟩
  simp only [Protocol.step, driver, front, ↓reduceIte]
  rw [shown, pending, more, List.append_nil, quiet, same]

/-- A driver that finds a filled slot in front returns with its item at once. -/
theorem nextCall_delivered (waker : Waker)
    (driver : s.protocol.driver = .waiting ∨ s.protocol.driver = .idle ∧ s.protocol.current = none)
    (front : s.protocol.queue = slot :: rest) (ready : (s.protocol.cells slot).ready = true)
    (filled : (s.protocol.cells slot).payload = some payload) :
    ∃ t out, step s (s.nextCall waker) = some (t, out) ∧
      t.protocol = ({ s.protocol.grant slot with queue := rest } : Protocol ι Req).deliver slot ∧
      out.filter Obs.visible = [.delivered ⟨(s.protocol.cells slot).ticket, payload⟩] := by
  obtain ⟨granted, out, same, quiet, shown⟩ := pollQueue_of_cons s waker front
  have cell : granted.protocol.cells slot = { s.protocol.cells slot with granted := true } := by
    rw [same]
    simp [Protocol.grant]
  have ready' : (granted.protocol.cells slot).ready = true := by rw [cell]; exact ready
  have filled' : (granted.protocol.cells slot).payload = some payload := by rw [cell]; exact filled
  obtain ⟨delivered, seen⟩ := pollReady_delivered granted slot waker ready' filled'
  refine ⟨(pollQueue s waker).1, (pollQueue s waker).2, step_nextCall waker driver, ?_, ?_⟩
  · rw [shown, delivered, same]
  · rw [shown, seen, List.filter_append, quiet]
    have ticket : (granted.heap slot).id = (s.protocol.cells slot).ticket := congrArg Cell.ticket cell
    rw [ticket]
    rfl

theorem realizes_deliver (waker : Waker) (driver : s.protocol.driver = .readying slot)
    (ready : (s.protocol.cells slot).ready = true) (filled : (s.protocol.cells slot).payload = some payload) :
    Realizes s (.pollNext waker) .deliver := by
  obtain ⟨last, seen⟩ := pollReady_delivered s slot waker ready filled
  have readying : s.driver = .readying slot := driver
  refine ⟨(pollReady s slot waker).1, (pollReady s slot waker).2, ?_, ?_⟩
  · simp only [step, pollNext, readying]
  · rw [Protocol.step_deliver driver ready filled, last, seen]
    rfl

theorem realizes_release (rsp : Option Rsp) (current : s.protocol.current = some slot) :
    Realizes s (.itemDone rsp) .release :=
  ⟨(itemDone s rsp).1, (itemDone s rsp).2, rfl, itemDone_release s rsp current⟩

end Realize

/-! ## What the calls leave alone -/

/-- The two systems have the same capacity and the same responses. -/
structure Framed (s t : System ι Req Rsp) : Prop where
  cap : t.inner.queue.cap = s.inner.queue.cap
  responses : t.inner.responses = s.inner.responses

omit [DecidableEq ι] in
theorem Framed.of_inner {s t : System ι Req Rsp} (same : t.inner = s.inner) : Framed s t :=
  ⟨by rw [same], by rw [same]⟩

section Frame

variable (s : System ι Req Rsp)

theorem pollGranted_inner (seq : ι) (slot : SlotRef) (waker : Waker) :
    (pollGranted s seq slot waker).1.inner = s.inner := by
  unfold pollGranted
  dsimp only
  split <;> rfl

theorem pollDone_inner (seq : ι) (slot : SlotRef) (waker : Waker) :
    (pollDone s seq slot waker).1.inner = s.inner := by
  unfold pollDone
  dsimp only
  split <;> rfl

theorem finishItem_inner (seq : ι) (payload : Req) (waker : Waker) :
    (finishItem s seq payload waker).1.inner = s.inner := by
  unfold finishItem
  dsimp only
  split
  · rfl
  · simp only [pollDone_inner, System.setSeq, System.setSlot]

theorem pollEnqueue_framed (seq : ι) (slot : SlotRef) (waker : Waker) :
    Framed s (pollEnqueue s seq slot waker).1 := by
  simp only [pollEnqueue, Queue.pollPut, Queue.accept, System.setPos, System.setSeq, System.setInner]
  split_ifs
  · constructor <;> simp only [pollGranted_inner]
  · exact ⟨rfl, rfl⟩

theorem startItem_framed (seq : ι) (waker : Waker) : Framed s (startItem s seq waker).1 := by
  unfold startItem
  dsimp only
  split_ifs
  · exact .of_inner rfl
  · exact .of_inner rfl
  · exact ⟨(pollEnqueue_framed ..).cap, (pollEnqueue_framed ..).responses⟩

omit [DecidableEq ι] in
theorem pollReady_framed (slot : SlotRef) (waker : Waker) : Framed s (pollReady s slot waker).1 := by
  unfold pollReady
  dsimp only
  split
  · exact .of_inner rfl
  · split <;> exact ⟨rfl, rfl⟩

omit [DecidableEq ι] in
theorem pollQueue_framed (waker : Waker) : Framed s (pollQueue s waker).1 := by
  cases front : s.inner.queue.buf with
  | nil =>
    simp only [pollQueue, Queue.pollGet, Queue.tryGet_of_nil front]
    exact ⟨rfl, rfl⟩
  | cons slot rest =>
    simp only [pollQueue, Queue.pollGet, Queue.tryGet_of_cons front]
    exact ⟨(pollReady_framed ..).cap, (pollReady_framed ..).responses⟩

omit [DecidableEq ι] in
theorem tryNextItem_framed : Framed s (tryNextItem s).1 := by
  unfold tryNextItem
  split_ifs
  · exact .of_inner rfl
  cases front : s.inner.queue.buf with
  | nil =>
    simp only [Queue.tryGet_of_nil front]
    exact .of_inner rfl
  | cons slot rest =>
    simp only [Queue.tryGet_of_cons front, grant, System.setSlot, System.setInner, Queue.tryPut]
    split
    · exact ⟨rfl, rfl⟩
    · split_ifs <;> exact ⟨rfl, rfl⟩

/-- Every call but the two that push a response leaves the capacity and the responses alone. -/
theorem step_framed {t : System ι Req Rsp} {a : Action ι Req Rsp} {out : List (Obs ι Req)}
    (releases : ∀ rsp, a ≠ .itemDone rsp) (puts : ∀ id rsp, a ≠ .putResponse id rsp)
    (stepped : step s a = some (t, out)) : Framed s t := by
  have result {result : System ι Req Rsp × List (Obs ι Req)} (same : some result = some (t, out))
      (kept : Framed s result.1) : Framed s t := by
    rwa [Option.some.inj same] at kept
  cases a with
  | startItem seq waker =>
    exact result (Option.ite_none_right_eq_some.mp stepped).2 (startItem_framed ..)
  | pollStart seq waker =>
    simp only [step, pollStart] at stepped
    split at stepped
    · exact result stepped (pollEnqueue_framed ..)
    · exact result stepped (.of_inner (pollGranted_inner ..))
    · cases stepped
  | finishItem seq payload waker =>
    exact result (Option.ite_none_right_eq_some.mp stepped).2 (.of_inner (finishItem_inner ..))
  | pollFinish seq waker =>
    simp only [step] at stepped
    split at stepped
    · exact result stepped (.of_inner (pollDone_inner ..))
    · cases stepped
  | dropCall seq =>
    simp only [step] at stepped
    split at stepped
    · cases stepped
    · cases stepped
    · exact result stepped (.of_inner rfl)
  | dropSeq seq => exact result (Option.ite_none_left_eq_some.mp stepped).2 (.of_inner rfl)
  | getNextItem waker =>
    simp only [step, getNextItem, Option.ite_none_right_eq_some] at stepped
    refine result stepped.2 ?_
    split_ifs
    · exact .of_inner rfl
    · exact pollQueue_framed ..
  | pollNext waker =>
    simp only [step, pollNext] at stepped
    split at stepped
    · cases stepped
    · exact result stepped (pollQueue_framed ..)
    · exact result stepped (pollReady_framed ..)
  | dropNext => exact result (Option.ite_none_left_eq_some.mp stepped).2 (.of_inner rfl)
  | tryNextItem => exact result (Option.ite_none_right_eq_some.mp stepped).2 (tryNextItem_framed s)
  | itemDone rsp => exact absurd rfl (releases rsp)
  | putResponse id rsp => exact absurd rfl (puts id rsp)

/-- No call changes the queue's capacity. -/
theorem step_cap {t : System ι Req Rsp} {a : Action ι Req Rsp} {out : List (Obs ι Req)}
    (stepped : step s a = some (t, out)) : t.inner.queue.cap = s.inner.queue.cap := by
  cases a with
  | itemDone rsp =>
    have released : (itemDone s rsp).1.inner.queue.cap = s.inner.queue.cap := by
      unfold itemDone
      split <;> rfl
    rwa [Option.some.inj stepped] at released
  | putResponse id rsp =>
    cases stepped
    rfl
  | _ => exact (step_framed s (by simp) (by simp) stepped).cap

end Frame

/-- The queue stays unbounded, so no sequence ever waits for room. -/
theorem step_unbounded {s t : System ι Req Rsp} {a : Action ι Req Rsp} {out : List (Obs ι Req)}
    (unbounded : Unbounded s) (stepped : step s a = some (t, out)) : Unbounded t := by
  refine ⟨(step_cap s stepped).trans unbounded.cap, ?_⟩
  obtain ⟨ops, -, ran⟩ := step_matched unbounded stepped
  exact (protocol ι Req).run_invariant_nil
    (fun p _ => ∀ seq slot, p.pos seq ≠ .enqueueing slot) unbounded.pos
    (fun clear moved => (Protocol.transition_of_step moved).room clear) ran

/-- The sequencer refines the protocol. -/
theorem machine_simulates_protocol :
    (machine ι Req Rsp).Simulates (protocol ι Req) Unbounded System.protocol Obs.visible := by
  intro s a t out unbounded stepped
  obtain ⟨ops, -, ran⟩ := step_matched unbounded stepped
  exact ⟨step_unbounded unbounded stepped, ops, ran⟩

/-- Runs made of allowed actions are, on the visible observations, protocol runs made of the
transitions those actions permit. -/
theorem machine_simulates {ok : Action ι Req Rsp → Prop} {ok' : Op ι Req → Prop} [DecidablePred ok]
    [DecidablePred ok'] (permitted : ∀ a op, ok a → a.permits op → ok' op) :
    ((machine ι Req Rsp).restrict fun _ a => ok a).Simulates ((protocol ι Req).restrict fun _ op => ok' op)
      Unbounded System.protocol Obs.visible := by
  intro s a t out unbounded stepped
  obtain ⟨allowed, stepped⟩ := Machine.restrict_step_eq_some_iff _ |>.mp stepped
  obtain ⟨ops, permits, ran⟩ := step_matched unbounded stepped
  refine ⟨step_unbounded unbounded stepped, ops, ?_⟩
  exact Machine.restrict_run _ (fun op member _ => permitted a op allowed (permits op member)) ran

end Rustdv.Sequencer
