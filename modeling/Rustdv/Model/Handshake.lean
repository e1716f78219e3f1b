import Rustdv.Model.Sequencer

/-! # The handshake protocol, without wakers

What the sequencer is for: tickets are taken in order, a slot is granted, filled, delivered and
released, each once. This abstract protocol forgets every waker and keeps events as flags; its
transitions are the smallest changes the polls are made of, each guarded by what the source tests
there. `Sequencer.machine` refines it (`Soundness.SequencerRefinement`).
-/

namespace Rustdv.Sequencer

/-- One slot: its ticket, the three latched events and the payload in transit. -/
structure Cell (Req : Type*) where
  ticket : TxnId
  granted : Bool
  ready : Bool
  done : Bool
  payload : Option Req
deriving DecidableEq, Repr

@[ext] structure Protocol (ι Req : Type*) where
  cells : SlotRef → Cell Req
  fresh : SlotRef
  nextId : ℕ
  queue : List SlotRef
  current : Option SlotRef
  driver : DriverPos
  /-- The slot a sequence has started and not yet finished. -/
  held : ι → Option SlotRef
  pos : ι → SeqPos

/-- The transitions of the protocol. -/
inductive Op (ι Req : Type*) where
  | enqueue (seq : ι)
  | start (seq : ι)
  | hand (seq : ι) (payload : Req)
  | finish (seq : ι)
  /-- The driver finds the queue empty and waits. -/
  | await
  /-- The driver takes the front slot, grants it and waits for its payload. -/
  | pop
  | deliver
  /-- `try_next_item` finds the front slot filled. -/
  | take
  /-- `try_next_item` finds the front slot not filled and puts it at the back. -/
  | rotate
  | release
  /-- The `expect` that the payload of a ready slot is there fails. -/
  | crash
  | dropNext
  | dropCall (seq : ι)
  | dropSeq (seq : ι)
deriving DecidableEq, Repr

namespace Protocol

variable {ι Req : Type*} [DecidableEq ι]

def setCell (p : Protocol ι Req) (slot : SlotRef) (cell : Cell Req) : Protocol ι Req :=
  { p with cells := Function.update p.cells slot cell }

def setPos (p : Protocol ι Req) (seq : ι) (pos : SeqPos) : Protocol ι Req :=
  { p with pos := Function.update p.pos seq pos }

/-- Mark a slot granted. -/
def grant (p : Protocol ι Req) (slot : SlotRef) : Protocol ι Req :=
  p.setCell slot { p.cells slot with granted := true }

/-- The slot's payload leaves for the driver, which now holds the item. -/
def deliver (p : Protocol ι Req) (slot : SlotRef) : Protocol ι Req :=
  { p.setCell slot { p.cells slot with payload := none } with current := some slot, driver := .idle }

def step (p : Protocol ι Req) : Op ι Req → Option (Protocol ι Req × List (Obs ι Req))
  | .enqueue seq =>
      if p.pos seq = .idle ∧ p.held seq = none then
        some ({ p.setCell p.fresh ⟨⟨p.nextId⟩, false, false, false, none⟩ with
          fresh := p.fresh + 1
          nextId := p.nextId + 1
          queue := p.queue ++ [p.fresh]
          held := Function.update p.held seq (some p.fresh)
          pos := Function.update p.pos seq (.starting p.fresh) }, [.enqueued seq ⟨p.nextId⟩])
      else none
  | .start seq =>
      match p.pos seq with
      | .starting slot =>
          if (p.cells slot).granted then
            some (p.setPos seq .idle, [.started seq (p.cells slot).ticket])
          else none
      | _ => none
  | .hand seq payload =>
      match p.pos seq, p.held seq with
      | .idle, some slot =>
          some ({ (p.setCell slot { p.cells slot with payload := some payload, ready := true }).setPos seq
              (.finishing slot) with held := Function.update p.held seq none },
            [.handed seq (p.cells slot).ticket payload])
      | _, _ => none
  | .finish seq =>
      match p.pos seq with
      | .finishing slot =>
          if (p.cells slot).done then
            some (p.setPos seq .idle, [.returned seq (p.cells slot).ticket])
          else none
      | _ => none
  | .await =>
      if p.driver = .idle ∧ p.current = none ∧ p.queue = [] then
        some ({ p with driver := .waiting }, [])
      else none
  | .pop =>
      if p.driver = .waiting ∨ p.driver = .idle ∧ p.current = none then
        match p.queue with
        | [] => none
        | slot :: rest => some ({ p.grant slot with queue := rest, driver := .readying slot }, [])
      else none
  | .deliver =>
      match p.driver with
      | .readying slot =>
          match (p.cells slot).ready, (p.cells slot).payload with
          | true, some payload => some (p.deliver slot, [.delivered ⟨(p.cells slot).ticket, payload⟩])
          | _, _ => none
      | _ => none
  | .take =>
      if p.driver = .idle ∧ p.current = none then
        match p.queue with
        | [] => none
        | slot :: rest =>
            match (p.cells slot).payload with
            | none => none
            | some payload =>
                some ({ (p.grant slot).deliver slot with queue := rest },
                  [.delivered ⟨(p.cells slot).ticket, payload⟩])
      else none
  | .rotate =>
      if p.driver = .idle ∧ p.current = none then
        match p.queue with
        | [] => none
        | slot :: rest =>
            match (p.cells slot).payload with
            | some _ => none
            | none => some ({ p.grant slot with queue := rest ++ [slot] }, [])
      else none
  | .release =>
      match p.current with
      | none => none
      | some slot =>
          some ({ p.setCell slot { p.cells slot with done := true } with current := none },
            [.released (p.cells slot).ticket])
  | .crash =>
      match p.driver with
      | .readying slot =>
          if (p.cells slot).ready ∧ (p.cells slot).payload = none then
            some ({ p with driver := .idle }, [.panicked .payloadMissing])
          else none
      | _ => none
  | .dropNext => if p.driver = .idle then none else some ({ p with driver := .idle }, [])
  | .dropCall seq =>
      match p.pos seq with
      | .idle | .dropped => none
      | _ => some (p.setPos seq .idle, [])
  | .dropSeq seq => if p.pos seq = .dropped then none else some (p.setPos seq .dropped, [])

@[simp] theorem setPos_pos (p : Protocol ι Req) (seq : ι) (pos : SeqPos) :
    (p.setPos seq pos).pos seq = pos := Function.update_self ..

@[simp] theorem setPos_setPos (p : Protocol ι Req) (seq : ι) (pos pos' : SeqPos) :
    (p.setPos seq pos).setPos seq pos' = p.setPos seq pos' := by
  simp only [setPos, Function.update_idem]

@[simp] theorem setPos_cells (p : Protocol ι Req) (seq : ι) (pos : SeqPos) :
    (p.setPos seq pos).cells = p.cells := rfl

omit [DecidableEq ι] in
@[simp] theorem setCell_cells (p : Protocol ι Req) (slot : SlotRef) (cell : Cell Req) :
    (p.setCell slot cell).cells slot = cell := Function.update_self ..

section Cells

variable (p : Protocol ι Req) (slot other : SlotRef)

omit [DecidableEq ι] in
/-- Overwriting a cell with one that agrees on a field leaves that field of all cells as it was. -/
theorem setCell_field {β : Type*} (f : Cell Req → β) {cell : Cell Req} (same : f cell = f (p.cells slot)) :
    f ((p.setCell slot cell).cells other) = f (p.cells other) := by
  simp only [setCell, Function.update_apply]
  split_ifs with here
  · rw [same, here]
  · rfl

omit [DecidableEq ι] in
theorem setCell_of_ne {cell : Cell Req} (distinct : other ≠ slot) : (p.setCell slot cell).cells other = p.cells other :=
  Function.update_of_ne distinct ..

omit [DecidableEq ι] in
@[simp] theorem grant_ready : ((p.grant slot).cells other).ready = (p.cells other).ready :=
  setCell_field p slot other Cell.ready rfl

omit [DecidableEq ι] in
@[simp] theorem grant_payload : ((p.grant slot).cells other).payload = (p.cells other).payload :=
  setCell_field p slot other Cell.payload rfl

omit [DecidableEq ι] in
@[simp] theorem grant_done : ((p.grant slot).cells other).done = (p.cells other).done :=
  setCell_field p slot other Cell.done rfl

omit [DecidableEq ι] in
@[simp] theorem grant_ticket : ((p.grant slot).cells other).ticket = (p.cells other).ticket :=
  setCell_field p slot other Cell.ticket rfl

omit [DecidableEq ι] in
@[simp] theorem deliver_ready : ((p.deliver slot).cells other).ready = (p.cells other).ready :=
  setCell_field p slot other Cell.ready rfl

omit [DecidableEq ι] in
@[simp] theorem deliver_done : ((p.deliver slot).cells other).done = (p.cells other).done :=
  setCell_field p slot other Cell.done rfl

omit [DecidableEq ι] in
@[simp] theorem deliver_ticket : ((p.deliver slot).cells other).ticket = (p.cells other).ticket :=
  setCell_field p slot other Cell.ticket rfl

omit [DecidableEq ι] in
@[simp] theorem deliver_payload : ((p.deliver slot).cells slot).payload = none := by
  simp [Protocol.deliver]

omit [DecidableEq ι] in
theorem deliver_payload_of_ne (distinct : other ≠ slot) :
    ((p.deliver slot).cells other).payload = (p.cells other).payload :=
  congrArg Cell.payload (setCell_of_ne p slot other distinct)

end Cells

theorem step_start {p : Protocol ι Req} {seq : ι} {slot : SlotRef} (at_start : p.pos seq = .starting slot)
    (granted : (p.cells slot).granted = true) :
    p.step (.start seq) = some (p.setPos seq .idle, [.started seq (p.cells slot).ticket]) := by
  simp only [step, at_start, granted, ↓reduceIte]

theorem step_finish {p : Protocol ι Req} {seq : ι} {slot : SlotRef} (at_finish : p.pos seq = .finishing slot)
    (done : (p.cells slot).done = true) :
    p.step (.finish seq) = some (p.setPos seq .idle, [.returned seq (p.cells slot).ticket]) := by
  simp only [step, at_finish, done, ↓reduceIte]

theorem step_hand {p : Protocol ι Req} {seq : ι} {slot : SlotRef} {payload : Req} (idle : p.pos seq = .idle)
    (held : p.held seq = some slot) :
    p.step (.hand seq payload) = some ({ (p.setCell slot { p.cells slot with payload := some payload, ready := true }).setPos
      seq (.finishing slot) with held := Function.update p.held seq none }, [.handed seq (p.cells slot).ticket payload]) := by
  simp only [step, idle, held]

theorem step_pop {p : Protocol ι Req} {slot : SlotRef} {rest : List SlotRef}
    (driver : p.driver = .waiting ∨ p.driver = .idle ∧ p.current = none) (front : p.queue = slot :: rest) :
    p.step .pop = some ({ p.grant slot with queue := rest, driver := .readying slot }, []) := by
  simp only [step, driver, front, ↓reduceIte]

theorem step_release {p : Protocol ι Req} {slot : SlotRef} (current : p.current = some slot) :
    p.step .release = some ({ p.setCell slot { p.cells slot with done := true } with current := none },
      [.released (p.cells slot).ticket]) := by
  simp only [step, current]

theorem step_await {p : Protocol ι Req} (idle : p.driver = .idle) (free : p.current = none)
    (empty : p.queue = []) : p.step .await = some ({ p with driver := .waiting }, []) :=
  if_pos ⟨idle, free, empty⟩

theorem step_deliver {p : Protocol ι Req} {slot : SlotRef} {payload : Req} (driver : p.driver = .readying slot)
    (ready : (p.cells slot).ready = true) (filled : (p.cells slot).payload = some payload) :
    p.step .deliver = some (p.deliver slot, [.delivered ⟨(p.cells slot).ticket, payload⟩]) := by
  simp only [step, driver, ready, filled]

theorem step_rotate {p : Protocol ι Req} {slot : SlotRef} {rest : List SlotRef} (idle : p.driver = .idle)
    (free : p.current = none) (front : p.queue = slot :: rest) (missing : (p.cells slot).payload = none) :
    p.step .rotate = some ({ p.grant slot with queue := rest ++ [slot] }, []) := by
  simp only [step, idle, free, front, missing, and_self, ↓reduceIte]

theorem step_crash {p : Protocol ι Req} {slot : SlotRef} (driver : p.driver = .readying slot)
    (ready : (p.cells slot).ready = true) (missing : (p.cells slot).payload = none) :
    p.step .crash = some ({ p with driver := .idle }, [.panicked .payloadMissing]) := by
  simp only [step, driver, ready, missing, and_self, ↓reduceIte]

/-- Everything a transition can do: its guard, its successor and what it shows. -/
inductive Transition (p : Protocol ι Req) : Op ι Req → Protocol ι Req → List (Obs ι Req) → Prop where
  | enqueue (seq : ι) (idle : p.pos seq = .idle) (free : p.held seq = none) :
      Transition p (.enqueue seq) { p.setCell p.fresh ⟨⟨p.nextId⟩, false, false, false, none⟩ with
        fresh := p.fresh + 1
        nextId := p.nextId + 1
        queue := p.queue ++ [p.fresh]
        held := Function.update p.held seq (some p.fresh)
        pos := Function.update p.pos seq (.starting p.fresh) } [.enqueued seq ⟨p.nextId⟩]
  | start (seq : ι) (slot : SlotRef) (starting : p.pos seq = .starting slot)
      (granted : (p.cells slot).granted = true) :
      Transition p (.start seq) (p.setPos seq .idle) [.started seq (p.cells slot).ticket]
  | hand (seq : ι) (payload : Req) (slot : SlotRef) (idle : p.pos seq = .idle) (held : p.held seq = some slot) :
      Transition p (.hand seq payload)
        { (p.setCell slot { p.cells slot with payload := some payload, ready := true }).setPos seq
            (.finishing slot) with held := Function.update p.held seq none }
        [.handed seq (p.cells slot).ticket payload]
  | finish (seq : ι) (slot : SlotRef) (finishing : p.pos seq = .finishing slot)
      (done : (p.cells slot).done = true) :
      Transition p (.finish seq) (p.setPos seq .idle) [.returned seq (p.cells slot).ticket]
  | await (idle : p.driver = .idle) (free : p.current = none) (empty : p.queue = []) :
      Transition p .await { p with driver := .waiting } []
  | pop (slot : SlotRef) (rest : List SlotRef)
      (driver : p.driver = .waiting ∨ p.driver = .idle ∧ p.current = none) (front : p.queue = slot :: rest) :
      Transition p .pop { p.grant slot with queue := rest, driver := .readying slot } []
  | deliver (slot : SlotRef) (payload : Req) (driver : p.driver = .readying slot)
      (ready : (p.cells slot).ready = true) (filled : (p.cells slot).payload = some payload) :
      Transition p .deliver (p.deliver slot) [.delivered ⟨(p.cells slot).ticket, payload⟩]
  | take (slot : SlotRef) (rest : List SlotRef) (payload : Req) (idle : p.driver = .idle)
      (free : p.current = none) (front : p.queue = slot :: rest)
      (filled : (p.cells slot).payload = some payload) :
      Transition p .take { (p.grant slot).deliver slot with queue := rest }
        [.delivered ⟨(p.cells slot).ticket, payload⟩]
  | rotate (slot : SlotRef) (rest : List SlotRef) (idle : p.driver = .idle) (free : p.current = none)
      (front : p.queue = slot :: rest) (missing : (p.cells slot).payload = none) :
      Transition p .rotate { p.grant slot with queue := rest ++ [slot] } []
  | release (slot : SlotRef) (current : p.current = some slot) :
      Transition p .release { p.setCell slot { p.cells slot with done := true } with current := none }
        [.released (p.cells slot).ticket]
  | crash (slot : SlotRef) (driver : p.driver = .readying slot) (ready : (p.cells slot).ready = true)
      (missing : (p.cells slot).payload = none) :
      Transition p .crash { p with driver := .idle } [.panicked .payloadMissing]
  | dropNext (busy : p.driver ≠ .idle) : Transition p .dropNext { p with driver := .idle } []
  | dropCall (seq : ι) (pending : p.pos seq ≠ .idle) (live : p.pos seq ≠ .dropped) :
      Transition p (.dropCall seq) (p.setPos seq .idle) []
  | dropSeq (seq : ι) (live : p.pos seq ≠ .dropped) :
      Transition p (.dropSeq seq) (p.setPos seq .dropped) []

/-- An accepted step is a transition. -/
theorem transition_of_step {p p' : Protocol ι Req} {op : Op ι Req} {out : List (Obs ι Req)}
    (stepped : p.step op = some (p', out)) : Transition p op p' out := by
  cases op with
  | enqueue seq =>
    simp only [step, Option.ite_none_right_eq_some] at stepped
    obtain ⟨⟨idle, free⟩, same⟩ := stepped
    cases same
    exact .enqueue seq idle free
  | start seq =>
    simp only [step] at stepped
    split at stepped
    · next slot starting =>
      obtain ⟨granted, same⟩ := Option.ite_none_right_eq_some.mp stepped
      cases same
      exact .start seq slot starting granted
    · cases stepped
  | hand seq payload =>
    simp only [step] at stepped
    split at stepped
    · next slot idle held =>
      cases stepped
      exact .hand seq payload slot idle held
    · cases stepped
  | finish seq =>
    simp only [step] at stepped
    split at stepped
    · next slot finishing =>
      obtain ⟨done, same⟩ := Option.ite_none_right_eq_some.mp stepped
      cases same
      exact .finish seq slot finishing done
    · cases stepped
  | await =>
    simp only [step, Option.ite_none_right_eq_some] at stepped
    obtain ⟨⟨idle, free, empty⟩, same⟩ := stepped
    cases same
    exact .await idle free empty
  | pop =>
    simp only [step, Option.ite_none_right_eq_some] at stepped
    obtain ⟨driver, same⟩ := stepped
    split at same
    · cases same
    · next slot rest front =>
      cases same
      exact .pop slot rest driver front
  | deliver =>
    simp only [step] at stepped
    split at stepped
    · next slot driver =>
      split at stepped
      · next payload ready filled =>
        cases stepped
        exact .deliver slot payload driver ready filled
      · cases stepped
    · cases stepped
  | take =>
    simp only [step, Option.ite_none_right_eq_some] at stepped
    obtain ⟨⟨idle, free⟩, same⟩ := stepped
    split at same
    · cases same
    · next slot rest front =>
      split at same
      · cases same
      · next payload filled =>
        cases same
        exact .take slot rest payload idle free front filled
  | rotate =>
    simp only [step, Option.ite_none_right_eq_some] at stepped
    obtain ⟨⟨idle, free⟩, same⟩ := stepped
    split at same
    · cases same
    · next slot rest front =>
      split at same
      · cases same
      · next missing =>
        cases same
        exact .rotate slot rest idle free front missing
  | release =>
    simp only [step] at stepped
    split at stepped
    · cases stepped
    · next slot current =>
      cases stepped
      exact .release slot current
  | crash =>
    simp only [step] at stepped
    split at stepped
    · next slot driver =>
      obtain ⟨⟨ready, missing⟩, same⟩ := Option.ite_none_right_eq_some.mp stepped
      cases same
      exact .crash slot driver ready missing
    · cases stepped
  | dropNext =>
    simp only [step, Option.ite_none_left_eq_some] at stepped
    obtain ⟨busy, same⟩ := stepped
    cases same
    exact .dropNext busy
  | dropCall seq =>
    simp only [step] at stepped
    split at stepped
    · cases stepped
    · cases stepped
    · next pending live =>
      cases stepped
      exact .dropCall seq pending live
  | dropSeq seq =>
    simp only [step, Option.ite_none_left_eq_some] at stepped
    obtain ⟨live, same⟩ := stepped
    cases same
    exact .dropSeq seq live

end Protocol

/-- The protocol as a machine. -/
def protocol (ι Req : Type*) [DecidableEq ι] : Machine (Protocol ι Req) (Op ι Req) (Obs ι Req) where
  step := Protocol.step

/-- Forget the wakers of a slot. -/
def ItemSlot.cell {Req : Type*} (slot : ItemSlot Req) : Cell Req :=
  ⟨slot.id, slot.granted.isSet, slot.ready.isSet, slot.done.isSet, slot.payload⟩

/-- Forget the wakers and the responses of a system. -/
def System.protocol {ι Req Rsp : Type*} (s : System ι Req Rsp) : Protocol ι Req where
  cells slot := (s.heap slot).cell
  fresh := s.fresh
  nextId := s.inner.nextId
  queue := s.inner.queue.buf
  current := s.inner.current
  driver := s.driver
  held seq := (s.seqs seq).ctx.current
  pos seq := (s.seqs seq).pos

@[simp] theorem System.protocol_cells {ι Req Rsp : Type*} (s : System ι Req Rsp) (slot : SlotRef) :
    s.protocol.cells slot = (s.heap slot).cell := rfl

/-- The observations the protocol speaks about: not wakes, refusals and misuse. -/
def Obs.visible {ι Req : Type*} : Obs ι Req → Bool
  | .enqueued .. | .started .. | .handed .. | .returned .. | .delivered _ | .released _ => true
  | .panicked .payloadMissing => true
  | _ => false

section Visible

variable {ι Req : Type*} (seq : ι) (id : TxnId) (payload : Req) (item : SeqItem Req)

@[simp] theorem Obs.visible_enqueued : (Obs.enqueued seq id : Obs ι Req).visible = true := rfl
@[simp] theorem Obs.visible_started : (Obs.started seq id : Obs ι Req).visible = true := rfl
@[simp] theorem Obs.visible_handed : (Obs.handed seq id payload : Obs ι Req).visible = true := rfl
@[simp] theorem Obs.visible_returned : (Obs.returned seq id : Obs ι Req).visible = true := rfl
@[simp] theorem Obs.visible_delivered : (Obs.delivered item : Obs ι Req).visible = true := rfl
@[simp] theorem Obs.visible_released : (Obs.released id : Obs ι Req).visible = true := rfl
@[simp] theorem Obs.visible_nothing : (Obs.nothing : Obs ι Req).visible = false := rfl

end Visible

end Rustdv.Sequencer
