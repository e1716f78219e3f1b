import Rustdv.Machine.Simulation
import Rustdv.Model.Handshake
import Mathlib.Data.List.Nodup
import Mathlib.Data.List.Perm.Basic

/-! # What every handshake transition preserves

What a transition does to a slot, to the slots in flight and to a sequence is said once. From this
follow two invariants of the protocol, over all of its transitions, drops included. `Layout` ties the
slots to the two sides: which slots are on their way to the driver, who holds which slot, and which
of them carry a payload. `Ledger` ties the slots to what has been observed: every delivered item
was handed over once and has left its slot, and every release comes before its return.
-/

namespace Rustdv.Sequencer

variable {ι Req : Type*} [DecidableEq ι]

/-- The ticket of the slot that was allocated as number `slot`. -/
def ticketOf (slot : SlotRef) : TxnId := ⟨slot + 1⟩

theorem ticketOf_injective : Function.Injective ticketOf := by
  intro slot other same
  simpa only [ticketOf, TxnId.mk.injEq, Nat.add_right_cancel_iff] using same

/-- The slot the driver has taken and waits for. -/
def DriverPos.wanted : DriverPos → List SlotRef
  | .readying slot => [slot]
  | _ => []

section Observed

def Obs.enqueuedId : Obs ι Req → Option TxnId
  | .enqueued _ id => some id
  | _ => none

def Obs.deliveredItem : Obs ι Req → Option (SeqItem Req)
  | .delivered item => some item
  | _ => none

def Obs.handedId : Obs ι Req → Option TxnId
  | .handed _ id _ => some id
  | _ => none

/-- The items the driver received, in order. -/
def deliveries (obs : List (Obs ι Req)) : List (SeqItem Req) := obs.filterMap Obs.deliveredItem

end Observed

namespace Protocol

/-- The slots on their way to the driver: the granted one first, then the queue. -/
def pending (p : Protocol ι Req) : List SlotRef := p.driver.wanted ++ p.queue

/-- The slots on their way to the driver and the one it is working on. -/
def inFlight (p : Protocol ι Req) : List SlotRef := p.current.toList ++ p.pending

/-- Where the slots are. -/
structure Layout (p : Protocol ι Req) : Prop where
  ticket : ∀ slot < p.fresh, (p.cells slot).ticket = ticketOf slot
  nextId : p.nextId = p.fresh + 1
  nodup : p.inFlight.Nodup
  bound : ∀ slot ∈ p.inFlight, slot < p.fresh
  serial : p.driver ≠ .idle → p.current = none
  held_bound : ∀ seq slot, p.held seq = some slot → slot < p.fresh
  held_ready : ∀ seq slot, p.held seq = some slot → (p.cells slot).ready = false
  held_inj : ∀ seq seq' slot, p.held seq = some slot → p.held seq' = some slot → seq = seq'
  starting : ∀ seq slot, p.pos seq = .starting slot → p.held seq = some slot
  finishing : ∀ seq slot, p.pos seq = .finishing slot → slot < p.fresh ∧ (p.cells slot).ready = true
  empty : ∀ slot < p.fresh, (p.cells slot).ready = false → (p.cells slot).payload = none
  filled : ∀ slot ∈ p.pending, (p.cells slot).ready = true → (p.cells slot).payload.isSome = true
  current_ready : ∀ slot, p.current = some slot → (p.cells slot).ready = true
  done_ready : ∀ slot < p.fresh, (p.cells slot).done = true → (p.cells slot).ready = true

/-! ## What a transition does to a slot and to its sequence -/

section Slots

variable {p p' : Protocol ι Req} {op : Op ι Req} {out : List (Obs ι Req)} {seq : ι} {slot : SlotRef}

/-- What a transition does to a slot that is allocated. -/
inductive Treated (p p' : Protocol ι Req) (out : List (Obs ι Req)) (slot : SlotRef) : Prop where
  | kept (ready : (p'.cells slot).ready = (p.cells slot).ready)
      (payload : (p'.cells slot).payload = (p.cells slot).payload)
      (done : (p'.cells slot).done = (p.cells slot).done)
  /-- The sequence that holds it hands its payload over. -/
  | filled (seq : ι) (payload : Req) (held : p.held seq = some slot) (freed : p'.held seq = none)
      (ready : (p'.cells slot).ready = true) (stored : (p'.cells slot).payload = some payload)
      (done : (p'.cells slot).done = (p.cells slot).done)
      (shown : out = [.handed seq (p.cells slot).ticket payload])
  /-- It is the next one on the way to the driver, which receives its payload. -/
  | emptied (payload : Req) (front : p.pending = slot :: p'.pending)
      (ready : (p'.cells slot).ready = (p.cells slot).ready) (stored : (p.cells slot).payload = some payload)
      (gone : (p'.cells slot).payload = none) (done : (p'.cells slot).done = (p.cells slot).done)
      (shown : out = [.delivered ⟨(p.cells slot).ticket, payload⟩])
  /-- The driver is done with it. -/
  | released (current : p.current = some slot) (ready : (p'.cells slot).ready = (p.cells slot).ready)
      (payload : (p'.cells slot).payload = (p.cells slot).payload) (done : (p'.cells slot).done = true)
      (shown : out = [.released (p.cells slot).ticket])

omit [DecidableEq ι] in
theorem Treated.of_same (same : p'.cells slot = p.cells slot) : Treated p p' out slot :=
  .kept (congrArg Cell.ready same) (congrArg Cell.payload same) (congrArg Cell.done same)

omit [DecidableEq ι] in
/-- Once ready, a slot stays ready. -/
theorem Treated.ready (treated : Treated p p' out slot) (ready : (p.cells slot).ready = true) :
    (p'.cells slot).ready = true := by
  cases treated with
  | filled seq payload held freed now stored done shown => exact now
  | kept same | emptied _ _ same | released _ same => exact same.trans ready

omit [DecidableEq ι] in
/-- A payload was in its slot before, or is just handed over. -/
theorem Treated.stored (treated : Treated p p' out slot) {payload : Req}
    (stored : (p'.cells slot).payload = some payload) : (p.cells slot).payload = some payload ∨
      ∃ seq, p.held seq = some slot ∧ out = [.handed seq (p.cells slot).ticket payload] := by
  cases treated with
  | kept _ same | released _ _ same => exact .inl (same.symm.trans stored)
  | filled seq other held _ _ now _ shown =>
    obtain rfl := Option.some.inj (now.symm.trans stored)
    exact .inr ⟨seq, held, shown⟩
  | emptied _ _ _ _ gone =>
    rw [gone] at stored
    cases stored

omit [DecidableEq ι] in
/-- A slot was done before, or is just released. -/
theorem Treated.done (treated : Treated p p' out slot) (done : (p'.cells slot).done = true) :
    (p.cells slot).done = true ∨ p.current = some slot ∧ out = [.released (p.cells slot).ticket] := by
  cases treated with
  | released current _ _ _ shown => exact .inr ⟨current, shown⟩
  | kept _ _ same | filled _ _ _ _ _ _ same | emptied _ _ _ _ _ same => exact .inl (same.symm.trans done)

omit [DecidableEq ι] in
/-- Once done, a slot stays done. -/
theorem Treated.done_kept (treated : Treated p p' out slot) (done : (p.cells slot).done = true) :
    (p'.cells slot).done = true := by
  cases treated with
  | released _ _ _ now => exact now
  | kept _ _ same | filled _ _ _ _ _ _ same | emptied _ _ _ _ _ same => exact same.trans done

theorem Transition.treated (moved : Transition p op p' out) (allocated : slot < p.fresh) :
    Treated p p' out slot := by
  cases moved with
  | enqueue => exact .of_same (setCell_of_ne p p.fresh slot (Nat.ne_of_lt allocated))
  | hand seq payload filled idle held =>
    by_cases here : slot = filled
    · subst here
      exact .filled seq payload held (by simp) (by simp) (by simp) (by simp) rfl
    · exact .of_same (setCell_of_ne p filled slot here)
  | pop front _ _ _ | rotate front _ _ _ _ _ =>
    exact .kept (grant_ready p front slot) (grant_payload p front slot) (grant_done p front slot)
  | deliver front payload driver _ stored =>
    by_cases here : slot = front
    · subst here
      exact .emptied payload (by simp [pending, driver, DriverPos.wanted, Protocol.deliver, setCell])
        (deliver_ready ..) stored (deliver_payload ..) (deliver_done ..) rfl
    · exact .of_same (setCell_of_ne p front slot here)
  | take front rest payload idle _ queue stored =>
    have ready := (deliver_ready (p.grant front) front slot).trans (grant_ready p front slot)
    have done := (deliver_done (p.grant front) front slot).trans (grant_done p front slot)
    by_cases here : slot = front
    · subst here
      exact .emptied payload (by simp [pending, idle, queue, DriverPos.wanted, Protocol.deliver, grant, setCell])
        ready stored (deliver_payload ..) done rfl
    · have same := (deliver_payload_of_ne (p.grant front) front slot here).trans (grant_payload p front slot)
      exact .kept ready same done
  | release item current =>
    by_cases here : slot = item
    · subst here
      exact .released current (by simp) (by simp) (by simp) rfl
    · exact .of_same (setCell_of_ne p item slot here)
  | _ => exact .kept rfl rfl rfl

theorem Transition.fresh_le (moved : Transition p op p' out) : p.fresh ≤ p'.fresh := by
  cases moved with
  | enqueue => exact Nat.le_succ _
  | _ => exact Nat.le_refl _

/-- The one slot that a transition may allocate. -/
theorem Transition.old_or_new (moved : Transition p op p' out) (bound : slot < p'.fresh) :
    slot < p.fresh ∨ slot = p.fresh ∧ p'.cells slot = ⟨⟨p.nextId⟩, false, false, false, none⟩ := by
  cases moved with
  | enqueue seq idle free =>
    rcases Nat.lt_succ_iff_lt_or_eq.mp bound with old | rfl
    · exact .inl old
    · exact .inr ⟨rfl, setCell_cells p p.fresh _⟩
  | _ => exact .inl bound

theorem Transition.ticket_kept (moved : Transition p op p' out) (allocated : slot < p.fresh) :
    (p'.cells slot).ticket = (p.cells slot).ticket := by
  cases moved with
  | enqueue => exact congrArg Cell.ticket (setCell_of_ne p p.fresh slot (Nat.ne_of_lt allocated))
  | hand | release => exact setCell_field p _ slot Cell.ticket rfl
  | pop front | rotate front => exact grant_ticket p front slot
  | deliver front => exact deliver_ticket p front slot
  | take front => exact (deliver_ticket (p.grant front) front slot).trans (grant_ticket p front slot)
  | _ => rfl

/-- A grant is not taken back. -/
theorem Transition.granted_kept (moved : Transition p op p' out) (allocated : slot < p.fresh)
    (granted : (p.cells slot).granted = true) : (p'.cells slot).granted = true := by
  have renewed (q : Protocol ι Req) (front : SlotRef) (before : (q.cells slot).granted = true) :
      ((q.grant front).cells slot).granted = true := by
    by_cases here : slot = front
    · subst here
      simp [grant]
    · rw [grant, setCell_of_ne q front slot here]
      exact before
  cases moved with
  | enqueue =>
    exact (congrArg Cell.granted (setCell_of_ne p p.fresh slot (Nat.ne_of_lt allocated))).trans granted
  | hand | deliver | release =>
    refine Eq.trans ?_ granted
    exact setCell_field p _ slot Cell.granted rfl
  | pop front | rotate front => exact renewed p front granted
  | take front =>
    refine Eq.trans ?_ (renewed p front granted)
    exact setCell_field (p.grant front) front slot Cell.granted rfl
  | _ => exact granted

/-- Nothing gets on the way to the driver but a new slot. -/
theorem Transition.pending_subset (moved : Transition p op p' out) (inside : slot ∈ p'.pending) :
    slot ∈ p.pending ∨ slot = p.fresh := by
  have queued (q : List SlotRef) (later : slot ∈ q) : slot ∈ p.driver.wanted ++ q := List.mem_append_right _ later
  cases moved with
  | enqueue => simpa [pending, setCell, or_assoc] using inside
  | await _ _ _ | dropNext _ => exact .inl (queued p.queue inside)
  | deliver _ _ _ _ _ | crash _ _ _ _ => exact .inl (queued p.queue inside)
  | pop front rest driver queue =>
    refine .inl ?_
    rw [pending, queue]
    exact queued _ inside
  | take front rest _ _ _ queue _ =>
    refine .inl ?_
    rw [pending, queue]
    exact queued _ (List.mem_cons_of_mem front inside)
  | rotate front rest idle _ queue _ =>
    refine .inl ?_
    have member : slot ∈ rest ∨ slot = front := by simpa [pending, grant, setCell, idle, DriverPos.wanted] using inside
    rw [pending, queue]
    exact queued _ (List.mem_cons.mpr member.symm)
  | _ => exact .inl inside

/-- A slot stays on its way to the driver until its payload is delivered, or the driver forgets it. -/
theorem Transition.pending_kept (moved : Transition p op p' out) (inside : slot ∈ p.pending) :
    slot ∈ p'.pending ∨ (∃ payload, (p.cells slot).payload = some payload ∧ (p'.cells slot).payload = none) ∨
      op = .dropNext ∨ op = .crash := by
  have served {front : SlotRef} {payload : Req} {q : Protocol ι Req} {rest : List SlotRef}
      (stored : (p.cells front).payload = some payload) (gone : (q.cells front).payload = none)
      (member : slot = front ∨ slot ∈ rest) (behind : rest = q.pending) :
      slot ∈ q.pending ∨ (∃ payload, (p.cells slot).payload = some payload ∧ (q.cells slot).payload = none) ∨
        op = .dropNext ∨ op = .crash := by
    rcases member with rfl | later
    · exact .inr (.inl ⟨payload, stored, gone⟩)
    · exact .inl (behind ▸ later)
  cases moved with
  | enqueue =>
    refine .inl ?_
    rw [pending, ← List.append_assoc]
    exact List.mem_append_left _ inside
  | await idle _ _ => exact .inl (by simpa [pending, idle, DriverPos.wanted] using inside)
  | pop front rest driver queue =>
    have idle : p.driver.wanted = [] := by
      rcases driver with waiting | ⟨idle, -⟩ <;> simp [DriverPos.wanted, *]
    rw [pending, idle, queue] at inside
    exact .inl inside
  | deliver front _ driver _ stored =>
    rw [pending, driver] at inside
    exact served stored (deliver_payload ..) (List.mem_cons.mp inside) rfl
  | take front rest _ idle _ queue stored =>
    rw [pending, idle, queue] at inside
    exact served stored (deliver_payload ..) (List.mem_cons.mp inside) rfl
  | rotate front rest idle _ queue _ =>
    rw [pending, idle, queue] at inside
    refine .inl ?_
    simpa [pending, idle, DriverPos.wanted, grant, setCell] using (List.mem_cons.mp inside).symm
  | crash => exact .inr (.inr (.inr rfl))
  | dropNext => exact .inr (.inr (.inl rfl))
  | _ => exact .inl inside

/-- What becomes of the slots in flight. -/
inductive Flies (p p' : Protocol ι Req) (op : Op ι Req) : Prop where
  /-- A new slot joins them. -/
  | joined (flight : p'.inFlight = p.inFlight ++ [p.fresh]) (fresh : p'.fresh = p.fresh + 1)
  | moved (flight : p'.inFlight.Perm p.inFlight) (fresh : p'.fresh = p.fresh)
  | done (slot : SlotRef) (done : (p'.cells slot).done = true) (flight : p.inFlight = slot :: p'.inFlight)
      (fresh : p'.fresh = p.fresh)
  /-- The driver forgets the slot it waits for. -/
  | lost (slot : SlotRef) (driver : p.driver = .readying slot) (forgot : op = .dropNext ∨ op = .crash)
      (flight : p.inFlight = slot :: p'.inFlight) (fresh : p'.fresh = p.fresh)

omit [DecidableEq ι] in
theorem Flies.of_eq (same : p'.inFlight = p.inFlight) (fresh : p'.fresh = p.fresh) : Flies p p' op :=
  .moved (same ▸ List.Perm.refl _) fresh

theorem Transition.flies (moved : Transition p op p' out) (serial : p.driver ≠ .idle → p.current = none) :
    Flies p p' op := by
  have taken {front : SlotRef} (driver : p.driver = .readying front) : p.inFlight = front :: p.queue := by
    have free := serial (by simp [driver])
    simp [inFlight, pending, driver, free, DriverPos.wanted]
  cases moved with
  | enqueue => exact .joined (by simp [inFlight, pending, setCell]) rfl
  | await idle _ _ => exact .of_eq (by simp [inFlight, pending, idle, DriverPos.wanted]) rfl
  | pop front rest driver queue =>
    refine .of_eq ?_ rfl
    rcases driver with waiting | ⟨idle, -⟩
    · simp [inFlight, pending, waiting, queue, DriverPos.wanted, grant, setCell]
    · simp [inFlight, pending, idle, queue, DriverPos.wanted, grant, setCell]
  | deliver front _ driver _ _ => exact .of_eq (taken driver).symm rfl
  | take front rest _ idle free queue _ =>
    exact .of_eq (by simp [inFlight, pending, idle, free, queue, DriverPos.wanted, Protocol.deliver, setCell]) rfl
  | rotate front rest idle _ queue _ =>
    refine .moved ?_ rfl
    have turned : (rest ++ [front]).Perm p.queue := by
      rw [queue]
      exact List.perm_append_singleton front rest
    exact (turned.append_left p.driver.wanted).append_left p.current.toList
  | release item current => exact .done item (by simp) (by simp [inFlight, current, pending, setCell]) rfl
  | crash front driver _ _ =>
    have free := serial (by simp [driver])
    exact .lost front driver (.inr rfl) (by simp [inFlight, pending, driver, free, DriverPos.wanted]) rfl
  | dropNext busy =>
    have free := serial busy
    cases driver : p.driver with
    | idle => exact absurd driver busy
    | waiting => exact .of_eq (by simp [inFlight, pending, driver, DriverPos.wanted]) rfl
    | readying front =>
      exact .lost front driver (.inl rfl) (by simp [inFlight, pending, driver, free, DriverPos.wanted]) rfl
  | _ => exact .moved (List.Perm.refl _) rfl

/-- The driver's current item was its item before, or has just been delivered. -/
theorem Transition.works (moved : Transition p op p' out) (current : p'.current = some slot) :
    p.current = some slot ∨ ∃ payload, slot ∈ p.pending ∧ (p.cells slot).payload = some payload ∧
      out = [.delivered ⟨(p.cells slot).ticket, payload⟩] := by
  cases moved with
  | deliver front payload driver _ stored =>
    obtain rfl := Option.some.inj current
    exact .inr ⟨payload, by simp [pending, driver, DriverPos.wanted], stored, rfl⟩
  | take front rest payload _ _ queue stored =>
    obtain rfl := Option.some.inj current
    exact .inr ⟨payload, by simp [pending, queue], stored, rfl⟩
  | release _ _ => cases current
  | _ => exact .inl current

/-- A held slot was held before, or has just been allocated. -/
theorem Transition.holds (moved : Transition p op p' out) (held : p'.held seq = some slot) :
    p.held seq = some slot ∨ op = .enqueue seq ∧ slot = p.fresh := by
  cases moved with
  | enqueue owner idle free =>
    by_cases same : seq = owner
    · subst same
      exact .inr ⟨rfl, Option.some.inj (held.symm.trans (Function.update_self ..))⟩
    · exact .inl ((Function.update_of_ne same ..).symm.trans held)
  | hand owner payload filled idle owned =>
    by_cases same : seq = owner
    · subst same
      cases held.symm.trans (Function.update_self ..)
    · exact .inl ((Function.update_of_ne same ..).symm.trans held)
  | _ => exact .inl held

/-- Only the sequence itself changes its position. -/
theorem setPos_stands {owner : ι} {pos stand : SeqPos} (stands : (p.setPos owner pos).pos seq = stand) :
    seq = owner ∧ pos = stand ∨ seq ≠ owner ∧ p.pos seq = stand := by
  by_cases same : seq = owner
  · subst same
    exact .inl ⟨rfl, (setPos_pos p seq pos).symm.trans stands⟩
  · exact .inr ⟨same, (Function.update_of_ne same ..).symm.trans stands⟩

/-- No transition waits for room. -/
theorem Transition.room (moved : Transition p op p' out) (clear : ∀ seq slot, p.pos seq ≠ .enqueueing slot)
    (seq : ι) (slot : SlotRef) : p'.pos seq ≠ .enqueueing slot := by
  intro waits
  cases moved with
  | enqueue owner _ _ | start owner _ _ _ | hand owner _ _ _ _ | finish owner _ _ _ | dropCall owner _ _
  | dropSeq owner _ =>
    rcases setPos_stands waits with ⟨-, same⟩ | ⟨-, before⟩
    · cases same
    · exact clear seq slot before
  | _ => exact clear seq slot waits

/-- A sequence that waits for its grant waited before, or has just been given its slot. -/
theorem Transition.starts (moved : Transition p op p' out) (starting : p'.pos seq = .starting slot) :
    p'.held seq = some slot ∨ p.pos seq = .starting slot ∧ p'.held seq = p.held seq := by
  cases moved with
  | enqueue owner _ _ =>
    rcases setPos_stands starting with ⟨rfl, same⟩ | ⟨apart, before⟩
    · cases same
      exact .inl (Function.update_self ..)
    · exact .inr ⟨before, Function.update_of_ne apart ..⟩
  | hand owner _ _ _ _ =>
    rcases setPos_stands starting with ⟨rfl, same⟩ | ⟨apart, before⟩
    · cases same
    · exact .inr ⟨before, Function.update_of_ne apart ..⟩
  | start owner _ _ _ | finish owner _ _ _ | dropCall owner _ _ | dropSeq owner _ =>
    rcases setPos_stands starting with ⟨rfl, same⟩ | ⟨apart, before⟩
    · cases same
    · exact .inr ⟨before, rfl⟩
  | _ => exact .inr ⟨starting, rfl⟩

/-- A sequence that waits for the release waited before, or has just handed its payload over. -/
theorem Transition.finishes (moved : Transition p op p' out) (finishing : p'.pos seq = .finishing slot) :
    p.pos seq = .finishing slot ∨ p.held seq = some slot ∧ p'.held seq = none ∧ (p'.cells slot).ready = true ∧
      ∃ payload, out = [.handed seq (p.cells slot).ticket payload] := by
  cases moved with
  | hand owner payload _ _ held =>
    rcases setPos_stands finishing with ⟨rfl, same⟩ | ⟨apart, before⟩
    · cases same
      exact .inr ⟨held, by simp, by simp, payload, rfl⟩
    · exact .inl before
  | enqueue owner _ _ | start owner _ _ _ | finish owner _ _ _ | dropCall owner _ _ | dropSeq owner _ =>
    rcases setPos_stands finishing with ⟨rfl, same⟩ | ⟨apart, before⟩
    · cases same
    · exact .inl before
  | _ => exact .inl finishing

/-- A sequence is not dropped twice. -/
theorem Transition.lives (moved : Transition p op p' out) (live : p'.pos seq ≠ .dropped) : p.pos seq ≠ .dropped := by
  intro gone
  cases moved with
  | enqueue owner idle _ | hand owner _ _ idle _ =>
    refine live ?_
    have apart : seq ≠ owner := fun same => by rw [same, idle] at gone; cases gone
    exact (Function.update_of_ne apart ..).trans gone
  | start owner _ before _ | finish owner _ before _ =>
    refine live ?_
    have apart : seq ≠ owner := fun same => by rw [same, before] at gone; cases gone
    exact (Function.update_of_ne apart ..).trans gone
  | dropCall owner _ before | dropSeq owner before =>
    refine live ?_
    have apart : seq ≠ owner := fun same => before (same ▸ gone)
    exact (Function.update_of_ne apart ..).trans gone
  | _ => exact live gone

/-- A sequence lives on unless it is dropped. -/
theorem Transition.lives_on (moved : Transition p op p' out) (kept : op ≠ .dropSeq seq) (live : p.pos seq ≠ .dropped) :
    p'.pos seq ≠ .dropped := by
  intro gone
  cases moved with
  | enqueue owner _ _ | start owner _ _ _ | hand owner _ _ _ _ | finish owner _ _ _ | dropCall owner _ _ =>
    rcases setPos_stands gone with ⟨rfl, same⟩ | ⟨-, before⟩
    · cases same
    · exact live before
  | dropSeq owner _ =>
    rcases setPos_stands gone with ⟨rfl, -⟩ | ⟨-, before⟩
    · exact kept rfl
    · exact live before
  | _ => exact live gone

/-- A sequence holds its slot until it has filled it. -/
theorem Transition.held_kept (moved : Transition p op p' out) (held : p.held seq = some slot) :
    p'.held seq = some slot ∨ (p'.cells slot).ready = true := by
  cases moved with
  | enqueue owner _ free =>
    have apart : seq ≠ owner := fun same => by rw [same, free] at held; cases held
    exact .inl ((Function.update_of_ne apart ..).trans held)
  | hand owner payload filled _ owned =>
    by_cases same : seq = owner
    · subst same
      obtain rfl := Option.some.inj (held.symm.trans owned)
      exact .inr (by simp)
    · exact .inl ((Function.update_of_ne same ..).trans held)
  | _ => exact .inl held

/-- A new slot is queued, and the sequence that asked for it waits for its grant. -/
theorem Transition.allocates (moved : Transition p op p' out) (grown : p.fresh < p'.fresh) :
    p.fresh ∈ p'.pending ∧ ∃ seq, p'.held seq = some p.fresh ∧ p'.pos seq = .starting p.fresh := by
  cases moved with
  | enqueue seq _ _ => exact ⟨by simp [pending], seq, by simp, by simp⟩
  | _ => exact absurd grown (Nat.lt_irrefl _)

/-- The driver waits for a slot that it has granted. -/
theorem Transition.readies (moved : Transition p op p' out) (driver : p'.driver = .readying slot) :
    p.driver = .readying slot ∨ (p'.cells slot).granted = true := by
  cases moved with
  | pop front _ _ _ =>
    obtain rfl := DriverPos.readying.inj driver
    exact .inr (by simp [grant])
  | await | deliver | take | crash | dropNext => cases driver
  | _ => exact .inl driver

/-- What a transition hands over was to be filled, and is stored. -/
theorem Transition.hands {id : TxnId} {payload : Req} (moved : Transition p op p' out)
    (member : .handed seq id payload ∈ out) : ∃ slot, p.held seq = some slot ∧ id = (p.cells slot).ticket ∧
      (p'.cells slot).ready = true ∧ (p'.cells slot).payload = some payload := by
  cases moved with
  | hand owner given filled idle held =>
    obtain ⟨rfl, rfl, rfl⟩ := Obs.handed.inj (List.mem_singleton.mp member)
    exact ⟨filled, held, rfl, by simp, by simp⟩
  | _ => simp at member

/-- What a transition delivers was stored in the next slot on the way to the driver. -/
theorem Transition.fronts {item : SeqItem Req} (moved : Transition p op p' out) (member : .delivered item ∈ out) :
    ∃ slot, p.pending = slot :: p'.pending ∧ item.id = (p.cells slot).ticket ∧
      (p.cells slot).payload = some item.payload ∧ (p'.cells slot).payload = none ∧ out = [.delivered item] := by
  cases moved with
  | deliver front payload driver _ stored =>
    obtain rfl := Obs.delivered.inj (List.mem_singleton.mp member)
    exact ⟨front, by simp [pending, driver, DriverPos.wanted, Protocol.deliver, setCell], rfl, stored,
      deliver_payload .., rfl⟩
  | take front rest payload idle _ queue stored =>
    obtain rfl := Obs.delivered.inj (List.mem_singleton.mp member)
    exact ⟨front, by simp [pending, idle, queue, DriverPos.wanted, Protocol.deliver, grant, setCell], rfl, stored,
      deliver_payload .., rfl⟩
  | _ => simp at member

end Slots

section Layout

variable {p p' : Protocol ι Req} {op : Op ι Req} {out : List (Obs ι Req)}

omit [DecidableEq ι] in
/-- A stored payload has been announced. -/
theorem Layout.ready_of_stored (layout : p.Layout) {slot : SlotRef} {payload : Req} (bound : slot < p.fresh)
    (stored : (p.cells slot).payload = some payload) : (p.cells slot).ready = true := by
  by_contra unready
  rw [layout.empty slot bound (by simpa using unready)] at stored
  cases stored

omit [DecidableEq ι] in
theorem Layout.nodup_pending (layout : p.Layout) : p.pending.Nodup := (List.nodup_append'.mp layout.nodup).2.1

omit [DecidableEq ι] in
theorem Layout.pending_bound (layout : p.Layout) {slot : SlotRef} (inside : slot ∈ p.pending) : slot < p.fresh :=
  layout.bound slot (List.mem_append_right _ inside)

omit [DecidableEq ι] in
/-- A slot is filled once. -/
theorem Treated.taken {slot : SlotRef} (treated : Treated p p' out slot) (layout : p.Layout)
    (ready : (p.cells slot).ready = true) (taken : (p.cells slot).payload = none) : (p'.cells slot).payload = none := by
  cases treated with
  | kept _ same | released _ _ same => exact same.trans taken
  | filled seq _ held =>
    rw [layout.held_ready seq slot held] at ready
    cases ready
  | emptied _ _ _ _ now => exact now

/-- The payload of a ready slot is never missing. -/
theorem Transition.crash_free (moved : Transition p .crash p' out) (layout : p.Layout) : False := by
  cases moved with
  | crash slot driver ready missing =>
    have filled := layout.filled slot (by simp [pending, driver, DriverPos.wanted]) ready
    simp [missing] at filled

private theorem Transition.tickets (moved : Transition p op p' out) (layout : p.Layout) :
    p'.nextId = p'.fresh + 1 ∧ ∀ slot < p'.fresh, (p'.cells slot).ticket = ticketOf slot := by
  refine ⟨?_, ?_⟩
  · cases moved with
    | enqueue => exact congrArg (· + 1) layout.nextId
    | _ => exact layout.nextId
  · intro slot bound
    rcases moved.old_or_new bound with old | ⟨rfl, cell⟩
    · exact (moved.ticket_kept old).trans (layout.ticket slot old)
    · rw [cell, layout.nextId, ticketOf]

/-- A slot enters the flight once, when it is allocated. -/
private theorem Transition.flight (moved : Transition p op p' out) (layout : p.Layout) :
    p'.inFlight.Nodup ∧ ∀ slot ∈ p'.inFlight, slot < p'.fresh := by
  have kept (fresh : p'.fresh = p.fresh) (fewer : p'.inFlight ⊆ p.inFlight) : ∀ slot ∈ p'.inFlight, slot < p'.fresh := by
    intro slot inside
    rw [fresh]
    exact layout.bound slot (fewer inside)
  cases moved.flies layout.serial with
  | joined flight fresh =>
    have new : p.fresh ∉ p.inFlight := fun inside => Nat.lt_irrefl _ (layout.bound p.fresh inside)
    rw [flight, fresh, ← List.concat_eq_append]
    refine ⟨layout.nodup.concat new, ?_⟩
    intro slot inside
    rw [List.concat_eq_append, List.mem_append, List.mem_singleton] at inside
    rcases inside with earlier | rfl
    · exact Nat.lt_succ_of_lt (layout.bound slot earlier)
    · exact Nat.lt_succ_self _
  | moved flight fresh => exact ⟨flight.nodup_iff.mpr layout.nodup, kept fresh flight.subset⟩
  | done slot _ flight fresh | lost slot _ _ flight fresh =>
    have nodup := layout.nodup
    rw [flight] at nodup
    exact ⟨(List.nodup_cons.mp nodup).2, kept fresh (flight ▸ List.subset_cons_self _ _)⟩

private theorem Transition.serial (moved : Transition p op p' out) (layout : p.Layout) :
    p'.driver ≠ .idle → p'.current = none := by
  intro busy
  cases moved with
  | await _ free _ => exact free
  | pop _ _ driver _ =>
    rcases driver with waiting | ⟨-, free⟩
    · exact layout.serial (by simp [waiting])
    · exact free
  | deliver | crash | dropNext => exact absurd rfl busy
  | take => exact absurd rfl busy
  | release => rfl
  | _ => exact layout.serial busy

private theorem Transition.held_unready (moved : Transition p op p' out) (layout : p.Layout) (seq : ι)
    (slot : SlotRef) (held : p'.held seq = some slot) : slot < p'.fresh ∧ (p'.cells slot).ready = false := by
  rcases moved.holds held with before | ⟨rfl, rfl⟩
  · have bound := layout.held_bound seq slot before
    have unready := layout.held_ready seq slot before
    refine ⟨Nat.lt_of_lt_of_le bound moved.fresh_le, ?_⟩
    cases moved.treated bound with
    | kept same | emptied _ _ same | released _ same => exact same.trans unready
    | filled owner payload owned freed =>
      obtain rfl := layout.held_inj seq owner slot before owned
      rw [freed] at held
      cases held
  · cases moved with
    | enqueue => exact ⟨Nat.lt_succ_self _, by simp⟩

private theorem Transition.held_unique (moved : Transition p op p' out) (layout : p.Layout) (seq seq' : ι)
    (slot : SlotRef) (held : p'.held seq = some slot) (held' : p'.held seq' = some slot) : seq = seq' := by
  have old (other : ι) (before : p.held other = some slot) : slot ≠ p.fresh :=
    Nat.ne_of_lt (layout.held_bound other slot before)
  rcases moved.holds held with before | ⟨new, rfl⟩ <;> rcases moved.holds held' with before' | ⟨new', same⟩
  · exact layout.held_inj seq seq' slot before before'
  · exact absurd same (old seq before)
  · exact absurd rfl (old seq' before')
  · exact Op.enqueue.inj (new.symm.trans new')

private theorem Transition.positions (moved : Transition p op p' out) (layout : p.Layout) (seq : ι)
    (slot : SlotRef) : (p'.pos seq = .starting slot → p'.held seq = some slot) ∧
      (p'.pos seq = .finishing slot → slot < p'.fresh ∧ (p'.cells slot).ready = true) := by
  refine ⟨?_, ?_⟩
  · intro starting
    rcases moved.starts starting with now | ⟨before, same⟩
    · exact now
    · exact same.trans (layout.starting seq slot before)
  · intro finishing
    rcases moved.finishes finishing with before | ⟨held, -, ready, -⟩
    · obtain ⟨bound, ready⟩ := layout.finishing seq slot before
      exact ⟨Nat.lt_of_lt_of_le bound moved.fresh_le, (moved.treated bound).ready ready⟩
    · exact ⟨Nat.lt_of_lt_of_le (layout.held_bound seq slot held) moved.fresh_le, ready⟩

/-- A payload is in its slot from the handover to the delivery. -/
private theorem Transition.payloads (moved : Transition p op p' out) (layout : p.Layout) :
    (∀ slot < p'.fresh, (p'.cells slot).ready = false → (p'.cells slot).payload = none) ∧
      ∀ slot ∈ p'.pending, (p'.cells slot).ready = true → (p'.cells slot).payload.isSome = true := by
  refine ⟨?_, ?_⟩
  · intro slot bound unready
    rcases moved.old_or_new bound with old | ⟨-, cell⟩
    · cases moved.treated old with
      | kept ready payload | released _ ready payload =>
        exact payload.trans (layout.empty slot old (ready.symm.trans unready))
      | filled _ _ _ _ ready =>
        rw [ready] at unready
        cases unready
      | emptied _ _ _ _ gone => exact gone
    · rw [cell]
  · intro slot inside ready
    have bound := (moved.flight layout).2 slot (List.mem_append_right _ inside)
    rcases moved.old_or_new bound with old | ⟨-, cell⟩
    · have earlier : slot ∈ p.pending := (moved.pending_subset inside).resolve_right (Nat.ne_of_lt old)
      cases moved.treated old with
      | kept same payload | released _ same payload =>
        rw [payload]
        exact layout.filled slot earlier (same.symm.trans ready)
      | filled _ _ _ _ _ stored =>
        rw [stored]
        rfl
      | emptied _ front =>
        have nodup := layout.nodup_pending
        rw [front] at nodup
        exact absurd inside (List.nodup_cons.mp nodup).1
    · rw [cell] at ready
      cases ready

private theorem Transition.served_ready (moved : Transition p op p' out) (layout : p.Layout) :
    (∀ slot, p'.current = some slot → (p'.cells slot).ready = true) ∧
      ∀ slot < p'.fresh, (p'.cells slot).done = true → (p'.cells slot).ready = true := by
  have served (slot : SlotRef) (current : p.current = some slot) : slot < p.fresh :=
    layout.bound slot (by simp [inFlight, current])
  refine ⟨?_, ?_⟩
  · intro slot current
    rcases moved.works current with before | ⟨payload, inside, stored, -⟩
    · exact (moved.treated (served slot before)).ready (layout.current_ready slot before)
    · have bound := layout.pending_bound inside
      exact (moved.treated bound).ready (layout.ready_of_stored bound stored)
  · intro slot bound done
    rcases moved.old_or_new bound with old | ⟨-, cell⟩
    · have treated := moved.treated old
      rcases treated.done done with before | ⟨current, -⟩
      · exact treated.ready (layout.done_ready slot old before)
      · exact treated.ready (layout.current_ready slot current)
    · rw [cell] at done
      cases done

/-- Every transition keeps the layout. -/
theorem Transition.layout (moved : Transition p op p' out) (layout : p.Layout) : p'.Layout where
  ticket := (moved.tickets layout).2
  nextId := (moved.tickets layout).1
  nodup := (moved.flight layout).1
  bound := (moved.flight layout).2
  serial := moved.serial layout
  held_bound seq slot held := (moved.held_unready layout seq slot held).1
  held_ready seq slot held := (moved.held_unready layout seq slot held).2
  held_inj := moved.held_unique layout
  starting seq slot := (moved.positions layout seq slot).1
  finishing seq slot := (moved.positions layout seq slot).2
  empty := (moved.payloads layout).1
  filled := (moved.payloads layout).2
  current_ready := (moved.served_ready layout).1
  done_ready := (moved.served_ready layout).2

end Layout

/-- The slot's payload has gone to the driver. -/
structure Settled (p : Protocol ι Req) (slot : SlotRef) : Prop where
  bound : slot < p.fresh
  gone : slot ∉ p.pending
  ready : (p.cells slot).ready = true
  payload : (p.cells slot).payload = none

/-- What has been observed of the slots. -/
structure Ledger (p : Protocol ι Req) (obs : List (Obs ι Req)) : Prop where
  enqueued : obs.filterMap Obs.enqueuedId = (List.range p.fresh).map ticketOf
  delivered : ∀ item ∈ deliveries obs, ∃ slot, item.id = ticketOf slot ∧ p.Settled slot
  once : ((deliveries obs).map SeqItem.id).Nodup
  source : ∀ item ∈ deliveries obs, ∃ seq, .handed seq item.id item.payload ∈ obs
  filledBy : ∀ slot < p.fresh, ∀ payload, (p.cells slot).payload = some payload →
    ∃ seq, .handed seq (ticketOf slot) payload ∈ obs
  handed : ∀ seq id payload, .handed seq id payload ∈ obs → ∃ slot < p.fresh, id = ticketOf slot ∧
    (p.cells slot).ready = true ∧ ((p.cells slot).payload = some payload ∨ ⟨id, payload⟩ ∈ deliveries obs)
  handedOnce : (obs.filterMap Obs.handedId).Nodup
  done : ∀ slot < p.fresh, (p.cells slot).done = true → .released (ticketOf slot) ∈ obs
  served : ∀ slot < p.fresh, p.current = some slot ∨ (p.cells slot).done = true →
    ∃ payload, ⟨ticketOf slot, payload⟩ ∈ deliveries obs
  returned : ∀ pre post seq id, obs = pre ++ .returned seq id :: post → .released id ∈ pre
  noCrash : .panicked .payloadMissing ∉ obs

section Ledger

variable {p p' : Protocol ι Req} {op : Op ι Req} {out seen : List (Obs ι Req)}


/-- A settled slot stays settled: nothing fills it again or puts it back. -/
theorem Transition.settled (moved : Transition p op p' out) (layout : p.Layout) {slot : SlotRef}
    (settled : p.Settled slot) : p'.Settled slot := by
  obtain ⟨bound, gone, ready, taken⟩ := settled
  have treated := moved.treated bound
  refine ⟨Nat.lt_of_lt_of_le bound moved.fresh_le, ?_, treated.ready ready, ?_⟩
  · intro inside
    rcases moved.pending_subset inside with before | rfl
    · exact gone before
    · exact Nat.lt_irrefl _ bound
  · exact treated.taken layout ready taken

/-- What a transition delivers was waiting in a pending slot, which it settles. -/
theorem Transition.delivers {item : SeqItem Req} (moved : Transition p op p' out) (layout : p.Layout)
    (member : .delivered item ∈ out) :
    ∃ slot ∈ p.pending, item.id = ticketOf slot ∧ (p.cells slot).payload = some item.payload ∧
      p'.Settled slot ∧ out = [.delivered item] := by
  obtain ⟨slot, front, same, stored, gone, shown⟩ := moved.fronts member
  have inside : slot ∈ p.pending := by simp [front]
  have bound := layout.pending_bound inside
  refine ⟨slot, inside, same.trans (layout.ticket slot bound), stored, ?_, shown⟩
  refine ⟨Nat.lt_of_lt_of_le bound moved.fresh_le, ?_, ?_, gone⟩
  · have nodup := layout.nodup_pending
    rw [front] at nodup
    exact (List.nodup_cons.mp nodup).1
  · exact (moved.treated bound).ready (layout.ready_of_stored bound stored)

omit [DecidableEq ι] in
@[simp] theorem mem_deliveries {item : SeqItem Req} {obs : List (Obs ι Req)} :
    item ∈ deliveries obs ↔ .delivered item ∈ obs := by
  simp only [deliveries, List.mem_filterMap]
  constructor
  · rintro ⟨o, member, same⟩
    cases o <;> simp only [Obs.deliveredItem, Option.some.injEq, reduceCtorEq] at same
    rwa [← same]
  · intro member
    exact ⟨_, member, rfl⟩

private theorem Transition.enqueued (moved : Transition p op p' out) (layout : p.Layout)
    (ledger : p.Ledger seen) :
    (seen ++ out).filterMap Obs.enqueuedId = (List.range p'.fresh).map ticketOf := by
  rw [List.filterMap_append, ledger.enqueued]
  cases moved with
  | enqueue seq idle free =>
    simp [Obs.enqueuedId, List.range_succ, ticketOf, layout.nextId]
  | _ => simp [Obs.enqueuedId, setPos, setCell, grant, Protocol.deliver]

private theorem Transition.delivered (moved : Transition p op p' out) (layout : p.Layout)
    (ledger : p.Ledger seen) (item : SeqItem Req) (member : item ∈ deliveries (seen ++ out)) :
    ∃ slot, item.id = ticketOf slot ∧ p'.Settled slot := by
  rcases List.mem_append.mp (mem_deliveries.mp member) with earlier | now
  · obtain ⟨slot, same, settled⟩ := ledger.delivered item (mem_deliveries.mpr earlier)
    exact ⟨slot, same, moved.settled layout settled⟩
  · obtain ⟨slot, -, same, -, settled, -⟩ := moved.delivers layout now
    exact ⟨slot, same, settled⟩

private theorem Transition.once (moved : Transition p op p' out) (layout : p.Layout)
    (ledger : p.Ledger seen) : ((deliveries (seen ++ out)).map SeqItem.id).Nodup := by
  rw [deliveries, List.filterMap_append, List.map_append]
  by_cases none : ∀ item, .delivered item ∉ out
  · have quiet : out.filterMap Obs.deliveredItem = [] :=
      List.eq_nil_iff_forall_not_mem.mpr fun item member => none item (mem_deliveries.mp member)
    rw [quiet, List.map_nil, List.append_nil]
    exact ledger.once
  · obtain ⟨item, now⟩ := not_forall_not.mp none
    obtain ⟨slot, inside, same, -, -, rfl⟩ := moved.delivers layout now
    refine List.nodup_append'.mpr ⟨ledger.once, List.nodup_singleton _, ?_⟩
    -- an earlier item under this ticket would have settled a slot that is still pending
    simp only [List.filterMap_cons, Obs.deliveredItem, List.filterMap_nil, List.map_cons, List.map_nil,
      List.disjoint_singleton, List.mem_map, not_exists, not_and]
    intro other earlier tickets
    obtain ⟨slot', same', settled⟩ := ledger.delivered other earlier
    obtain rfl := ticketOf_injective (same'.symm.trans (tickets.trans same))
    exact settled.gone inside

private theorem Transition.sources (moved : Transition p op p' out) (layout : p.Layout)
    (ledger : p.Ledger seen) (item : SeqItem Req) (member : item ∈ deliveries (seen ++ out)) :
    ∃ seq, .handed seq item.id item.payload ∈ seen ++ out := by
  rcases List.mem_append.mp (mem_deliveries.mp member) with earlier | now
  · obtain ⟨seq, handed⟩ := ledger.source item (mem_deliveries.mpr earlier)
    exact ⟨seq, List.mem_append_left _ handed⟩
  · obtain ⟨slot, inside, same, filled, -, -⟩ := moved.delivers layout now
    have bound := layout.bound slot (List.mem_append_right _ inside)
    obtain ⟨seq, handed⟩ := ledger.filledBy slot bound item.payload filled
    exact ⟨seq, List.mem_append_left _ (same ▸ handed)⟩

private theorem Transition.filledBy (moved : Transition p op p' out) (layout : p.Layout)
    (ledger : p.Ledger seen) (slot : SlotRef) (bound : slot < p'.fresh) (payload : Req)
    (filled : (p'.cells slot).payload = some payload) :
    ∃ seq, .handed seq (ticketOf slot) payload ∈ seen ++ out := by
  rcases moved.old_or_new bound with old | ⟨-, cell⟩
  · rcases (moved.treated old).stored filled with before | ⟨seq, -, rfl⟩
    · obtain ⟨seq, handed⟩ := ledger.filledBy slot old payload before
      exact ⟨seq, List.mem_append_left _ handed⟩
    · refine ⟨seq, List.mem_append_right _ ?_⟩
      rw [layout.ticket slot old]
      exact List.mem_singleton.mpr rfl
  · rw [cell] at filled
    cases filled

private theorem Transition.handovers (moved : Transition p op p' out) (layout : p.Layout)
    (ledger : p.Ledger seen) (seq : ι) (id : TxnId) (payload : Req)
    (member : .handed seq id payload ∈ seen ++ out) :
    ∃ slot < p'.fresh, id = ticketOf slot ∧ (p'.cells slot).ready = true ∧
      ((p'.cells slot).payload = some payload ∨ ⟨id, payload⟩ ∈ deliveries (seen ++ out)) := by
  rcases List.mem_append.mp member with earlier | now
  · obtain ⟨slot, bound, rfl, ready, stored⟩ := ledger.handed seq id payload earlier
    have treated := moved.treated bound
    refine ⟨slot, Nat.lt_of_lt_of_le bound moved.fresh_le, rfl, treated.ready ready, ?_⟩
    rcases stored with inside | delivered
    · cases treated with
      | kept _ same | released _ _ same => exact .inl (same.trans inside)
      | filled owner _ held =>
        rw [layout.held_ready owner slot held] at ready
        cases ready
      | emptied other _ _ stored _ _ shown =>
        obtain rfl := Option.some.inj (stored.symm.trans inside)
        refine .inr (mem_deliveries.mpr (List.mem_append_right _ ?_))
        rw [shown, layout.ticket slot bound]
        exact List.mem_singleton.mpr rfl
    · exact .inr (mem_deliveries.mpr (List.mem_append_left _ (mem_deliveries.mp delivered)))
  · obtain ⟨slot, held, ticket, ready, stored⟩ := moved.hands now
    have bound := layout.held_bound seq slot held
    exact ⟨slot, Nat.lt_of_lt_of_le bound moved.fresh_le, ticket.trans (layout.ticket slot bound), ready, .inl stored⟩

private theorem Transition.handedOnce (moved : Transition p op p' out) (layout : p.Layout)
    (ledger : p.Ledger seen) : ((seen ++ out).filterMap Obs.handedId).Nodup := by
  rw [List.filterMap_append]
  cases moved with
  | hand seq payload slot idle held =>
    refine List.nodup_append'.mpr ⟨ledger.handedOnce, List.nodup_singleton _, ?_⟩
    -- an earlier handover into this slot would have made it ready
    simp only [List.filterMap_cons, Obs.handedId, List.filterMap_nil, List.disjoint_singleton,
      List.mem_filterMap, not_exists, not_and]
    intro o earlier same
    cases o <;> simp only [Option.some.injEq, reduceCtorEq] at same
    obtain ⟨slot', bound, tickets, ready, -⟩ := ledger.handed _ _ _ earlier
    rw [same, layout.ticket slot (layout.held_bound seq slot held)] at tickets
    obtain rfl := ticketOf_injective tickets
    rw [layout.held_ready seq slot held] at ready
    cases ready
  | _ => simpa only [List.filterMap_cons, Obs.handedId, List.filterMap_nil, List.append_nil] using ledger.handedOnce

private theorem Transition.released (moved : Transition p op p' out) (layout : p.Layout)
    (ledger : p.Ledger seen) (slot : SlotRef) (bound : slot < p'.fresh)
    (done : (p'.cells slot).done = true) : .released (ticketOf slot) ∈ seen ++ out := by
  rcases moved.old_or_new bound with old | ⟨-, cell⟩
  · rcases (moved.treated old).done done with before | ⟨-, rfl⟩
    · exact List.mem_append_left _ (ledger.done slot old before)
    · rw [layout.ticket slot old]
      exact List.mem_append_right _ (List.mem_singleton.mpr rfl)
  · rw [cell] at done
    cases done

private theorem Transition.served (moved : Transition p op p' out) (layout : p.Layout)
    (ledger : p.Ledger seen) (slot : SlotRef) (bound : slot < p'.fresh)
    (served : p'.current = some slot ∨ (p'.cells slot).done = true) :
    ∃ payload, ⟨ticketOf slot, payload⟩ ∈ deliveries (seen ++ out) := by
  have earlier (old : slot < p.fresh) (before : p.current = some slot ∨ (p.cells slot).done = true) :
      ∃ payload, ⟨ticketOf slot, payload⟩ ∈ deliveries (seen ++ out) := by
    obtain ⟨payload, delivered⟩ := ledger.served slot old before
    exact ⟨payload, mem_deliveries.mpr (List.mem_append_left _ (mem_deliveries.mp delivered))⟩
  rcases served with current | done
  · rcases moved.works current with before | ⟨payload, inside, -, rfl⟩
    · exact earlier (layout.bound slot (by simp [inFlight, before])) (.inl before)
    · refine ⟨payload, mem_deliveries.mpr (List.mem_append_right _ ?_)⟩
      rw [layout.ticket slot (layout.pending_bound inside)]
      exact List.mem_singleton.mpr rfl
  · rcases moved.old_or_new bound with old | ⟨-, cell⟩
    · rcases (moved.treated old).done done with before | ⟨current, -⟩
      · exact earlier old (.inr before)
      · exact earlier old (.inl current)
    · rw [cell] at done
      cases done

private theorem Transition.returned (moved : Transition p op p' out) (layout : p.Layout)
    (ledger : p.Ledger seen) (pre post : List (Obs ι Req)) (seq : ι) (id : TxnId)
    (cut : seen ++ out = pre ++ .returned seq id :: post) : .released id ∈ pre := by
  -- a return shown by this transition is of a done slot, hence released before
  have now : .returned seq id ∈ out → .released id ∈ seen := by
    intro member
    cases moved with
    | finish seq slot finishing done =>
      have bound := (layout.finishing seq slot finishing).1
      simp only [List.mem_singleton, Obs.returned.injEq] at member
      rw [member.2, layout.ticket slot bound]
      exact ledger.done slot bound done
    | _ => simp at member
  rcases List.append_eq_append_iff.mp cut with ⟨more, rfl, last⟩ | ⟨more, early, last⟩
  · exact List.mem_append_left _ (now (by simp [last]))
  · cases more with
    | nil =>
      rw [List.append_nil] at early
      rw [List.nil_append] at last
      rw [← early]
      exact now (by simp [← last])
    | cons first rest =>
      obtain ⟨rfl, -⟩ := List.cons.inj last
      exact ledger.returned pre rest seq id early

private theorem Transition.noCrash (moved : Transition p op p' out) (layout : p.Layout)
    (ledger : p.Ledger seen) : .panicked .payloadMissing ∉ seen ++ out := by
  intro member
  rcases List.mem_append.mp member with earlier | now
  · exact ledger.noCrash earlier
  · cases moved with
    | crash slot driver ready missing => exact ((Transition.crash slot driver ready missing).crash_free layout).elim
    | _ => simp at now

/-- Every transition keeps the ledger. -/
theorem Transition.ledger (moved : Transition p op p' out) (layout : p.Layout) (ledger : p.Ledger seen) :
    p'.Ledger (seen ++ out) where
  enqueued := moved.enqueued layout ledger
  delivered := moved.delivered layout ledger
  once := moved.once layout ledger
  source := moved.sources layout ledger
  filledBy := moved.filledBy layout ledger
  handed := moved.handovers layout ledger
  handedOnce := moved.handedOnce layout ledger
  done := moved.released layout ledger
  served := moved.served layout ledger
  returned := moved.returned layout ledger
  noCrash := moved.noCrash layout ledger

/-- A fresh protocol: nothing allocated, both sides idle. -/
structure Fresh (p : Protocol ι Req) : Prop where
  fresh : p.fresh = 0
  nextId : p.nextId = 1
  queue : p.queue = []
  current : p.current = none
  driver : p.driver = .idle
  held : ∀ seq, p.held seq = none
  pos : ∀ seq, p.pos seq = .idle

omit [DecidableEq ι] in
theorem Fresh.layout (fresh : p.Fresh) : p.Layout := by
  constructor <;> simp [fresh.fresh, fresh.nextId, fresh.queue, fresh.current, fresh.driver, fresh.held,
    fresh.pos, inFlight, pending, DriverPos.wanted]

omit [DecidableEq ι] in
theorem Fresh.ledger (fresh : p.Fresh) : p.Ledger [] := by
  constructor <;> simp [fresh.fresh, deliveries]

/-- Both invariants hold after every run of the protocol from a fresh state. -/
theorem Fresh.run (fresh : p.Fresh) {ops : List (Op ι Req)} {obs : List (Obs ι Req)}
    (ran : (protocol ι Req).run p ops = some (p', obs)) : p'.Layout ∧ p'.Ledger obs := by
  refine (protocol ι Req).run_invariant_nil (fun q seen => q.Layout ∧ q.Ledger seen)
    ⟨fresh.layout, fresh.ledger⟩ ?_ ran
  rintro u v seen out op ⟨layout, ledger⟩ stepped
  have moved := transition_of_step stepped
  exact ⟨moved.layout layout, moved.ledger layout ledger⟩

end Ledger

end Protocol

omit [DecidableEq ι] in
theorem deliveries_visible (obs : List (Obs ι Req)) : deliveries (obs.filter Obs.visible) = deliveries obs :=
  List.filterMap_filter_of_observed _ _ (fun o => by cases o <;> simp [Obs.deliveredItem]) obs

omit [DecidableEq ι] in
/-- The items delivered under a delivered ticket are one item. -/
theorem filter_deliveries_of_mem {items : List (SeqItem Req)} {item : SeqItem Req}
    (once : (items.map SeqItem.id).Nodup) (member : item ∈ items) :
    items.filter (fun other => other.id = item.id) = [item] := by
  obtain ⟨front, back, rfl⟩ := List.append_of_mem member
  simp only [List.map_append, List.map_cons, List.nodup_append', List.nodup_cons, List.disjoint_cons_right,
    List.mem_map, not_exists, not_and] at once
  obtain ⟨-, ⟨later, -⟩, earlier, -⟩ := once
  simp only [List.filter_append, List.filter_cons, decide_true, ↓reduceIte]
  rw [List.filter_eq_nil_iff.mpr (by simpa using earlier), List.filter_eq_nil_iff.mpr (by simpa using later)]
  rfl

omit [DecidableEq ι] in
theorem initial_fresh {Rsp : Type*} (names : ι → String) (attached : ι → Bool) :
    (initial names attached : System ι Req Rsp).protocol.Fresh :=
  ⟨rfl, rfl, rfl, rfl, rfl, fun _ => rfl, fun _ => rfl⟩

end Rustdv.Sequencer
