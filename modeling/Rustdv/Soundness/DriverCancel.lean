import Rustdv.Soundness.SequencerRefinement
import Rustdv.Soundness.Handshake

/-! # Dropping a pending `get_next_item`

A `get_next_item` that has taken a slot out of the queue holds it only in its own frame. Dropping
the future there loses the slot: its sequence can never be served again. As long as the future is
dropped only while it waits for the queue, or holds a slot that no live sequence waits on, every
outstanding item can still be served: the driver is freed, the queue is rotated until the item is
in front, and the handshake is completed.
-/

/-- Elements with one partial image are one element, when no image occurs twice. -/
theorem List.Nodup.eq_of_filterMap {α β : Type*} {f : α → Option β} {l : List α} (nodup : (l.filterMap f).Nodup)
    {a b : α} {image : β} (left : a ∈ l) (right : b ∈ l) (image_a : f a = some image)
    (image_b : f b = some image) : a = b := by
  induction l with
  | nil => cases left
  | cons first rest ih =>
    -- an element of the rest cannot share the image of the first
    have later (c : α) (member : c ∈ rest) (image_c : f c = some image) : f first ≠ some image := by
      intro image_first
      rw [List.filterMap_cons_some image_first, List.nodup_cons] at nodup
      exact nodup.1 (List.mem_filterMap.mpr ⟨c, member, image_c⟩)
    have tail : (rest.filterMap f).Nodup := by
      cases image_first : f first with
      | none => rwa [List.filterMap_cons_none image_first] at nodup
      | some other => exact (List.nodup_cons.mp (by rwa [List.filterMap_cons_some image_first] at nodup)).2
    rcases List.mem_cons.mp left with rfl | left' <;> rcases List.mem_cons.mp right with rfl | right'
    · rfl
    · exact absurd image_a (later b right' image_b)
    · exact absurd image_b (later a left' image_a)
    · exact ih tail left' right'

namespace Rustdv.Sequencer

variable {ι Req Rsp : Type*} [DecidableEq ι]

namespace Protocol

/-- The sequence is live and its item has not been returned to it. -/
structure Outstanding (p : Protocol ι Req) (seq : ι) (slot : SlotRef) : Prop where
  live : p.pos seq ≠ .dropped
  owns : p.held seq = some slot ∨ p.pos seq = .finishing slot

/-- A pending `get_next_item` is dropped only when it holds no slot that a live sequence needs. -/
def Careful (p : Protocol ι Req) : Op ι Req → Prop
  | .dropNext => ∀ slot, p.driver = .readying slot → ∀ seq, ¬ p.Outstanding seq slot
  | _ => True

/-- Every outstanding item is on its way to the driver, with it, or done. -/
structure Kept (p : Protocol ι Req) (obs : List (Obs ι Req)) : Prop where
  granted : ∀ slot, p.driver = .readying slot → (p.cells slot).granted = true
  exclusive : ∀ seq slot, p.pos seq = .finishing slot → p.held seq = none
  room : ∀ seq slot, p.pos seq ≠ .enqueueing slot
  handed : ∀ seq slot, p.pos seq = .finishing slot → ∃ payload, .handed seq (ticketOf slot) payload ∈ obs
  kept : ∀ seq slot, p.Outstanding seq slot → slot ∈ p.inFlight ∨ (p.cells slot).done = true

section Kept

variable {p p' : Protocol ι Req} {op : Op ι Req} {out seen : List (Obs ι Req)}

private theorem Transition.outstanding (moved : Transition p op p' out) (careful : p.Careful op)
    (layout : p.Layout) (kept : p.Kept seen) (seq : ι) (slot : SlotRef) (owed : p'.Outstanding seq slot) :
    slot ∈ p'.inFlight ∨ (p'.cells slot).done = true := by
  have old (bound : slot < p.fresh) (before : p.Outstanding seq slot) :
      slot ∈ p'.inFlight ∨ (p'.cells slot).done = true := by
    rcases kept.kept seq slot before with inside | done
    · cases moved.flies layout.serial with
      | joined flight =>
        rw [flight]
        exact .inl (List.mem_append_left _ inside)
      | moved flight => exact .inl (flight.mem_iff.mpr inside)
      | done item done flight =>
        rw [flight] at inside
        rcases List.mem_cons.mp inside with rfl | stays
        · exact .inr done
        · exact .inl stays
      | lost item driver forgot flight =>
        rw [flight] at inside
        rcases List.mem_cons.mp inside with rfl | stays
        · rcases forgot with rfl | rfl
          · exact absurd before (careful slot driver seq)
          · exact (moved.crash_free layout).elim
        · exact .inl stays
    · exact .inr ((moved.treated bound).done_kept done)
  have live := moved.lives owed.live
  rcases owed.owns with held | finishing
  · rcases moved.holds held with before | ⟨rfl, rfl⟩
    · exact old (layout.held_bound seq slot before) ⟨live, .inl before⟩
    · cases moved with
      | enqueue => exact .inl (by simp [inFlight, pending])
  · rcases moved.finishes finishing with before | ⟨before, -⟩
    · exact old (layout.finishing seq slot before).1 ⟨live, .inr before⟩
    · exact old (layout.held_bound seq slot before) ⟨live, .inl before⟩

/-- A sequence that waits for the release of an item has started no other one. -/
private theorem Transition.exclusive (moved : Transition p op p' out) (kept : p.Kept seen) (seq : ι)
    (slot : SlotRef) (finishing : p'.pos seq = .finishing slot) : p'.held seq = none := by
  rcases moved.finishes finishing with before | ⟨-, freed, -⟩
  · by_contra some
    obtain ⟨other, held⟩ := Option.ne_none_iff_exists'.mp some
    rcases moved.holds held with owned | ⟨rfl, rfl⟩
    · rw [kept.exclusive seq slot before] at owned
      cases owned
    · cases moved with
      | enqueue => simp at finishing
  · exact freed

private theorem Transition.kept (moved : Transition p op p' out) (careful : p.Careful op)
    (layout : p.Layout) (kept : p.Kept seen) : p'.Kept (seen ++ out) := by
  refine ⟨?_, moved.exclusive kept, moved.room kept.room, ?_, moved.outstanding careful layout kept⟩
  · intro slot driver
    rcases moved.readies driver with before | granted
    · have inside : slot ∈ p.pending := by simp [pending, before, DriverPos.wanted]
      exact moved.granted_kept (layout.pending_bound inside) (kept.granted slot before)
    · exact granted
  · intro seq slot finishing
    rcases moved.finishes finishing with before | ⟨held, -, -, payload, rfl⟩
    · obtain ⟨payload, handed⟩ := kept.handed seq slot before
      exact ⟨payload, List.mem_append_left _ handed⟩
    · refine ⟨payload, List.mem_append_right _ ?_⟩
      rw [layout.ticket slot (layout.held_bound seq slot held)]
      exact List.mem_singleton.mpr rfl

end Kept

/-- The invariants of careful runs, together. -/
structure Sound (p : Protocol ι Req) (obs : List (Obs ι Req)) : Prop where
  layout : p.Layout
  ledger : p.Ledger obs
  kept : p.Kept obs

section Service

variable {p p' mid : Protocol ι Req} {op : Op ι Req} {out seen first later : List (Obs ι Req)}
variable {seq : ι} {slot : SlotRef} {payload : Req}

noncomputable instance (p : Protocol ι Req) (op : Op ι Req) : Decidable (p.Careful op) :=
  Classical.propDecidable _

omit [DecidableEq ι] in
theorem Fresh.sound (fresh : p.Fresh) : p.Sound [] := by
  refine ⟨fresh.layout, fresh.ledger, ?_⟩
  constructor
  case kept =>
    intro seq slot owed
    have owns := owed.owns
    simp [fresh.held, fresh.pos] at owns
  all_goals simp [fresh.driver, fresh.pos]

theorem Transition.sound (moved : Transition p op p' out) (careful : p.Careful op) (sound : p.Sound seen) :
    p'.Sound (seen ++ out) where
  layout := moved.layout sound.layout
  ledger := moved.ledger sound.layout sound.ledger
  kept := moved.kept careful sound.layout sound.kept

/-- The invariants hold along every careful run. -/
theorem Sound.run (sound : p.Sound seen) {ops : List (Op ι Req)}
    (ran : ((protocol ι Req).restrict Careful).run p ops = some (p', later)) : p'.Sound (seen ++ later) := by
  refine Machine.run_invariant _ Sound sound ?_ ran
  intro u v past out op sound stepped
  obtain ⟨careful, stepped⟩ := (protocol ι Req).restrict_step_eq_some_iff.mp stepped
  exact (transition_of_step stepped).sound careful sound

/-- Transitions that single calls and polls of the source perform. A handover must not find its
slot done, and the driver must not take a slot that is ready: there the source does more. -/
def Single (p : Protocol ι Req) : Op ι Req → Prop
  | .start _ | .finish _ | .deliver | .take | .rotate | .release => True
  | .hand seq _ => ∀ slot, p.held seq = some slot → (p.cells slot).done = false
  | .pop => p.driver = .idle ∧ ∀ slot rest, p.queue = slot :: rest → (p.cells slot).ready = false
  | .dropNext => p.Careful .dropNext
  | _ => False

omit [DecidableEq ι] in
theorem Single.careful (single : p.Single op) : p.Careful op := by
  cases op <;> first | exact single | trivial

noncomputable instance (p : Protocol ι Req) (op : Op ι Req) : Decidable (p.Single op) :=
  Classical.propDecidable _

/-- A run of single transitions from one state to the other. -/
def Served (p p' : Protocol ι Req) (later : List (Obs ι Req)) : Prop :=
  ∃ ops, ((protocol ι Req).restrict Single).run p ops = some (p', later)

theorem Served.trans (left : p.Served mid first) (right : mid.Served p' later) :
    p.Served p' (first ++ later) := by
  obtain ⟨front, left⟩ := left
  obtain ⟨back, right⟩ := right
  exact ⟨front ++ back, Machine.run_append _ left right⟩

variable (op) in
theorem Served.one (single : p.Single op) (stepped : p.step op = some (p', later)) : p.Served p' later := by
  refine ⟨[op], ?_⟩
  rw [Machine.run_singleton]
  exact Machine.restrict_step_eq_some_iff _ |>.mpr ⟨single, stepped⟩

theorem Served.sound (served : p.Served p' later) (sound : p.Sound seen) : p'.Sound (seen ++ later) := by
  obtain ⟨ops, ran⟩ := served
  refine Machine.run_invariant _ Sound sound ?_ ran
  intro u v past out op sound stepped
  obtain ⟨single, stepped⟩ := (protocol ι Req).restrict_step_eq_some_iff.mp stepped
  exact (transition_of_step stepped).sound single.careful sound

/-- The item can be taken through to the return of its `finish_item`. -/
def Serviceable (p : Protocol ι Req) (seq : ι) (slot : SlotRef) (payload : Req) : Prop :=
  ∃ p' later, p.Served p' later ∧ (slot < p'.fresh ∧ (p'.cells slot).done = true) ∧
    .returned seq (ticketOf slot) ∈ later ∧ (p.held seq = some slot → .handed seq (ticketOf slot) payload ∈ later)

theorem Serviceable.after (served : p.Served mid first) (same : mid.held seq = p.held seq)
    (rest : mid.Serviceable seq slot payload) : p.Serviceable seq slot payload := by
  obtain ⟨last, later, suffix, done, returned, handed⟩ := rest
  refine ⟨last, first ++ later, served.trans suffix, done, List.mem_append_right _ returned, ?_⟩
  intro held
  exact List.mem_append_right _ (handed (same.trans held))

/-- The last poll: the item is done and its `finish_item` pending. -/
private theorem Sound.finish (sound : p.Sound seen) (finishing : p.pos seq = .finishing slot)
    (done : (p.cells slot).done = true) (payload : Req) : p.Serviceable seq slot payload := by
  have bound := (sound.layout.finishing seq slot finishing).1
  have served : p.Served (p.setPos seq .idle) [.returned seq (p.cells slot).ticket] :=
    .one (.finish seq) trivial (step_finish finishing done)
  refine ⟨_, _, served, ⟨bound, done⟩, ?_, ?_⟩
  · simp [sound.layout.ticket slot bound]
  · intro held
    rw [sound.kept.exclusive seq slot finishing] at held
    cases held

variable (seq) in
/-- The driver holds a slot whose payload has been handed over: deliver and release it. -/
private theorem Sound.deliver_release (sound : p.Sound seen) (driver : p.driver = .readying slot)
    (finishing : p.pos seq = .finishing slot) :
    ∃ p' later, p.Served p' later ∧ p'.driver = .idle ∧ p'.current = none ∧ (p'.cells slot).done = true ∧
      p'.held = p.held ∧ p'.pos = p.pos := by
  have ready := (sound.layout.finishing seq slot finishing).2
  have filled := sound.layout.filled slot (by simp [pending, driver, DriverPos.wanted]) ready
  obtain ⟨payload, filled⟩ := Option.isSome_iff_exists.mp filled
  have delivered : p.Served (p.deliver slot) _ :=
    .one .deliver trivial (step_deliver driver ready filled)
  have released : (p.deliver slot).Served _ _ := .one .release trivial rfl
  refine ⟨_, _, delivered.trans released, rfl, rfl, ?_, rfl, rfl⟩
  simp

/-- The driver waits for a slot with a live owner: the owner can be taken to its handover, and the
item delivered and released. -/
private theorem Sound.freed (sound : p.Sound seen) (driver : p.driver = .readying slot)
    (owed : p.Outstanding seq slot) (payload : Req) :
    ∃ p' later, p.Served p' later ∧ p'.driver = .idle ∧ p'.current = none ∧ (p'.cells slot).done = true ∧
      p'.pos seq = .finishing slot ∧ (p.held seq = some slot → .handed seq (ticketOf slot) payload ∈ later) ∧
      ∀ other ≠ seq, p'.held other = p.held other ∧ p'.pos other = p.pos other := by
  have serve {q : Protocol ι Req} {past : List (Obs ι Req)} (sound : q.Sound past)
      (driver : q.driver = .readying slot) (idle : q.pos seq = .idle) (held : q.held seq = some slot) :
      ∃ p' later, q.Served p' later ∧ p'.driver = .idle ∧ p'.current = none ∧ (p'.cells slot).done = true ∧
        p'.pos seq = .finishing slot ∧ .handed seq (ticketOf slot) payload ∈ later ∧
        ∀ other ≠ seq, p'.held other = q.held other ∧ p'.pos other = q.pos other := by
    have bound := sound.layout.held_bound seq slot held
    have unready := sound.layout.held_ready seq slot held
    have undone : ∀ slot', q.held seq = some slot' → (q.cells slot').done = false := by
      intro slot' same
      obtain rfl := Option.some.inj (held.symm.trans same)
      by_contra done
      have ready := sound.layout.done_ready slot bound (by simpa using done)
      rw [unready] at ready
      cases ready
    have handed := Served.one (p := q) (.hand seq payload) undone
      (by simp only [step, idle, held]; rfl)
    obtain ⟨last, later, served, idle', free, done, sameHeld, samePos⟩ :=
      (handed.sound sound).deliver_release seq driver (by simp [setPos])
    refine ⟨last, _, handed.trans served, idle', free, done, ?_, ?_, ?_⟩
    · simp [samePos, setPos]
    · simp [sound.layout.ticket slot bound]
    · intro other distinct
      simp [sameHeld, samePos, setPos, setCell, Function.update_of_ne distinct]
  rcases owed.owns with held | finishing
  · cases pos : p.pos seq with
    | idle =>
      obtain ⟨last, later, served, idle, free, done, last_pos, handed, frame⟩ := serve sound driver pos held
      exact ⟨last, later, served, idle, free, done, last_pos, fun _ => handed, frame⟩
    | starting slot' =>
      obtain rfl := Option.some.inj (held.symm.trans (sound.layout.starting seq slot' pos))
      have started := Served.one (.start seq) trivial
        (step_start pos (sound.kept.granted slot driver))
      obtain ⟨last, later, served, idle, free, done, last_pos, handed, frame⟩ :=
        serve (started.sound sound) driver (setPos_pos ..) held
      refine ⟨last, _, started.trans served, idle, free, done, last_pos,
        fun _ => List.mem_append_right _ handed, ?_⟩
      intro other distinct
      simpa [setPos, Function.update_of_ne distinct] using frame other distinct
    | enqueueing slot' => exact absurd pos (sound.kept.room seq slot')
    | finishing slot' =>
      rw [sound.kept.exclusive seq slot' pos] at held
      cases held
    | dropped => exact absurd pos owed.live
  · obtain ⟨last, later, served, idle, free, done, sameHeld, samePos⟩ :=
      sound.deliver_release seq driver finishing
    refine ⟨last, later, served, idle, free, done, samePos ▸ finishing, ?_, ?_⟩
    · intro held
      rw [sound.kept.exclusive seq slot finishing] at held
      cases held
    · intro other _
      exact ⟨congrFun sameHeld other, congrFun samePos other⟩

/-- The driver is free and the item is in front. -/
private theorem Sound.front (sound : p.Sound seen) (idle : p.driver = .idle) (free : p.current = none)
    {rest : List SlotRef} (front : p.queue = slot :: rest) (owed : p.Outstanding seq slot) (payload : Req) :
    p.Serviceable seq slot payload := by
  have inside : slot ∈ p.pending := by simp [pending, front]
  rcases owed.owns with held | finishing
  · -- not handed over yet: take it, then complete the handshake
    have unready : ∀ slot' rest', p.queue = slot' :: rest' → (p.cells slot').ready = false := by
      intro slot' rest' same
      obtain ⟨rfl, rfl⟩ := List.cons.inj (front.symm.trans same)
      exact sound.layout.held_ready seq slot held
    have popped := Served.one (p := p) .pop ⟨idle, unready⟩
      (by simp only [step, idle, free, front, and_self, or_true, ↓reduceIte]; rfl)
    have taken := popped.sound sound
    obtain ⟨last, later, served, -, -, done, finishing, handed, -⟩ := taken.freed rfl ⟨owed.live, owed.owns⟩ payload
    have finished := (served.sound taken).finish finishing done payload
    obtain ⟨last', later', served', done', returned, -⟩ := finished
    refine ⟨last', _, popped.trans (served.trans served'), done', ?_, ?_⟩
    · exact List.mem_append_right _ (List.mem_append_right _ returned)
    · exact fun held => List.mem_append_right _ (List.mem_append_left _ (handed held))
  · have ready := (sound.layout.finishing seq slot finishing).2
    obtain ⟨stored, filled⟩ := Option.isSome_iff_exists.mp (sound.layout.filled slot inside ready)
    have taken := Served.one (p := p) .take trivial
      (by simp only [step, idle, free, front, filled, and_self, ↓reduceIte]; rfl)
    have released := taken.trans (.one .release trivial rfl)
    exact .after released rfl ((released.sound sound).finish finishing (by simp) payload)

/-- The driver is free and the item is in the queue: what stands before it is delivered, or goes to
the back. -/
private theorem Sound.queued (ahead : List SlotRef) : ∀ {p : Protocol ι Req} {seen : List (Obs ι Req)},
    p.Sound seen → p.driver = .idle → p.current = none → ∀ rest, p.queue = ahead ++ slot :: rest →
      p.Outstanding seq slot → p.Serviceable seq slot payload := by
  induction ahead with
  | nil =>
    intro p seen sound idle free rest queue owed
    exact sound.front idle free queue owed payload
  | cons other ahead ih =>
    intro p seen sound idle free rest queue owed
    rw [List.cons_append] at queue
    cases filled : (p.cells other).payload with
    | none =>
      have rotated := Served.one (p := p) .rotate trivial
        (by simp only [step, idle, free, queue, filled, and_self, ↓reduceIte]; rfl)
      exact .after rotated rfl (ih (rotated.sound sound) idle free (rest ++ [other]) (by simp)
        ⟨owed.live, owed.owns⟩)
    | some stored =>
      have taken := Served.one (p := p) .take trivial
        (by simp only [step, idle, free, queue, filled, and_self, ↓reduceIte]; rfl)
      have released := taken.trans (.one .release trivial rfl)
      exact .after released rfl (ih (released.sound sound) rfl rfl rest rfl ⟨owed.live, owed.owns⟩)

private theorem Sound.idle (sound : p.Sound seen) (idle : p.driver = .idle) (free : p.current = none)
    (owed : p.Outstanding seq slot) (payload : Req) : p.Serviceable seq slot payload := by
  rcases sound.kept.kept seq slot owed with inside | done
  · have queued : slot ∈ p.queue := by simpa [inFlight, pending, idle, free, DriverPos.wanted] using inside
    obtain ⟨ahead, rest, queue⟩ := List.append_of_mem queued
    exact Sound.queued ahead sound idle free rest queue owed
  · rcases owed.owns with held | finishing
    · have bound := sound.layout.held_bound seq slot held
      have ready := sound.layout.done_ready slot bound done
      rw [sound.layout.held_ready seq slot held] at ready
      cases ready
    · exact sound.finish finishing done payload

/-- Every outstanding item can be served, wherever the driver stands. -/
theorem Sound.serviceable (sound : p.Sound seen) (owed : p.Outstanding seq slot) (payload : Req) :
    p.Serviceable seq slot payload := by
  -- first free the driver
  cases driver : p.driver with
  | idle =>
    cases current : p.current with
    | none => exact sound.idle driver current owed payload
    | some other =>
      have released := Served.one (p := p) .release trivial (by simp only [step, current]; rfl)
      exact .after released rfl ((released.sound sound).idle driver rfl ⟨owed.live, owed.owns⟩ payload)
  | waiting =>
    have careful : p.Careful .dropNext := fun _ readying => by simp [driver] at readying
    have dropped := Served.one (p := p) .dropNext careful (by simp only [step, driver, reduceCtorEq, ↓reduceIte]; rfl)
    have free : p.current = none := sound.layout.serial (by simp [driver])
    exact .after dropped rfl ((dropped.sound sound).idle rfl free ⟨owed.live, owed.owns⟩ payload)
  | readying other =>
    by_cases owned : ∃ owner, p.Outstanding owner other
    · obtain ⟨owner, owned⟩ := owned
      obtain ⟨mid, first, served, idle, free, done, finishing, handed, frame⟩ := sound.freed driver owned payload
      by_cases same : seq = owner
      · subst same
        -- a sequence has one item at a time
        have same : slot = other := by
          rcases owed.owns with held | at_finish <;> rcases owned.owns with held' | at_finish'
          · exact Option.some.inj (held.symm.trans held')
          · rw [sound.kept.exclusive seq other at_finish'] at held
            cases held
          · rw [sound.kept.exclusive seq slot at_finish] at held'
            cases held'
          · exact SeqPos.finishing.inj (at_finish.symm.trans at_finish')
        subst same
        obtain ⟨last, later, suffix, done', returned, -⟩ :=
          (served.sound sound).finish finishing done payload
        exact ⟨last, _, served.trans suffix, done', List.mem_append_right _ returned,
          fun held => List.mem_append_left _ (handed held)⟩
      · obtain ⟨sameHeld, samePos⟩ := frame seq same
        refine .after served sameHeld ((served.sound sound).idle idle free ?_ payload)
        exact ⟨samePos ▸ owed.live, sameHeld ▸ samePos ▸ owed.owns⟩
    · have careful : p.Careful .dropNext := by
        intro slot' readying owner owed'
        obtain rfl := DriverPos.readying.inj (driver.symm.trans readying)
        exact owned ⟨owner, owed'⟩
      have dropped := Served.one (p := p) .dropNext careful (by simp only [step, driver, reduceCtorEq, ↓reduceIte]; rfl)
      have free : p.current = none := sound.layout.serial (by simp [driver])
      exact .after dropped rfl ((dropped.sound sound).idle rfl free ⟨owed.live, owed.owns⟩ payload)

end Service

end Protocol

/-- The sequence is live and its item has not been returned to it. -/
def System.Outstanding (s : System ι Req Rsp) (seq : ι) (slot : SlotRef) : Prop :=
  (s.seqs seq).pos ≠ .dropped ∧ ((s.seqs seq).ctx.current = some slot ∨ (s.seqs seq).pos = .finishing slot)

/-- A pending `get_next_item` is dropped only while it waits for the queue, or holds a slot that no
live sequence needs. -/
def Careful (s : System ι Req Rsp) : Action ι Req Rsp → Prop
  | .dropNext => ∀ slot, s.driver = .readying slot → ∀ seq, ¬ s.Outstanding seq slot
  | _ => True

noncomputable instance (s : System ι Req Rsp) (a : Action ι Req Rsp) : Decidable (Careful s a) :=
  Classical.propDecidable _

section Realize

variable {s : System ι Req Rsp} {seq : ι} {slot : SlotRef}

omit [DecidableEq ι] in
theorem outstanding_protocol : s.protocol.Outstanding seq slot ↔ s.Outstanding seq slot :=
  ⟨fun owed => ⟨owed.live, owed.owns⟩, fun owed => ⟨owed.1, owed.2⟩⟩

/-- A single transition is one careful call, poll or drop of the source. -/
theorem single_realized (unbounded : Unbounded s) {op : Op ι Req} {p' : Protocol ι Req}
    {shown : List (Obs ι Req)} (single : s.protocol.Single op)
    (stepped : s.protocol.step op = some (p', shown)) :
    ∃ a t out, Careful s a ∧ step s a = some (t, out) ∧ t.protocol = p' ∧ out.filter Obs.visible = shown := by
  have result {a : Action ι Req Rsp} (realizes : Realizes s a op) (careful : Careful s a) :
      ∃ a t out, Careful s a ∧ step s a = some (t, out) ∧ t.protocol = p' ∧ out.filter Obs.visible = shown := by
    obtain ⟨t, out, taken, last, seen⟩ := realizes.result stepped
    exact ⟨a, t, out, careful, taken, last, seen⟩
  cases Protocol.transition_of_step stepped with
  | start seq slot starting granted => exact result (realizes_start (.task 0) starting granted) trivial
  | hand seq payload slot idle held =>
    exact result (realizes_hand (.task 0) payload idle held (single slot held)) trivial
  | finish seq slot finishing done => exact result (realizes_finish (.task 0) finishing done) trivial
  | pop slot rest driver front =>
    obtain ⟨idle, unready⟩ := single
    have called : s.nextCall (.task 0) = .getNextItem (.task 0) := if_pos idle
    refine result (realizes_pop (.task 0) driver front (unready slot rest front)) ?_
    rw [called]
    trivial
  | deliver slot payload driver ready filled => exact result (realizes_deliver (.task 0) driver ready filled) trivial
  | take slot rest payload idle free front filled =>
    exact result (a := .tryNextItem) ⟨_, _, if_pos idle, tryNextItem_take s idle free front filled⟩ trivial
  | rotate slot rest idle free front missing =>
    exact result (a := .tryNextItem) ⟨_, _, if_pos idle, tryNextItem_rotate s unbounded idle free front missing⟩ trivial
  | release slot current => exact result (realizes_release none current) trivial
  | dropNext busy =>
    refine result (a := .dropNext) ⟨s.setDriver .idle, [], if_neg busy, if_neg busy⟩ ?_
    exact fun slot driver seq owed => single slot driver seq (outstanding_protocol.mpr owed)
  | enqueue | await | crash | dropCall | dropSeq => exact single.elim

/-- A run of single transitions is a careful run of the source. -/
theorem served_realized (unbounded : Unbounded s) {p' : Protocol ι Req} {later : List (Obs ι Req)}
    (served : s.protocol.Served p' later) :
    ∃ actions t out, ((machine ι Req Rsp).restrict Careful).run s actions = some (t, out) ∧
      t.protocol = p' ∧ out.filter Obs.visible = later := by
  obtain ⟨ops, ran⟩ := served
  induction ops generalizing s later with
  | nil =>
    cases ran
    exact ⟨[], s, [], rfl, rfl, rfl⟩
  | cons op rest ih =>
    obtain ⟨mid, first, tail, stepped, suffix, rfl⟩ := Machine.run_cons_eq_some_iff _ |>.mp ran
    obtain ⟨single, stepped⟩ := (protocol ι Req).restrict_step_eq_some_iff.mp stepped
    obtain ⟨a, next, out, careful, taken, rfl, rfl⟩ := single_realized unbounded single stepped
    obtain ⟨actions, t, more, ran', same, seen⟩ := ih (step_unbounded unbounded taken) suffix
    refine ⟨a :: actions, t, out ++ more, ?_, same, by rw [List.filter_append, seen]⟩
    refine Machine.run_cons_eq_some_iff _ |>.mpr ⟨next, out, more, ?_, ran', rfl⟩
    exact (machine ι Req Rsp).restrict_step_eq_some_iff.mpr ⟨careful, taken⟩

end Realize

/-- Careful runs of the source are careful protocol runs. -/
theorem careful_simulates : ((machine ι Req Rsp).restrict Careful).Simulates
    ((protocol ι Req).restrict Protocol.Careful) Unbounded System.protocol Obs.visible := by
  intro s a t out unbounded stepped
  obtain ⟨careful, stepped⟩ := (machine ι Req Rsp).restrict_step_eq_some_iff.mp stepped
  refine ⟨step_unbounded unbounded stepped, ?_⟩
  by_cases drops : a = .dropNext
  · subst drops
    simp only [machine, step, Option.ite_none_left_eq_some, Option.some.injEq, Prod.mk.injEq] at stepped
    obtain ⟨busy, rfl, rfl⟩ := stepped
    refine ⟨[.dropNext], ?_⟩
    rw [Machine.run_singleton]
    refine (protocol ι Req).restrict_step_eq_some_iff.mpr ⟨?_, if_neg busy⟩
    exact fun slot driver seq owed => careful slot driver seq (outstanding_protocol.mp owed)
  · obtain ⟨ops, permitted, ran⟩ := step_matched unbounded stepped
    refine ⟨ops, Machine.restrict_run _ ?_ ran⟩
    intro op member p
    have allowed := permitted op member
    cases op with
    | dropNext => cases a <;> simp_all [Action.permits]
    | _ => trivial

/-- From here on, some continuation delivers the item's payload exactly once over the whole run and
returns from its `finish_item`. A payload that is not handed over yet can be any. -/
def System.CanBeServed (s : System ι Req Rsp) (obs : List (Obs ι Req)) (seq : ι) (slot : SlotRef)
    (payload : Req) : Prop :=
  ∃ actions t later item, (machine ι Req Rsp).run s actions = some (t, later) ∧
    .returned seq (s.heap slot).id ∈ later ∧
    (deliveries (obs ++ later)).filter (fun other => other.id = (s.heap slot).id) = [item] ∧
    .handed seq (s.heap slot).id item.payload ∈ obs ++ later ∧
    ((s.seqs seq).ctx.current = some slot → item.payload = payload)

/-- In every run in which pending `get_next_item`s are dropped carefully, every outstanding item can
be served. -/
theorem driver_cancel_safe (names : ι → String) (attached : ι → Bool) {actions : List (Action ι Req Rsp)}
    {s : System ι Req Rsp} {obs : List (Obs ι Req)}
    (ran : ((machine ι Req Rsp).restrict Careful).run (initial names attached) actions = some (s, obs))
    {seq : ι} {slot : SlotRef} (owed : s.Outstanding seq slot) (payload : Req) :
    s.CanBeServed obs seq slot payload := by
  obtain ⟨unbounded, ops, matched⟩ := careful_simulates.run (unbounded_initial names attached) ran
  have fresh : (initial names attached : System ι Req Rsp).protocol.Fresh := initial_fresh names attached
  have sound := fresh.sound.run matched
  rw [List.nil_append] at sound
  have owed := outstanding_protocol.mpr owed
  obtain ⟨p', later, served, ⟨allocated, done⟩, returned, handed⟩ := sound.serviceable owed payload
  obtain ⟨more, t, out, ran', rfl, rfl⟩ := served_realized unbounded served
  have final := served.sound sound
  rw [← List.filter_append] at final
  have bound : slot < s.protocol.fresh := by
    rcases owed.owns with held | finishing
    · exact sound.layout.held_bound seq slot held
    · exact (sound.layout.finishing seq slot finishing).1
  have id : (s.heap slot).id = ticketOf slot := sound.layout.ticket slot bound
  -- the sequence's own handover of this ticket
  obtain ⟨own, ownHanded, asked⟩ : ∃ own, .handed seq (ticketOf slot) own ∈ (obs ++ out).filter Obs.visible ∧
      (s.protocol.held seq = some slot → own = payload) := by
    rcases owed.owns with held | finishing
    · exact ⟨payload, by rw [List.filter_append]; exact List.mem_append_right _ (handed held), fun _ => rfl⟩
    · obtain ⟨own, earlier⟩ := sound.kept.handed seq slot finishing
      refine ⟨own, by rw [List.filter_append]; exact List.mem_append_left _ earlier, ?_⟩
      intro held
      rw [sound.kept.exclusive seq slot finishing] at held
      cases held
  obtain ⟨stored, delivered⟩ := final.ledger.served slot allocated (.inr done)
  obtain ⟨giver, given⟩ := final.ledger.source _ delivered
  have same := final.ledger.handedOnce.eq_of_filterMap ownHanded given rfl rfl
  obtain ⟨rfl, -, rfl⟩ := Obs.handed.inj same
  refine ⟨more, t, out, ⟨ticketOf slot, own⟩, Machine.run_of_restrict _ ran', ?_, ?_, ?_, ?_⟩
  · rw [id]
    exact List.mem_of_mem_filter returned
  · rw [id, ← deliveries_visible]
    exact filter_deliveries_of_mem final.ledger.once delivered
  · rw [id]
    exact List.mem_of_mem_filter ownHanded
  · exact asked

/-- A `get_next_item` dropped while it waits for the queue; the item started afterwards is served. -/
theorem driver_cancel_safe_while_waiting :
    ∃ s obs, ((machine (Fin 1) ℕ Unit).restrict Careful).run (initial (fun _ => "s") fun _ => true)
        [.getNextItem (.task 0), .dropNext, .startItem 0 (.task 1)] = some (s, obs) ∧
      s.Outstanding 0 0 ∧ s.CanBeServed obs 0 0 7 := by
  let waiting : System (Fin 1) ℕ Unit := (getNextItem (initial (fun _ => "s") fun _ => true) (.task 0)).1
  let dropped := waiting.setDriver .idle
  have first : ((machine (Fin 1) ℕ Unit).restrict Careful).step (initial (fun _ => "s") fun _ => true)
      (.getNextItem (.task 0)) = some (waiting, []) :=
    (machine (Fin 1) ℕ Unit).restrict_step_eq_some_iff.mpr ⟨trivial, rfl⟩
  have drop : ((machine (Fin 1) ℕ Unit).restrict Careful).step waiting .dropNext = some (dropped, []) :=
    (machine (Fin 1) ℕ Unit).restrict_step_eq_some_iff.mpr ⟨fun _ readying => (by cases readying), rfl⟩
  have start : ((machine (Fin 1) ℕ Unit).restrict Careful).step dropped (.startItem 0 (.task 1)) =
      some (startItem dropped 0 (.task 1)) :=
    (machine (Fin 1) ℕ Unit).restrict_step_eq_some_iff.mpr ⟨trivial, rfl⟩
  have ran : ((machine (Fin 1) ℕ Unit).restrict Careful).run (initial (fun _ => "s") fun _ => true)
      [.getNextItem (.task 0), .dropNext, .startItem 0 (.task 1)] =
        some ((startItem dropped 0 (.task 1)).1, (startItem dropped 0 (.task 1)).2) := by
    simp only [Machine.run, first, drop, start, Option.bind_some, Option.map_some, List.nil_append, List.append_nil]
  have owed : (startItem dropped 0 (.task 1)).1.Outstanding 0 0 := ⟨by decide, by decide⟩
  exact ⟨_, _, ran, owed, driver_cancel_safe _ _ ran owed 7⟩

namespace Protocol

variable {p p' : Protocol ι Req}

/-- A slot that is neither in the queue nor with the driver never gets there. -/
private theorem Transition.orphan {op : Op ι Req} {out : List (Obs ι Req)} {slot : SlotRef}
    (moved : Transition p op p' out) (bound : slot < p.fresh) (lost : slot ∉ p.pending) :
    slot < p'.fresh ∧ slot ∉ p'.pending := by
  refine ⟨Nat.lt_of_lt_of_le bound moved.fresh_le, ?_⟩
  intro inside
  rcases moved.pending_subset inside with before | rfl
  · exact lost before
  · exact Nat.lt_irrefl _ bound

/-- What has been taken out of the queue and forgotten is never delivered. -/
theorem orphan_never_delivered {ops : List (Op ι Req)} {later : List (Obs ι Req)} {slot : SlotRef}
    (layout : p.Layout) (bound : slot < p.fresh) (lost : slot ∉ p.pending)
    (ran : (protocol ι Req).run p ops = some (p', later)) :
    ∀ item ∈ deliveries later, item.id ≠ ticketOf slot := by
  refine ((protocol ι Req).run_invariant_nil (fun q seen => q.Layout ∧ (slot < q.fresh ∧ slot ∉ q.pending) ∧
    ∀ item ∈ deliveries seen, item.id ≠ ticketOf slot) ⟨layout, ⟨bound, lost⟩, by simp⟩ ?_ ran).2.2
  rintro u v seen out op ⟨layout, ⟨bound, lost⟩, clear⟩ stepped
  have moved := transition_of_step stepped
  refine ⟨moved.layout layout, moved.orphan bound lost, ?_⟩
  intro item member same
  rcases List.mem_append.mp (mem_deliveries.mp member) with earlier | now
  · exact clear item (mem_deliveries.mpr earlier) same
  · obtain ⟨slot', inside, ticket, -⟩ := moved.delivers layout now
    obtain rfl := ticketOf_injective (ticket.symm.trans same)
    exact lost inside

end Protocol

/-- One sequence starts an item, the driver takes its slot and waits for the payload, and the
pending `get_next_item` is dropped: the item can never be served. -/
theorem dropped_get_next_item_loses_item :
    ¬ ∀ (actions : List (Action (Fin 1) ℕ Unit)) (s : System (Fin 1) ℕ Unit) (obs : List (Obs (Fin 1) ℕ)),
      (machine (Fin 1) ℕ Unit).run (initial (fun _ => "s") fun _ => true) actions = some (s, obs) →
        ∀ seq slot, s.Outstanding seq slot → ∀ payload, s.CanBeServed obs seq slot payload := by
  intro safe
  have ran : ∃ s obs, (machine (Fin 1) ℕ Unit).run (initial (fun _ => "s") fun _ => true)
      [.startItem 0 (.task 1), .getNextItem (.task 0), .dropNext] = some (s, obs) ∧ s.Outstanding 0 0 ∧
        0 < s.protocol.fresh ∧ 0 ∉ s.protocol.pending ∧ deliveries obs = [] :=
    ⟨_, _, rfl, ⟨by decide, by decide⟩, by decide, by decide, by decide⟩
  obtain ⟨s, obs, ran, owed, bound, lost, none⟩ := ran
  obtain ⟨unbounded, ops, matched⟩ := machine_simulates_protocol.run (unbounded_initial _ _) ran
  have layout := ((initial_fresh _ _).run matched).1
  obtain ⟨more, t, later, item, ran', -, once, -⟩ := safe _ s obs ran 0 0 owed 7
  obtain ⟨-, ops', matched'⟩ := machine_simulates_protocol.run unbounded ran'
  have never := Protocol.orphan_never_delivered layout bound lost matched'
  have id : (s.heap 0).id = ticketOf 0 := layout.ticket 0 bound
  rw [deliveries_visible] at never
  rw [deliveries, List.filterMap_append] at once
  change (deliveries obs ++ deliveries later).filter _ = [item] at once
  rw [none, List.nil_append] at once
  have member : item ∈ (deliveries later).filter (fun other => other.id = (s.heap 0).id) := by simp [once]
  obtain ⟨delivered, same⟩ := List.mem_filter.mp member
  exact never item delivered ((of_decide_eq_true same).trans id)

end Rustdv.Sequencer
