import Rustdv.Model.TlmFifo
import Mathlib.Data.List.TakeWhile

/-! # Taps and data path of a TLM FIFO never drift apart

A put inside a handler of a put tap reaches, in its own broadcast, the subscriber whose handler is
running, and panics; the same holds of gets. So a stack that has two broadcasts of one side never
empties again, and on every other stack a put in progress is the only one: nothing can take the
space it found, its handover succeeds, and every tap sees the items in the order in which they
pass.
-/

namespace Rustdv.TlmFifo

variable {α : Type*}

/-- What the books are kept about. -/
inductive Kind where
  | passed (side : Side)
  /-- What left the queue: taken by a get or flushed. -/
  | removed
  | returned
  | stored
  | tapped (side : Side) (conn : ConnRef)
deriving DecidableEq, Repr

@[simp] def Kind.pick : Kind → Obs α → Option α
  | .passed side, .passed side' item => if side' = side then some item else none
  | .removed, .passed .get item => some item
  | .removed, .flushed item => some item
  | .returned, .returned item => some item
  | .stored, .stored item => some item
  | .tapped side conn, .tapped side' conn' item => if side' = side ∧ conn' = conn then some item else none
  | _, _ => none

/-- The items that the observations of one kind name, in order. -/
def log (kind : Kind) (obs : List (Obs α)) : List α := obs.filterMap kind.pick

section Log

variable (kind : Kind) (obs out : List (Obs α))

@[simp] theorem log_nil : log kind ([] : List (Obs α)) = [] := rfl

@[simp] theorem log_cons (o : Obs α) : log kind (o :: out) = (kind.pick o).toList ++ log kind out := by
  cases picked : kind.pick o with
  | none => simp only [log, List.filterMap_cons, picked, Option.toList_none, List.nil_append]
  | some item => simp only [log, List.filterMap_cons, picked, Option.toList_some, List.singleton_append]

@[simp] theorem log_append : log kind (obs ++ out) = log kind obs ++ log kind out := List.filterMap_append

@[simp] theorem log_woke (wakers : List Waker) : log kind (woke wakers : List (Obs α)) = [] := by
  cases kind <;> simp [log, woke, Kind.pick]

@[simp] theorem mem_woke (o : Obs α) (wakers : List Waker) :
    o ∈ (woke wakers : List (Obs α)) ↔ ∃ waker ∈ wakers, .woke waker = o := List.mem_map

end Log

/-- The connection's own announcement. -/
def announces (side : Side) (conn : ConnRef) : Obs α → Bool
  | .connected side' conn' => side' = side ∧ conn' = conn
  | _ => false

/-- The items that passed the tap since the connection was made. -/
def passedSince (side : Side) (conn : ConnRef) (obs : List (Obs α)) : List α :=
  log (.passed side) (obs.dropWhile fun o => !announces side conn o)

section Since

variable {side : Side} {conn : ConnRef} {obs out : List (Obs α)}

theorem announces_eq_true {o : Obs α} : announces side conn o = true ↔ o = .connected side conn := by
  cases o <;> simp [announces]

theorem passedSince_append (connected : .connected side conn ∈ obs) :
    passedSince side conn (obs ++ out) = passedSince side conn obs ++ log (.passed side) out := by
  have kept : obs.dropWhile (fun o => !announces side conn o) ≠ [] := by
    intro none
    have never := List.dropWhile_eq_nil_iff.mp none _ connected
    simp [announces] at never
  rw [passedSince, List.dropWhile_append, if_neg (by simpa using kept), log_append]
  rfl

theorem passedSince_connect (absent : .connected side conn ∉ obs) :
    passedSince side conn (obs ++ [.connected side conn]) = [] := by
  have dropped : obs.dropWhile (fun o => !announces side conn o) = [] := by
    refine List.dropWhile_eq_nil_iff.mpr fun o member => ?_
    rw [Bool.not_eq_true', Bool.eq_false_iff]
    exact fun same => absent (announces_eq_true.mp same ▸ member)
  have found : announces side conn (.connected side conn : Obs α) = true := announces_eq_true.mpr rfl
  rw [passedSince, List.dropWhile_append, dropped]
  simp [found]

end Since

/-- A call in progress with the subscribers it still has to reach. -/
abbrev Open (α : Type*) := Call α × List (SubRef × ConnRef)

/-- The calls in progress: the one in hand, whose next subscriber is about to be called, and those
on the stack. -/
def calls (s : System α) (hand : Option (Open α)) : List (Open α) :=
  hand.toList ++ s.stack.map fun frame => (frame.call, frame.remaining)

/-- The calls of one side. -/
def ofSide (side : Side) (open_ : List (Open α)) : List (Open α) := open_.filter (·.1.side = side)

section Calls

variable (s : System α) (side : Side) (call : Open α) (open_ : List (Open α))

@[simp] theorem calls_some : calls s (some call) = call :: calls s none := rfl

@[simp] theorem calls_setQueue (queue : Queue α) (hand : Option (Open α)) :
    calls (s.setQueue queue) hand = calls s hand := rfl

theorem ofSide_cons : ofSide side (call :: open_) =
    if call.1.side = side then call :: ofSide side open_ else ofSide side open_ := by
  simp [ofSide, List.filter_cons]

variable {call open_} in
theorem mem_ofSide : call ∈ ofSide side open_ ↔ call ∈ open_ ∧ call.1.side = side := by
  simp [ofSide]

end Calls

/-- The nesting of broadcasts: an inner one of the same side still has to reach the subscriber in
whose handler it runs, and a put that is alone on its side still has its space. -/
structure Nested (s : System α) (hand : Option (Open α)) : Prop where
  tapped : ∀ frame ∈ s.stack, frame.current ∈ s.taps frame.call.side
  targets : ∀ call ∈ calls s hand, ∀ sub ∈ call.2.map Prod.fst, sub ∈ s.taps call.1.side
  nested : s.stack.Pairwise fun upper lower =>
    upper.call.side = lower.call.side → lower.current ∈ upper.remaining.map Prod.fst
  reach : ∀ call ∈ hand, ∀ lower ∈ s.stack, call.1.side = lower.call.side →
    lower.current ∈ call.2.map Prod.fst
  space : (ofSide .put (calls s hand)).length = 1 → s.queue.hasSpace = true

/-- At most one call of each side is in progress. -/
def Sane (open_ : List (Open α)) : Prop := ∀ side, (ofSide side open_).length ≤ 1

/-- The books of the taps and the data path. -/
structure Books (s : System α) (open_ : List (Open α)) (obs : List (Obs α)) : Prop where
  flow : log (.passed .put) obs = log .removed obs ++ s.queue.buf ++ (ofSide .put open_).map (·.1.item)
  stores : log (.passed .put) obs = log .stored obs ++ (ofSide .put open_).map (·.1.item)
  returns : log (.passed .get) obs = log .returned obs ++ (ofSide .get open_).map (·.1.item)
  seen : ∀ side conn, conn < (s.taps side).length → .connected side conn ∈ obs ∧
    passedSince side conn obs = log (.tapped side conn) obs ++
      ((ofSide side open_).filter fun call => conn ∈ call.2.map Prod.snd).map (·.1.item)
  unseen : ∀ side conn, (s.taps side).length ≤ conn →
    .connected side conn ∉ obs ∧ log (.tapped side conn) obs = []
  conns : ∀ call ∈ open_, (call.2.map Prod.snd).Nodup ∧
    ∀ conn ∈ call.2.map Prod.snd, conn < (s.taps call.1.side).length

/-- What every run keeps. The books are kept unless two broadcasts of one side are in progress. -/
structure Inv (s : System α) (hand : Option (Open α)) (obs : List (Obs α)) : Prop extends Nested s hand where
  books : Sane (calls s hand) → Books s (calls s hand) obs
  kept : ∀ item, .discarded item ∉ obs

section Deliver

variable {s t : System α} {call : Call α} {rest : List (SubRef × ConnRef)} {obs out : List (Obs α)}

/-- A call that has reached every subscriber is alone on its side. -/
theorem Nested.alone (nested : Nested s (some (call, []))) : ofSide call.side (calls s none) = [] := by
  refine List.filter_eq_nil_iff.mpr ?_
  rintro ⟨other, left⟩ member
  obtain ⟨frame, inside, same⟩ := List.mem_map.mp member
  cases same
  intro side
  have reached := nested.reach _ rfl frame inside (by simpa using (of_decide_eq_true side).symm)
  simp at reached

/-- The handover of a put succeeds. -/
theorem Nested.finish_put (nested : Nested s (some (call, []))) (put : call.side = .put) :
    finish s call = (s.setQueue (s.queue.accept call.item).1, .stored call.item :: woke s.queue.getWaiters) := by
  have alone := nested.alone
  rw [put] at alone
  have space := nested.space (by simp [ofSide_cons, put, alone])
  simp only [finish, put, Queue.tryPut, space, if_true]
  rfl

theorem finish_get (get : call.side = .get) : finish s call = (s, [.returned call.item]) := by
  simp only [finish, get]

/-- Neither of the two ways to lose an item after its broadcast is ever taken. -/
theorem Nested.deliver_keeps (nested : Nested s (some (call, rest))) (delivered : deliver s call rest = some (t, out)) :
    ∀ item, .discarded item ∉ out ∧ .refused item ∉ out := by
  intro item
  cases rest with
  | nil =>
    cases side : call.side with
    | put =>
      rw [deliver, nested.finish_put side] at delivered
      cases delivered
      simp [woke]
    | get =>
      rw [deliver, finish_get side] at delivered
      cases delivered
      simp
  | cons next later =>
    obtain ⟨-, same⟩ := Option.ite_none_left_eq_some.mp delivered
    cases same
    simp

theorem Nested.after_deliver (nested : Nested s (some (call, rest))) (delivered : deliver s call rest = some (t, out)) :
    Nested t none := by
  obtain ⟨tapped, targets, pairs, reach, space⟩ := id nested
  rw [calls_some, List.forall_mem_cons] at targets
  cases rest with
  | nil =>
    have alone := nested.alone
    cases side : call.side with
    | put =>
      rw [deliver, nested.finish_put side] at delivered
      cases delivered
      rw [side] at alone
      refine ⟨tapped, targets.2, pairs, by simp, fun one => ?_⟩
      change (ofSide .put (calls s none)).length = 1 at one
      simp [alone] at one
    | get =>
      rw [deliver, finish_get side] at delivered
      cases delivered
      refine ⟨tapped, targets.2, pairs, by simp, fun one => space ?_⟩
      simpa [ofSide_cons, side] using one
  | cons next later =>
    obtain ⟨free, same⟩ := Option.ite_none_left_eq_some.mp delivered
    cases same
    -- whoever is running is not the subscriber that is called now
    have distinct (lower : Frame α) (member : lower ∈ s.stack) : lower.current ≠ next.1 := by
      intro same
      simp only [System.busy, List.any_eq_true, decide_eq_true_eq, not_exists, not_and] at free
      exact free lower member same
    refine ⟨?_, ?_, ?_, by simp, ?_⟩
    · intro frame member
      rcases List.mem_cons.mp member with rfl | below
      · exact targets.1 next.1 (by simp)
      · exact tapped frame below
    · change ∀ opened ∈ (call, later) :: calls s none, _
      refine List.forall_mem_cons.mpr ⟨fun sub member => targets.1 sub ?_, targets.2⟩
      exact List.mem_cons_of_mem _ member
    · refine List.pairwise_cons.mpr ⟨fun lower member side => ?_, pairs⟩
      have reached := reach _ rfl lower member side
      rw [List.map_cons, List.mem_cons] at reached
      exact reached.resolve_left (distinct lower member)
    · intro one
      refine space ?_
      change (ofSide .put ((call, later) :: calls s none)).length = 1 at one
      rw [calls_some, ofSide_cons]
      rw [ofSide_cons] at one
      split_ifs at one ⊢ <;> simpa using one

/-- A step that leaves a sane stack has found one. -/
theorem Nested.deliver_sane (nested : Nested s (some (call, rest))) (delivered : deliver s call rest = some (t, out))
    (sane : Sane (calls t none)) : Sane (calls s (some (call, rest))) := by
  intro side
  have after := sane side
  rw [calls_some, ofSide_cons]
  cases rest with
  | nil =>
    have stack : t.stack = s.stack := by
      cases at_ : call.side with
      | put =>
        rw [deliver, nested.finish_put at_] at delivered
        cases delivered
        rfl
      | get =>
        rw [deliver, finish_get at_] at delivered
        cases delivered
        rfl
    simp only [calls, stack] at after
    split_ifs with same
    · subst same
      simp [nested.alone]
    · exact after
  | cons next later =>
    obtain ⟨-, same⟩ := Option.ite_none_left_eq_some.mp delivered
    cases same
    change (ofSide side ((call, later) :: calls s none)).length ≤ 1 at after
    rw [ofSide_cons] at after
    split_ifs at after ⊢ <;> simpa using after

/-- Finishing a call leaves every tap's account as it was: the call had no subscriber left. -/
theorem waiting_finished (side : Side) (conn : ConnRef) (open_ : List (Open α)) :
    ((ofSide side ((call, []) :: open_)).filter fun opened => conn ∈ opened.2.map Prod.snd) =
      (ofSide side open_).filter fun opened => conn ∈ opened.2.map Prod.snd := by
  rw [ofSide_cons]
  split_ifs <;> simp

theorem Books.finish (nested : Nested s (some (call, []))) (books : Books s (calls s (some (call, []))) obs) :
    Books (finish s call).1 (calls s none) (obs ++ (finish s call).2) := by
  obtain ⟨flow, stores, returns, seen, unseen, conns⟩ := books
  have alone := nested.alone
  rw [calls_some] at flow stores returns conns
  have accounts (extra : List (Obs α)) (passed : ∀ side, log (.passed side) extra = [])
      (tapped : ∀ side conn, log (.tapped side conn) extra = [])
      (quiet : ∀ side conn, .connected side conn ∉ extra) :
      (∀ side conn, conn < (s.taps side).length → .connected side conn ∈ obs ++ extra ∧
        passedSince side conn (obs ++ extra) = log (.tapped side conn) (obs ++ extra) ++
          ((ofSide side (calls s none)).filter fun opened => conn ∈ opened.2.map Prod.snd).map (·.1.item)) ∧
      ∀ side conn, (s.taps side).length ≤ conn →
        .connected side conn ∉ obs ++ extra ∧ log (.tapped side conn) (obs ++ extra) = [] := by
    refine ⟨fun side conn bound => ?_, fun side conn bound => ?_⟩
    · obtain ⟨connected, same⟩ := seen side conn bound
      rw [calls_some, waiting_finished] at same
      refine ⟨List.mem_append_left _ connected, ?_⟩
      simp only [passedSince_append connected, passed, tapped, log_append, List.append_nil, same]
    · simpa [tapped, quiet] using unseen side conn bound
  cases side : call.side with
  | put =>
    rw [side] at alone
    simp only [ofSide_cons, side, if_true, alone, reduceCtorEq, if_false] at flow stores returns
    obtain ⟨seen', unseen'⟩ := accounts (.stored call.item :: woke s.queue.getWaiters) (by simp) (by simp)
      (by simp [woke])
    rw [nested.finish_put side]
    refine ⟨?_, ?_, ?_, seen', unseen', (List.forall_mem_cons.mp conns).2⟩
    · simpa [alone, System.setQueue, Queue.accept] using flow
    · simpa [alone] using stores
    · simpa using returns
  | get =>
    rw [side] at alone
    simp only [ofSide_cons, side, if_true, alone, reduceCtorEq, if_false] at flow stores returns
    obtain ⟨seen', unseen'⟩ := accounts [.returned call.item] (by simp) (by simp) (by simp)
    rw [finish_get side]
    refine ⟨?_, ?_, ?_, seen', unseen', (List.forall_mem_cons.mp conns).2⟩
    · simpa using flow
    · simpa using stores
    · simpa [alone] using returns

/-- The call moves on to its next subscriber. -/
theorem Books.advance {next : SubRef × ConnRef} (sane : Sane (calls s (some (call, next :: rest))))
    (books : Books s (calls s (some (call, next :: rest))) obs) :
    Books s (calls s (some (call, rest))) (obs ++ [.tapped call.side next.2 call.item]) := by
  obtain ⟨flow, stores, returns, seen, unseen, conns⟩ := books
  rw [calls_some] at flow stores returns conns ⊢
  rw [calls_some] at sane
  obtain ⟨⟨nodup, bound⟩, conns⟩ := List.forall_mem_cons.mp conns
  rw [List.map_cons, List.nodup_cons] at nodup
  rw [List.map_cons, List.forall_mem_cons] at bound
  have items (side : Side) : (ofSide side ((call, rest) :: calls s none)).map (·.1.item) =
      (ofSide side ((call, next :: rest) :: calls s none)).map (·.1.item) := by
    rw [ofSide_cons, ofSide_cons]
    split_ifs <;> rfl
  refine ⟨?_, ?_, ?_, ?_, ?_, ?_⟩
  · simpa [items] using flow
  · simpa [items] using stores
  · simpa [items] using returns
  · intro side conn below
    obtain ⟨connected, same⟩ := seen side conn below
    refine ⟨List.mem_append_left _ connected, ?_⟩
    have alone := sane side
    rw [calls_some, ofSide_cons] at same
    rw [ofSide_cons] at alone
    rw [passedSince_append connected, same, ofSide_cons]
    by_cases at_ : call.side = side
    · -- the tap of this call: the item is now seen instead of waited for
      rw [if_pos at_] at alone
      have others : ofSide side (calls s none) = [] :=
        List.eq_nil_of_length_eq_zero (by simpa using alone)
      by_cases here : next.2 = conn
      · subst here
        simp [at_, others, nodup.1]
      · have keep : conn ∈ (next :: rest).map Prod.snd ↔ conn ∈ rest.map Prod.snd := by
          rw [List.map_cons, List.mem_cons]
          exact or_iff_right fun same => here same.symm
        simp only [at_, if_true, others, List.filter_cons, keep, log_append, log_cons, Kind.pick, here, and_false,
          if_false]
        split_ifs <;> simp
    · simp [at_]
  · intro side conn above
    obtain ⟨absent, silent⟩ := unseen side conn above
    have distinct : ¬ (call.side = side ∧ next.2 = conn) := by
      rintro ⟨rfl, rfl⟩
      exact absurd bound.1 (Nat.not_lt_of_le above)
    simp [absent, silent, distinct]
  · exact List.forall_mem_cons.mpr ⟨⟨nodup.2, bound.2⟩, conns⟩

/-- A delivery keeps the invariants. -/
theorem Inv.deliver (inv : Inv s (some (call, rest)) obs) (delivered : deliver s call rest = some (t, out)) :
    Inv t none (obs ++ out) := by
  refine ⟨inv.toNested.after_deliver delivered, fun sane => ?_, fun item member => ?_⟩
  · have before := inv.toNested.deliver_sane delivered sane
    have books := inv.books before
    cases rest with
    | nil =>
      have stack : (finish s call).1.stack = s.stack := by
        cases at_ : call.side with
        | put => rw [inv.toNested.finish_put at_]; rfl
        | get => rw [finish_get at_]
      have finished := books.finish inv.toNested
      rw [Option.some.inj delivered] at finished stack
      change t.stack = s.stack at stack
      simpa only [calls, stack] using finished
    | cons next later =>
      obtain ⟨-, same⟩ := Option.ite_none_left_eq_some.mp delivered
      cases same
      obtain ⟨flow, stores, returns, seen, unseen, conns⟩ := books.advance before
      exact ⟨flow, stores, returns, seen, unseen, conns⟩
  · rcases List.mem_append.mp member with earlier | now
    · exact inv.kept item earlier
    · exact (inv.toNested.deliver_keeps delivered item).1 now

end Deliver

section Steps

variable {s t u : System α} {hand : Option (Open α)} {item : α} {obs out : List (Obs α)}

/-- The parts of the state that the invariants speak about. -/
structure Agree (s u : System α) : Prop where
  buf : u.queue.buf = s.queue.buf
  cap : u.queue.cap = s.queue.cap
  putTaps : u.putTaps = s.putTaps
  getTaps : u.getTaps = s.getTaps
  stack : u.stack = s.stack

theorem Agree.taps (agree : Agree s u) : u.taps = s.taps := by
  funext side
  cases side
  · exact agree.putTaps
  · exact agree.getTaps

theorem Agree.hasSpace (agree : Agree s u) : u.queue.hasSpace = s.queue.hasSpace := by
  simp only [Queue.hasSpace, agree.cap, agree.buf]

theorem Inv.congr (inv : Inv s hand obs) (agree : Agree s u) : Inv u hand obs := by
  have same : calls u hand = calls s hand := by simp only [calls, agree.stack]
  obtain ⟨⟨tapped, targets, nested, reach, space⟩, books, kept⟩ := inv
  refine ⟨⟨?_, ?_, ?_, ?_, ?_⟩, fun sane => ?_, kept⟩
  · simpa only [agree.stack, agree.taps] using tapped
  · simpa only [same, agree.taps] using targets
  · simpa only [agree.stack] using nested
  · simpa only [agree.stack] using reach
  · simpa only [same, agree.hasSpace] using space
  · rw [same] at sane ⊢
    obtain ⟨flow, stores, returns, seen, unseen, conns⟩ := books sane
    rw [← agree.buf] at flow
    rw [← agree.taps] at seen unseen conns
    exact ⟨flow, stores, returns, seen, unseen, conns⟩

/-- Observations that the books do not speak about. -/
def Obs.idle : Obs α → Bool
  | .woke _ | .refused _ | .peeked _ | .nothing => true
  | .connected .. | .passed .. | .tapped .. | .stored _ | .discarded _ | .returned _ | .flushed _ => false

theorem log_idle (kind : Kind) (quiet : ∀ o ∈ out, o.idle) : log kind out = [] := by
  refine List.filterMap_eq_nil_iff.mpr fun o member => ?_
  have idle := quiet o member
  cases o <;> first | (cases kind <;> rfl) | cases idle

theorem Inv.quiet (inv : Inv s hand obs) (quiet : ∀ o ∈ out, o.idle) : Inv s hand (obs ++ out) := by
  have silent (kind : Kind) := log_idle kind quiet
  have loud (o : Obs α) (noisy : o.idle = false) : o ∉ out := by
    intro member
    rw [quiet o member] at noisy
    cases noisy
  refine ⟨inv.toNested, fun sane => ?_, fun item member => ?_⟩
  · obtain ⟨flow, stores, returns, seen, unseen, conns⟩ := inv.books sane
    refine ⟨by simpa [silent] using flow, by simpa [silent] using stores, by simpa [silent] using returns,
      fun side conn bound => ?_, fun side conn bound => ?_, conns⟩
    · obtain ⟨connected, same⟩ := seen side conn bound
      refine ⟨List.mem_append_left _ connected, ?_⟩
      simp only [passedSince_append connected, silent, log_append, List.append_nil, same]
    · simpa [silent, loud (.connected side conn) rfl] using unseen side conn bound
  · exact (List.mem_append.mp member).elim (inv.kept item) (loud _ rfl)

/-- The handler of the innermost broadcast returns. -/
theorem Inv.resume {frame : Frame α} {below : List (Frame α)} (inv : Inv s none obs)
    (top : s.stack = frame :: below) : Inv (s.setStack below) (some (frame.call, frame.remaining)) obs := by
  have same : calls (s.setStack below) (some (frame.call, frame.remaining)) = calls s none := by
    simp [calls, top, System.setStack]
  obtain ⟨⟨tapped, targets, nested, reach, space⟩, books, kept⟩ := inv
  rw [top] at tapped nested
  obtain ⟨inner, nested⟩ := List.pairwise_cons.mp nested
  refine ⟨⟨(List.forall_mem_cons.mp tapped).2, ?_, nested, ?_, ?_⟩, fun sane => ?_, kept⟩
  · rw [same]
    exact targets
  · intro call member lower below side
    cases member
    exact inner lower below side
  · rw [same]
    exact space
  · rw [same] at sane ⊢
    obtain ⟨flow, stores, returns, seen, unseen, conns⟩ := books sane
    exact ⟨flow, stores, returns, seen, unseen, conns⟩

/-- The subscribers of a tap, numbered by their connections. -/
theorem mem_zipIdx_fst {l : List SubRef} {sub : SubRef} : sub ∈ l.zipIdx.map Prod.fst ↔ sub ∈ l := by
  rw [List.zipIdx_map_fst]

theorem mem_zipIdx_snd {l : List SubRef} {conn : ConnRef} : conn ∈ l.zipIdx.map Prod.snd ↔ conn < l.length := by
  simp [List.zipIdx_map_snd, List.mem_range'_1]

/-- An item passes its tap: every connected subscriber now waits for it. -/
theorem Books.pass_accounts (books : Books s (calls s none) obs) (call : Call α)
    (alone : ofSide call.side (calls s none) = []) (wakers : List Waker) :
    let open' := (call, (s.taps call.side).zipIdx) :: calls s none
    let obs' := obs ++ .passed call.side call.item :: woke wakers
    (∀ side conn, conn < (s.taps side).length → .connected side conn ∈ obs' ∧
      passedSince side conn obs' = log (.tapped side conn) obs' ++
        ((ofSide side open').filter fun opened => conn ∈ opened.2.map Prod.snd).map (·.1.item)) ∧
    (∀ side conn, (s.taps side).length ≤ conn →
      .connected side conn ∉ obs' ∧ log (.tapped side conn) obs' = []) ∧
    ∀ opened ∈ open', (opened.2.map Prod.snd).Nodup ∧
      ∀ conn ∈ opened.2.map Prod.snd, conn < (s.taps opened.1.side).length := by
  obtain ⟨flow, stores, returns, seen, unseen, conns⟩ := books
  refine ⟨fun side conn bound => ?_, fun side conn bound => ?_, List.forall_mem_cons.mpr ⟨⟨?_, ?_⟩, conns⟩⟩
  · obtain ⟨connected, same⟩ := seen side conn bound
    refine ⟨List.mem_append_left _ connected, ?_⟩
    rw [passedSince_append connected, same, ofSide_cons]
    by_cases at_ : call.side = side
    · subst at_
      have waits : conn ∈ (s.taps call.side).zipIdx.map Prod.snd := mem_zipIdx_snd.mpr bound
      simp only [if_true, alone, List.filter_cons, waits, decide_true]
      simp
    · simp [at_]
  · simpa using unseen side conn bound
  · rw [List.zipIdx_map_snd]
    exact List.nodup_range'
  · exact fun conn member => mem_zipIdx_snd.mp member

theorem Sane.cons {call : Open α} {open_ : List (Open α)} (sane : Sane (call :: open_)) :
    Sane open_ ∧ ofSide call.1.side open_ = [] := by
  refine ⟨fun side => ?_, ?_⟩
  · have bound := sane side
    rw [ofSide_cons] at bound
    split_ifs at bound
    · exact Nat.le_of_succ_le bound
    · exact bound
  · have bound := sane call.1.side
    rw [ofSide_cons, if_pos rfl, List.length_cons] at bound
    exact List.eq_nil_of_length_eq_zero (by omega)

theorem Nested.pass (nested : Nested s none) (call : Call α)
    (space : call.side = .put → s.queue.hasSpace = true) :
    Nested s (some (call, (s.taps call.side).zipIdx)) := by
  obtain ⟨tapped, targets, pairs, -, alone⟩ := nested
  refine ⟨tapped, List.forall_mem_cons.mpr ⟨fun sub member => mem_zipIdx_fst.mp member, targets⟩, pairs, ?_, ?_⟩
  · intro opened member lower below side
    cases member
    exact mem_zipIdx_fst.mpr (side ▸ tapped lower below)
  · intro one
    rw [calls_some, ofSide_cons] at one
    split_ifs at one with put
    · exact space put
    · exact alone one

/-- A put has found space and accepts its item. -/
theorem Inv.pass_put (inv : Inv s none obs) (space : s.queue.hasSpace = true) (item : α) (awaited : Bool) :
    Inv s (some (⟨.put, item, awaited⟩, s.putTaps.zipIdx)) (obs ++ [.passed .put item]) := by
  refine ⟨inv.toNested.pass ⟨.put, item, awaited⟩ fun _ => space, fun sane => ?_, ?_⟩
  · obtain ⟨before, alone⟩ := sane.cons
    have books := inv.books before
    obtain ⟨seen, unseen, conns⟩ := books.pass_accounts ⟨.put, item, awaited⟩ alone []
    obtain ⟨flow, stores, returns, -, -, -⟩ := books
    change ofSide .put (calls s none) = [] at alone
    refine ⟨?_, ?_, ?_, seen, unseen, conns⟩
    · simpa [ofSide_cons, alone] using congrArg (· ++ [item]) flow
    · simpa [ofSide_cons, alone] using congrArg (· ++ [item]) stores
    · simpa [ofSide_cons] using returns
  · simpa using inv.kept

/-- A get has taken the front item. -/
theorem Inv.pass_get {rest : List α} (inv : Inv s none obs) (front : s.queue.buf = item :: rest) (awaited : Bool)
    (wakers : List Waker) :
    Inv (s.setQueue { s.queue with buf := rest, putWaiters := [] })
      (some (⟨.get, item, awaited⟩, s.getTaps.zipIdx)) (obs ++ .passed .get item :: woke wakers) := by
  have opened (space : s.queue.hasSpace = true) :
      ({ s.queue with buf := rest, putWaiters := [] } : Queue α).hasSpace = true := by
    cases cap : s.queue.cap with
    | none => simp [Queue.hasSpace, cap]
    | some bound =>
      simp only [Queue.hasSpace, cap, front, List.length_cons, decide_eq_true_eq] at space ⊢
      omega
  have nested : Nested (s.setQueue { s.queue with buf := rest, putWaiters := [] }) none := by
    obtain ⟨tapped, targets, pairs, reach, space⟩ := inv.toNested
    exact ⟨tapped, targets, pairs, reach, fun one => opened (space one)⟩
  refine ⟨nested.pass ⟨.get, item, awaited⟩ (fun put => by cases put), fun sane => ?_, ?_⟩
  · obtain ⟨before, alone⟩ := sane.cons
    have books := inv.books before
    obtain ⟨seen, unseen, conns⟩ := books.pass_accounts ⟨.get, item, awaited⟩ alone wakers
    obtain ⟨flow, stores, returns, -, -, -⟩ := books
    change ofSide .get (calls s none) = [] at alone
    refine ⟨?_, ?_, ?_, seen, unseen, conns⟩
    · simpa [ofSide_cons, front] using flow
    · simpa [ofSide_cons] using stores
    · simpa [ofSide_cons, alone] using congrArg (· ++ [item]) returns
  · simpa using inv.kept

/-- A flush takes everything out, past the taps. -/
theorem flushLoop_spec (rounds : ℕ) (queue : Queue α) (enough : queue.buf.length ≤ rounds) :
    (flushLoop rounds queue).1.buf = [] ∧ (flushLoop rounds queue).1.cap = queue.cap ∧
      log .removed (flushLoop rounds queue).2 = queue.buf ∧
      (∀ kind ≠ .removed, log kind (flushLoop rounds queue).2 = []) ∧
      ∀ o ∈ (flushLoop rounds queue).2, (∃ waker, o = .woke waker) ∨ ∃ item, o = .flushed item := by
  induction rounds generalizing queue with
  | zero =>
    have empty : queue.buf = [] := List.eq_nil_of_length_eq_zero (by omega)
    simp [flushLoop, empty]
  | succ rounds ih =>
    cases front : queue.buf with
    | nil => simp [flushLoop, Queue.tryGet_of_nil front, front]
    | cons item rest =>
      simp only [front, List.length_cons] at enough
      obtain ⟨empty, cap, removed, others, shown⟩ :=
        ih { queue with buf := rest, putWaiters := [] } (by simp only; omega)
      simp only [flushLoop, Queue.tryGet_of_cons front]
      refine ⟨empty, cap, by simpa using removed, fun kind other => ?_, fun o member => ?_⟩
      · have quiet : kind.pick (.flushed item : Obs α) = none := by cases kind <;> first | rfl | contradiction
        rw [List.cons_append, log_cons, log_append, quiet, others kind other, log_woke]
        rfl
      · rcases List.mem_append.mp member with now | later
        · rcases List.mem_cons.mp now with rfl | woken
          · exact .inr ⟨item, rfl⟩
          · obtain ⟨waker, -, rfl⟩ := (mem_woke ..).mp woken
            exact .inl ⟨waker, rfl⟩
        · exact shown o later

theorem Inv.flush (inv : Inv s none obs) :
    Inv (s.setQueue (flush s.queue).1) none (obs ++ (flush s.queue).2) := by
  obtain ⟨empty, cap, removed, others, shown⟩ := flushLoop_spec s.queue.buf.length s.queue (Nat.le_refl _)
  have unseen (o : Obs α) (noisy : (∀ waker, o ≠ .woke waker) ∧ ∀ item, o ≠ .flushed item) :
      o ∉ (TlmFifo.flush s.queue).2 := by
    intro member
    rcases shown o member with ⟨waker, same⟩ | ⟨item, same⟩
    · exact noisy.1 waker same
    · exact noisy.2 item same
  obtain ⟨⟨tapped, targets, pairs, reach, space⟩, books, kept⟩ := inv
  refine ⟨⟨tapped, targets, pairs, reach, fun one => ?_⟩, fun sane => ?_, fun item member => ?_⟩
  · have before := space one
    cases bound : s.queue.cap with
    | none => simp [Queue.hasSpace, System.setQueue, TlmFifo.flush, cap, bound]
    | some limit =>
      simp only [Queue.hasSpace, bound, decide_eq_true_eq] at before
      simp only [Queue.hasSpace, System.setQueue, TlmFifo.flush, cap, bound, empty, List.length_nil, decide_eq_true_eq]
      omega
  · obtain ⟨flow, stores, returns, seen, absent, conns⟩ := books sane
    simp only [calls_setQueue]
    refine ⟨?_, ?_, ?_, fun side conn bound => ?_, fun side conn bound => ?_, conns⟩
    · simp only [log_append, TlmFifo.flush, others (.passed .put) (by simp), removed, System.setQueue, empty,
        List.append_nil, flow]
    · simpa [TlmFifo.flush, others] using stores
    · simpa [TlmFifo.flush, others] using returns
    · obtain ⟨connected, same⟩ := seen side conn bound
      refine ⟨List.mem_append_left _ connected, ?_⟩
      simpa [passedSince_append connected, TlmFifo.flush, others] using same
    · obtain ⟨missing, silent⟩ := absent side conn bound
      simpa [TlmFifo.flush, others, silent, missing] using unseen (.connected side conn) (by simp)
  · exact (List.mem_append.mp member).elim (kept item) (unseen _ (by simp))

/-- A subscriber joins one of the taps. -/
theorem Inv.connect (inv : Inv s none obs) (side : Side) (sub : SubRef) (queue : u.queue = s.queue)
    (stack : u.stack = s.stack) (joined : u.taps side = s.taps side ++ [sub])
    (other : ∀ side' ≠ side, u.taps side' = s.taps side') :
    Inv u none (obs ++ [.connected side (s.taps side).length]) := by
  have same : calls u none = calls s none := by simp only [calls, stack]
  have grown (side' : Side) : s.taps side' <+: u.taps side' := by
    by_cases here : side' = side
    · subst here
      rw [joined]
      exact List.prefix_append ..
    · exact (other side' here).symm ▸ List.prefix_rfl
  obtain ⟨⟨tapped, targets, pairs, reach, space⟩, books, kept⟩ := inv
  refine ⟨⟨?_, ?_, ?_, by simp, ?_⟩, fun sane => ?_, by simpa using kept⟩
  · rw [stack]
    exact fun frame member => (grown _).subset (tapped frame member)
  · rw [same]
    exact fun opened member sub' left => (grown _).subset (targets opened member sub' left)
  · rw [stack]
    exact pairs
  · rw [same, queue]
    exact space
  · rw [same] at sane ⊢
    obtain ⟨flow, stores, returns, seen, unseen, conns⟩ := books sane
    refine ⟨by simpa [queue] using flow, by simpa using stores, by simpa using returns, ?_, ?_, ?_⟩
    · intro side' conn bound
      by_cases fresh : conn < (s.taps side').length
      · obtain ⟨connected, account⟩ := seen side' conn fresh
        refine ⟨List.mem_append_left _ connected, ?_⟩
        simpa [passedSince_append connected] using account
      · -- the new connection: nothing has passed since it was made, and no call is to reach it
        obtain ⟨absent, silent⟩ := unseen side' conn (Nat.le_of_not_lt fresh)
        have here : side' = side := by
          by_contra there
          rw [other side' there] at bound
          exact fresh bound
        subst here
        have last : conn = (s.taps side').length := by
          rw [joined, List.length_append, List.length_singleton] at bound
          omega
        subst last
        have unreached : ((ofSide side' (calls s none)).filter fun opened =>
            (s.taps side').length ∈ opened.2.map Prod.snd) = [] := by
          refine List.filter_eq_nil_iff.mpr fun opened member => ?_
          obtain ⟨inside, at_⟩ := (mem_ofSide _).mp member
          have bound := (conns opened inside).2
          intro reached
          have below := bound _ (of_decide_eq_true reached)
          rw [at_] at below
          exact Nat.lt_irrefl _ below
        refine ⟨by simp, ?_⟩
        rw [passedSince_connect absent, unreached]
        simpa using silent
    · intro side' conn bound
      have beyond : (s.taps side').length ≤ conn := Nat.le_trans (grown side').length_le bound
      obtain ⟨absent, silent⟩ := unseen side' conn beyond
      have distinct : ¬ (side' = side ∧ conn = (s.taps side).length) := by
        rintro ⟨rfl, rfl⟩
        rw [joined, List.length_append, List.length_singleton] at bound
        omega
      simpa [absent, silent] using distinct
    · intro opened member
      obtain ⟨nodup, bound⟩ := conns opened member
      exact ⟨nodup, fun conn left => Nat.lt_of_lt_of_le (bound conn left) (grown _).length_le⟩

/-- A put that has found space taps and hands over. -/
theorem Inv.tap_put (inv : Inv s none obs) (space : s.queue.hasSpace = true) {awaited : Bool}
    (tapped : tap s ⟨.put, item, awaited⟩ [] = some (t, out)) :
    Inv t none (obs ++ out) ∧ ∀ item', .refused item' ∉ out := by
  obtain ⟨⟨next, shown⟩, delivered, same⟩ := Option.map_eq_some_iff.mp tapped
  cases same
  have passed := inv.pass_put space item awaited
  refine ⟨by simpa using passed.deliver delivered, fun item' member => ?_⟩
  exact (passed.toNested.deliver_keeps delivered item').2 (by simpa using member)

/-- A get that has taken an item taps and returns it. -/
theorem Inv.tap_get {rest : List α} {wakers : List Waker} (inv : Inv s none obs)
    (front : s.queue.buf = item :: rest) (agree : Agree (s.setQueue { s.queue with buf := rest, putWaiters := [] }) u)
    {awaited : Bool} (tapped : tap u ⟨.get, item, awaited⟩ (woke wakers) = some (t, out)) :
    Inv t none (obs ++ out) ∧ ∀ item', .refused item' ∉ out := by
  obtain ⟨⟨next, shown⟩, delivered, same⟩ := Option.map_eq_some_iff.mp tapped
  cases same
  have passed := (inv.pass_get front awaited wakers).congr agree
  have taps : s.getTaps = u.taps .get := (congrFun agree.taps .get).symm
  rw [taps] at passed
  refine ⟨by simpa using passed.deliver delivered, fun item' member => ?_⟩
  exact (passed.toNested.deliver_keeps delivered item').2 (by simpa using member)

/-- Only a `try_put` that finds no space refuses, and it does nothing else. -/
def Refuses (s : System α) (a : Action α) (t : System α) (out : List (Obs α)) : Prop :=
  ∀ item, .refused item ∈ out → a = .tryPut item ∧ t = s ∧ out = [.refused item]

theorem Inv.poll {ref : FutRef} {waker : Waker} {fut : Fut α} (inv : Inv s none obs)
    (polled : pollFut s ref waker fut = some (t, out)) :
    Inv t none (obs ++ out) ∧ ∀ item', .refused item' ∉ out := by
  have registered (queue : Queue α) (buf : queue.buf = s.queue.buf) (cap : queue.cap = s.queue.cap) :
      Inv (s.setQueue queue) none obs := inv.congr ⟨buf, cap, rfl, rfl, rfl⟩
  cases fut with
  | put item =>
    cases space : s.queue.hasSpace with
    | true =>
      simp only [pollFut, Queue.pollSpace, space, if_true] at polled
      exact (inv.congr ⟨rfl, rfl, rfl, rfl, rfl⟩ : Inv (s.clear ref) none obs).tap_put space polled
    | false =>
      simp only [pollFut, Queue.pollSpace, space, Bool.false_eq_true, if_false] at polled
      cases polled
      refine ⟨Inv.quiet (registered _ ?_ ?_) (by simp), by simp⟩ <;> rfl
  | get =>
    cases front : s.queue.buf with
    | nil =>
      simp only [pollFut, Queue.pollGet, Queue.tryGet_of_nil front] at polled
      cases polled
      refine ⟨Inv.quiet (registered _ ?_ ?_) (by simp), by simp⟩ <;> rfl
    | cons item rest =>
      simp only [pollFut, Queue.pollGet, Queue.tryGet_of_cons front] at polled
      refine inv.tap_get front ?_ polled
      exact ⟨rfl, rfl, rfl, rfl, rfl⟩
  | peek =>
    cases front : s.queue.buf with
    | nil =>
      simp only [pollFut, Queue.pollPeek, Queue.tryPeek_of_nil front] at polled
      cases polled
      refine ⟨Inv.quiet (registered _ ?_ ?_) (by simp), by simp⟩ <;> rfl
    | cons item rest =>
      simp only [pollFut, Queue.pollPeek, Queue.tryPeek_of_cons front] at polled
      cases polled
      refine ⟨Inv.quiet (registered _ ?_ ?_) (by simp [Obs.idle]), by simp⟩ <;> rfl

/-- Every step keeps the invariants. -/
theorem Inv.step {a : Action α} (inv : Inv s none obs) (stepped : step s a = some (t, out)) :
    Inv t none (obs ++ out) ∧ Refuses s a t out := by
  have silent (kept : Inv t none (obs ++ out) ∧ ∀ item, .refused item ∉ out) :
      Inv t none (obs ++ out) ∧ Refuses s a t out :=
    ⟨kept.1, fun item member => absurd member (kept.2 item)⟩
  have untouched : Agree s t → out = [] → Inv t none (obs ++ out) ∧ Refuses s a t out := by
    rintro agree rfl
    exact silent ⟨(inv.congr agree).quiet (by simp), by simp⟩
  cases a with
  | connect side sub =>
    cases side with
    | put =>
      cases stepped
      refine silent ⟨inv.connect .put sub rfl rfl rfl fun side' other => ?_, by simp⟩
      cases side' with
      | put => exact absurd rfl other
      | get => rfl
    | get =>
      cases stepped
      refine silent ⟨inv.connect .get sub rfl rfl rfl fun side' other => ?_, by simp⟩
      cases side' with
      | put => rfl
      | get => exact absurd rfl other
  | put | get | peek =>
    cases stepped
    exact untouched ⟨rfl, rfl, rfl, rfl, rfl⟩ rfl
  | poll ref waker =>
    obtain ⟨fut, -, polled⟩ := Option.bind_eq_some_iff.mp stepped
    exact silent (inv.poll polled)
  | drop ref =>
    obtain ⟨-, same⟩ := Option.ite_none_right_eq_some.mp stepped
    cases same
    exact untouched ⟨rfl, rfl, rfl, rfl, rfl⟩ rfl
  | tryPut item =>
    cases space : s.queue.hasSpace with
    | true =>
      simp only [TlmFifo.step, space, Bool.not_true, Bool.false_eq_true, if_false] at stepped
      exact silent (inv.tap_put space stepped)
    | false =>
      simp only [TlmFifo.step, space, Bool.not_false, if_true] at stepped
      cases stepped
      refine ⟨inv.quiet (by simp [Obs.idle]), fun item' member => ?_⟩
      cases List.mem_singleton.mp member
      exact ⟨rfl, rfl, rfl⟩
  | tryGet =>
    cases front : s.queue.buf with
    | nil =>
      simp only [TlmFifo.step, Queue.tryGet_of_nil front] at stepped
      cases stepped
      exact silent ⟨inv.quiet (by simp [Obs.idle]), by simp⟩
    | cons item rest =>
      simp only [TlmFifo.step, Queue.tryGet_of_cons front] at stepped
      exact silent (inv.tap_get front ⟨rfl, rfl, rfl, rfl, rfl⟩ stepped)
  | tryPeek =>
    simp only [TlmFifo.step] at stepped
    split at stepped <;> cases stepped <;> exact silent ⟨inv.quiet (by simp [Obs.idle]), by simp⟩
  | flush =>
    cases stepped
    refine silent ⟨inv.flush, fun item member => ?_⟩
    obtain ⟨-, -, -, -, shown⟩ := flushLoop_spec s.queue.buf.length s.queue (Nat.le_refl _)
    rcases shown _ member with ⟨waker, same⟩ | ⟨item', same⟩ <;> cases same
  | resume =>
    simp only [TlmFifo.step] at stepped
    split at stepped
    · cases stepped
    · next frame below top =>
      have hand := inv.resume top
      exact silent ⟨hand.deliver stepped, fun item => (hand.toNested.deliver_keeps stepped item).2⟩

end Steps

theorem inv_initial (size : Option ℕ) : Inv (initial size : System α) none [] := by
  refine ⟨⟨by simp [initial], by simp [initial, calls], .nil, by simp, by simp [initial, calls, ofSide]⟩,
    fun _ => ?_, by simp⟩
  refine ⟨rfl, rfl, rfl, fun side conn bound => ?_, fun side conn bound => by simp, by simp [initial, calls]⟩
  cases side <;> simp [initial, System.taps] at bound

theorem inv_of_run {size : Option ℕ} {actions : List (Action α)} {s : System α} {obs : List (Obs α)}
    (ran : (machine α).run (initial size) actions = some (s, obs)) : Inv s none obs :=
  (machine α).run_invariant_nil (fun s obs => Inv s none obs) (inv_initial size)
    (fun inv stepped => (inv.step stepped).1) ran

/-- In every run the handover whose result `put` discards succeeds, and a refused item is not
tapped: the refusal is all that its step does. Whenever no handler is running, every connection of
either tap has been shown exactly the items that passed since it was made, in order; the accepted
items are the taken and the flushed ones in order, followed by the contents; every accepted item was
stored and every taken one returned. -/
theorem fifo_taps (size : Option ℕ) {actions : List (Action α)} {s : System α} {obs : List (Obs α)}
    (ran : (machine α).run (initial size) actions = some (s, obs)) :
    (∀ item, .discarded item ∉ obs) ∧
    (∀ a t out item, step s a = some (t, out) → .refused item ∈ out →
      a = .tryPut item ∧ t = s ∧ out = [.refused item]) ∧
    (s.stack = [] →
      (∀ side conn, conn < (s.taps side).length → .connected side conn ∈ obs ∧
        passedSince side conn obs = log (.tapped side conn) obs) ∧
      log (.passed .put) obs = log .removed obs ++ s.queue.buf ∧
      log (.passed .put) obs = log .stored obs ∧ log (.passed .get) obs = log .returned obs) := by
  have inv := inv_of_run ran
  refine ⟨inv.kept, fun a t out item stepped refused => (inv.step stepped).2 item refused, fun idle => ?_⟩
  have none : calls s Option.none = [] := by simp [calls, idle]
  have sane : Sane (calls s Option.none) := by
    rw [none]
    intro side
    simp [ofSide]
  obtain ⟨flow, stores, returns, seen, -, -⟩ := inv.books sane
  rw [none] at flow stores returns seen
  refine ⟨fun side conn bound => ?_, by simpa [ofSide] using flow, by simpa [ofSide] using stores,
    by simpa [ofSide] using returns⟩
  simpa [ofSide] using seen side conn bound

/-- Depth 1 with a subscriber on either tap: a put whose handler looks into the FIFO before it
returns, a refused `try_put`, and a get. -/
theorem fifo_taps_of_one :
    ∃ s obs, (machine ℕ).run (initial (some 1))
        [.connect .put 0, .connect .get 1, .put 7, .poll 0 (.task 1), .tryGet, .resume, .tryPut 8, .tryGet,
          .resume] = some (s, obs) ∧
      obs = [.connected .put 0, .connected .get 0, .passed .put 7, .tapped .put 0 7, .nothing, .stored 7,
        .refused 8, .passed .get 7, .tapped .get 0 7, .returned 7] ∧
      s.stack = [] ∧ log (.passed .put) obs = log .removed obs ++ s.queue.buf := by
  obtain ⟨s, obs, ran, shown, idle⟩ : ∃ s obs, (machine ℕ).run (initial (some 1))
        [.connect .put 0, .connect .get 1, .put 7, .poll 0 (.task 1), .tryGet, .resume, .tryPut 8, .tryGet,
          .resume] = some (s, obs) ∧
      obs = [.connected .put 0, .connected .get 0, .passed .put 7, .tapped .put 0 7, .nothing, .stored 7,
        .refused 8, .passed .get 7, .tapped .get 0 7, .returned 7] ∧
      s.stack = [] := ⟨_, _, rfl, by decide, by decide⟩
  exact ⟨s, obs, ran, shown, idle, ((fifo_taps (some 1) ran).2.2 idle).2.1⟩

end Rustdv.TlmFifo
