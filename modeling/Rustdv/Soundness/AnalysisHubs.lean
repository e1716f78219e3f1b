import Mathlib.Algebra.GroupWithZero.Nat
import Mathlib.Data.List.Dedup
import Mathlib.Data.List.Perm.Subperm
import Mathlib.Data.List.TakeWhile
import Rustdv.Model.Analysis

/-! # What an analysis hub delivers

Whatever the handlers do, in a run without a panic every connection hears every item that is written to
its hub after it was made, once and in order. The reason is the borrow: a write to a hub from within one of
its own broadcasts comes to the subscriber that is running and panics, so it never overtakes the one that
is in progress. No write goes deeper than there are subscribers, and if the subscribers can be ranked so
that handlers only write to lower ones, none panics.
-/

namespace Rustdv.Analysis

variable {α : Type*} {s t : Net α} {obs out : List (Obs α)} {hub : HubRef} {conn : ℕ} {item : α}

/-! ## What was written and what was heard -/

def Obs.writtenTo (hub : HubRef) : Obs α → Option α
  | .wrote h item => if h = hub then some item else none
  | _ => none

def Obs.heardBy (hub : HubRef) (conn : ℕ) : Obs α → Option α
  | .delivered h c item => if h = hub ∧ c = conn then some item else none
  | _ => none

def Obs.makes (hub : HubRef) (conn : ℕ) : Obs α → Bool
  | .connected h c => h = hub && c = conn
  | _ => false

/-- The items delivered to a connection. -/
def heard (hub : HubRef) (conn : ℕ) (obs : List (Obs α)) : List α := obs.filterMap (Obs.heardBy hub conn)

/-- The items that were seen to reach a hub since the connection was made. -/
def writtenSince (hub : HubRef) (conn : ℕ) (obs : List (Obs α)) : List α :=
  (obs.dropWhile fun o => !o.makes hub conn).filterMap (Obs.writtenTo hub)

theorem makes_iff (o : Obs α) : o.makes hub conn = true ↔ o = .connected hub conn := by
  cases o <;> simp [Obs.makes]

theorem writtenSince_append (made : .connected hub conn ∈ obs) :
    writtenSince hub conn (obs ++ out) = writtenSince hub conn obs ++ out.filterMap (Obs.writtenTo hub) := by
  have stops : obs.dropWhile (fun o => !o.makes hub conn) ≠ [] := by
    intro none
    have := List.dropWhile_eq_nil_iff.mp none _ made
    simp [Obs.makes] at this
  rw [writtenSince, List.dropWhile_append, if_neg (by simpa using stops), List.filterMap_append]
  rfl

theorem writtenSince_connect (unmade : .connected hub conn ∉ obs) :
    writtenSince hub conn (obs ++ [.connected hub conn]) = [] := by
  have all : obs.dropWhile (fun o => !o.makes hub conn) = [] := by
    refine List.dropWhile_eq_nil_iff.mpr fun o member => ?_
    have other : o.makes hub conn ≠ true := fun makes => unmade ((makes_iff o).mp makes ▸ member)
    simpa using other
  rw [writtenSince, List.dropWhile_append, if_pos (by simpa using all)]
  simp [Obs.makes, Obs.writtenTo]

/-! ## Deliveries -/

@[simp]
theorem frames_setStack_call (s : Net α) (f : Frame α) (stack : List (Option (Frame α))) :
    (s.setStack (some f :: stack)).frames = f :: stack.filterMap id := rfl

@[simp]
theorem hubs_setStack (s : Net α) (stack : List (Option (Frame α))) : (s.setStack stack).hubs = s.hubs := rfl

/-- What calling the next subscriber comes to. -/
inductive Delivers (s : Net α) (hub : HubRef) (item : α) (subs : List SubRef) (conn : ℕ) :
    Net α × List (Obs α) → Prop
  | ends (done : subs.length ≤ conn) : Delivers s hub item subs conn (s, [])
  | panics {sub : SubRef} (next : subs[conn]? = some sub) (busy : ∃ f ∈ s.frames, f.current = some sub) :
      Delivers s hub item subs conn (s.unwind (.borrowed sub))
  | calls {sub : SubRef} (next : subs[conn]? = some sub) (free : ∀ f ∈ s.frames, f.current ≠ some sub) :
      Delivers s hub item subs conn
        (s.setStack (some ⟨hub, item, subs, conn⟩ :: s.stack), [.delivered hub conn item])

theorem Net.delivers (s : Net α) (hub : HubRef) (item : α) (subs : List SubRef) (conn : ℕ) :
    Delivers s hub item subs conn (s.deliver hub item subs conn) := by
  rw [Net.deliver]
  rcases next : subs[conn]? with - | sub
  · exact .ends (List.getElem?_eq_none_iff.mp next)
  · dsimp only
    by_cases busy : s.busy sub = true
    · rw [if_pos busy]
      exact .panics next (by simpa [Net.busy] using busy)
    · rw [if_neg busy]
      exact .calls next (by simpa [Net.busy] using busy)

/-- Unwinding leaves the outer broadcasts. -/
theorem unwind_frames (s : Net α) (panic : Panic) : (s.unwind panic).1.frames <:+ s.frames := by
  have tail : (s.stack.dropWhile Option.isSome).tail <:+ s.stack :=
    (List.tail_suffix _).trans (List.dropWhile_suffix _)
  exact tail.filterMap id

/-- What an action does to the net. -/
inductive Moves (s : Net α) (a : Action α) : Net α × List (Obs α) → Prop
  /-- Ports and polls. -/
  | quiet {u : Net α} (hubs : u.hubs = s.hubs ∨ u.hubs = s.hubs ++ [[]]) (frames : u.frames = s.frames) : Moves s a (u, [])
  | unwinds (panic : Panic) (unborrowed : ∀ sub, panic ≠ .borrowed sub) : Moves s a (s.unwind panic)
  | connects {hub : HubRef} {subs : List SubRef} (sub : SubRef) (was : s.hubs[hub]? = some subs) :
      Moves s a ({ s with hubs := s.hubs.set hub (subs ++ [sub]) }, [.connected hub subs.length])
  | writes {hub : HubRef} {subs : List SubRef} (item : α) (was : s.hubs[hub]? = some subs)
      (asked : a = .write hub item ∨ ∃ port, a = .publish port item ∧ s.publishers[port]? = some (some hub)) :
      Moves s a (s.broadcast hub item subs)
  | returns {f : Frame α} {below : List (Option (Frame α))} (top : s.stack = some f :: below) :
      Moves s a ((s.setStack below).deliver f.hub f.item f.subs (f.conn + 1))

theorem moves_of_step {a : Action α} (stepped : step s a = some (t, out)) : Moves s a (t, out) := by
  cases a with
  | newHub =>
    cases stepped
    exact .quiet (.inr rfl) rfl
  | newPublish | newSubscribe | subscribe =>
    cases stepped
    exact .quiet (.inl rfl) rfl
  | bind hub owner name =>
    simp only [step] at stepped
    split at stepped
    · cases stepped
      exact .unwinds _ (by simp)
    · next u bound =>
      cases stepped
      simp only [Net.bind] at bound
      split at bound
      · contradiction
      · cases bound
        exact .quiet (.inl rfl) rfl
      · contradiction
  | connect hub owner name =>
    obtain ⟨subs, was, same⟩ := Option.map_eq_some_iff.mp stepped
    split at same
    · cases same
      exact .unwinds _ (by simp)
    · cases same
      exact .connects _ was
  | publish port item =>
    obtain ⟨slot, at_port, same⟩ := Option.bind_eq_some_iff.mp stepped
    cases slot with
    | none =>
      cases same
      exact .quiet (.inl rfl) rfl
    | some hub =>
      obtain ⟨subs, was, same⟩ := Option.map_eq_some_iff.mp same
      rw [← same]
      exact .writes item was (.inr ⟨port, rfl, at_port⟩)
  | write hub item =>
    obtain ⟨subs, was, same⟩ := Option.map_eq_some_iff.mp stepped
    rw [← same]
    exact .writes item was (.inl rfl)
  | poll =>
    obtain ⟨-, same⟩ := Option.ite_none_left_eq_some.mp stepped
    cases same
    exact .quiet (.inl rfl) rfl
  | resume =>
    simp only [step] at stepped
    split at stepped
    · contradiction
    · next top =>
      cases stepped
      exact .quiet (.inl rfl) (by simp [Net.frames, Net.setStack, top])
    · next top =>
      rw [← Option.some.inj stepped]
      exact .returns top
  | panic =>
    cases stepped
    exact .unwinds _ (by simp)

/-! ## What the actions write -/

/-- The item that an action writes to a hub: directly, or through a port that is bound to it. -/
def itemTo (hub : HubRef) (s : Net α) : Action α → Option α
  | .write h item => if h = hub then some item else none
  | .publish port item => if (s.publishers[port]?).join = some hub then some item else none
  | _ => none

/-- The items that these actions write to a hub. -/
def written (hub : HubRef) : Net α → List (Action α) → List α
  | _, [] => []
  | s, a :: rest =>
      (itemTo hub s a).toList ++
        match step s a with
        | none => []
        | some (t, _) => written hub t rest

theorem deliver_quiet (s : Net α) (h : HubRef) (subs : List SubRef) (conn : ℕ) :
    (s.deliver h item subs conn).2.filterMap (Obs.writtenTo hub) = [] := by
  have delivers := s.delivers h item subs conn
  generalize s.deliver h item subs conn = result at delivers
  cases delivers with
  | ends => rfl
  | panics => rfl
  | calls => rfl

theorem broadcast_writes (s : Net α) (h : HubRef) (item : α) (subs : List SubRef) :
    (s.broadcast h item subs).2.filterMap (Obs.writtenTo hub) = (if h = hub then some item else none).toList := by
  rw [Net.broadcast, List.filterMap_cons, deliver_quiet, Obs.writtenTo]
  cases (if h = hub then some item else none) with
  | none => rfl
  | some item => rfl

/-- A hub sees what the action writes to it. -/
theorem itemTo_of_step {a : Action α} (stepped : step s a = some (t, out)) :
    out.filterMap (Obs.writtenTo hub) = (itemTo hub s a).toList := by
  cases a with
  | newHub | newPublish | newSubscribe | subscribe =>
    cases stepped
    rfl
  | bind h owner name =>
    simp only [step] at stepped
    split at stepped
    · cases stepped
      rfl
    · cases stepped
      rfl
  | connect h owner name =>
    obtain ⟨subs, -, same⟩ := Option.map_eq_some_iff.mp stepped
    split at same
    · cases same
      rfl
    · cases same
      rfl
  | publish port item =>
    obtain ⟨slot, at_port, same⟩ := Option.bind_eq_some_iff.mp stepped
    rw [itemTo, at_port, Option.join_some]
    cases slot with
    | none =>
      cases same
      rfl
    | some h =>
      obtain ⟨subs, -, same⟩ := Option.map_eq_some_iff.mp same
      obtain rfl := congrArg Prod.snd same
      rw [broadcast_writes]
      simp only [Option.some.injEq]
  | write h item =>
    obtain ⟨subs, -, same⟩ := Option.map_eq_some_iff.mp stepped
    obtain rfl := congrArg Prod.snd same
    rw [broadcast_writes, itemTo]
  | poll =>
    obtain ⟨-, same⟩ := Option.ite_none_left_eq_some.mp stepped
    cases same
    rfl
  | resume =>
    simp only [step] at stepped
    split at stepped
    · contradiction
    · cases stepped
      rfl
    · obtain rfl := congrArg Prod.snd (Option.some.inj stepped)
      rw [deliver_quiet]
      rfl
  | panic =>
    cases stepped
    rfl

theorem written_of_run {actions : List (Action α)} (ran : (machine α).run s actions = some (t, obs)) :
    obs.filterMap (Obs.writtenTo hub) = written hub s actions := by
  induction actions generalizing s obs with
  | nil =>
    cases ran
    rfl
  | cons a rest ih =>
    obtain ⟨u, out, more, stepped, suffix, rfl⟩ := (machine α).run_cons_eq_some_iff.mp ran
    change step s a = some (u, out) at stepped
    rw [List.filterMap_append, itemTo_of_step stepped, ih suffix, written, stepped]

/-- The handler of this connection's subscriber runs, with the item. -/
def Calls (s : Net α) (hub : HubRef) (conn : ℕ) (item : α) : Prop :=
  ∃ subs below sub, s.stack = some ⟨hub, item, subs, conn⟩ :: below ∧ subs[conn]? = some sub ∧
    ((s.hubs[hub]?).bind fun all => all[conn]?) = some sub

/-! ## Broadcasts within broadcasts -/

/-- Of two broadcasts in progress the inner one has not come to the subscriber of the outer one. -/
def Apart (inner outer : Frame α) : Prop :=
  inner.current ≠ outer.current ∧
    (inner.hub = outer.hub → inner.conn < outer.conn ∧ outer.subs.length ≤ inner.subs.length)

structure Nested (s : Net α) : Prop where
  copies : ∀ f ∈ s.frames, ∃ subs, s.hubs[f.hub]? = some subs ∧ f.subs <+: subs
  running : ∀ f ∈ s.frames, f.conn < f.subs.length
  apart : s.frames.Pairwise Apart

/-- Hubs only grow. -/
def Grown (hubs hubs' : List (List SubRef)) : Prop :=
  ∀ (hub : HubRef) subs, hubs[hub]? = some subs → ∃ subs', hubs'[hub]? = some subs' ∧ subs <+: subs'

theorem Grown.refl (hubs : List (List SubRef)) : Grown hubs hubs := fun _ _ was => ⟨_, was, List.prefix_rfl⟩

theorem Grown.snoc (hubs : List (List SubRef)) (more : List SubRef) : Grown hubs (hubs ++ [more]) := by
  intro hub subs was
  refine ⟨subs, ?_, List.prefix_rfl⟩
  rw [List.getElem?_append_left (List.getElem?_eq_some_iff.mp was).1, was]

theorem Grown.set {hubs : List (List SubRef)} {subs : List SubRef} (sub : SubRef) (was : hubs[hub]? = some subs) :
    Grown hubs (hubs.set hub (subs ++ [sub])) := by
  intro other subs' was'
  by_cases same : hub = other
  · subst same
    obtain rfl := Option.some.inj (was.symm.trans was')
    exact ⟨_, List.getElem?_set_self (List.getElem?_eq_some_iff.mp was).1, List.prefix_append ..⟩
  · exact ⟨subs', by rwa [List.getElem?_set_ne same], List.prefix_rfl⟩

theorem Nested.of_suffix (nested : Nested s) (hubs : Grown s.hubs t.hubs) (frames : t.frames <:+ s.frames) :
    Nested t := by
  refine ⟨fun f member => ?_, fun f member => nested.running f (frames.subset member), nested.apart.sublist frames.sublist⟩
  obtain ⟨subs, was, copy⟩ := nested.copies f (frames.subset member)
  obtain ⟨subs', is, more⟩ := hubs _ _ was
  exact ⟨subs', is, copy.trans more⟩

theorem prefix_getElem? {l l' : List SubRef} {i : ℕ} (copy : l <+: l') (bound : i < l.length) : l[i]? = l'[i]? := by
  obtain ⟨rest, rfl⟩ := copy
  exact (List.getElem?_append_left bound).symm

/-- The subscriber that is called next is not one that a broadcast of the same hub is at. -/
theorem Nested.deliver {subs : List SubRef} (nested : Nested s) (copy : ∃ all, s.hubs[hub]? = some all ∧ subs <+: all)
    (ahead : ∀ f ∈ s.frames, f.hub = hub → conn ≤ f.conn ∧ f.subs.length ≤ subs.length) :
    Nested (s.deliver hub item subs conn).1 := by
  have delivers := s.delivers hub item subs conn
  generalize s.deliver hub item subs conn = result at delivers
  cases delivers with
  | ends => exact nested
  | panics => exact nested.of_suffix (.refl _) (unwind_frames _ _)
  | @calls sub next free =>
    refine ⟨?_, ?_, ?_⟩
    · intro f member
      rcases List.mem_cons.mp member with rfl | member
      · exact copy
      · exact nested.copies f member
    · intro f member
      rcases List.mem_cons.mp member with rfl | member
      · exact (List.getElem?_eq_some_iff.mp next).1
      · exact nested.running f member
    · refine List.pairwise_cons.mpr ⟨fun outer member => ⟨?_, fun same => ?_⟩, nested.apart⟩
      · intro current
        exact free outer member (current.symm.trans next)
      · obtain ⟨before, shorter⟩ := ahead outer member same.symm
        refine ⟨lt_of_le_of_ne before fun at_ => ?_, shorter⟩
        -- both copies begin the same list, so the subscriber would be the one that is running
        obtain ⟨all, was, copy⟩ := copy
        obtain ⟨all', was', copy'⟩ := nested.copies outer member
        obtain rfl : all = all' := by
          rw [← same, was] at was'
          exact Option.some.inj was'
        have running := nested.running outer member
        refine free outer member ?_
        rw [Frame.current, prefix_getElem? copy' running, ← at_, ← prefix_getElem? copy (List.getElem?_eq_some_iff.mp next).1]
        exact next

theorem Nested.step {a : Action α} (nested : Nested s) (stepped : step s a = some (t, out)) : Nested t := by
  have moves := moves_of_step stepped
  generalize same : (t, out) = result at moves
  cases moves with
  | quiet hubs frames =>
    cases same
    refine nested.of_suffix ?_ (frames ▸ List.suffix_rfl)
    rcases hubs with hubs | hubs
    · exact hubs ▸ .refl _
    · exact hubs ▸ .snoc _ _
  | unwinds panic =>
    obtain rfl := congrArg Prod.fst same
    exact nested.of_suffix (.refl _) (unwind_frames s panic)
  | connects sub was =>
    cases same
    exact nested.of_suffix (.set sub was) List.suffix_rfl
  | @writes hub subs item was =>
    obtain rfl := congrArg Prod.fst same
    refine nested.deliver ⟨subs, was, List.prefix_rfl⟩ fun f member same => ⟨Nat.zero_le _, ?_⟩
    obtain ⟨subs', is, copy⟩ := nested.copies f member
    rw [same, was] at is
    cases is
    exact copy.length_le
  | @returns f below top =>
    have frames : s.frames = f :: below.filterMap id := by simp [Net.frames, top]
    have apart := frames ▸ nested.apart
    obtain rfl := congrArg Prod.fst same
    have rest : Nested (s.setStack below) := nested.of_suffix (.refl _) (by rw [frames]; exact List.suffix_cons ..)
    refine rest.deliver (nested.copies f (by simp [frames])) fun outer member same => ?_
    obtain ⟨-, both⟩ := (List.pairwise_cons.mp apart).1 outer member
    exact both same.symm

/-! ## The books -/

/-- The broadcast is still to come to this connection. -/
def Frame.waits (hub : HubRef) (conn : ℕ) (f : Frame α) : Bool := f.hub = hub && f.conn < conn && conn < f.subs.length

/-- What the broadcasts in progress are still to deliver to a connection, the outermost first. -/
def pending (frames : List (Frame α)) (hub : HubRef) (conn : ℕ) : List α :=
  (frames.reverse.filter (Frame.waits hub conn)).map Frame.item

theorem pending_cons (f : Frame α) (frames : List (Frame α)) :
    pending (f :: frames) hub conn = pending frames hub conn ++ if f.waits hub conn then [f.item] else [] := by
  rw [pending, List.reverse_cons, List.filter_append, List.map_append, ← pending]
  by_cases waits : f.waits hub conn = true <;> simp [waits]

theorem pending_eq_nil {frames : List (Frame α)} (none : ∀ f ∈ frames, f.waits hub conn = false) :
    pending frames hub conn = [] := by
  have empty : frames.reverse.filter (Frame.waits hub conn) = [] := by
    refine List.filter_eq_nil_iff.mpr fun f member => ?_
    rw [none f (List.mem_reverse.mp member)]
    exact Bool.false_ne_true
  rw [pending, empty]
  rfl

/-- Every item written to a hub since a connection was made has been heard by it, is pending, or is in hand. -/
structure Books (s : Net α) (hand : HubRef → ℕ → List α) (obs : List (Obs α)) : Prop where
  made : ∀ hub conn, .connected hub conn ∈ obs ↔ ∃ subs, s.hubs[hub]? = some subs ∧ conn < subs.length
  known : ∀ hub conn item, .delivered hub conn item ∈ obs → .connected hub conn ∈ obs
  accounts : ∀ hub conn, .connected hub conn ∈ obs →
    heard hub conn obs ++ pending s.frames hub conn ++ hand hub conn = writtenSince hub conn obs

/-- Nothing is in hand. -/
def idle : HubRef → ℕ → List α := fun _ _ => []

/-- A broadcast whose next call is of this connection. -/
def inHand (hub : HubRef) (item : α) (subs : List SubRef) (conn : ℕ) : HubRef → ℕ → List α :=
  fun h c => if h = hub ∧ conn ≤ c ∧ c < subs.length then [item] else []

theorem heard_eq_nil (books : Books s idle obs) (unmade : .connected hub conn ∉ obs) : heard hub conn obs = [] := by
  refine List.filterMap_eq_nil_iff.mpr fun o member => ?_
  cases o with
  | delivered h c item =>
    refine if_neg fun same => unmade ?_
    obtain ⟨rfl, rfl⟩ := same
    exact books.known _ _ _ member
  | _ => rfl

theorem heard_delivered (h : HubRef) (c : ℕ) :
    heard h c (obs ++ [.delivered hub conn item]) = heard h c obs ++ if hub = h ∧ conn = c then [item] else [] := by
  rw [heard, List.filterMap_append, ← heard, List.filterMap_cons, Obs.heardBy]
  split <;> simp_all

theorem Books.deliver {subs : List SubRef} (books : Books s (inHand hub item subs conn) obs)
    (wired : ∃ all, s.hubs[hub]? = some all ∧ subs <+: all) (nested : Nested (s.deliver hub item subs conn).1)
    (calm : ∀ panic, .panicked panic ∉ (s.deliver hub item subs conn).2) :
    Books (s.deliver hub item subs conn).1 idle (obs ++ (s.deliver hub item subs conn).2) := by
  have delivers := s.delivers hub item subs conn
  generalize s.deliver hub item subs conn = result at delivers nested calm ⊢
  cases delivers with
  | ends done =>
    rw [List.append_nil]
    refine ⟨books.made, books.known, fun h c made => ?_⟩
    have accounts := books.accounts h c made
    have none : ¬ (h = hub ∧ conn ≤ c ∧ c < subs.length) := fun ⟨_, before, bound⟩ => by omega
    rwa [inHand, if_neg none] at accounts
  | panics => exact absurd List.mem_cons_self (calm _)
  | @calls sub next free =>
    have bound := (List.getElem?_eq_some_iff.mp next).1
    refine ⟨fun h c => ?_, fun h c i member => ?_, fun h c made => ?_⟩
    · exact (by simp : _ ↔ .connected h c ∈ obs).trans (books.made h c)
    · simp only [List.mem_append, List.mem_singleton, Obs.delivered.injEq, reduceCtorEq, or_false] at member ⊢
      obtain before | ⟨rfl, rfl, rfl⟩ := member
      · exact books.known _ _ _ before
      · obtain ⟨all, was, copy⟩ := wired
        exact (books.made _ _).mpr ⟨all, was, bound.trans_le copy.length_le⟩
    · replace made : .connected h c ∈ obs := by simpa using made
      have accounts := books.accounts h c made
      dsimp only
      rw [writtenSince_append made, frames_setStack_call, ← Net.frames, pending_cons, heard_delivered, ← accounts]
      simp only [List.filterMap_cons, List.filterMap_nil, Obs.writtenTo, idle, List.append_nil, inHand, Frame.waits]
      by_cases same : hub = h
      swap
      · simp [same, Ne.symm same]
      subst same
      rcases Nat.lt_trichotomy conn c with after | rfl | before
      · have early : conn ≠ c := after.ne
        simp [after, early, after.le]
      · -- the outer broadcasts of this hub have called it before
        have called : pending s.frames hub conn = [] := by
          refine pending_eq_nil fun f member => ?_
          have apart := (List.pairwise_cons.mp nested.apart).1 f member
          have at_ (same : f.hub = hub) : conn < f.conn := (apart.2 same.symm).1
          simp only [Frame.waits, Bool.and_eq_false_iff, decide_eq_false_iff_not]
          by_cases same : f.hub = hub
          · exact .inl (.inr (by have := at_ same; omega))
          · exact .inl (.inl same)
        simp [called, bound]
      · have late : conn ≠ c := before.ne'
        have past : ¬ conn < c := by omega
        have far : ¬ conn ≤ c := by omega
        simp [late, past, far]

theorem Books.write {subs : List SubRef} (books : Books s idle obs) (was : s.hubs[hub]? = some subs) (item : α) :
    Books s (inHand hub item subs 0) (obs ++ [.wrote hub item]) := by
  refine ⟨fun h c => ?_, fun h c i member => ?_, fun h c made => ?_⟩
  · exact (by simp : _ ↔ .connected h c ∈ obs).trans (books.made h c)
  · simpa using books.known h c i (by simpa using member)
  · replace made : .connected h c ∈ obs := by simpa using made
    have accounts := books.accounts h c made
    have quiet : heard h c (obs ++ [.wrote hub item]) = heard h c obs := by simp [heard, Obs.heardBy]
    rw [writtenSince_append made, ← accounts, quiet]
    obtain ⟨subs', is, bound⟩ := (books.made h c).mp made
    by_cases same : hub = h
    · subst same
      rw [was] at is
      cases is
      simp [inHand, bound, idle, Obs.writtenTo]
    · simp [inHand, idle, Obs.writtenTo, same, Ne.symm same]

/-- The handler that runs returns, and its broadcast is in hand. -/
theorem Books.return_ {f : Frame α} {below : List (Option (Frame α))} (books : Books s idle obs)
    (top : s.stack = some f :: below) : Books (s.setStack below) (inHand f.hub f.item f.subs (f.conn + 1)) obs := by
  have frames : s.frames = f :: (s.setStack below).frames := by simp [Net.frames, Net.setStack, top]
  refine ⟨books.made, books.known, fun h c made => ?_⟩
  rw [← books.accounts h c made, frames, pending_cons]
  simp only [inHand, Frame.waits, idle, List.append_nil, List.append_assoc, Nat.succ_le_iff, Bool.and_eq_true,
    decide_eq_true_eq, and_assoc, eq_comm (a := h)]

theorem Books.connect {subs : List SubRef} (books : Books s idle obs) (nested : Nested s) (was : s.hubs[hub]? = some subs)
    (sub : SubRef) :
    Books { s with hubs := s.hubs.set hub (subs ++ [sub]) } idle (obs ++ [.connected hub subs.length]) := by
  have bound := (List.getElem?_eq_some_iff.mp was).1
  have unmade : .connected hub subs.length ∉ obs := by
    intro made
    obtain ⟨subs', is, less⟩ := (books.made _ _).mp made
    rw [was] at is
    cases is
    exact less.ne rfl
  refine ⟨fun h c => ?_, fun h c i member => ?_, fun h c made => ?_⟩
  · rw [List.mem_append, books.made h c, List.mem_singleton, Obs.connected.injEq]
    by_cases same : hub = h
    · subst same
      simp only [was, List.getElem?_set_self bound, Option.some.injEq, exists_eq_left', List.length_append, List.length_singleton,
        true_and]
      omega
    · simp [List.getElem?_set_ne same, Ne.symm same]
  · exact List.mem_append_left _ (books.known h c i (by simpa using member))
  · have quiet (h c) : heard h c (obs ++ [.connected hub subs.length]) = heard h c obs := by simp [heard, Obs.heardBy]
    rw [quiet]
    by_cases own : h = hub ∧ c = subs.length
    · obtain ⟨rfl, rfl⟩ := own
      rw [writtenSince_connect unmade, heard_eq_nil books unmade, pending_eq_nil]
      · rfl
      · intro f member
        obtain ⟨all, is, copy⟩ := nested.copies f member
        simp only [Frame.waits, Bool.and_eq_false_iff, decide_eq_false_iff_not]
        by_cases same : f.hub = h
        · rw [same, was] at is
          cases is
          have := copy.length_le
          exact .inr (by omega)
        · exact .inl (.inl same)
    · replace made : .connected h c ∈ obs := by
        refine (List.mem_append.mp made).resolve_right fun new => own ?_
        rw [List.mem_singleton] at new
        cases new
        exact ⟨rfl, rfl⟩
      rw [writtenSince_append made, ← books.accounts h c made]
      simp [Obs.writtenTo, Net.frames]

theorem Books.quiet (books : Books s idle obs) (hubs : t.hubs = s.hubs ∨ t.hubs = s.hubs ++ [[]]) (frames : t.frames = s.frames) :
    Books t idle obs := by
  refine ⟨fun h c => (books.made h c).trans ?_, books.known, fun h c made => frames ▸ books.accounts h c made⟩
  rcases hubs with hubs | hubs
  · rw [hubs]
  · rw [hubs]
    constructor
    · rintro ⟨subs, was, bound⟩
      exact ⟨subs, by rw [List.getElem?_append_left (List.getElem?_eq_some_iff.mp was).1, was], bound⟩
    · rintro ⟨subs, is, bound⟩
      refine ⟨subs, ?_, bound⟩
      rcases Nat.lt_or_ge h s.hubs.length with old | new
      · rwa [List.getElem?_append_left old] at is
      · rw [List.getElem?_append_right new] at is
        obtain ⟨at_, rfl⟩ := List.getElem?_eq_some_iff.mp is
        simp at bound

theorem Books.step {a : Action α} (books : Books s idle obs) (nested : Nested s) (stepped : step s a = some (t, out))
    (calm : ∀ panic, .panicked panic ∉ out) : Books t idle (obs ++ out) := by
  have after := nested.step stepped
  have moves := moves_of_step stepped
  generalize same : (t, out) = result at moves
  cases moves with
  | quiet hubs frames =>
    cases same
    rw [List.append_nil]
    exact books.quiet hubs frames
  | unwinds panic =>
    obtain rfl := congrArg Prod.snd same
    exact absurd List.mem_cons_self (calm panic)
  | connects sub was =>
    cases same
    exact books.connect nested was sub
  | @writes hub subs item was =>
    cases same
    have books := (books.write was item).deliver ⟨subs, was, List.prefix_rfl⟩ after fun panic member =>
      calm panic (List.mem_cons_of_mem _ member)
    rwa [List.append_assoc] at books
  | @returns f below top =>
    obtain ⟨rfl, rfl⟩ := Prod.mk.inj same
    exact (books.return_ top).deliver (nested.copies f (by simp [Net.frames, top])) after calm

theorem nested_of_run {actions : List (Action α)} (ran : (machine α).run .initial actions = some (s, obs)) : Nested s :=
  (machine α).run_invariant_nil (fun s _ => Nested s) ⟨by simp [Net.frames, Net.initial], by simp [Net.frames, Net.initial],
    List.Pairwise.nil⟩ Nested.step ran

theorem books_of_run {actions : List (Action α)} (ran : (machine α).run .initial actions = some (s, obs))
    (calm : ∀ panic, .panicked panic ∉ obs) : Books s idle obs := by
  have initial : Books (.initial : Net α) idle [] := ⟨by simp [Net.initial], by simp, by simp⟩
  refine ((machine α).run_invariant_nil (fun s obs => Nested s ∧ ((∀ panic, .panicked panic ∉ obs) → Books s idle obs))
    ⟨@nested_of_run α .initial [] [] rfl, fun _ => initial⟩ ?_ ran).2 calm
  rintro u v seen out a ⟨nested, books⟩ stepped
  refine ⟨nested.step stepped, fun calm => ?_⟩
  exact (books fun panic member => calm panic (List.mem_append_left _ member)).step nested stepped
    fun panic member => calm panic (List.mem_append_right _ member)

/-! ## Depth -/

/-- Every broadcast in progress is at another subscriber. -/
theorem Nested.depth_le (nested : Nested s) : s.frames.length ≤ s.hubs.flatten.dedup.length := by
  have distinct : (s.frames.map Frame.current).Nodup := by
    rw [List.Nodup, List.pairwise_map]
    exact nested.apart.imp And.left
  have among : s.frames.map Frame.current ⊆ s.hubs.flatten.dedup.map some := by
    intro current running
    obtain ⟨f, member, rfl⟩ := List.mem_map.mp running
    obtain ⟨all, was, copy⟩ := nested.copies f member
    have running := nested.running f member
    rw [Frame.current, List.getElem?_eq_getElem running]
    refine List.mem_map_of_mem (List.mem_dedup.mpr (List.mem_flatten.mpr ⟨all, List.mem_of_getElem? was, ?_⟩))
    exact copy.subset (List.getElem_mem running)
  simpa using (List.subperm_of_subset distinct among).length_le

/-! ## Returns -/

/-- The returns that are left. -/
def Net.left (s : Net α) : ℕ :=
  (s.stack.map fun
    | none => 1
    | some f => f.subs.length - f.conn + 1).sum

theorem left_resume {f : Frame α} {below : List (Option (Frame α))} (top : s.stack = some f :: below) :
    ((s.setStack below).deliver f.hub f.item f.subs (f.conn + 1)).1.left < s.left := by
  have here : s.left = f.subs.length - f.conn + 1 + (s.setStack below).left := by simp [Net.left, Net.setStack, top]
  have delivers := (s.setStack below).delivers f.hub f.item f.subs (f.conn + 1)
  generalize (s.setStack below).deliver f.hub f.item f.subs (f.conn + 1) = result at delivers
  cases delivers with
  | ends =>
    dsimp only
    omega
  | panics =>
    have tail : ((s.setStack below).stack.dropWhile Option.isSome).tail <:+ (s.setStack below).stack :=
      (List.tail_suffix _).trans (List.dropWhile_suffix _)
    obtain ⟨above, split⟩ := tail
    have less (panic) : ((s.setStack below).unwind panic).1.left ≤ (s.setStack below).left := by
      rw [Net.left, Net.left, ← split, List.map_append, List.sum_append]
      exact Nat.le_add_left ..
    exact (less _).trans_lt (by omega)
  | calls next =>
    have bound := (List.getElem?_eq_some_iff.mp next).1
    have after : ((s.setStack below).setStack (some ⟨f.hub, f.item, f.subs, f.conn + 1⟩ :: (s.setStack below).stack)).left =
        f.subs.length - (f.conn + 1) + 1 + (s.setStack below).left := by simp [Net.left, Net.setStack]
    dsimp only
    omega

/-- Handlers that return end what is in progress. -/
theorem exists_returns (s : Net α) :
    ∃ n t out, (machine α).run s (List.replicate n .resume) = some (t, out) ∧ t.stack = [] := by
  induction size : s.left using Nat.strong_induction_on generalizing s with
  | _ size ih =>
    cases top : s.stack with
    | nil => exact ⟨0, s, [], rfl, top⟩
    | cons entry below =>
      have goes (next : Net α × List (Obs α)) (stepped : (machine α).step s .resume = some next)
          (less : next.1.left < s.left) :
          ∃ n t out, (machine α).run s (List.replicate n .resume) = some (t, out) ∧ t.stack = [] := by
        obtain ⟨n, u, later, ran, empty⟩ := ih _ (size ▸ less) next.1 rfl
        exact ⟨n + 1, u, next.2 ++ later,
          (machine α).run_cons_eq_some_iff.mpr ⟨next.1, next.2, later, stepped, ran, rfl⟩, empty⟩
      cases entry with
      | none =>
        refine goes (s.setStack below, []) (by simp only [machine, step, top]) ?_
        simp [Net.left, Net.setStack, top]
      | some f => exact goes _ (by simp only [machine, step, top]) (left_resume top)

/-! ## Every subscriber hears every item once -/

theorem calls_of_deliver {subs all : List SubRef} {h : HubRef} {c : ℕ} {i : α} (was : s.hubs[hub]? = some all)
    (copy : subs <+: all) (entry : .delivered h c i ∈ (s.deliver hub item subs conn).2) :
    Calls (s.deliver hub item subs conn).1 h c i := by
  have delivers := s.delivers hub item subs conn
  generalize s.deliver hub item subs conn = result at delivers entry
  cases delivers with
  | ends => cases entry
  | panics => simp [Net.unwind] at entry
  | @calls sub next free =>
    obtain ⟨rfl, rfl, rfl⟩ := Obs.delivered.inj (List.mem_singleton.mp entry)
    refine ⟨subs, s.stack, sub, rfl, next, ?_⟩
    rw [hubs_setStack, was, Option.bind_some, ← prefix_getElem? copy (List.getElem?_eq_some_iff.mp next).1]
    exact next

/-- An entry of the log is a handler that starts. -/
theorem calls_of_step {a : Action α} (nested : Nested s) (stepped : step s a = some (t, out))
    (entry : .delivered hub conn item ∈ out) : Calls t hub conn item := by
  have moves := moves_of_step stepped
  generalize same : (t, out) = result at moves
  cases moves with
  | quiet =>
    cases same
    cases entry
  | unwinds panic =>
    obtain ⟨rfl, rfl⟩ := Prod.mk.inj same
    simp at entry
  | connects sub was =>
    cases same
    simp at entry
  | writes other was =>
    obtain ⟨rfl, rfl⟩ := Prod.mk.inj same
    exact calls_of_deliver was List.prefix_rfl ((List.mem_cons.mp entry).resolve_left (by simp))
  | @returns f below top =>
    obtain ⟨rfl, rfl⟩ := Prod.mk.inj same
    obtain ⟨all, was, copy⟩ := nested.copies f (by simp [Net.frames, top])
    exact calls_of_deliver was copy entry

/-- Since a connection was made, what reaches its hub is what is written to it. -/
theorem writtenSince_of_connect {before after : List (Action α)} {owner : PortOwner} {name : String}
    (ran : (machine α).run .initial (before ++ .connect hub owner name :: after) = some (t, obs))
    (calm : ∀ panic, .panicked panic ∉ obs) :
    ∃ u v seen subs sub, (machine α).run .initial before = some (u, seen) ∧ u.hubs[hub]? = some subs ∧
      u.sinkOf owner name = .ok sub ∧ v = { u with hubs := u.hubs.set hub (subs ++ [sub]) } ∧
      .connected hub subs.length ∈ obs ∧ writtenSince hub subs.length obs = written hub v after := by
  obtain ⟨u, seen, rest, prior, suffix, rfl⟩ := (machine α).run_append_eq_some_iff.mp ran
  obtain ⟨v, out, later, stepped, following, rfl⟩ := (machine α).run_cons_eq_some_iff.mp suffix
  obtain ⟨subs, was, same⟩ := Option.map_eq_some_iff.mp stepped
  split at same
  · cases same
    exact absurd (List.mem_append_right _ (List.mem_append_left _ List.mem_cons_self)) (calm _)
  · next sub sinks =>
    cases same
    have books := books_of_run prior fun panic member => calm panic (List.mem_append_left _ member)
    have unmade : .connected hub subs.length ∉ seen := by
      intro made
      obtain ⟨all, is, bound⟩ := (books.made _ _).mp made
      obtain rfl := Option.some.inj (was.symm.trans is)
      exact lt_irrefl _ bound
    refine ⟨u, _, seen, subs, sub, prior, was, sinks, rfl, by simp, ?_⟩
    rw [← List.append_assoc, writtenSince_append (List.mem_append_right _ List.mem_cons_self), writtenSince_connect unmade,
      written_of_run following, List.nil_append]

/-- In any run no more broadcasts are in progress than there are subscribers, they end when the handlers return, and
every delivery starts the handler of its connection's subscriber. Without a panic every connect action makes a
connection, and what that connection has heard is what the actions after it have written to its hub, as far as the
broadcasts in progress have come. -/
theorem hub_exactly_once {actions : List (Action α)} (ran : (machine α).run .initial actions = some (s, obs)) :
    s.frames.length ≤ s.hubs.flatten.dedup.length ∧
      (∃ n t out, (machine α).run s (List.replicate n .resume) = some (t, out) ∧ t.stack = []) ∧
      (∀ a t out hub conn item, step s a = some (t, out) → .delivered hub conn item ∈ out → Calls t hub conn item) ∧
      ((∀ panic, .panicked panic ∉ obs) → ∀ before hub owner name after,
        actions = before ++ .connect hub owner name :: after →
        ∃ u v seen subs sub, (machine α).run .initial before = some (u, seen) ∧ u.hubs[hub]? = some subs ∧
          u.sinkOf owner name = .ok sub ∧ v = { u with hubs := u.hubs.set hub (subs ++ [sub]) } ∧
          heard hub subs.length obs <+: written hub v after ∧
          (s.stack = [] → heard hub subs.length obs = written hub v after)) := by
  have nested := nested_of_run ran
  refine ⟨nested.depth_le, exists_returns s, fun a t out hub conn item stepped => calls_of_step nested stepped, ?_⟩
  rintro calm before hub owner name after rfl
  obtain ⟨u, v, seen, subs, sub, prior, was, sinks, next, made, same⟩ := writtenSince_of_connect ran calm
  have accounts := (books_of_run ran calm).accounts hub subs.length made
  rw [idle, List.append_nil, same] at accounts
  refine ⟨u, v, seen, subs, sub, prior, was, sinks, next, accounts ▸ List.prefix_append .., fun rest => ?_⟩
  rw [← accounts, Net.frames, rest]
  exact (List.append_nil _).symm

/-- A monitor writes to a relay and to a scoreboard, and the relay to the scoreboard. -/
def wiring : List (Action ℕ) :=
  let relay : PortOwner := ⟨"Relay", [("input", .subscribe 0)]⟩
  let scoreboard : PortOwner := ⟨"Scoreboard", [("input", .subscribe 1)]⟩
  [.newHub, .newHub, .newPublish, .newSubscribe, .newSubscribe, .subscribe 0 5, .subscribe 1 7,
    .bind 0 ⟨"Monitor", [("ap", .publish 0)]⟩ "ap", .connect 0 relay "input", .connect 0 scoreboard "input",
    .connect 1 scoreboard "input"]

def traffic : List (Action ℕ) := [.publish 0 9, .write 1 90, .resume, .resume, .resume]

theorem hub_exactly_once_relay :
    ∃ s obs, (machine ℕ).run .initial (wiring ++ traffic) = some (s, obs) ∧ heard 0 0 obs = [9] ∧ heard 0 1 obs = [9] ∧
      heard 1 0 obs = [90] ∧ ∃ u v seen subs sub, (machine ℕ).run .initial (wiring.take 9) = some (u, seen) ∧
        u.hubs[0]? = some subs ∧ v = { u with hubs := u.hubs.set 0 (subs ++ [sub]) } ∧
        heard 0 subs.length obs = written 0 v (wiring.drop 10 ++ traffic) := by
  refine ⟨_, _, rfl, rfl, rfl, rfl, ?_⟩
  obtain ⟨-, -, -, hears⟩ := @hub_exactly_once ℕ _ _ (wiring ++ traffic) rfl
  obtain ⟨u, v, seen, subs, sub, prior, was, -, next, -, all⟩ := hears (by simp) (wiring.take 9) 0
    ⟨"Scoreboard", [("input", .subscribe 1)]⟩ "input" (wiring.drop 10 ++ traffic) rfl
  exact ⟨u, v, seen, subs, sub, prior, was, next, all rfl⟩

/-! ## Wiring without cycles -/

/-- Every subscriber of the hub ranks lower than the one whose handler runs. -/
def Below (rank : SubRef → ℕ) (s : Net α) (hub : HubRef) : Prop :=
  ∀ f ∈ s.frames.head?, ∀ running ∈ f.current, ∀ sub ∈ (s.hubs[hub]?).getD [], rank sub < rank running

/-- Handlers only write to lower subscribers. -/
def Descends (rank : SubRef → ℕ) (s : Net α) : Action α → Prop
  | .write hub _ => Below rank s hub
  | .publish port _ => ∀ hub ∈ (s.publishers[port]?).join, Below rank s hub
  | _ => True

instance (rank : SubRef → ℕ) (s : Net α) (hub : HubRef) : Decidable (Below rank s hub) :=
  inferInstanceAs (Decidable (∀ f ∈ s.frames.head?, ∀ running ∈ f.current, ∀ sub ∈ (s.hubs[hub]?).getD [], _))

instance (rank : SubRef → ℕ) (s : Net α) (a : Action α) : Decidable (Descends rank s a) := by
  cases a <;> unfold Descends <;> infer_instance

/-- The broadcasts in progress go down. -/
def Ordered (rank : SubRef → ℕ) (s : Net α) : Prop :=
  s.frames.Pairwise fun inner outer => ∀ sub ∈ inner.subs, ∀ running ∈ outer.current, rank sub < rank running

variable {rank : SubRef → ℕ}

theorem Ordered.deliver {subs : List SubRef} (ordered : Ordered rank s)
    (lower : ∀ f ∈ s.frames, ∀ sub ∈ subs, ∀ running ∈ f.current, rank sub < rank running) :
    Ordered rank (s.deliver hub item subs conn).1 ∧ ∀ sub, .panicked (.borrowed sub) ∉ (s.deliver hub item subs conn).2 := by
  have delivers := s.delivers hub item subs conn
  generalize s.deliver hub item subs conn = result at delivers
  cases delivers with
  | ends => exact ⟨ordered, by simp⟩
  | panics next busy =>
    obtain ⟨f, member, running⟩ := busy
    exact absurd (lower f member _ (List.mem_of_getElem? next) _ running) (Nat.lt_irrefl _)
  | calls => exact ⟨List.pairwise_cons.mpr ⟨fun outer member => lower outer member, ordered⟩, by simp⟩

/-- What is lower than the innermost broadcast is lower than all of them. -/
theorem Ordered.below (ordered : Ordered rank s) (nested : Nested s) (below : Below rank s hub) {subs : List SubRef}
    (was : s.hubs[hub]? = some subs) :
    ∀ f ∈ s.frames, ∀ sub ∈ subs, ∀ running ∈ f.current, rank sub < rank running := by
  intro f member sub heard running at_
  unfold Below at below
  rw [was] at below
  rcases frames : s.frames with - | ⟨top, rest⟩
  · rw [frames] at member
    cases member
  rw [frames] at member below
  obtain ⟨highest, is⟩ : ∃ highest, top.current = some highest :=
    ⟨_, List.getElem?_eq_getElem (nested.running top (frames ▸ List.mem_cons_self))⟩
  have first := below top rfl highest is sub heard
  rcases List.mem_cons.mp member with rfl | deeper
  · rw [at_] at is
    cases is
    exact first
  · rw [Ordered, frames] at ordered
    exact first.trans ((List.pairwise_cons.mp ordered).1 f deeper highest (List.mem_of_getElem? is) running at_)

theorem Ordered.step {a : Action α} (ordered : Ordered rank s) (nested : Nested s) (descends : Descends rank s a)
    (stepped : step s a = some (t, out)) : Ordered rank t ∧ ∀ sub, .panicked (.borrowed sub) ∉ out := by
  have moves := moves_of_step stepped
  generalize same : (t, out) = result at moves
  cases moves with
  | quiet hubs frames =>
    cases same
    exact ⟨by rwa [Ordered, frames], by simp⟩
  | unwinds panic unborrowed =>
    obtain ⟨rfl, rfl⟩ := Prod.mk.inj same
    refine ⟨List.Pairwise.sublist (unwind_frames s panic).sublist ordered, fun sub member => ?_⟩
    rw [List.mem_singleton, Obs.panicked.injEq] at member
    exact unborrowed sub member.symm
  | connects sub was =>
    cases same
    exact ⟨ordered, by simp⟩
  | @writes hub subs item was asked =>
    obtain ⟨rfl, rfl⟩ := Prod.mk.inj same
    have below : Below rank s hub := by
      rcases asked with rfl | ⟨port, rfl, at_port⟩
      · exact descends
      · exact descends hub (by simp [at_port])
    obtain ⟨ordered, calm⟩ := @Ordered.deliver _ s hub 0 item _ _ ordered (ordered.below nested below was)
    exact ⟨ordered, fun sub member => calm sub ((List.mem_cons.mp member).resolve_left (by simp))⟩
  | @returns f below top =>
    obtain ⟨rfl, rfl⟩ := Prod.mk.inj same
    have frames : s.frames = f :: (s.setStack below).frames := by simp [Net.frames, Net.setStack, top]
    rw [Ordered, frames] at ordered
    obtain ⟨lower, rest⟩ := List.pairwise_cons.mp ordered
    exact Ordered.deliver rest lower

/-- If the subscribers can be ranked so that a handler only ever writes to hubs whose subscribers all rank lower, no
delivery finds its subscriber borrowed, in any run. -/
theorem acyclic_never_reentered {actions : List (Action α)}
    (ran : ((machine α).restrict (Descends rank)).run .initial actions = some (s, obs)) (sub : SubRef) :
    .panicked (.borrowed sub) ∉ obs := by
  refine ((Machine.run_invariant_nil _ (fun s obs => Nested s ∧ Ordered rank s ∧ ∀ sub, .panicked (.borrowed sub) ∉ obs)
    ⟨@nested_of_run α .initial [] [] rfl, List.Pairwise.nil, by simp⟩ ?_ ran).2).2 sub
  rintro u v seen out a ⟨nested, ordered, calm⟩ stepped
  obtain ⟨descends, stepped⟩ := (machine α).restrict_step_eq_some_iff.mp stepped
  obtain ⟨ordered, quiet⟩ := ordered.step nested descends stepped
  refine ⟨nested.step stepped, ordered, fun sub member => ?_⟩
  rcases List.mem_append.mp member with before | now
  · exact calm sub before
  · exact quiet sub now

/-- The relay ranks higher than the scoreboard. -/
theorem acyclic_never_reentered_relay :
    ∃ s obs, ((machine ℕ).restrict (Descends fun sub => if sub = 5 then 1 else 0)).run .initial (wiring ++ traffic) =
      some (s, obs) ∧ ∀ sub, .panicked (.borrowed sub) ∉ obs := by
  refine ⟨_, _, rfl, ?_⟩
  exact @acyclic_never_reentered ℕ _ _ (fun sub => if sub = 5 then 1 else 0) (wiring ++ traffic) rfl

end Rustdv.Analysis
