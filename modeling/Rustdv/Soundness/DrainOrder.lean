import Rustdv.Model.Drain
import Rustdv.Soundness.WriteCoalescing
import Rustdv.ToMathlib.Backlog

/-! # Sets made while the buffer is drained

A set in the ReadWrite phase goes straight to the simulator. While the buffer is drained it can go
ahead of an older write to the same signal, which the drain then applies after it. At the end of the
callback every signal holds its last set in program order exactly when no such older write undoes a
newer set that is not made again.
-/

namespace Rustdv.Phase.Drain

open Coalesce Backlog

variable {σ Val : Type*} {env : Simulator σ Val}

/-- The write that a setter makes in the ReadWrite phase. -/
def made : Action → Option (WriteTarget × WriteVal)
  | .set call | .setNow call => if call.interiorNul then none else some (call.target, call.val)
  | _ => none

/-- What a reaction is for the drain. -/
def event : Reaction → Option (Backlog.Event WriteTarget WriteVal)
  | .next => some .next
  | .hub a => (made a).map fun w => .write w.1 w.2

/-- The sets that tasks make during the rest of a callback, in order. -/
def sets (inner : List Reaction) : List (WriteTarget × WriteVal) := fresh (inner.filterMap event)

/-- The rest of a callback, for the drain; entering it makes the first put. -/
def events (inner : List Reaction) : List (Backlog.Event WriteTarget WriteVal) := .next :: inner.filterMap event

/-- Every signal holds what the last of the sets leaves, and a signal not set what it held. -/
def LastSet (env : Simulator σ Val) (before after : σ) (sets : List (WriteTarget × WriteVal)) : Prop :=
  ∀ target, env.value after target = (lastValue target sets).elim (env.value before target) fun val =>
    env.value (effect env before target val) target

/-- A buffered write applied after the last set that tasks made of its signal leaves the same as that set. -/
def Harmless (env : Simulator σ Val) (s : Hub σ) (inner : List Reaction) : Prop :=
  ∀ target old new, Overtakes s.writes (events inner) target old new →
    env.value (effect env s.sim target old) target = env.value (effect env s.sim target new) target

section Steps

variable {s t : Draining σ} {r : Reaction} {obs out : List Obs}

/-- Everything a reaction can do. -/
theorem step_cases (stepped : step env s r = some (t, out)) :
    (∃ left, r = .next ∧ s.remaining = some left ∧ proceed env s.hub left = (t, out)) ∨
    (r = .hub (.fire .readWrite) ∧ s.hub.inside = none ∧ t = (proceed env (taken s.hub) s.hub.writes).1 ∧
      out = .callback .readWrite :: (proceed env (taken s.hub) s.hub.writes).2) ∨
    ∃ a hub, r = .hub a ∧ a ≠ .fire .readWrite ∧ (a = .finish → s.remaining = none) ∧
      Phase.step env s.hub a = some (hub, out) ∧ t = { s with hub := hub } := by
  have passed {a : Action} (other : a ≠ .fire .readWrite) (last : a = .finish → s.remaining = none)
      (accepted : pass env s a = some (t, out)) : ∃ b hub, Reaction.hub a = .hub b ∧ b ≠ .fire .readWrite ∧
        (b = .finish → s.remaining = none) ∧ Phase.step env s.hub b = some (hub, out) ∧ t = { s with hub := hub } := by
    obtain ⟨⟨hub, out'⟩, moved, same⟩ := Option.map_eq_some_iff.mp accepted
    cases same
    exact ⟨a, hub, rfl, other, last, moved, rfl⟩
  cases r with
  | next =>
    obtain ⟨left, pending, same⟩ := Option.map_eq_some_iff.mp stepped
    exact .inl ⟨left, rfl, pending, same⟩
  | hub a =>
    cases a with
    | fire kind =>
      cases kind with
      | readWrite =>
        obtain ⟨⟨-, outside⟩, same⟩ := Option.ite_none_right_eq_some.mp stepped
        cases same
        exact .inr (.inl ⟨rfl, outside, rfl, rfl⟩)
      | _ => exact .inr (.inr (passed (by simp) (by simp) stepped))
    | finish =>
      obtain ⟨done, accepted⟩ := Option.ite_none_right_eq_some.mp stepped
      exact .inr (.inr (passed (by simp) (fun _ => Option.isNone_iff_eq_none.mp done) accepted))
    | _ => exact .inr (.inr (passed (by simp) (by simp) stepped))

theorem fireWaiters_frame (s : Hub σ) (kind : PhaseKind) :
    (fireWaiters s kind).1.sim = s.sim ∧ (fireWaiters s kind).1.phase = s.phase ∧
      (fireWaiters s kind).1.inside = s.inside ∧ (fireWaiters s kind).1.writes = s.writes := by
  rw [fireWaiters, fireAll_state]
  exact ⟨rfl, rfl, rfl, rfl⟩

theorem proceed_cons (hub : Hub σ) {w : WriteTarget × WriteVal} (valid : Valid w) (rest : List (WriteTarget × WriteVal)) :
    proceed env hub (w :: rest) =
      (⟨{ hub with sim := effect env hub.sim w.1 w.2 }, some rest⟩, [.applied w.1 w.2]) := by
  have first : Valid (w.1, w.2) := valid
  simp only [proceed, apply_of_valid first]

variable (env) in
/-- The drain goes on: one write is put, or the waits are fired. -/
theorem proceed_frame (hub : Hub σ) {left : List (WriteTarget × WriteVal)} (valid : ∀ w ∈ left, Valid w) :
    (proceed env hub left).1.hub.sim = replay (effect env) hub.sim left.head?.toList ∧
      (proceed env hub left).1.hub.phase = hub.phase ∧ (proceed env hub left).1.hub.inside = hub.inside ∧
      (proceed env hub left).1.hub.writes = hub.writes ∧
      (proceed env hub left).1.remaining = if left = [] then none else some left.tail := by
  cases left with
  | nil =>
    obtain ⟨sim, phase, inside, writes⟩ := fireWaiters_frame hub .readWrite
    exact ⟨sim, phase, inside, writes, rfl⟩
  | cons w rest =>
    rw [proceed_cons hub (valid w List.mem_cons_self)]
    exact ⟨rfl, rfl, rfl, rfl, rfl⟩

variable (env) in
/-- What the drain shows is no part of the buffer's account. -/
theorem proceed_account (hub : Hub σ) {left : List (WriteTarget × WriteVal)} (valid : ∀ w ∈ left, Valid w)
    (pending : List (WriteTarget × WriteVal)) : (proceed env hub left).2.foldl account pending = pending := by
  refine foldl_account_quiet pending ?_
  intro o member
  cases left with
  | nil => rcases fireAll_out _ _ member with ⟨fut, rfl⟩ | ⟨waker, rfl⟩ <;> rfl
  | cons w rest =>
    rw [proceed_cons hub (valid w List.mem_cons_self), List.mem_singleton] at member
    rw [member]
    rfl

/-- What holds in every state of every run. -/
structure Kept (s : Draining σ) (obs : List Obs) : Prop where
  phase : s.hub.phase = phaseOf s.hub.inside
  buffer : Buffer s.hub obs
  /-- What remains to be applied can be applied. -/
  valid : ∀ left, s.remaining = some left → ∀ w ∈ left, Valid w

theorem Kept.step (kept : Kept s obs) (stepped : step env s r = some (t, out)) : Kept t (obs ++ out) := by
  obtain ⟨phase, buffer, valid⟩ := kept
  have later {left left' : List (WriteTarget × WriteVal)} (applies : ∀ w ∈ left, Valid w)
      (same : (if left = [] then none else some left.tail) = some left') : ∀ w ∈ left', Valid w := by
    split_ifs at same
    cases same
    exact fun w member => applies w (List.mem_of_mem_tail member)
  rcases step_cases stepped with ⟨left, -, pending, same⟩ | ⟨-, outside, rfl, rfl⟩ | ⟨a, hub, -, other, -, moved, rfl⟩
  · have applies := valid left pending
    obtain ⟨-, phase', inside, writes, rest⟩ := proceed_frame env s.hub applies
    have silent := proceed_account env s.hub applies (bufferedSince obs)
    rw [same] at phase' inside writes rest silent
    rw [← bufferedSince_append] at silent
    refine ⟨by rw [phase', inside, phase], ⟨by rw [silent, writes, buffer.writes], ?_⟩, ?_⟩
    · rw [silent]
      exact buffer.valid
    · exact fun left' pending' => later applies (rest.symm.trans pending')
  · have applies := buffer.valid_writes
    obtain ⟨-, phase', inside, writes, rest⟩ := proceed_frame env (taken s.hub) applies
    have closed : bufferedSince (obs ++ .callback .readWrite :: (proceed env (taken s.hub) s.hub.writes).2) = [] := by
      rw [bufferedSince_append]
      exact proceed_account env (taken s.hub) applies []
    refine ⟨by rw [phase', inside]; rfl, ⟨by rw [closed, writes]; rfl, by simp [closed]⟩, ?_⟩
    exact fun left' pending' => later applies (rest.symm.trans pending')
  · have transition := transition_of_step moved
    exact ⟨transition.phase buffer phase, transition.buffer buffer phase, valid⟩

theorem kept_of_run {sim : σ} {actions : List Reaction}
    (ran : (machine env).run (initial sim) actions = some (s, obs)) : Kept s obs :=
  (machine env).run_invariant_nil Kept ⟨rfl, buffer_init sim, by simp [initial]⟩
    (fun kept stepped => kept.step stepped) ran

/-- What tasks do during the callback: a setter puts its write, nothing else touches the simulator. -/
theorem task_frame {hub hub' : Hub σ} {a : Action} (inside : hub.inside = some .readWrite)
    (phase : hub.phase = .readWrite) (going : a ≠ .finish) (moved : Phase.step env hub a = some (hub', out)) :
    hub'.sim = replay (effect env) hub.sim (made a).toList ∧ hub'.phase = .readWrite ∧
      hub'.inside = some .readWrite := by
  have write (call : SetCall) (clean : call.interiorNul = false) :
      apply env hub call.target call.val =
        ({ hub with sim := effect env hub.sim call.target call.val }, [.applied call.target call.val]) :=
    apply_of_valid (call.valid clean)
  cases a with
  | make kind =>
    cases moved
    exact ⟨rfl, phase, inside⟩
  | poll fut waker =>
    obtain ⟨⟨kind, shared⟩, -, same⟩ := Option.map_eq_some_iff.mp moved
    obtain rfl : (poll hub fut ⟨kind, shared⟩ waker).1 = hub' := congrArg Prod.fst same
    cases shared with
    | none =>
      simp only [poll, register]
      split_ifs <;> exact ⟨rfl, phase, inside⟩
    | some cell =>
      simp only [poll]
      split_ifs <;> exact ⟨rfl, phase, inside⟩
  | drop fut =>
    obtain ⟨state, -, same⟩ := Option.map_eq_some_iff.mp moved
    cases same
    exact ⟨rfl, phase, inside⟩
  | set call =>
    cases nul : call.interiorNul with
    | true =>
      simp only [Phase.step, Phase.set, nul, phase, ↓reduceIte, reduceCtorEq, Option.some.injEq, Prod.mk.injEq] at moved
      rw [← moved.1, made, nul]
      exact ⟨rfl, phase, inside⟩
    | false =>
      simp only [Phase.step, Phase.set, nul, schedule, phase, write call nul, Bool.false_eq_true, ↓reduceIte,
        Option.some.injEq, Prod.mk.injEq] at moved
      rw [← moved.1, made, nul]
      exact ⟨rfl, rfl, inside⟩
  | setNow call =>
    cases nul : call.interiorNul with
    | true =>
      simp only [Phase.step, Phase.setNow, nul, phase, ↓reduceIte, reduceCtorEq, Option.some.injEq, Prod.mk.injEq] at moved
      rw [← moved.1, made, nul]
      exact ⟨rfl, phase, inside⟩
    | false =>
      simp only [Phase.step, Phase.setNow, nul, phase, write call nul, Bool.false_eq_true, reduceCtorEq, ↓reduceIte,
        Option.some.injEq, Prod.mk.injEq] at moved
      rw [← moved.1, made, nul]
      exact ⟨rfl, rfl, inside⟩
  | fire kind =>
    obtain ⟨⟨-, outside⟩, -⟩ := Option.ite_none_right_eq_some.mp moved
    rw [inside] at outside
    cases outside
  | finish => exact absurd rfl going

end Steps

section Undisturbed

variable (env) in
theorem run_proceed (hub : Hub σ) (left : List (WriteTarget × WriteVal)) :
    ∃ more, (machine env).run (proceed env hub left).1 (List.replicate left.length .next) =
        some (⟨(fireWaiters (applyAll env hub left).1 .readWrite).1, none⟩, more) ∧
      (proceed env hub left).2 ++ more =
        (applyAll env hub left).2 ++ (fireWaiters (applyAll env hub left).1 .readWrite).2 := by
  induction left generalizing hub with
  | nil => exact ⟨[], rfl, List.append_nil _⟩
  | cons w rest ih =>
    rcases applied : apply env hub w.1 w.2 with ⟨mid, out⟩
    obtain ⟨more, ran, shown⟩ := ih mid
    have put : proceed env hub (w :: rest) = (⟨mid, some rest⟩, out) := by simp only [proceed, applied]
    have all : applyAll env hub (w :: rest) = ((applyAll env mid rest).1, out ++ (applyAll env mid rest).2) := by
      simp only [applyAll, applied]
    have next : (machine env).step ⟨mid, some rest⟩ .next = some (proceed env mid rest) := rfl
    rw [put, all]
    refine ⟨(proceed env mid rest).2 ++ more, ?_, ?_⟩
    · rw [List.length_cons, List.replicate_succ, (machine env).run_cons_eq_some_iff]
      exact ⟨_, _, more, next, ran, rfl⟩
    · rw [shown, List.append_assoc]

/-- A drain without reactions is the hub's callback. -/
theorem run_undisturbed {s : Hub σ} (armed : s.cb .readWrite = true) (outside : s.inside = none) :
    (machine env).run ⟨s, none⟩ (.hub (.fire .readWrite) :: List.replicate s.writes.length .next) =
      some (⟨(fire env s .readWrite).1, none⟩, (fire env s .readWrite).2) := by
  have entered : (machine env).step ⟨s, none⟩ (.hub (.fire .readWrite)) = some (enter env s) :=
    if_pos ⟨armed, outside⟩
  obtain ⟨more, ran, shown⟩ := run_proceed env (taken s) s.writes
  rw [(machine env).run_cons_eq_some_iff]
  refine ⟨_, _, more, entered, ran, ?_⟩
  exact congrArg (Obs.callback .readWrite :: ·) shown.symm

end Undisturbed

section Callback

variable {s t : Draining σ} {obs out : List Obs}

/-- Where the callback stands after these events, with this backlog and this simulator at its start. -/
structure Standing (env : Simulator σ Val) (sim : σ) (backlog : List (WriteTarget × WriteVal))
    (events : List (Backlog.Event WriteTarget WriteVal)) (s : Draining σ) : Prop where
  inside : s.hub.inside = some .readWrite
  phase : s.hub.phase = .readWrite
  sim : s.hub.sim = replay (effect env) sim (puts backlog events)
  remaining : s.remaining =
    if nexts events ≤ backlog.length then some (backlog.drop (nexts events)) else none

theorem replay_append (sim : σ) (first second : List (WriteTarget × WriteVal)) :
    replay (effect env) sim (first ++ second) = replay (effect env) (replay (effect env) sim first) second :=
  List.foldl_append

/-- Going on with the drain performs the next write of the backlog. -/
theorem Standing.proceed {hub : Hub σ} {sim : σ} {backlog : List (WriteTarget × WriteVal)}
    {events : List (Backlog.Event WriteTarget WriteVal)} (valid : ∀ w ∈ backlog, Valid w)
    (inside : hub.inside = some .readWrite) (phase : hub.phase = .readWrite)
    (same : hub.sim = replay (effect env) sim (puts backlog events)) (pending : nexts events ≤ backlog.length) :
    Standing env sim backlog (events ++ [.next]) (proceed env hub (backlog.drop (nexts events))).1 := by
  obtain ⟨sim', phase', inside', -, rest⟩ := proceed_frame env hub
    fun w member => valid w (List.mem_of_mem_drop member)
  have count : nexts (events ++ [.next]) = nexts events + 1 := nexts_append ..
  refine ⟨inside'.trans inside, phase'.trans phase, ?_, ?_⟩
  · rw [sim', same, puts_append, puts_next, replay_append]
  · rw [rest, count, List.tail_drop]
    simp only [List.drop_eq_nil_iff]
    split_ifs with none more more
    · omega
    · rfl
    · rfl
    · omega

/-- Tasks perform fresh writes. -/
theorem Standing.task {sim : σ} {backlog : List (WriteTarget × WriteVal)}
    {events : List (Backlog.Event WriteTarget WriteVal)} {a : Action} {hub : Hub σ}
    (standing : Standing env sim backlog events s) (going : a ≠ .finish)
    (moved : Phase.step env s.hub a = some (hub, out)) :
    Standing env sim backlog (events ++ (event (.hub a)).toList) { s with hub := hub } := by
  obtain ⟨inside, phase, same, remaining⟩ := standing
  obtain ⟨sim', phase', inside'⟩ := task_frame inside phase going moved
  have performed : puts backlog (events ++ (event (.hub a)).toList) = puts backlog events ++ (made a).toList := by
    rw [puts_append]
    cases put : made a with
    | none => simp [event, put, puts]
    | some w => simp [event, put, puts]
  have count : nexts (events ++ (event (.hub a)).toList) = nexts events := by
    rw [nexts_append]
    cases put : made a with
    | none => simp [event, put, nexts]
    | some w => simp [event, put, nexts, Event.isNext]
  refine ⟨inside', phase', ?_, ?_⟩
  · rw [performed, replay_append, ← same]
    exact sim'
  · rw [count]
    exact remaining

theorem Standing.step {sim : σ} {backlog : List (WriteTarget × WriteVal)}
    {events : List (Backlog.Event WriteTarget WriteVal)} {r : Reaction} (valid : ∀ w ∈ backlog, Valid w)
    (standing : Standing env sim backlog events s) (going : r ≠ .hub .finish)
    (stepped : step env s r = some (t, out)) : Standing env sim backlog (events ++ (event r).toList) t := by
  obtain ⟨inside, phase, same, remaining⟩ := id standing
  rcases step_cases stepped with ⟨left, rfl, pending, moved⟩ | ⟨rfl, outside, -⟩ | ⟨a, hub, rfl, -, -, moved, rfl⟩
  · rw [remaining] at pending
    split_ifs at pending with more
    cases pending
    have next := Standing.proceed valid inside phase same more
    rw [moved] at next
    exact next
  · rw [inside] at outside
    cases outside
  · exact standing.task (fun same => going (congrArg _ same)) moved

/-- When the callback returns, everything in the backlog has been applied. -/
theorem Standing.finished {sim : σ} {backlog : List (WriteTarget × WriteVal)}
    {events : List (Backlog.Event WriteTarget WriteVal)} {inner : List Reaction} (valid : ∀ w ∈ backlog, Valid w)
    (standing : Standing env sim backlog events s) (single : .hub .finish ∉ inner)
    (ran : (machine env).run s (inner ++ [.hub .finish]) = some (t, out)) :
    t.hub.sim = replay (effect env) sim (puts backlog (events ++ inner.filterMap event)) ∧
      backlog.length ≤ nexts (events ++ inner.filterMap event) := by
  induction inner generalizing s events out with
  | nil =>
    rw [List.nil_append, (machine env).run_singleton] at ran
    obtain ⟨inside, -, same, remaining⟩ := standing
    rw [List.filterMap_nil, List.append_nil]
    have stepped : Drain.step env s (.hub .finish) = some (t, out) := ran
    rcases step_cases stepped with ⟨left, wrong, -⟩ | ⟨wrong, -⟩ | ⟨a, hub, last, -, done, moved, rfl⟩
    · cases wrong
    · cases wrong
    · cases last
      rw [done rfl] at remaining
      simp only [Phase.step, inside, Option.map_some, finish, Option.some.injEq, Prod.mk.injEq] at moved
      rw [← moved.1]
      refine ⟨same, ?_⟩
      split_ifs at remaining with more
      omega
  | cons r rest ih =>
    obtain ⟨mid, first, later, stepped, suffix, rfl⟩ := (machine env).run_cons_eq_some_iff.mp ran
    obtain ⟨going, single'⟩ := List.ne_and_not_mem_of_not_mem_cons single
    have next := standing.step valid (Ne.symm going) stepped
    have whole : events ++ (r :: rest).filterMap event = events ++ (event r).toList ++ rest.filterMap event := by
      rw [List.append_assoc]
      cases kind : event r with
      | none => rw [List.filterMap_cons_none kind]; rfl
      | some e => rw [List.filterMap_cons_some kind]; rfl
    rw [whole]
    exact ih next single' suffix

theorem valid_of_made {a : Action} {w : WriteTarget × WriteVal} (write : made a = some w) : Valid w := by
  cases a with
  | set call | setNow call =>
    simp only [made] at write
    split_ifs at write with nul
    cases write
    exact call.valid (by simpa using nul)
  | _ => cases write

theorem valid_of_mem_sets {inner : List Reaction} {w : WriteTarget × WriteVal} (member : w ∈ sets inner) : Valid w := by
  obtain ⟨e, inside, written⟩ := List.mem_filterMap.mp member
  obtain ⟨r, -, same⟩ := List.mem_filterMap.mp inside
  cases r with
  | next =>
    cases same
    cases written
  | hub a =>
    obtain ⟨w', write, rfl⟩ := Option.map_eq_some_iff.mp same
    cases written
    exact valid_of_made write

/-- At the end of every ReadWrite callback of every run, every signal holds its last set in program order
exactly when no older write that is applied after the last set of its signal undoes it. -/
theorem last_set_iff_harmless {sim : σ} {actions inner : List Reaction}
    (ran : (machine env).run (initial sim) actions = some (s, obs))
    (callback : (machine env).run s (.hub (.fire .readWrite) :: (inner ++ [.hub .finish])) = some (t, out))
    (single : .hub .finish ∉ inner) :
    LastSet env s.hub.sim t.hub.sim (bufferedSince obs ++ sets inner) ↔ Harmless env s.hub inner := by
  obtain ⟨-, buffer, -⟩ := kept_of_run ran
  have valid := buffer.valid_writes
  have nodup : (s.hub.writes.map Prod.fst).Nodup := buffer.writes ▸ nodup_keys_coalesce _
  obtain ⟨mid, first, later, entered, suffix, -⟩ := (machine env).run_cons_eq_some_iff.mp callback
  have accepted : step env s (.hub (.fire .readWrite)) = some (mid, first) := entered
  have standing : Standing env s.hub.sim s.hub.writes ([] ++ [.next]) mid := by
    rcases step_cases accepted with ⟨left, wrong, -⟩ | ⟨-, outside, rfl, -⟩ | ⟨a, hub, same, other, -⟩
    · cases wrong
    · exact Standing.proceed valid rfl rfl rfl (Nat.zero_le _)
    · cases same
      exact absurd rfl other
  obtain ⟨state, all⟩ := standing.finished valid single suffix
  change t.hub.sim = replay (effect env) s.hub.sim (puts s.hub.writes (events inner)) at state
  change s.hub.writes.length ≤ nexts (events inner) at all
  have ends (target : WriteTarget) : env.value t.hub.sim target =
      (lastValue target (puts s.hub.writes (events inner))).elim (env.value s.hub.sim target) fun val =>
        env.value (effect env s.hub.sim target val) target := by
    rw [state]
    refine value_replay ?_ effect_other ..
    intro w member
    exact effect_self ((mem_puts member).elim (valid w) valid_of_mem_sets)
  have program (target : WriteTarget) : lastValue target (bufferedSince obs ++ sets inner) =
      lastValue target (s.hub.writes ++ fresh (events inner)) := by
    rw [lastValue_append, lastValue_append, buffer.writes, lastValue_coalesce]
    rfl
  constructor
  · intro wins target old new overtakes
    have same := wins target
    rwa [ends, program, overtakes.last_put nodup, overtakes.last_fresh] at same
  · intro harmless target
    rw [ends, program]
    rcases lastValue_puts target s.hub.writes (events inner) with same | ⟨old, new, overtakes⟩
    · rw [same, List.take_of_length_le all]
    · rw [overtakes.last_put nodup, overtakes.last_fresh]
      exact harmless target old new overtakes

/-- One write of each of two signals. -/
def twoWrites : List Reaction :=
  [.hub (.set ⟨.logic ⟨1, 8⟩, .u8 1, rfl⟩), .hub (.set ⟨.logic ⟨2, 8⟩, .u8 2, rfl⟩)]

/-- A task woken by the second put sets the first signal again. -/
def setAfter : List Reaction := [.next, .hub (.set ⟨.logic ⟨1, 8⟩, .u8 5, rfl⟩), .next]

theorem setAfter_last_set :
    ∃ s t obs out, (machine lastPut).run (initial fun _ => none) twoWrites = some (s, obs) ∧
      (machine lastPut).run s (.hub (.fire .readWrite) :: (setAfter ++ [.hub .finish])) = some (t, out) ∧
      LastSet lastPut s.hub.sim t.hub.sim (bufferedSince obs ++ sets setAfter) := by
  obtain ⟨s, obs, t, out, ran, callback, writes⟩ : ∃ s obs t out,
      (machine lastPut).run (initial fun _ => none) twoWrites = some (s, obs) ∧
      (machine lastPut).run s (.hub (.fire .readWrite) :: (setAfter ++ [.hub .finish])) = some (t, out) ∧
      s.hub.writes = [(.logic ⟨1, 8⟩, .u8 1), (.logic ⟨2, 8⟩, .u8 2)] := ⟨_, _, _, _, rfl, rfl, by decide⟩
  refine ⟨s, t, obs, out, ran, callback, (last_set_iff_harmless ran callback (by simp [setAfter])).mpr ?_⟩
  intro target old new overtakes
  have newest : lastValue target ([] ++ [(.logic ⟨1, 8⟩, .u8 5)]) = some new := overtakes.last_fresh []
  rw [lastValue_append_singleton] at newest
  split_ifs at newest with same
  · subst same
    have last := overtakes.last_put (by rw [writes]; decide)
    have fifth : lastValue (.logic ⟨1, 8⟩) (puts s.hub.writes (events setAfter)) = some (.u8 5) := by
      rw [writes]
      decide
    rw [← Option.some.inj newest, Option.some.inj (last.symm.trans fifth)]
  · cases newest

/-- A task woken by the first put sets the second signal. -/
def setBefore : List Reaction := [.hub (.set ⟨.logic ⟨2, 8⟩, .u8 5, rfl⟩), .next, .next]

/-- The older write of the second signal is applied after the task's set, which is lost. -/
theorem setBefore_not_last_set :
    ∃ s t obs out, (machine lastPut).run (initial fun _ => none) twoWrites = some (s, obs) ∧
      (machine lastPut).run s (.hub (.fire .readWrite) :: (setBefore ++ [.hub .finish])) = some (t, out) ∧
      ¬ LastSet lastPut s.hub.sim t.hub.sim (bufferedSince obs ++ sets setBefore) := by
  obtain ⟨s, obs, t, out, ran, callback, buffered, ends⟩ : ∃ s obs t out,
      (machine lastPut).run (initial fun _ => none) twoWrites = some (s, obs) ∧
      (machine lastPut).run s (.hub (.fire .readWrite) :: (setBefore ++ [.hub .finish])) = some (t, out) ∧
      bufferedSince obs = [(.logic ⟨1, 8⟩, .u8 1), (.logic ⟨2, 8⟩, .u8 2)] ∧
      t.hub.sim (.logic ⟨2, 8⟩) = some (.vector [⟨2, 0⟩]) := ⟨_, _, _, _, rfl, rfl, by decide, by decide⟩
  refine ⟨s, t, obs, out, ran, callback, ?_⟩
  intro wins
  have value : t.hub.sim (.logic ⟨2, 8⟩) = _ := wins (.logic ⟨2, 8⟩)
  have last : lastValue (.logic ⟨2, 8⟩) ([(.logic ⟨1, 8⟩, .u8 1), (.logic ⟨2, 8⟩, .u8 2)] ++ sets setBefore) =
      some (.u8 5) := by decide
  have five : lastPut.value (effect lastPut s.hub.sim (.logic ⟨2, 8⟩) (.u8 5)) (.logic ⟨2, 8⟩) =
      some (.vector [⟨5, 0⟩]) := rfl
  rw [ends, buffered, last, Option.elim_some, five] at value
  exact absurd value (by decide)

end Callback

end Rustdv.Phase.Drain
