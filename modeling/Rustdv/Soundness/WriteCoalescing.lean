import Rustdv.Soundness.PhaseBooks

/-! # Write coalescing refines in-order replay

At a ReadWrite callback the buffer holds the writes scheduled since the last one, coalesced. What is
applied is one write for each target, in the order of the first writes, each with the last value; the
simulator ends as if all the writes had been applied one after the other.
-/

namespace Rustdv.Phase

open Coalesce

variable {σ Val : Type*} {env : Simulator σ Val}

/-- The write put into the simulator, if that is what was observed. -/
def Obs.appliedWrite : Obs → Option (WriteTarget × WriteVal)
  | .applied target val => some (target, val)
  | _ => none

/-! ## What is scheduled -/

/-- The writes that are still to be applied, after one more action: a set call of the Normal phase adds one,
unless its text has an interior NUL, and a ReadWrite callback applies them all. -/
def pend (s : Hub σ) (pending : List (WriteTarget × WriteVal)) : Action → List (WriteTarget × WriteVal)
  | .set call =>
      if s.phase = .normal ∧ call.interiorNul = false then pending ++ [(call.target, call.val)] else pending
  | .fire .readWrite => []
  | _ => pending

variable (env) in
/-- The writes that these actions schedule and leave to be applied, in program order. -/
def scheduled : Hub σ → List (WriteTarget × WriteVal) → List Action → List (WriteTarget × WriteVal)
  | _, pending, [] => pending
  | s, pending, a :: rest =>
      match step env s a with
      | none => pending
      | some (t, _) => scheduled t (pend s pending a) rest

/-- What an action shows accounts for what it schedules. -/
theorem account_of_step {s t : Hub σ} {a : Action} {seen out : List Obs} (buffer : Buffer s seen)
    (stepped : step env s a = some (t, out)) :
    out.foldl account (bufferedSince seen) = pend s (bufferedSince seen) a := by
  have moved := transition_of_step stepped
  cases moved with
  | buffered call normal accepted =>
    have clean : call.interiorNul = false := by
      by_contra interior
      rw [Bool.not_eq_false] at interior
      simp [step, set, interior, normal] at stepped
    rw [pend, if_pos ⟨normal, clean⟩]
    rfl
  | fire kind armed outside =>
    by_cases same : kind = .readWrite
    · subst same
      rw [← bufferedSince_append, bufferedSince_fire env seen buffer.valid_writes, pend]
    · obtain ⟨later, shown, waits, -⟩ := fire_out env kind buffer.valid_writes
      rw [shown, if_neg same, List.cons_append, List.nil_append, List.foldl_cons, foldl_account_quiet]
      · cases kind with
        | readWrite => exact absurd rfl same
        | _ => rfl
      · intro o member
        rcases waits o member with ⟨fut, rfl⟩ | ⟨waker, rfl⟩ <;> rfl
  | finish kind inside =>
    rw [finish_out]
    rfl
  | make | completed | polled | registered | dropped => rfl
  | misused text passive | refused target passive | applied target val passive =>
    cases a with
    | set call =>
      have other : ¬ (s.phase = .normal ∧ call.interiorNul = false) := by
        rintro ⟨normal, clean⟩
        simp [step, set, schedule, normal, clean] at stepped
      rw [pend, if_neg other]
      rfl
    | fire kind => exact absurd rfl (passive kind)
    | _ => rfl

theorem bufferedSince_of_run {s t : Hub σ} {seen obs : List Obs} {actions : List Action} (books : Books s seen)
    (ran : (machine env).run s actions = some (t, obs)) :
    bufferedSince (seen ++ obs) = scheduled env s (bufferedSince seen) actions := by
  induction actions generalizing s seen obs with
  | nil =>
    cases ran
    rw [List.append_nil, scheduled]
  | cons a rest ih =>
    obtain ⟨u, out, more, stepped, suffix, rfl⟩ := (machine env).run_cons_eq_some_iff.mp ran
    change step env s a = some (u, out) at stepped
    have later := ih (books.step stepped) suffix
    rw [bufferedSince_append seen out, account_of_step books.buffer stepped] at later
    rw [← List.append_assoc, later, scheduled, stepped]

/-! ## What is applied -/

/-- What a ReadWrite callback, entered from one state and observed so far, does with the buffer. -/
structure Coalesced (env : Simulator σ Val) (s t : Hub σ) (obs out : List Obs) : Prop where
  /-- One write for each target, in the order in which the targets were first scheduled. -/
  targets : (out.filterMap Obs.appliedWrite).map Prod.fst = ((bufferedSince obs).map Prod.fst).eraseDups
  /-- No target twice. -/
  once : ((out.filterMap Obs.appliedWrite).map Prod.fst).Nodup
  /-- Each with the last value scheduled for it. -/
  last : ∀ w ∈ out.filterMap Obs.appliedWrite, lastValue w.1 (bufferedSince obs) = some w.2
  /-- Every signal ends as after applying all the writes in program order. -/
  replayed : ∀ target, env.value t.sim target =
    env.value (replay (effect env) s.sim (bufferedSince obs)) target
  /-- The buffer is empty afterwards. -/
  drained : t.writes = []
  /-- Later callbacks apply only what is scheduled later. -/
  later : ∀ more, bufferedSince (obs ++ out ++ more) = bufferedSince more
  /-- Every write can be applied. -/
  applies : ∀ text, .panicked text ∉ out

/-- At every ReadWrite callback of every run, the writes that the set calls have scheduled since the last one are
coalesced. -/
theorem write_coalescing {sim : σ} {actions : List Action} {s t : Hub σ} {obs out : List Obs}
    (ran : (machine env).run (initHub sim) actions = some (s, obs))
    (fired : step env s (.fire .readWrite) = some (t, out)) :
    bufferedSince obs = scheduled env (initHub sim) [] actions ∧ Coalesced env s t obs out := by
  obtain ⟨layout, buffer, -⟩ := books_of_run ran
  refine ⟨@bufferedSince_of_run _ _ env _ _ [] _ _ (@books_of_run _ _ env _ _ sim [] rfl) ran, ?_⟩
  obtain ⟨⟨-, outside⟩, same⟩ := Option.ite_none_right_eq_some.mp fired
  have valid := buffer.valid_writes
  have normal : s.phase = .normal := by rw [layout.phase, outside]; rfl
  have state := fire_state env .readWrite valid normal
  obtain ⟨later, shown, waits, -⟩ := fire_out env .readWrite valid
  rw [Option.some.inj same] at state shown
  simp only [↓reduceIte] at state shown
  have applied : out.filterMap Obs.appliedWrite = coalesce (bufferedSince obs) := by
    have writes : (s.writes.map fun w => Obs.applied w.1 w.2).filterMap Obs.appliedWrite = s.writes := by
      rw [List.filterMap_map]
      exact List.filterMap_some
    have quiet : later.filterMap Obs.appliedWrite = [] := by
      refine List.filterMap_eq_nil_iff.mpr ?_
      intro o member
      rcases waits o member with ⟨fut, rfl⟩ | ⟨waker, rfl⟩ <;> rfl
    rw [shown, List.cons_append, List.filterMap_cons_none rfl, List.filterMap_append, writes, quiet,
      List.append_nil, buffer.writes]
  have drained : bufferedSince (obs ++ out) = [] := by
    have closed := bufferedSince_fire env obs valid
    rwa [Option.some.inj same] at closed
  refine ⟨?_, ?_, ?_, ?_, ?_, ?_, ?_⟩
  · rw [applied, keys_coalesce]
  · rw [applied]
    exact nodup_keys_coalesce _
  · rw [applied]
    exact fun w member => lastValue_of_mem_coalesce member
  · intro target
    rw [state, buffer.writes]
    exact value_replay_coalesce (fun w member => effect_self (buffer.valid w member)) effect_other ..
  · rw [state]
  · intro more
    rw [bufferedSince_append, drained]
    rfl
  · intro text member
    rw [shown] at member
    rcases List.mem_append.mp member with front | last
    · simp at front
    · rcases waits _ last with ⟨fut, same⟩ | ⟨waker, same⟩ <;> cases same

/-- A simulator that remembers the last put of each object. -/
def lastPut : Simulator (WriteTarget → Option PutVal) (Option PutVal) where
  put sim target v := Function.update sim target (some v)
  value sim target := sim target
  fullName _ := "top"
  put_self _ _ _ _ := by rw [Function.update_self, Function.update_self]
  put_other _ _ _ _ distinct := Function.update_of_ne distinct ..

/-- Two signals written three times, with a ReadOnly callback between the writes. -/
def twoSignals : List Action :=
  [.set ⟨.logic ⟨1, 8⟩, .u8 3, rfl⟩, .set ⟨.real 2, .real 7, rfl⟩, .make .readOnly, .poll 0 (.task 1),
    .fire .readOnly, .finish, .set ⟨.logic ⟨1, 8⟩, .u8 4, rfl⟩]

theorem write_coalescing_two_signals :
    ∃ s t obs out, (machine lastPut).run (initHub fun _ => none) twoSignals = some (s, obs) ∧
      step lastPut s (.fire .readWrite) = some (t, out) ∧
      out.filterMap Obs.appliedWrite = [(.logic ⟨1, 8⟩, .u8 4), (.real 2, .real 7)] ∧
      bufferedSince obs = [(.logic ⟨1, 8⟩, .u8 3), (.real 2, .real 7), (.logic ⟨1, 8⟩, .u8 4)] ∧
      Coalesced lastPut s t obs out := by
  have seen : ((machine lastPut).run (initHub fun _ => none) twoSignals).bind
      (fun last => (step lastPut last.1 (.fire .readWrite)).map fun next => next.2.filterMap Obs.appliedWrite) =
        some [(.logic ⟨1, 8⟩, .u8 4), (.real 2, .real 7)] := by decide
  obtain ⟨⟨s, obs⟩, ran, fires⟩ := Option.bind_eq_some_iff.mp seen
  obtain ⟨⟨t, out⟩, fired, same⟩ := Option.map_eq_some_iff.mp fires
  have coalesced := write_coalescing ran fired
  exact ⟨s, t, obs, out, ran, fired, same, coalesced.1, coalesced.2⟩

end Rustdv.Phase
