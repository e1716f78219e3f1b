import Rustdv.Soundness.PhaseBooks

/-! # Scheduled writes through several handles of one signal

Every lookup may make a new handle, so one signal can be written through several. The buffer tells
writes apart by their handles: it keeps one write for each, where that handle's first write stood and
with its last value. The signal then ends with what was last written through the handle first used
last, which need not be the handle of the last write.
-/

namespace Rustdv.Phase

open Coalesce

/-- The simulator behind VPI when handles may denote the same signal: a put sets the signal of its
handle, whatever that held, and no other. -/
structure AliasedSimulator (σ Sig Val : Type*) where
  put : σ → WriteTarget → PutVal → σ
  /-- The signal that a handle denotes. -/
  signal : WriteTarget → Sig
  value : σ → Sig → Val
  fullName : WriteTarget → String
  put_signal : ∀ s s' target v, value (put s target v) (signal target) = value (put s' target v) (signal target)
  put_other : ∀ s target v sig, sig ≠ signal target → value (put s target v) sig = value s sig

variable {σ Sig Val : Type*}

/-- The hub uses the simulator only to put. -/
def AliasedSimulator.plain (env : AliasedSimulator σ Sig Val) : Simulator σ Unit where
  put := env.put
  value _ _ := ()
  fullName := env.fullName
  put_self _ _ _ _ := rfl
  put_other _ _ _ _ _ := rfl

variable (env : AliasedSimulator σ Sig Val)

/-- What a write through a handle leaves in its signal. -/
def AliasedSimulator.left (sim : σ) (w : WriteTarget × WriteVal) : Val :=
  env.value (effect env.plain sim w.1 w.2) (env.signal w.1)

section Effect

variable {env}

/-- A valid write leaves the same in its signal whatever that held. -/
theorem AliasedSimulator.left_eq {w : WriteTarget × WriteVal} (valid : Valid w) (sim sim' : σ) :
    env.left sim w = env.left sim' w := by
  obtain ⟨put, same⟩ := valid
  simp only [AliasedSimulator.left, effect, same]
  exact env.put_signal ..

theorem AliasedSimulator.effect_other (sim : σ) (target : WriteTarget) (val : WriteVal) (sig : Sig)
    (distinct : sig ≠ env.signal target) : env.value (effect env.plain sim target val) sig = env.value sim sig := by
  unfold effect
  split
  · exact env.put_other _ _ _ _ distinct
  · rfl

end Effect

section Aliases

variable [DecidableEq Sig]

/-- Every signal holds what the last of the writes to it leaves, and a signal not written what it held. -/
def LastWins (before after : σ) (writes : List (WriteTarget × WriteVal)) : Prop :=
  ∀ sig, env.value after sig = (lastWrite env.signal sig writes).elim (env.value before sig) (env.left before)

/-- The handle of the signal whose first write came last. -/
def newest (sig : Sig) (writes : List (WriteTarget × WriteVal)) : Option WriteTarget :=
  ((writes.map Prod.fst).eraseDups.filter fun target => env.signal target = sig).getLast?

/-- The last write to each signal is through the handle of it that was first used last, or leaves the
same as the last write through that handle. -/
def NewestLast (before : σ) (writes : List (WriteTarget × WriteVal)) : Prop :=
  ∀ sig w target, lastWrite env.signal sig writes = some w → newest env sig writes = some target →
    w.1 = target ∨ ∃ val, lastValue target writes = some val ∧ env.left before (target, val) = env.left before w

/-- Replaying valid writes leaves every signal with the last write to it. -/
theorem lastWins_replay {writes : List (WriteTarget × WriteVal)} (valid : ∀ w ∈ writes, Valid w) (sim : σ) :
    LastWins env sim (replay (effect env.plain) sim writes) writes := by
  intro sig
  rw [value_replay_groups env.signal (fun w member => AliasedSimulator.left_eq (valid w member))
    AliasedSimulator.effect_other]
  cases last : lastWrite env.signal sig writes with
  | none => rfl
  | some w =>
    obtain ⟨-, rfl⟩ := mem_of_lastWrite last
    rfl

variable {env}

/-- The last write to a signal is the last one through its own handle. -/
theorem lastValue_of_lastWrite {sig : Sig} {writes : List (WriteTarget × WriteVal)} {w : WriteTarget × WriteVal}
    (last : lastWrite env.signal sig writes = some w) : lastValue w.1 writes = some w.2 := by
  induction writes using List.reverseRecOn with
  | nil => cases last
  | append_singleton front v ih =>
    rw [lastWrite_append_singleton] at last
    rw [lastValue_append_singleton]
    split_ifs at last with same
    · cases last
      rw [if_pos rfl]
    · obtain ⟨-, own⟩ := mem_of_lastWrite last
      rw [if_neg]
      · exact ih last
      · rintro handle
        exact same (handle ▸ own)

/-- The buffer's last write to a signal is through its newest handle, with the last value written there. -/
theorem lastWrite_coalesce_newest {sig : Sig} {writes : List (WriteTarget × WriteVal)} {w : WriteTarget × WriteVal}
    (last : lastWrite env.signal sig writes = some w) :
    ∃ target val, newest env sig writes = some target ∧ lastValue target writes = some val ∧
      lastWrite env.signal sig (coalesce writes) = some (target, val) := by
  have keys := map_fst_lastWrite_coalesce env.signal sig writes
  cases kept : lastWrite env.signal sig (coalesce writes) with
  | some v =>
    rw [kept] at keys
    exact ⟨v.1, v.2, keys.symm, lastValue_of_mem_coalesce (mem_of_lastWrite kept).1, rfl⟩
  | none =>
    obtain ⟨member, same⟩ := mem_of_lastWrite last
    rw [kept, Option.map_none, eq_comm, List.getLast?_eq_none_iff, List.filter_eq_nil_iff] at keys
    have handled : w.1 ∈ (writes.map Prod.fst).eraseDups := List.mem_eraseDups.mpr (List.mem_map_of_mem member)
    exact absurd (decide_eq_true same) (keys _ handled)

/-- At every ReadWrite callback of every run, each signal ends with the last write to it exactly when that
write is through the signal's newest handle, or leaves the same as the last write there. -/
theorem last_wins_iff_newest_last {sim : σ} {actions : List Action} {s t : Hub σ} {obs out : List Obs}
    (ran : (machine env.plain).run (initHub sim) actions = some (s, obs))
    (fired : step env.plain s (.fire .readWrite) = some (t, out)) :
    LastWins env s.sim t.sim (bufferedSince obs) ↔ NewestLast env s.sim (bufferedSince obs) := by
  obtain ⟨layout, buffer, -⟩ := books_of_run ran
  obtain ⟨⟨-, outside⟩, same⟩ := Option.ite_none_right_eq_some.mp fired
  have normal : s.phase = .normal := by rw [layout.phase, outside]; rfl
  have state := fire_state env.plain .readWrite buffer.valid_writes normal
  rw [Option.some.inj same] at state
  simp only [↓reduceIte] at state
  have drained : t.sim = replay (effect env.plain) s.sim (coalesce (bufferedSince obs)) := by
    rw [state, buffer.writes]
  have ends := lastWins_replay env (buffer.writes ▸ buffer.valid_writes) s.sim
  rw [← drained] at ends
  constructor
  · intro wins sig w target last newest'
    obtain ⟨target', val, newest'', found, kept⟩ := lastWrite_coalesce_newest last
    cases newest'.symm.trans newest''
    refine .inr ⟨val, found, ?_⟩
    have value := (wins sig).symm.trans (ends sig)
    rw [last, kept] at value
    exact value.symm
  · intro newestLast sig
    rw [ends sig]
    cases last : lastWrite env.signal sig (bufferedSince obs) with
    | none =>
      cases kept : lastWrite env.signal sig (coalesce (bufferedSince obs)) with
      | none => rfl
      | some w =>
        obtain ⟨member, own⟩ := mem_of_lastWrite kept
        have outside := List.filter_eq_nil_iff.mp (List.getLast?_eq_none_iff.mp last) w (mem_of_mem_coalesce member)
        exact absurd (decide_eq_true own) outside
    | some w =>
      obtain ⟨target, val, newest', found, kept⟩ := lastWrite_coalesce_newest last
      rw [kept, Option.elim_some, Option.elim_some]
      rcases newestLast sig w target last newest' with own | ⟨val', found', alike⟩
      · have value := lastValue_of_lastWrite last
        rw [own, found] at value
        rw [← own, Option.some.inj value]
      · rw [found] at found'
        rw [Option.some.inj found', alike]

/-- A simulator that remembers the last put of each signal; two objects denote each signal. -/
def twoHandles : AliasedSimulator (ℕ → Option PutVal) ℕ (Option PutVal) where
  put sim target v := Function.update sim (object target / 2) (some v)
  signal target := object target / 2
  value sim sig := sim sig
  fullName _ := "top"
  put_signal _ _ _ _ := by rw [Function.update_self, Function.update_self]
  put_other _ _ _ _ distinct := Function.update_of_ne distinct ..
where
  object : WriteTarget → ℕ
    | .logic h => h.obj
    | .real obj => obj
    | .string obj => obj

/-- One write through each of two handles of a signal. -/
def inTurn : List Action := [.set ⟨.logic ⟨2, 8⟩, .u8 1, rfl⟩, .set ⟨.logic ⟨3, 8⟩, .u8 2, rfl⟩]

theorem inTurn_last_wins :
    ∃ s t obs out, (machine twoHandles.plain).run (initHub fun _ => none) inTurn = some (s, obs) ∧
      step twoHandles.plain s (.fire .readWrite) = some (t, out) ∧
      LastWins twoHandles s.sim t.sim (bufferedSince obs) := by
  obtain ⟨s, obs, t, out, ran, fired, shown⟩ : ∃ s obs t out,
      (machine twoHandles.plain).run (initHub fun _ => none) inTurn = some (s, obs) ∧
      step twoHandles.plain s (.fire .readWrite) = some (t, out) ∧
      bufferedSince obs = [(.logic ⟨2, 8⟩, .u8 1), (.logic ⟨3, 8⟩, .u8 2)] := ⟨_, _, _, _, rfl, rfl, by decide⟩
  refine ⟨s, t, obs, out, ran, fired, (last_wins_iff_newest_last ran fired).mpr ?_⟩
  intro sig w target last newest'
  rw [shown] at last newest'
  obtain ⟨member, own⟩ := mem_of_lastWrite last
  have signal : ∀ w ∈ [(WriteTarget.logic ⟨2, 8⟩, WriteVal.u8 1), (.logic ⟨3, 8⟩, .u8 2)],
      twoHandles.signal w.1 = 1 := by decide
  obtain rfl : sig = 1 := own.symm.trans (signal w member)
  have last' : lastWrite twoHandles.signal 1 [(WriteTarget.logic ⟨2, 8⟩, WriteVal.u8 1), (.logic ⟨3, 8⟩, .u8 2)] =
      some (.logic ⟨3, 8⟩, .u8 2) := by decide
  have newest'' : newest twoHandles 1 [(WriteTarget.logic ⟨2, 8⟩, WriteVal.u8 1), (.logic ⟨3, 8⟩, .u8 2)] =
      some (.logic ⟨3, 8⟩) := by decide
  cases last.symm.trans last'
  cases newest'.symm.trans newest''
  exact .inl rfl

/-- The first handle is used once more at the end. -/
def backAgain : List Action := inTurn ++ [.set ⟨.logic ⟨2, 8⟩, .u8 3, rfl⟩]

/-- The signal ends with the second write, not with the third. -/
theorem backAgain_not_last_wins :
    ∃ s t obs out, (machine twoHandles.plain).run (initHub fun _ => none) backAgain = some (s, obs) ∧
      step twoHandles.plain s (.fire .readWrite) = some (t, out) ∧
      ¬ LastWins twoHandles s.sim t.sim (bufferedSince obs) := by
  obtain ⟨s, obs, t, out, ran, fired, shown, ends⟩ : ∃ s obs t out,
      (machine twoHandles.plain).run (initHub fun _ => none) backAgain = some (s, obs) ∧
      step twoHandles.plain s (.fire .readWrite) = some (t, out) ∧
      bufferedSince obs = [(.logic ⟨2, 8⟩, .u8 1), (.logic ⟨3, 8⟩, .u8 2), (.logic ⟨2, 8⟩, .u8 3)] ∧
      t.sim 1 = some (.vector [⟨2, 0⟩]) := ⟨_, _, _, _, rfl, rfl, by decide, by decide⟩
  refine ⟨s, t, obs, out, ran, fired, ?_⟩
  intro wins
  have value : t.sim 1 = _ := wins 1
  rw [ends, shown] at value
  have last : lastWrite twoHandles.signal 1
      [(WriteTarget.logic ⟨2, 8⟩, WriteVal.u8 1), (.logic ⟨3, 8⟩, .u8 2), (.logic ⟨2, 8⟩, .u8 3)] =
        some (.logic ⟨2, 8⟩, .u8 3) := by decide
  have three : twoHandles.left s.sim (.logic ⟨2, 8⟩, .u8 3) = some (.vector [⟨3, 0⟩]) := rfl
  rw [last, Option.elim_some, three] at value
  exact absurd value (by decide)

end Aliases

end Rustdv.Phase
