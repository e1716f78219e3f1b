import Rustdv.Soundness.Isolation

/-! # Which seed a sequence gets

A sequence is seeded with the thread's seed at the moment it starts. The runner gives a test's context
the regression's seed and the test's index, but it does not set the thread's seed: that is 1 until a
test sets it itself, and what one test sets stays for the next ones.
-/

namespace Rustdv.Isolation

variable {κ V σ : Type*} [DecidableEq σ] (p : Process κ V σ)

/-- The seed that was set last. -/
def lastSeed (seed : UInt64) (events : List (Event κ V σ)) : UInt64 :=
  events.foldl (fun seed event => match event.1 with
    | .setSequenceSeed n => n
    | _ => seed) seed

/-- A call changes the thread's seed if it sets it, and shows it if it starts a sequence. -/
theorem perform_seed (a : Ambient κ V σ) (c : Call κ V σ) :
    (a.perform p c).1.seed = lastSeed a.seed [(c, (a.perform p c).2)] ∧
      ∀ how ctx, c = .start how → (a.perform p c).2 = .seqCtx ctx → ctx.seed = a.seed := by
  constructor
  · by_cases own : c.inherits = false
    · rw [(perform_keeps p own a).2]
      cases c with
      | setSeqOverride | clearSeqOverrides | createSeq | setSequenceSeed | start => cases own
      | _ => rfl
    · cases c with
      | setSeqOverride | clearSeqOverrides | createSeq | setSequenceSeed | start => rfl
      | _ => exact absurd rfl own
  · rintro how ctx rfl shown
    cases how with
    | slotStart slot | slotStartVirtual slot =>
      cases slot with
      | none => cases shown
      | some s =>
        cases shown
        rfl
    | _ =>
      cases shown
      rfl

omit [DecidableEq σ] in
theorem lastSeed_append (seed : UInt64) (events more : List (Event κ V σ)) :
    lastSeed seed (events ++ more) = lastSeed (lastSeed seed events) more := List.foldl_append ..

/-- What a run leaves as the thread's seed, and what its sequences were given. -/
structure Seeded (seed last : UInt64) (events : List (Event κ V σ)) : Prop where
  last : last = lastSeed seed events
  started : ∀ before how ctx later, events = before ++ (.start how, .seqCtx ctx) :: later →
    ctx.seed = lastSeed seed before

theorem Script.run_seeded (script : Script κ V σ) (a : Ambient κ V σ) :
    Seeded a.seed (script.run p a).2.seed (script.run p a).1 := by
  induction script generalizing a with
  | done =>
    refine ⟨rfl, ?_⟩
    intro before how ctx later split
    cases before <;> cases split
  | call c next ih =>
    obtain ⟨kept, shown⟩ := perform_seed p a c
    obtain ⟨last, started⟩ := ih (a.perform p c).2 (a.perform p c).1
    refine ⟨last.trans ?_, ?_⟩
    · rw [kept, ← lastSeed_append]
      rfl
    · intro before how ctx later split
      cases before with
      | nil =>
        obtain ⟨same, -⟩ := List.cons.inj split
        obtain ⟨call, answer⟩ := Prod.mk.inj same
        exact shown how ctx call answer
      | cons event rest =>
        obtain ⟨rfl, tail⟩ := List.cons.inj split
        rw [started rest how ctx later tail, kept, ← lastSeed_append]
        rfl

theorem runOne_seeded (ctx : RustdvCtx) (a : Ambient κ V σ) (t : Test κ V σ) :
    Seeded a.seed (runOne p ctx a t).2.seed (runOne p ctx a t).1 := by
  unfold runOne
  split_ifs
  · refine ⟨rfl, ?_⟩
    intro before how ctx later split
    cases before <;> cases split
  · exact (t.body ctx).run_seeded p a.reset

/-- In a regression the thread's seed runs through all tests. -/
theorem runFrom_seeded (seed : UInt64) {i k : ℕ} {a : Ambient κ V σ} {tests : List (Test κ V σ)}
    {before later : List (Event κ V σ)} {how : Start σ} {ctx : SeqCtx}
    (started : (runFrom p seed i a tests)[k]? = some (before ++ (.start how, .seqCtx ctx) :: later)) :
    ctx.seed = lastSeed a.seed (((runFrom p seed i a tests).take k).flatten ++ before) := by
  induction tests generalizing i k a with
  | nil => cases started
  | cons t rest ih =>
    have seeded := runOne_seeded p (testCtx seed i t) a t
    rw [runFrom_cons] at started ⊢
    cases k with
    | zero => exact seeded.started before how ctx later (Option.some.inj started)
    | succ k =>
      rw [List.getElem?_cons_succ] at started
      rw [ih started, seeded.last, ← lastSeed_append, ← List.append_assoc, List.take_succ_cons, List.flatten_cons]

/-- A sequence that is started in a test gets the generator of that test's context exactly if the seed
that was set last, by whatever test, is the one of the test. -/
theorem sequence_seed_iff (seed : UInt64) {tests : List (Test κ V σ)} {i : ℕ} (t : Test κ V σ)
    {before later : List (Event κ V σ)} {how : Start σ} {ctx : SeqCtx}
    (started : (regression p seed tests)[i]? = some (before ++ (.start how, .seqCtx ctx) :: later)) :
    ctx.rng = (testCtx seed i t).rng ↔
      lastSeed 1 (((regression p seed tests).take i).flatten ++ before) = seed + UInt64.ofNat i := by
  have given : ctx.seed = lastSeed 1 (((regression p seed tests).take i).flatten ++ before) :=
    runFrom_seeded p seed started
  rw [← given]
  simp [SeqCtx.rng, RustdvCtx.rng, Rng.new, testCtx]

/-- A test that starts a sequence on a sequencer. -/
def starting : Test Unit Unit Bool := ⟨"starting", false, fun _ => .call (.start (.start false)) fun _ => .done⟩

/-- With the regression's seed 1, the first test's sequence gets the right generator. -/
theorem sequence_seed_first :
    (SeqCtx.mk "Single" true 1).rng = (testCtx 1 0 starting).rng ↔
      lastSeed 1 (((regression plainProcess 1 [starting]).take 0).flatten ++ []) = 1 + UInt64.ofNat 0 :=
  by
  have started : (regression plainProcess 1 [starting])[0]? =
      some ([] ++ (.start (.start false), .seqCtx ⟨"Single", true, 1⟩) :: []) := rfl
  exact sequence_seed_iff plainProcess 1 starting started

/-- Whatever the regression's seed is, the sequence gets the generator with the seed 1; with the seed 7 the
test's own generator is another. -/
theorem sequence_seed_ignored :
    (regression plainProcess 7 [starting])[0]? = some [(.start (.start false), .seqCtx ⟨"Single", true, 1⟩)] ∧
      (SeqCtx.mk "Single" true 1).rng ≠ (testCtx 7 0 starting).rng := by
  refine ⟨rfl, ?_⟩
  decide

end Rustdv.Isolation
