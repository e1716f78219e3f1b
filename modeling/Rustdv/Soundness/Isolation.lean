import Rustdv.Model.Ambient

/-! # What a test inherits from the one before

The reset before a test gives it a fresh database and a fresh logging configuration, so nothing that
it asks these is about its predecessors. The sequence overrides and the seed of sequences are not
reset. A test comes across what it has inherited when it creates a sequence whose override it has not
set itself, or starts one before it has set the seed: these are the only ways.
-/

namespace Rustdv.Isolation

variable {κ V σ : Type*} [DecidableEq σ] (p : Process κ V σ)

/-- The sequences that a test creates with the override it has found. -/
def inheritedSeqs : List (Event κ V σ) → List σ
  | [] => []
  | (.createSeq requested, _) :: rest => requested :: inheritedSeqs rest
  | (.setSeqOverride requested _, _) :: rest => (inheritedSeqs rest).filter (· ≠ requested)
  | (.clearSeqOverrides, _) :: _ => []
  | _ :: rest => inheritedSeqs rest

/-- The test starts a sequence with the seed it has found. -/
def inheritsSeed : List (Event κ V σ) → Bool
  | [] => false
  | (.start _, .seqCtx _) :: _ => true
  | (.setSequenceSeed _, _) :: _ => false
  | _ :: rest => inheritsSeed rest

/-- Two surroundings agree on what a test that does this inherits. -/
structure Agree (events : List (Event κ V σ)) (a b : Ambient κ V σ) : Prop where
  seqs : ∀ s ∈ inheritedSeqs events, a.createSeq s = b.createSeq s
  seed : inheritsSeed events = true → a.seed = b.seed

/-- The surroundings are the same but for the sequence overrides and the seed. -/
structure Alike (a b : Ambient κ V σ) : Prop where
  db : a.db = b.db
  log : a.log = b.log

/-- The call reads or writes what the reset does not reach. -/
def Call.inherits : Call κ V σ → Bool
  | .setSeqOverride .. | .clearSeqOverrides | .createSeq _ | .setSequenceSeed _ | .start _ => true
  | _ => false

/-- The surroundings with other overrides and another seed. -/
def Ambient.inherit (a : Ambient κ V σ) (seqOverrides : σ → Option σ) (seed : UInt64) : Ambient κ V σ :=
  { a with seqOverrides := seqOverrides, seed := seed }

section Calls

variable {a b : Ambient κ V σ} {c : Call κ V σ}

/-- All other calls neither read nor write them. -/
theorem perform_inherit (own : c.inherits = false) (a : Ambient κ V σ) (seqOverrides : σ → Option σ) (seed : UInt64) :
    (a.inherit seqOverrides seed).perform p c =
      ((a.perform p c).1.inherit seqOverrides seed, (a.perform p c).2) := by
  cases c with
  | setSeqOverride | clearSeqOverrides | createSeq | setSequenceSeed | start => cases own
  | get ctx offset field typeName typeId =>
    simp only [Ambient.perform, Ambient.inherit]
    cases Config.get p.sort a.db ctx offset field typeName typeId <;> rfl
  | setTypeOverrideByName requested target =>
    simp only [Ambient.perform]
    cases p.registry target <;> rfl
  | resolve path slot inner =>
    simp only [Ambient.perform, Ambient.inherit]
    cases Component.resolve p.sort a.db path slot inner <;> rfl
  | logToFile file append =>
    simp only [Ambient.perform]
    cases p.opens file append <;> rfl
  | addFileFor above file append =>
    simp only [Ambient.perform]
    cases p.opens file append <;> rfl
  | _ => rfl

theorem perform_keeps (own : c.inherits = false) (a : Ambient κ V σ) :
    (a.perform p c).1.seqOverrides = a.seqOverrides ∧ (a.perform p c).1.seed = a.seed := by
  have same := congrArg Prod.fst (perform_inherit p own a a.seqOverrides a.seed)
  change (a.perform p c).1 = _ at same
  rw [same]
  exact ⟨rfl, rfl⟩

theorem Alike.perform_own (alike : Alike a b) (own : c.inherits = false) :
    (b.perform p c).2 = (a.perform p c).2 ∧ Alike (a.perform p c).1 (b.perform p c).1 := by
  have other : b = a.inherit b.seqOverrides b.seed := by
    cases b
    simp only [Ambient.inherit, alike.db, alike.log]
  rw [other, perform_inherit p own]
  exact ⟨rfl, rfl, rfl⟩

theorem Alike.perform (alike : Alike a b) (c : Call κ V σ) : Alike (a.perform p c).1 (b.perform p c).1 := by
  by_cases own : c.inherits = false
  · exact (alike.perform_own p own).2
  · cases c with
    | setSeqOverride | clearSeqOverrides | createSeq | setSequenceSeed | start => exact ⟨alike.db, alike.log⟩
    | _ => exact absurd rfl own

omit [DecidableEq σ] in
theorem inheritsSeed_cons (own : c.inherits = false) (answer : Answer κ V σ) (rest : List (Event κ V σ)) :
    inheritsSeed ((c, answer) :: rest) = inheritsSeed rest := by
  cases c with
  | setSeqOverride | clearSeqOverrides | createSeq | setSequenceSeed | start => cases own
  | _ => rfl

theorem inheritedSeqs_cons (own : c.inherits = false) (answer : Answer κ V σ) (rest : List (Event κ V σ)) :
    inheritedSeqs ((c, answer) :: rest) = inheritedSeqs rest := by
  cases c with
  | setSeqOverride | clearSeqOverrides | createSeq | setSequenceSeed | start => cases own
  | _ => rfl

omit [DecidableEq σ] in
/-- The start of a sequence shows the seed. -/
theorem startSeq_eq_iff (how : Start σ) (rest : List (Event κ V σ)) :
    b.startSeq p how = a.startSeq p how ∧ (inheritsSeed rest = true → a.seed = b.seed) ↔
      (inheritsSeed ((.start how, a.startSeq p how) :: rest) = true → a.seed = b.seed) := by
  cases how with
  | slotStart slot | slotStartVirtual slot =>
    cases slot <;> simp +contextual [Ambient.startSeq, inheritsSeed, eq_comm (a := a.seed)]
  | _ => simp +contextual [Ambient.startSeq, inheritsSeed, eq_comm (a := a.seed)]

/-- To agree on what is inherited from a call on is to answer the call alike, and to agree on the rest. -/
theorem agree_cons_iff (alike : Alike a b) (c : Call κ V σ) (rest : List (Event κ V σ)) :
    Agree ((c, (a.perform p c).2) :: rest) a b ↔
      (b.perform p c).2 = (a.perform p c).2 ∧ Agree rest (a.perform p c).1 (b.perform p c).1 := by
  by_cases own : c.inherits = false
  · obtain ⟨seqs, seed⟩ := perform_keeps p own a
    obtain ⟨seqs', seed'⟩ := perform_keeps p own b
    rw [and_iff_right (alike.perform_own p own).1]
    constructor
    · rintro ⟨created, started⟩
      rw [inheritedSeqs_cons own] at created
      rw [inheritsSeed_cons own] at started
      exact ⟨by simpa only [Ambient.createSeq, seqs, seqs'] using created, by simpa only [seed, seed'] using started⟩
    · rintro ⟨created, started⟩
      simp only [Ambient.createSeq, seqs, seqs'] at created
      simp only [seed, seed'] at started
      refine ⟨?_, ?_⟩
      · rw [inheritedSeqs_cons own]
        exact created
      · rw [inheritsSeed_cons own]
        exact started
  · cases c with
    | createSeq requested =>
      simp only [Ambient.perform, Answer.sequence.injEq]
      constructor
      · rintro ⟨created, started⟩
        exact ⟨(created requested List.mem_cons_self).symm, fun s later => created s (List.mem_cons_of_mem _ later), started⟩
      · rintro ⟨same, created, started⟩
        refine ⟨fun s member => ?_, started⟩
        rcases List.mem_cons.mp member with rfl | later
        · exact same.symm
        · exact created s later
    | setSeqOverride requested target =>
      simp only [Ambient.perform, true_and]
      constructor
      · rintro ⟨created, started⟩
        refine ⟨fun s later => ?_, started⟩
        by_cases replaced : s = requested
        · simp [Ambient.createSeq, replaced]
        · have same := created s (List.mem_filter.mpr ⟨later, decide_eq_true replaced⟩)
          simpa [Ambient.createSeq, Function.update_of_ne replaced] using same
      · rintro ⟨created, started⟩
        refine ⟨fun s member => ?_, started⟩
        obtain ⟨later, other⟩ := List.mem_filter.mp member
        simpa [Ambient.createSeq, Function.update_of_ne (of_decide_eq_true other)] using created s later
    | clearSeqOverrides =>
      simp only [Ambient.perform, true_and]
      exact ⟨fun agree => ⟨fun _ _ => rfl, agree.seed⟩, fun agree => ⟨fun _ member => (by cases member), agree.seed⟩⟩
    | setSequenceSeed seed =>
      simp only [Ambient.perform, true_and]
      exact ⟨fun agree => ⟨agree.seqs, fun _ => rfl⟩, fun agree => ⟨agree.seqs, fun started => (by cases started)⟩⟩
    | start how =>
      simp only [Ambient.perform]
      constructor
      · rintro ⟨created, started⟩
        obtain ⟨same, later⟩ := (startSeq_eq_iff p how rest).mpr started
        exact ⟨same, created, later⟩
      · rintro ⟨same, created, later⟩
        exact ⟨created, (startSeq_eq_iff p how rest).mp ⟨same, later⟩⟩
    | _ => exact absurd rfl own

end Calls

/-- Two runs of a program show the same exactly if their surroundings agree on what it inherits. -/
theorem run_eq_iff (script : Script κ V σ) {a b : Ambient κ V σ} (alike : Alike a b) :
    (script.run p b).1 = (script.run p a).1 ↔ Agree (script.run p a).1 a b := by
  induction script generalizing a b with
  | done =>
    refine ⟨fun _ => ⟨?_, ?_⟩, fun _ => rfl⟩
    · intro s member
      cases member
    · intro started
      cases started
  | call c next ih =>
    simp only [Script.run, List.cons.injEq, Prod.mk.injEq, true_and]
    rw [agree_cons_iff p alike]
    refine and_congr_right fun same => ?_
    rw [same]
    exact ih _ (alike.perform p c)

/-- What a list of tests leaves behind. -/
def leave (seed : UInt64) (i : ℕ) (a : Ambient κ V σ) : List (Test κ V σ) → Ambient κ V σ
  | [] => a
  | t :: rest => leave seed (i + 1) (runOne p (testCtx seed i t) a t).2 rest

theorem runFrom_cons (seed : UInt64) (i : ℕ) (a : Ambient κ V σ) (t : Test κ V σ) (rest : List (Test κ V σ)) :
    runFrom p seed i a (t :: rest) =
      (runOne p (testCtx seed i t) a t).1 :: runFrom p seed (i + 1) (runOne p (testCtx seed i t) a t).2 rest := rfl

/-- A test of a regression runs in what the ones before leave behind. -/
theorem runFrom_getElem (seed : UInt64) (i : ℕ) (a : Ambient κ V σ) (before : List (Test κ V σ)) (t : Test κ V σ)
    (later : List (Test κ V σ)) :
    (runFrom p seed i a (before ++ t :: later))[before.length]? =
      some (runOne p (testCtx seed (i + before.length) t) (leave p seed i a before) t).1 := by
  induction before generalizing i a with
  | nil => rfl
  | cons first rest ih =>
    rw [List.cons_append, runFrom_cons, List.length_cons, List.getElem?_cons_succ, ih, leave, Nat.add_right_comm,
      Nat.add_assoc]

/-- What the test at an index does in a regression. -/
def eventsOf (seed : UInt64) (tests : List (Test κ V σ)) (i : ℕ) : List (Event κ V σ) :=
  ((regression p seed tests)[i]?).getD []

theorem eventsOf_append (seed : UInt64) (before : List (Test κ V σ)) (t u : Test κ V σ) (later : List (Test κ V σ)) :
    eventsOf p seed (before ++ t :: u :: later) (before.length + 1) =
      (runOne p (testCtx seed (before.length + 1) u) (leave p seed 0 .init (before ++ [t])) u).1 := by
  have found := runFrom_getElem p seed 0 .init (before ++ [t]) u later
  rw [List.append_assoc, List.singleton_append, List.length_append, List.length_singleton, Nat.zero_add] at found
  rw [eventsOf, regression, found, Option.getD_some]

/-- Two regressions that differ in one test, and after the next: the next one does the same in both
exactly if they agree on what it inherits. -/
theorem isolation_iff_agree (seed : UInt64) (before later later' : List (Test κ V σ)) (t t' u : Test κ V σ) :
    eventsOf p seed (before ++ t' :: u :: later') (before.length + 1) =
        eventsOf p seed (before ++ t :: u :: later) (before.length + 1) ↔
      Agree (eventsOf p seed (before ++ t :: u :: later) (before.length + 1))
        (leave p seed 0 .init (before ++ [t])) (leave p seed 0 .init (before ++ [t'])) := by
  rw [eventsOf_append, eventsOf_append]
  unfold runOne
  split_ifs with skipped
  · refine ⟨fun _ => ⟨?_, ?_⟩, fun _ => rfl⟩
    · intro s member
      cases member
    · intro started
      cases started
  · -- the reset makes the surroundings alike, and keeps what is inherited
    refine (run_eq_iff p _ (a := (leave p seed 0 .init (before ++ [t])).reset)
      (b := (leave p seed 0 .init (before ++ [t'])).reset) ⟨rfl, rfl⟩).trans ?_
    exact ⟨fun agree => ⟨agree.seqs, agree.seed⟩, fun agree => ⟨agree.seqs, agree.seed⟩⟩

/-- A process with two types of sequences and no components. -/
def plainProcess : Process Unit Unit Bool where
  sort _ entries := some entries
  registry _ := none
  seqName s := if s then "Burst" else "Single"
  opens _ _ := true

/-- A first test that does nothing. -/
def quiet : Test Unit Unit Bool := ⟨"first", false, fun _ => .done⟩

/-- A first test that sets a sequence override. -/
def overriding : Test Unit Unit Bool := ⟨"first", false, fun _ => .call (.setSeqOverride false true) fun _ => .done⟩

/-- A second test that creates a sequence. -/
def creating : Test Unit Unit Bool := ⟨"second", false, fun _ => .call (.createSeq false) fun _ => .done⟩

/-- What the second test creates depends on the first one. -/
theorem override_leaks :
    eventsOf plainProcess 1 [quiet, creating] 1 = [(.createSeq false, .sequence false)] ∧
      eventsOf plainProcess 1 [overriding, creating] 1 = [(.createSeq false, .sequence true)] ∧
        eventsOf plainProcess 1 [overriding, creating] 1 ≠ eventsOf plainProcess 1 [quiet, creating] 1 := by
  have none : eventsOf plainProcess 1 [quiet, creating] 1 = [(.createSeq false, .sequence false)] := rfl
  have one : eventsOf plainProcess 1 [overriding, creating] 1 = [(.createSeq false, .sequence true)] := rfl
  refine ⟨none, one, ?_⟩
  rw [none, one]
  simp

end Rustdv.Isolation
