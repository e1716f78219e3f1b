import Rustdv.Model.AluTests
import Rustdv.Soundness.TinyAluTestbench

/-! # The verdict on the TinyALU

The scoreboard reports nothing exactly when every observed command has the predicted result and
something was observed. With the design as it is, no order of steps makes a test fail.
-/

namespace Rustdv.TinyAlu

open Isolation (Rng)

/-! ## Scoreboard -/

/-- The pairs that the scoreboard objects to. -/
def mismatched (pairs : List (AluCommand × AluResult)) : List (AluCommand × AluResult) :=
  pairs.filter fun (cmd, actual) => predict cmd ≠ actual

/-- The report of one of them. -/
def mismatchError (cmd : AluCommand) (actual : AluResult) : String :=
  "scoreboard mismatch: " ++ cmd.debug ++ " -> got " ++ actual.debug ++ ", expected " ++ (predict cmd).debug

theorem Checking.compare_eq (s : Checking) (cmd : AluCommand) (actual : AluResult) :
    (s.compare cmd actual).scoreboard =
        { s.scoreboard with
          compared := s.scoreboard.compared + 1
          mismatches := s.scoreboard.mismatches + (mismatched [(cmd, actual)]).length } ∧
      (s.compare cmd actual).errors =
        s.errors ++ (mismatched [(cmd, actual)]).map fun (cmd, actual) => mismatchError cmd actual := by
  unfold compare
  by_cases agrees : predict cmd = actual
  · have none : mismatched [(cmd, actual)] = [] := List.filter_cons_of_neg (by simp [agrees])
    rw [if_neg (not_not.mpr agrees), none]
    exact ⟨rfl, (List.append_nil _).symm⟩
  · have one : mismatched [(cmd, actual)] = [(cmd, actual)] := List.filter_cons_of_pos (by simp [agrees])
    rw [if_pos agrees, one]
    exact ⟨rfl, rfl⟩

theorem Checking.foldl_compare (pairs : List (AluCommand × AluResult)) (s : Checking) :
    (pairs.foldl (fun t (cmd, actual) => t.compare cmd actual) s).scoreboard =
        { s.scoreboard with
          compared := s.scoreboard.compared + pairs.length
          mismatches := s.scoreboard.mismatches + (mismatched pairs).length } ∧
      (pairs.foldl (fun t (cmd, actual) => t.compare cmd actual) s).errors =
        s.errors ++ (mismatched pairs).map fun (cmd, actual) => mismatchError cmd actual := by
  induction pairs generalizing s with
  | nil => simp [mismatched]
  | cons pair rest ih =>
    obtain ⟨cmd, actual⟩ := pair
    obtain ⟨scoreboard, errors⟩ := s.compare_eq cmd actual
    have split : mismatched ((cmd, actual) :: rest) = mismatched [(cmd, actual)] ++ mismatched rest := by
      rw [mismatched, mismatched, mismatched, ← List.filter_append]
      rfl
    rw [List.foldl_cons, (ih _).1, (ih _).2, scoreboard, errors, split, List.map_append, List.append_assoc,
      List.length_append, List.length_cons]
    simp only [Scoreboard.mk.injEq, and_true, true_and]
    omega

theorem Checking.finish_eq (s : Checking) :
    s.finish.scoreboard = s.scoreboard ∧
      s.finish.errors =
        s.errors ++
          (if s.scoreboard.cmds.length ≠ s.scoreboard.results.length then
            ["scoreboard: saw " ++ toString s.scoreboard.cmds.length ++ " commands and " ++
              toString s.scoreboard.results.length ++ " results"]
          else []) ++
          if s.scoreboard.compared = 0 then ["scoreboard: nothing was compared"] else [] := by
  unfold finish
  dsimp only
  by_cases lengths : s.scoreboard.cmds.length ≠ s.scoreboard.results.length
  · rw [if_pos lengths, if_pos lengths]
    dsimp only
    by_cases nothing : s.scoreboard.compared = 0
    · rw [if_pos nothing, if_pos nothing]
      exact ⟨rfl, rfl⟩
    · rw [if_neg nothing, if_neg nothing, List.append_nil]
      exact ⟨rfl, rfl⟩
  · rw [if_neg lengths, if_neg lengths, List.append_nil]
    by_cases nothing : s.scoreboard.compared = 0
    · rw [if_pos nothing, if_pos nothing]
      exact ⟨rfl, rfl⟩
    · rw [if_neg nothing, if_neg nothing, List.append_nil]
      exact ⟨rfl, rfl⟩

theorem mismatched_zip_eq_nil_iff {cmds : List AluCommand} {results : List AluResult}
    (lengths : cmds.length = results.length) : mismatched (cmds.zip results) = [] ↔ results = cmds.map predict := by
  constructor
  · intro none
    have agree (pair : AluCommand × AluResult) (member : pair ∈ cmds.zip results) : predict pair.1 = pair.2 := by
      simpa using List.filter_eq_nil_iff.mp none pair member
    calc results = (cmds.zip results).map Prod.snd := (List.map_snd_zip lengths.ge).symm
      _ = (cmds.zip results).map (predict ∘ Prod.fst) := List.map_congr_left fun pair member => (agree pair member).symm
      _ = ((cmds.zip results).map Prod.fst).map predict := List.map_map.symm
      _ = cmds.map predict := by rw [List.map_fst_zip lengths.le]
  · rintro rfl
    refine List.filter_eq_nil_iff.mpr fun pair member => ?_
    rw [List.zip_map_right] at member
    obtain ⟨⟨cmd, again⟩, both, rfl⟩ := List.mem_map.mp member
    obtain ⟨i, bound, at_⟩ := List.getElem_of_mem both
    rw [List.getElem_zip] at at_
    cases at_
    simp

/-- The books of the scoreboard after `check`. -/
theorem Scoreboard.check_eq (cmds : List AluCommand) (results : List AluResult) :
    (heard cmds results).check.scoreboard =
        ⟨cmds, results, min cmds.length results.length, (mismatched (cmds.zip results)).length⟩ ∧
      (heard cmds results).check.errors =
        (mismatched (cmds.zip results)).map (fun (cmd, actual) => mismatchError cmd actual) ++
          (if cmds.length ≠ results.length then
            ["scoreboard: saw " ++ toString cmds.length ++ " commands and " ++ toString results.length ++ " results"]
          else []) ++
          if min cmds.length results.length = 0 then ["scoreboard: nothing was compared"] else [] := by
  obtain ⟨scoreboard, errors⟩ := Checking.foldl_compare (cmds.zip results) ⟨heard cmds results, [], []⟩
  obtain ⟨same, finished⟩ := Checking.finish_eq (heard cmds results).compareAll
  have looped : (heard cmds results).compareAll.scoreboard =
      ⟨cmds, results, min cmds.length results.length, (mismatched (cmds.zip results)).length⟩ := by
    refine scoreboard.trans ?_
    rw [List.length_zip]
    simp only [heard, Nat.zero_add]
  have reported : (heard cmds results).compareAll.errors =
      (mismatched (cmds.zip results)).map fun (cmd, actual) => mismatchError cmd actual := errors.trans (List.nil_append _)
  rw [looped, reported] at finished
  exact ⟨same.trans looped, finished⟩

/-- Nothing is reported exactly when every command has its result and there was one. -/
theorem Scoreboard.check_errors_eq_nil_iff (cmds : List AluCommand) (results : List AluResult) :
    (heard cmds results).check.errors = [] ↔ results = cmds.map predict ∧ cmds ≠ [] := by
  rw [(check_eq cmds results).2]
  simp only [List.append_eq_nil_iff, List.map_eq_nil_iff, ite_eq_right_iff, List.cons_ne_nil, imp_false, not_not]
  constructor
  · rintro ⟨⟨none, lengths⟩, some⟩
    refine ⟨(mismatched_zip_eq_nil_iff lengths).mp none, ?_⟩
    rintro rfl
    exact some (Nat.zero_min _)
  · rintro ⟨rfl, some⟩
    have lengths : cmds.length = (cmds.map predict).length := by rw [List.length_map]
    refine ⟨⟨(mismatched_zip_eq_nil_iff lengths).mpr rfl, lengths⟩, ?_⟩
    rw [List.length_map, Nat.min_self]
    exact fun zero => some (List.length_eq_zero_iff.mp zero)

/-! ## Coverage -/

theorem CovCollector.foldl_write (cmds : List AluCommand) (seen : CovCollector) (op : Ops) :
    cmds.foldl write seen op =
      if op ∈ cmds.map AluCommand.op then some ((seen op).getD 0 + (cmds.map AluCommand.op).count op) else seen op := by
  induction cmds generalizing seen with
  | nil => rfl
  | cons cmd rest ih =>
    rw [List.foldl_cons, ih, List.map_cons, List.count_cons]
    by_cases same : cmd.op = op
    · subst same
      rw [if_pos List.mem_cons_self, beq_self_eq_true, if_pos rfl]
      simp only [write, Function.update_self, Option.getD_some]
      split
      · rw [Nat.add_assoc, Nat.add_comm 1]
      · next absent => rw [List.count_eq_zero_of_not_mem absent, Nat.zero_add]
    · simp only [write, Function.update_of_ne (Ne.symm same), List.mem_cons, Ne.symm same, false_or,
        beq_eq_false_iff_ne.mpr same, Bool.false_eq_true, ↓reduceIte, Nat.add_zero]

theorem Coverage.check_eq_nil_iff (cmds : List AluCommand) :
    check (.heard cmds) = [] ↔ ∀ op, op ∈ cmds.map AluCommand.op := by
  rw [check, List.map_eq_nil_iff, List.filter_eq_nil_iff]
  have all (op : Ops) : op ∈ Ops.all := by cases op <;> decide
  refine forall_congr' fun op => ?_
  rw [CovCollector.heard, CovCollector.foldl_write]
  split
  · next hit => simp [all, hit]
  · next absent => simp [all, absent]

/-! ## Sequences -/

/-- A sequence that only fills in operands walks over the operations. -/
theorem map_op_allOps {setOperands : Operands} (keeps : ∀ rng cmd, (setOperands rng cmd).1.op = cmd.op) (rng : Rng)
    (n : ℕ) : (allOps setOperands rng n).map AluCommand.op = (List.replicate n Ops.all).flatten := by
  induction n generalizing rng with
  | zero => rfl
  | succ n ih =>
    rw [allOps, List.map_append, ih, List.replicate_succ, List.flatten_cons]
    simp [Ops.all, keeps]

theorem RandomSeq.op_setOperands (rng : Rng) (cmd : AluCommand) : (setOperands rng cmd).1.op = cmd.op := by
  unfold setOperands
  obtain ⟨a, rng⟩ := rng.u8
  dsimp only

theorem op_mem_bodies {rng : Rng} {cmds : List AluCommand} (ran : cmds ∈ [BaseSeq.body rng, RandomSeq.body rng, MaxSeq.body rng])
    (op : Ops) : op ∈ cmds.map AluCommand.op := by
  simp only [List.mem_cons, List.not_mem_nil, or_false] at ran
  rcases ran with rfl | rfl | rfl
  · rw [BaseSeq.body, map_op_allOps fun _ _ => rfl]
    cases op <;> decide
  · rw [RandomSeq.body, map_op_allOps RandomSeq.op_setOperands]
    cases op <;> decide
  · rw [MaxSeq.body, map_op_allOps fun _ _ => rfl]
    cases op <;> decide

/-! ## Tests -/

variable {pins : Pins} {rtl : Rtl} {actions more : List Action} {s t u : Bench} {obs out : List Obs}

/-- No test fails. Once `wait_idle` has returned, the scoreboard has everything that was sent with the predicted
results, however long the clock goes on: it reports nothing if something was sent, and the coverage collector
reports nothing if it was a sequence. -/
theorem checks_pass (ran : bench.run (.powerUp pins rtl) actions = some (s, obs)) (undisturbed : Undisturbed obs)
    (returned : bench.step s .pollWaitIdle = some (t, [.idle])) (goes : bench.run t more = some (u, out))
    (unsent : ∀ cmd, .send cmd ∉ more) :
    u.cmdLog = sent obs ∧ u.resultLog = (sent obs).map predict ∧
      (sent obs ≠ [] → (Scoreboard.heard u.cmdLog u.resultLog).check.errors = []) ∧
      ∀ rng, sent obs ∈ [BaseSeq.body rng, RandomSeq.body rng, MaxSeq.body rng] →
        (Scoreboard.heard u.cmdLog u.resultLog).check.errors = [] ∧ Coverage.check (.heard u.cmdLog) = [] := by
  obtain ⟨cmdLog, resultLog⟩ := logs_of_idle ran undisturbed returned goes unsent
  have scoreboard (some : sent obs ≠ []) : (Scoreboard.heard u.cmdLog u.resultLog).check.errors = [] :=
    (Scoreboard.check_errors_eq_nil_iff _ _).mpr ⟨by rw [cmdLog, resultLog], by rwa [cmdLog]⟩
  refine ⟨cmdLog, resultLog, scoreboard, fun rng sequence => ?_⟩
  have hits := op_mem_bodies sequence
  refine ⟨scoreboard ?_, (Coverage.check_eq_nil_iff _).mpr (by rwa [cmdLog])⟩
  intro none
  have := hits .add
  rw [none] at this
  cases this

theorem checks_pass_stale :
    ∃ s obs t, bench.run (.powerUp stalePins staleRtl) (boot ++ drive ++ release) = some (s, obs) ∧
      bench.step s .pollWaitIdle = some (t, [.idle]) ∧
      (sent obs ≠ [] → (Scoreboard.heard t.cmdLog t.resultLog).check.errors = []) := by
  refine ⟨_, _, _, rfl, rfl, ?_⟩
  exact (@checks_pass stalePins staleRtl (boot ++ drive ++ release) [] _ _ _ _ _ rfl
    ⟨[.sent ⟨3, 4, .add⟩], [], rfl, by simp⟩ rfl rfl (by simp)).2.2.1

end Rustdv.TinyAlu
