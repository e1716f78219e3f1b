import Rustdv.Soundness.Precedence
import Rustdv.Soundness.TreePaths

/-! # Settings for a subtree

A level set for the path of a component, or a value that it sets for everything below itself, is found by
the components of its subtree and by no others of the tree.
-/

namespace Rustdv.Subtree

open Component (Node Below Within below_iff globMatch_below strIsUnder_iff_within agent
  twoAgents twoAgents_fields second_agent)
open Config (globMatch)

variable {κ : Type*} {root : String} {tree : Node κ} {s : String × Node κ}

/-! ## Levels of the log -/

section Levels

open Log

theorem levelOf_set (history : List Setting) (p q : String) (l : Level) :
    levelOf (history ++ [.setLevelFor p l]) q = if p = q then some l else levelOf history q := by
  rw [levelOf, latest_concat, Setting.levelFor]
  split_ifs
  · rfl
  · rfl

/-- Of two ancestors of a path the deeper one is below the other. -/
theorem below_of_deeper {p q r : String} (nonempty : p ≠ "") (above : Ancestor p q) (above' : Ancestor r q)
    (deeper : depth p < depth r) : Below p r := by
  have nonempty' : r ≠ "" := by
    rintro rfl
    exact Nat.not_lt_zero _ deeper
  rw [depth, depth, if_neg nonempty, if_neg nonempty'] at deeper
  exact List.prefix_of_fewer_segments (above.segments nonempty) (above'.segments nonempty') deeper

/-- Where the prefix covers the path and nothing deeper does, the level counts. -/
theorem enabled_within {history : List Setting} {p q : String} (nonempty : p ≠ "")
    (clear : ∀ r, Below p r → levelOf history r = none) (within : Within p q) (l level : Level) :
    (configured (history ++ [.setLevelFor p l])).enabled q level = decide (l.rank ≤ level.rank) := by
  have own : levelOf (history ++ [.setLevelFor p l]) p = some l := by rw [levelOf_set, if_pos rfl]
  have effective : Effective (levelOf (history ++ [.setLevelFor p l])) q l := by
    refine ⟨p, own, .inr within, fun r other given above => ?_⟩
    rw [levelOf_set, if_neg (Ne.symm other)] at given
    rcases Nat.lt_trichotomy (depth r) (depth p) with less | same | more
    · exact less
    · exact absurd (above.eq_of_depth (.inr within) same) other
    · exact absurd (clear r (below_of_deeper nonempty (.inr within) above more)) given
  rcases level_cases (history ++ [.setLevelFor p l]) q with ⟨l', found, enabled⟩ | ⟨unset, -⟩
  · rw [enabled level, found.unique effective]
  · exact absurd (.inr within) (unset p (by rw [own]; exact Option.some_ne_none l))

/-- A path that the prefix does not cover keeps its level. -/
theorem enabled_outside (history : List Setting) {p q : String} (apart : strIsUnder q p = false) (l level : Level) :
    (configured (history ++ [.setLevelFor p l])).enabled q level = (configured history).enabled q level := by
  have covering (settings : List (String × Level)) :
      (LogConfig.replace settings p l).filter (fun e => strIsUnder q e.1) =
        settings.filter fun e => strIsUnder q e.1 := by
    rw [LogConfig.replace, List.filter_append, List.filter_filter, List.filter_singleton, apart]
    rw [cond_false, List.append_nil]
    refine List.filter_congr fun e _ => ?_
    by_cases same : e.1 = p
    · rw [same, apart, Bool.false_and]
    · simp [same]
  have same (settings : List (String × Level)) :
      LogConfig.longest (LogConfig.replace settings p l) q = LogConfig.longest settings q := by
    rw [longest_eq, longest_eq, covering]
  rw [configured_concat, LogConfig.enabled, LogConfig.perform, LogConfig.setLevelFor, same]
  rfl

/-- A level that is set for a component's path, with none set below it, is the level of the component and of
those below it; the other components of the tree keep theirs. -/
theorem levels_addressed (inside : root ≠ "") (plain : '*' ∉ root.toList) (fields : tree.Fields)
    (member : s ∈ tree.subtrees root) (history : List Setting) (clear : ∀ r, Below s.1 r → levelOf history r = none)
    (l : Level) : ∀ q ∈ tree.paths root, ∀ level,
      (configured (history ++ [.setLevelFor s.1 l])).enabled q level =
        if q ∈ s.2.paths s.1 then decide (l.rank ≤ level.rank) else (configured history).enabled q level := by
  intro q listed level
  have nonempty := (tree.subtree_plain inside plain fields s member).1
  have within : q ∈ s.2.paths s.1 ↔ Within s.1 q := by
    rw [tree.subtree_paths inside fields s member q, and_iff_right listed]
  split_ifs with here
  · exact enabled_within nonempty clear (within.mp here) l level
  · refine enabled_outside history (Bool.eq_false_iff.mpr fun covered => here ?_) l level
    exact within.mpr ((strIsUnder_iff_within nonempty).mp covered)

theorem levels_addressed_second_agent :
    (configured [.setLevelFor "Test.agents[1]" .debug]).enabled "Test.agents[1].driver" .debug = true ∧
      (configured [.setLevelFor "Test.agents[1]" .debug]).enabled "Test.agents[0].driver" .debug = false := by
  have levels := levels_addressed (by decide) (by decide) twoAgents_fields second_agent [] (fun _ _ => rfl) .debug
  refine ⟨?_, ?_⟩
  · exact (levels "Test.agents[1].driver" (by decide) .debug).trans (if_pos (by decide))
  · exact (levels "Test.agents[0].driver" (by decide) .debug).trans (if_neg (by decide))

end Levels

/-! ## Values in the configuration -/

section Values

open Config SortBy

variable {V : Type*} {sort : (String × Entry V → String × Entry V → Bool) → List (String × Entry V) →
  Option (List (String × Entry V))}

/-- A component sets a field for everything below itself. -/
def setBelow (path field : String) (entry : Entry V) : Call V := .set (some path) "*" field entry

theorem resolve_below {p : String} (nonempty : p ≠ "") : resolve (some p) "*" = p ++ ".*" := by
  rw [resolve, if_neg (by decide), if_neg nonempty, ← String.toList_inj]
  simp [toString]

theorem resolve_self (p : String) : resolve (some p) "" = p := by rw [resolve, if_pos rfl]

theorem settings_set (history : List (Call V)) (path field : String) (entry : Entry V) :
    ∃ inBuild, settings (history ++ [setBelow path field entry]) =
      settings history ++ [⟨some path, inBuild, "*", field, entry⟩] := by
  refine ⟨(history.foldl setting (false, [])).1, ?_⟩
  rw [settings, List.foldl_append]
  rfl

/-- The call neither sets the field for the path nor clears the database. -/
def Spares (path field : String) : Call V → Prop
  | .set ctx offset field' _ => ¬ (globMatch path (resolve ctx offset) = true ∧ field' = field)
  | .clear => False
  | .setTracing _ | .setInBuild _ => True

theorem relevant_append {path field : String} {later : List (Call V)} (spares : ∀ c ∈ later, Spares path field c)
    (history : List (Call V)) : relevant (history ++ later) path field = relevant history path field := by
  induction later generalizing history with
  | nil => rw [List.append_nil]
  | cons c later ih =>
    have one : relevant (history ++ [c]) path field = relevant history path field := by
      have spared := spares c List.mem_cons_self
      rw [relevant, relevant, settings, settings, List.foldl_append]
      cases c with
      | set ctx offset field' entry =>
        have unmatched : (globMatch path (resolve ctx offset) && field' == field) = false := by
          rw [Bool.eq_false_iff, ne_eq, Bool.and_eq_true, beq_iff_eq]
          exact spared
        rw [List.foldl_cons, List.foldl_nil, setting, List.filter_append, List.filter_singleton]
        dsimp only [Setting.pattern]
        rw [unmatched, cond_false, List.append_nil]
      | setTracing | setInBuild => rfl
      | clear => exact spared.elim
    rw [List.append_cons, ih (fun c member => spares c (List.mem_cons_of_mem _ member)), one]

/-- Where nothing else is set for the field, the value is found below the component. -/
theorem get_below (keeps : Contract sort) {history later : List (Call V)} {p q field : String} (nonempty : p ≠ "")
    (matched : globMatch q (p ++ ".*") = true) (fresh : relevant history q field = [])
    (spares : ∀ c ∈ later, Spares q field c) (entry : Entry V) (typeName : String) (typeId : ℕ) :
    (get sort (after (history ++ setBelow p field entry :: later)) (some q) "" field typeName typeId).map Prod.fst =
      some (outcome q field typeName typeId entry) := by
  obtain ⟨inBuild, appended⟩ := settings_set history p field entry
  have only : relevant (history ++ setBelow p field entry :: later) q field =
      [⟨some p, inBuild, "*", field, entry⟩] := by
    have pattern : Setting.pattern ⟨some p, inBuild, "*", field, entry⟩ = p ++ ".*" := resolve_below nonempty
    rw [List.append_cons, relevant_append spares]
    rw [relevant] at fresh
    rw [relevant, appended, List.filter_append, fresh, List.filter_singleton, pattern, matched]
    simp
  rw [← resolve_self q] at only
  have selected : Selected (relevant (history ++ setBelow p field entry :: later) (resolve (some q) "") field)
      ⟨some p, inBuild, "*", field, entry⟩ := by
    rw [only]
    exact ⟨[], [], rfl, by simp, by simp⟩
  have single : ∀ t ∈ relevant (history ++ setBelow p field entry :: later) (resolve (some q) "") field,
      t.pattern = p ++ ".*" := by
    rw [only]
    intro t alone
    rw [List.mem_singleton.mp alone]
    exact resolve_below nonempty
  have answered := get_of_selected keeps single selected typeName typeId
  rwa [resolve_self] at answered

/-- Elsewhere no lookup can tell that it was set, whatever is called later. -/
theorem get_elsewhere (history later : List (Call V)) {p q : String} (field : String) (nonempty : p ≠ "")
    (unmatched : globMatch q (p ++ ".*") = false) (entry : Entry V) (field' typeName : String) (typeId : ℕ) :
    get sort (after (history ++ setBelow p field entry :: later)) (some q) "" field' typeName typeId =
      get sort (after (history ++ later)) (some q) "" field' typeName typeId := by
  have apart : ¬ (globMatch (resolve (some q) "") (resolve (some p) "*") = true ∧ field = field') := by
    rw [resolve_self, resolve_below nonempty, unmatched]
    exact fun both => Bool.false_ne_true both.1
  rw [after, after, List.foldl_append, List.foldl_append, List.foldl_cons]
  exact ((indistinct_set _ entry apart).calls later).get typeName typeId

/-- What a component sets for everything below itself is found by the components of its subtree, as long as
nothing else is set for the field, and by no others of the tree. The component itself is one of the others. -/
theorem values_addressed (keeps : Contract sort) (inside : root ≠ "") (plain : '*' ∉ root.toList) (fields : tree.Fields)
    (member : s ∈ tree.subtrees root) (history : List (Call V)) (field : String) (entry : Entry V) :
    ∀ q ∈ tree.paths root, ∀ typeName typeId,
      (q ∈ s.2.paths s.1 → q ≠ s.1 → relevant history q field = [] → ∀ later, (∀ c ∈ later, Spares q field c) →
        (get sort (after (history ++ setBelow s.1 field entry :: later)) (some q) "" field typeName typeId).map Prod.fst =
          some (outcome q field typeName typeId entry)) ∧
      (q ∉ s.2.paths s.1 ∨ q = s.1 → ∀ later field',
        get sort (after (history ++ setBelow s.1 field entry :: later)) (some q) "" field' typeName typeId =
          get sort (after (history ++ later)) (some q) "" field' typeName typeId) := by
  intro q listed typeName typeId
  obtain ⟨nonempty, starless⟩ := tree.subtree_plain inside plain fields s member
  have within : q ∈ s.2.paths s.1 ↔ Within s.1 q := by
    rw [tree.subtree_paths inside fields s member q, and_iff_right listed]
  constructor
  · intro here apart fresh later spares
    have below := below_iff.mpr ⟨within.mp here, apart⟩
    exact get_below keeps nonempty ((globMatch_below starless).mpr below) fresh spares entry typeName typeId
  · intro outside later field'
    have unmatched : globMatch q (s.1 ++ ".*") ≠ true := by
      intro matched
      have below := (globMatch_below starless).mp matched
      rcases outside with absent | rfl
      · exact absent (within.mpr (.inr below))
      · exact below.ne rfl
    exact get_elsewhere history later field nonempty (Bool.eq_false_iff.mpr unmatched) entry field' typeName typeId

theorem values_addressed_second_agent :
    (get (fun less l => some (insertionSort less l))
      (after [setBelow "Test.agents[1]" "COUNT" ⟨5, "u32", 0, "5"⟩, setBelow "Test.agents[0]" "COUNT" ⟨6, "u32", 0, "6"⟩])
      (some "Test.agents[1].driver") "" "COUNT" "u32" 0).map Prod.fst = some (.ok 5) :=
  (values_addressed (fun less l => returns_insertionSort less l) (by decide) (by decide) twoAgents_fields second_agent
    [] "COUNT" ⟨5, "u32", 0, "5"⟩ "Test.agents[1].driver" (by decide) "u32" 0).1 (by decide) (by decide) rfl
    [setBelow "Test.agents[0]" "COUNT" ⟨6, "u32", 0, "6"⟩] (by simp [setBelow, Spares]; decide)

end Values

end Rustdv.Subtree
