import Mathlib.Data.List.Induction
import Rustdv.Soundness.Specificity

/-! # The rule between tied patterns

The store remembers, for each pattern and field, the latest write of each precedence. Within one
pattern this is the documented rule: highest precedence, then most recent. Between patterns of which
none is more specific than another nothing is compared any more. The sort leaves them as the store
lists them, by spelling, and the first one answers.
-/

namespace Rustdv.Config

open SortBy
open Std (TreeMap)

variable {V : Type*}

/-- One `set`, with the pattern and the precedence it stored under. -/
structure Write (V : Type*) where
  pattern : String
  field : String
  prec : ℤ
  entry : Entry V
deriving DecidableEq, Repr

/-- The database with the writes it was built from. -/
def record (s : ConfigDb V × List (Write V)) (c : Call V) : ConfigDb V × List (Write V) :=
  (call s.1 c,
    match c with
    | .set ctx offset field entry => s.2 ++ [⟨resolve ctx offset, field, precedence s.1 ctx, entry⟩]
    | .clear => []
    | .setTracing _ => s.2
    | .setInBuild _ => s.2)

/-- The writes of a history since the last `clear`, in the order they were made. -/
def writes (history : List (Call V)) : List (Write V) := (history.foldl record (init, [])).2

/-- The writes that a lookup concerns. -/
def concerning (log : List (Write V)) (path field : String) : List (Write V) :=
  log.filter fun w => globMatch path w.pattern && w.field == field

/-- The write of highest precedence, of several the most recent. -/
def latest (log : List (Write V)) : Option (Write V) :=
  log.foldl (fun best w => some (best.elim w fun v => if w.prec < v.prec then v else w)) none

/-- What a lookup for a type returns if it finds this entry. -/
def outcome (path field typeName : String) (typeId : ℕ) (entry : Entry V) : Except ConfigError V :=
  if entry.typeId = typeId then .ok entry.value
  else .error (.typeMismatch path field entry.typeName typeName)

/-- A lookup returns the value of the write of highest precedence, of several the most recent, whichever
pattern it was made under. -/
def TieRule (sort : (String × Entry V → String × Entry V → Bool) → List (String × Entry V) →
    Option (List (String × Entry V))) (history : List (Call V)) (ctx : Option String) (offset field : String) : Prop :=
  ∀ w, latest (concerning (writes history) (resolve ctx offset) field) = some w → ∀ typeName typeId,
    (get sort (after history) ctx offset field typeName typeId).map Prod.fst =
      some (outcome (resolve ctx offset) field typeName typeId w.entry)

/-- None of the patterns that match and hold the field is strictly more specific than another. -/
def Tied (store : Store V) (path field : String) : Prop :=
  ∀ a b, globMatch path a = true → Holds store a field → globMatch path b = true → Holds store b field →
    ¬ StrictlyMoreSpecific a b

/-- The pattern of a write that is spelled before the patterns of all other writes. -/
def FirstSpelled (log : List (Write V)) (pattern : String) : Prop :=
  (∃ w ∈ log, w.pattern = pattern) ∧ ∀ w ∈ log, (compare pattern w.pattern).isLE = true

/-- The entries answer every lookup alike. -/
def Alike (a b : Entry V) : Prop :=
  a.value = b.value ∧ a.typeId = b.typeId ∧ a.typeName = b.typeName

/-- The latest write is under the pattern spelled first, or the latest write under that pattern stored
the same. -/
def LatestFirst (log : List (Write V)) : Prop :=
  ∀ w pattern, latest log = some w → FirstSpelled log pattern → w.pattern = pattern ∨
    ∃ w', latest (log.filter fun v => v.pattern == pattern) = some w' ∧ Alike w'.entry w.entry

section Latest

@[simp]
theorem latest_nil : latest ([] : List (Write V)) = none := rfl

theorem latest_append_singleton (log : List (Write V)) (w : Write V) :
    latest (log ++ [w]) = some ((latest log).elim w fun v => if w.prec < v.prec then v else w) :=
  List.foldl_append

theorem latest_eq_none {log : List (Write V)} : latest log = none ↔ log = [] := by
  induction log using List.reverseRecOn with
  | nil => simp
  | append_singleton log w _ => simp [latest_append_singleton]

/-- The latest is one of the writes, and none has a higher precedence. -/
theorem latest_spec {log : List (Write V)} {w : Write V} (last : latest log = some w) :
    w ∈ log ∧ ∀ v ∈ log, v.prec ≤ w.prec := by
  induction log using List.reverseRecOn generalizing w with
  | nil => cases last
  | append_singleton log u ih =>
    rw [latest_append_singleton, Option.some.injEq] at last
    cases before : latest log with
    | none =>
      rw [before, Option.elim_none] at last
      obtain rfl := latest_eq_none.mp before
      simp [last]
    | some v =>
      obtain ⟨member, bounded⟩ := ih before
      rw [before, Option.elim_some] at last
      split_ifs at last with lower
      · subst last
        refine ⟨List.mem_append_left _ member, ?_⟩
        intro x inside
        rcases List.mem_append.mp inside with earlier | now
        · exact bounded x earlier
        · rw [List.mem_singleton.mp now]
          omega
      · subst last
        refine ⟨by simp, ?_⟩
        intro x inside
        rcases List.mem_append.mp inside with earlier | now
        · have upto := bounded x earlier
          omega
        · rw [List.mem_singleton.mp now]

theorem mem_of_latest {log : List (Write V)} {w : Write V} (last : latest log = some w) : w ∈ log :=
  (latest_spec last).1

/-- The latest of all is the latest of any part it belongs to. -/
theorem latest_filter {log : List (Write V)} {w : Write V} (part : Write V → Bool) (last : latest log = some w)
    (member : part w = true) : latest (log.filter part) = some w := by
  induction log using List.reverseRecOn generalizing w with
  | nil => cases last
  | append_singleton log v ih =>
    rw [latest_append_singleton] at last
    cases before : latest log with
    | none =>
      obtain rfl := latest_eq_none.mp before
      obtain rfl : v = w := by simpa using last
      simp [member, latest]
    | some u =>
      rw [before, Option.elim_some, Option.some.injEq] at last
      split_ifs at last with lower
      · subst last
        have kept := ih before member
        cases inside : part v with
        | false => simpa [inside] using kept
        | true => simp [inside, latest_append_singleton, kept, lower]
      · subst last
        have rest : (latest (log.filter part)).elim v (fun u => if v.prec < u.prec then u else v) = v := by
          cases other : latest (log.filter part) with
          | none => rfl
          | some x =>
            have bounded := (latest_spec before).2 x (List.mem_filter.mp (mem_of_latest other)).1
            exact if_neg (by omega)
        simp [member, latest_append_singleton, rest]

end Latest

section Stored

/-- The last key of an ordered map is its largest. -/
theorem getLast?_toList {m : TreeMap ℤ (Entry V)} {prec : ℤ} {entry : Entry V} :
    m.toList.getLast? = some (prec, entry) ↔
      m[prec]? = some entry ∧ ∀ other entry', m[other]? = some entry' → other ≤ prec := by
  have ordered := TreeMap.ordered_keys_toList (t := m)
  simp only [← TreeMap.mem_toList_iff_getElem?_eq_some]
  constructor
  · intro last
    obtain ⟨front, same⟩ := List.getLast?_eq_some_iff.mp last
    rw [same] at ordered ⊢
    refine ⟨by simp, ?_⟩
    intro other entry' member
    rcases List.mem_append.mp member with early | here
    · have less := (List.pairwise_append.mp ordered).2.2 _ early _ (List.mem_singleton_self _)
      exact (compare_lt_iff_lt.mp less).le
    · cases List.mem_singleton.mp here
      exact le_refl _
  · rintro ⟨member, largest⟩
    obtain ⟨front, back, same⟩ := List.append_of_mem member
    rw [same] at ordered largest ⊢
    cases back with
    | nil => exact List.getLast?_concat
    | cons next back =>
      have less := List.rel_of_pairwise_cons (List.pairwise_append.mp ordered).2.1 (List.mem_cons_self (l := back))
      have upto := largest next.1 next.2 (by simp)
      rw [compare_lt_iff_lt] at less
      omega

theorem getLast?_toList_insert (m : TreeMap ℤ (Entry V)) (prec : ℤ) (entry : Entry V) :
    (m.insert prec entry).toList.getLast? =
      some (m.toList.getLast?.elim (prec, entry) fun old => if prec < old.1 then old else (prec, entry)) := by
  cases last : m.toList.getLast? with
  | none =>
    rw [Option.elim_none, getLast?_toList]
    have empty : m.toList = [] := List.getLast?_eq_none_iff.mp last
    refine ⟨TreeMap.getElem?_insert_self, ?_⟩
    intro other entry' held
    rw [TreeMap.getElem?_insert] at held
    split_ifs at held with same
    · exact (compare_eq_iff_eq.mp same).ge
    · have member := TreeMap.mem_toList_iff_getElem?_eq_some.mpr held
      rw [empty] at member
      cases member
  | some old =>
    obtain ⟨top, kept⟩ := old
    obtain ⟨held, largest⟩ := getLast?_toList.mp last
    rw [Option.elim_some]
    split_ifs with lower
    · rw [getLast?_toList, TreeMap.getElem?_insert, if_neg (by rw [compare_eq_iff_eq]; omega)]
      refine ⟨held, ?_⟩
      intro other entry' stored
      rw [TreeMap.getElem?_insert] at stored
      split_ifs at stored with same
      · rw [compare_eq_iff_eq] at same
        omega
      · exact largest other entry' stored
    · rw [getLast?_toList]
      refine ⟨TreeMap.getElem?_insert_self, ?_⟩
      intro other entry' stored
      rw [TreeMap.getElem?_insert] at stored
      split_ifs at stored with same
      · exact (compare_eq_iff_eq.mp same).ge
      · have upto := largest other entry' stored
        omega

/-- The entry of highest precedence stored for a pattern and a field, with its precedence. -/
def top (store : Store V) (pattern field : String) : Option (ℤ × Entry V) :=
  (store[pattern]?.bind fun fields => fields[field]?).bind fun byPrec => byPrec.toList.getLast?

theorem top_insert (store : Store V) (path field : String) (prec : ℤ) (entry : Entry V) (pattern field' : String) :
    top (Store.insert store path field prec entry) pattern field' =
      if path = pattern ∧ field = field' then
        some ((top store path field).elim (prec, entry) fun old => if prec < old.1 then old else (prec, entry))
      else top store pattern field' := by
  rw [top, Store.insert, TreeMap.getElem?_insert]
  by_cases here : path = pattern
  · subst here
    rw [if_pos Std.compare_self, Option.bind_some, TreeMap.getElem?_insert]
    have fields : (store.getD path ∅)[field']? = store[path]?.bind fun fields => fields[field']? := by
      rw [TreeMap.getD_eq_getD_getElem?]
      cases store[path]? with
      | none => exact TreeMap.getElem?_emptyc
      | some fields => rfl
    by_cases same : field = field'
    · subst same
      have byPrec : ((store.getD path ∅).getD field ∅).toList.getLast? = top store path field := by
        rw [TreeMap.getD_eq_getD_getElem?, fields, top]
        cases store[path]?.bind fun fields => fields[field]? with
        | none => rfl
        | some byPrec => rfl
      rw [if_pos Std.compare_self, if_pos ⟨rfl, rfl⟩, Option.bind_some, getLast?_toList_insert, byPrec]
    · rw [if_neg (by simpa using same), if_neg (by simp [same]), fields]
      rfl
  · rw [if_neg (by simpa using here), if_neg (by simp [here])]
    rfl

/-- The store keeps the latest write of every pattern and field on top. -/
def Keeps (store : Store V) (log : List (Write V)) : Prop :=
  ∀ pattern field, top store pattern field =
    (latest (log.filter fun w => w.pattern == pattern && w.field == field)).map fun w => (w.prec, w.entry)

theorem Keeps.insert {store : Store V} {log : List (Write V)} (keeps : Keeps store log) (w : Write V) :
    Keeps (Store.insert store w.pattern w.field w.prec w.entry) (log ++ [w]) := by
  intro pattern field
  rw [top_insert, List.filter_append, List.filter_singleton]
  by_cases here : w.pattern = pattern ∧ w.field = field
  · obtain ⟨rfl, rfl⟩ := here
    rw [if_pos ⟨rfl, rfl⟩, keeps]
    simp only [BEq.rfl, Bool.and_self, cond_true, latest_append_singleton, Option.map_some, Option.some.injEq]
    cases latest (log.filter fun v => v.pattern == w.pattern && v.field == w.field) with
    | none => rfl
    | some v => exact (apply_ite (fun u : Write V => (u.prec, u.entry)) ..).symm
  · rw [if_neg here, keeps]
    have apart : (w.pattern == pattern && w.field == field) = false := by simpa using here
    rw [apart, cond_false, List.append_nil]

theorem Keeps.record {s : ConfigDb V × List (Write V)} (keeps : Keeps s.1.store s.2) (c : Call V) :
    Keeps (record s c).1.store (Config.record s c).2 := by
  cases c with
  | set ctx offset field entry => exact keeps.insert ⟨resolve ctx offset, field, precedence s.1 ctx, entry⟩
  | setTracing on => exact keeps
  | setInBuild active => exact keeps
  | clear => exact fun pattern field => rfl

/-- After every history the store keeps the latest of its writes. -/
theorem keeps_after (history : List (Call V)) : Keeps (after history).store (writes history) := by
  have both : (history.foldl record (init, [])).1 = after history ∧
      Keeps (history.foldl record (init, [])).1.store (history.foldl record (init, [])).2 := by
    induction history using List.reverseRecOn with
    | nil => exact ⟨rfl, fun pattern field => rfl⟩
    | append_singleton history c ih =>
      rw [after, List.foldl_append, List.foldl_append, List.foldl_cons, List.foldl_nil, List.foldl_cons, List.foldl_nil]
      exact ⟨congrArg (call · c) ih.1, ih.2.record c⟩
  rw [← both.1]
  exact both.2

end Stored

section Front

/-- A pattern is a candidate with what is on top of it. -/
theorem mem_candidates_iff_top {store : Store V} {path field pattern : String} {entry : Entry V} :
    (pattern, entry) ∈ candidates store path field ↔
      globMatch path pattern = true ∧ ∃ prec, top store pattern field = some (prec, entry) := by
  rw [mem_candidates]
  refine and_congr_right fun _ => ?_
  constructor
  · rintro ⟨fields, stored, wins⟩
    obtain ⟨byPrec, held, mapped⟩ := Option.bind_eq_some_iff.mp wins
    obtain ⟨⟨prec, entry'⟩, last, rfl⟩ := Option.map_eq_some_iff.mp mapped
    exact ⟨prec, by rw [top, stored, Option.bind_some, held, Option.bind_some, last]⟩
  · rintro ⟨prec, last⟩
    obtain ⟨byPrec, inside, largest⟩ := Option.bind_eq_some_iff.mp last
    obtain ⟨fields, stored, held⟩ := Option.bind_eq_some_iff.mp inside
    exact ⟨fields, stored, by rw [winning, held, Option.bind_some, largest, Option.map_some]⟩

/-- The candidates stand in the order of their spelling. -/
theorem pairwise_candidates (store : Store V) (path field : String) :
    (candidates store path field).Pairwise fun a b => compare a.1 b.1 = .lt := by
  have listed := (TreeMap.ordered_keys_toList (t := store)).filter fun p => globMatch path p.1
  refine List.Pairwise.filterMap _ ?_ listed
  rintro ⟨a, fields⟩ ⟨b, fields'⟩ less ⟨a', entry⟩ first ⟨b', entry'⟩ second
  obtain ⟨kept, _, same⟩ := Option.map_eq_some_iff.mp first
  obtain ⟨kept', _, same'⟩ := Option.map_eq_some_iff.mp second
  cases same
  cases same'
  exact less

/-- The latest write under one of the matching patterns. -/
theorem top_eq_latest {store : Store V} {log : List (Write V)} {path field pattern : String} (keeps : Keeps store log)
    (matched : globMatch path pattern = true) :
    top store pattern field = (latest ((concerning log path field).filter fun w => w.pattern == pattern)).map
      fun w => (w.prec, w.entry) := by
  rw [keeps, concerning, List.filter_filter]
  congr 2
  refine List.filter_congr ?_
  intro w _
  cases same : w.pattern == pattern with
  | false => simp
  | true => simp [beq_iff_eq.mp same, matched]

/-- Every write a lookup concerns has its pattern among the candidates. -/
theorem exists_candidate {store : Store V} {log : List (Write V)} {path field : String} {w : Write V}
    (keeps : Keeps store log) (member : w ∈ concerning log path field) :
    ∃ entry, (w.pattern, entry) ∈ candidates store path field := by
  obtain ⟨-, relevant⟩ := List.mem_filter.mp member
  have matched : globMatch path w.pattern = true := (Bool.and_eq_true_iff.mp relevant).1
  cases last : latest ((concerning log path field).filter fun v => v.pattern == w.pattern) with
  | none =>
    have inside : w ∈ (concerning log path field).filter fun v => v.pattern == w.pattern := by simpa using member
    rw [latest_eq_none.mp last] at inside
    cases inside
  | some v =>
    refine ⟨v.entry, mem_candidates_iff_top.mpr ⟨matched, v.prec, ?_⟩⟩
    rw [top_eq_latest keeps matched, last, Option.map_some]

/-- In front stands the pattern spelled first, with the latest write under it. -/
theorem head?_candidates {store : Store V} {log : List (Write V)} {path field : String} (keeps : Keeps store log)
    {w : Write V} (member : w ∈ concerning log path field) :
    ∃ pattern w', FirstSpelled (concerning log path field) pattern ∧
      latest ((concerning log path field).filter fun v => v.pattern == pattern) = some w' ∧
      (candidates store path field).head? = some (pattern, w'.entry) := by
  obtain ⟨entry, candidate⟩ := exists_candidate keeps member
  have ordered := pairwise_candidates store path field
  cases listed : candidates store path field with
  | nil =>
    rw [listed] at candidate
    cases candidate
  | cons c rest =>
    obtain ⟨pattern, first⟩ := c
    have front : (pattern, first) ∈ candidates store path field := by rw [listed]; exact List.mem_cons_self
    obtain ⟨matched, prec, last⟩ := mem_candidates_iff_top.mp front
    rw [top_eq_latest keeps matched] at last
    obtain ⟨w', latest', same⟩ := Option.map_eq_some_iff.mp last
    obtain ⟨inside, named⟩ := List.mem_filter.mp (mem_of_latest latest')
    cases same
    refine ⟨pattern, w', ⟨⟨w', inside, by simpa using named⟩, ?_⟩, latest', rfl⟩
    intro v other
    obtain ⟨entry', candidate'⟩ := exists_candidate keeps other
    rw [listed] at candidate' ordered
    rcases List.mem_cons.mp candidate' with here | later
    · cases here
      rw [Std.compare_self]
      decide
    · rw [(List.pairwise_cons.mp ordered).1 _ later]
      decide

/-- No two patterns are both spelled first. -/
theorem FirstSpelled.unique {log : List (Write V)} {a b : String} (first : FirstSpelled log a)
    (other : FirstSpelled log b) : a = b := by
  obtain ⟨⟨v, member, rfl⟩, below⟩ := first
  obtain ⟨⟨w, member', rfl⟩, below'⟩ := other
  exact Std.LawfulEqCmp.compare_eq_iff_eq.mp (Std.OrientedCmp.isLE_antisymm (below w member') (below' v member))

/-- The comparison relates no two tied candidates. -/
theorem tied_iff_candidates {store : Store V} {path field : String} :
    Tied store path field ↔ ∀ a ∈ candidates store path field, ∀ b ∈ candidates store path field,
      (bySpecificity a.1 b.1 == .lt) = false := by
  constructor
  · intro tied a member b member'
    obtain ⟨matched, held⟩ := exists_mem_candidates_iff.mp ⟨a.2, member⟩
    obtain ⟨matched', held'⟩ := exists_mem_candidates_iff.mp ⟨b.2, member'⟩
    have apart := tied a.1 b.1 matched held matched' held'
    rw [← bySpecificity_eq_lt_iff] at apart
    simpa using apart
  · intro none_less a b matched held matched' held'
    obtain ⟨entry, member⟩ := exists_mem_candidates_iff.mpr ⟨matched, held⟩
    obtain ⟨entry', member'⟩ := exists_mem_candidates_iff.mpr ⟨matched', held'⟩
    have apart := none_less _ member _ member'
    rw [← bySpecificity_eq_lt_iff]
    simpa using apart

/-- A stable sort leaves tied candidates as they stand. -/
theorem found_of_tied {sort : (String × Entry V → String × Entry V → Bool) → List (String × Entry V) →
    Option (List (String × Entry V))} {store : Store V} {path field : String} (keeps : Contract sort)
    (tied : Tied store path field) : found sort store path field = some (candidates store path field).head? := by
  have none_less := tied_iff_candidates.mp tied
  obtain ⟨sorted, same, perm, -, stable⟩ :=
    (keeps (fun a b => bySpecificity a.1 b.1 == .lt) (candidates store path field)).ordered
      ⟨fun a member b member' _ => none_less b member' a member, fun a member b member' c member'' _ _ =>
        none_less c member'' a member⟩
  rw [found, same, Option.map_some, Option.some.injEq]
  cases listed : candidates store path field with
  | nil =>
    rw [listed] at perm
    rw [perm.eq_nil]
  | cons c rest =>
    have member : c ∈ candidates store path field := by rw [listed]; exact List.mem_cons_self
    have alike : ∀ d ∈ candidates store path field,
        SortBy.alike (fun a b : String × Entry V => bySpecificity a.1 b.1 == .lt) c d = true := by
      intro d member'
      simp only [SortBy.alike, none_less c member d member', none_less d member' c member, Bool.not_false, Bool.and_self]
    have kept := stable c member
    rw [List.filter_eq_self.mpr alike, List.filter_eq_self.mpr fun d inside => alike d (perm.mem_iff.mp inside)] at kept
    rw [kept, listed]

end Front

section Rule

variable {sort : (String × Entry V → String × Entry V → Bool) → List (String × Entry V) →
  Option (List (String × Entry V))}

theorem get_of_found (db : ConfigDb V) {ctx : Option String} {offset field pattern : String} {entry : Entry V}
    (finds : found sort db.store (resolve ctx offset) field = some (some (pattern, entry))) (typeName : String)
    (typeId : ℕ) : (get sort db ctx offset field typeName typeId).map Prod.fst =
      some (outcome (resolve ctx offset) field typeName typeId entry) := by
  rw [get, finds, outcome]
  split_ifs with same
  · simp [same]
  · simp [same]

/-- Entries give the same outcome for every type exactly when they are alike. -/
theorem alike_iff_outcome {a b : Entry V} (path field : String) :
    (∀ typeName typeId, outcome path field typeName typeId a = outcome path field typeName typeId b) ↔ Alike a b := by
  constructor
  · intro same
    have own := same "" a.typeId
    have foreign := same "" (a.typeId + 1)
    by_cases ids : b.typeId = a.typeId
    · refine ⟨by simpa [outcome, ids] using own, ids.symm, ?_⟩
      simpa [outcome, ids] using foreign
    · simp [outcome, ids] at own
  · rintro ⟨values, ids, names⟩ typeName typeId
    rw [outcome, outcome, values, ids, names]

/-- After any history of calls, a lookup among tied patterns follows the rule exactly when the write that
should win is under the pattern spelled first, or that pattern's own latest write stored the same. -/
theorem tie_rule_iff_latest_first (keeps : Contract sort) (history : List (Call V)) (ctx : Option String)
    (offset field : String) (tied : Tied (after history).store (resolve ctx offset) field) :
    TieRule sort history ctx offset field ↔
      LatestFirst (concerning (writes history) (resolve ctx offset) field) := by
  have found := found_of_tied keeps tied
  constructor
  · intro rule w pattern last first
    obtain ⟨pattern', w', first', latest', head⟩ := head?_candidates (keeps_after history) (mem_of_latest last)
    cases first.unique first'
    refine .inr ⟨w', latest', (alike_iff_outcome (resolve ctx offset) field).mp ?_⟩
    intro typeName typeId
    have got := get_of_found (after history) (found.trans (congrArg some head)) typeName typeId
    exact Option.some.inj (got.symm.trans (rule w last typeName typeId))
  · intro latestFirst w last typeName typeId
    obtain ⟨pattern, w', first, latest', head⟩ := head?_candidates (keeps_after history) (mem_of_latest last)
    rw [get_of_found (after history) (found.trans (congrArg some head))]
    rcases latestFirst w pattern last first with here | ⟨v, latest'', alike⟩
    · have same := latest_filter (fun v => v.pattern == pattern) last (by simpa using here)
      cases latest'.symm.trans same
      rfl
    · cases latest'.symm.trans latest''
      rw [(alike_iff_outcome (resolve ctx offset) field).mpr alike]

/-- Two overlapping patterns, the first one spelled written last. -/
def spelledLast : List (Call ℕ) :=
  [.set none "top.*" "MSG" ⟨1, "u32", 0, "1"⟩, .set none "*.agent" "MSG" ⟨2, "u32", 0, "2"⟩]

theorem spelledLast_tie_rule :
    TieRule (fun less l => some (insertionSort less l)) spelledLast none "top.agent" "MSG" := by
  refine (tie_rule_iff_latest_first (fun less l => returns_insertionSort less l) spelledLast none "top.agent" "MSG"
    (tied_iff_candidates.mpr (by decide +kernel))).mpr ?_
  intro w pattern last first
  have last' : latest (concerning (writes spelledLast) (resolve none "top.agent") "MSG") =
      some ⟨"*.agent", "MSG", 1000, ⟨2, "u32", 0, "2"⟩⟩ := by decide +kernel
  have first' : FirstSpelled (concerning (writes spelledLast) (resolve none "top.agent") "MSG") "*.agent" := by
    unfold FirstSpelled
    decide +kernel
  cases last.symm.trans last'
  exact .inl (first'.unique first)

/-- The same two patterns, written the other way around. -/
def spelledFirst : List (Call ℕ) :=
  [.set none "*.agent" "MSG" ⟨1, "u32", 0, "1"⟩, .set none "top.*" "MSG" ⟨2, "u32", 0, "2"⟩]

/-- The patterns are tied and the second write is the latest, but the pattern spelled first answers. -/
theorem spelledFirst_not_tie_rule :
    Contract (fun less (l : List (String × Entry ℕ)) => some (insertionSort less l)) ∧
      Tied (after spelledFirst).store (resolve none "top.agent") "MSG" ∧
      (∀ pattern ∈ ["*.agent", "top.*"], globMatch (resolve none "top.agent") pattern = true ∧
        Holds (after spelledFirst).store pattern "MSG") ∧
      ∀ sort, Contract sort → ¬ TieRule sort spelledFirst none "top.agent" "MSG" := by
  have listed : candidates (after spelledFirst).store (resolve none "top.agent") "MSG" =
      [("*.agent", ⟨1, "u32", 0, "1"⟩), ("top.*", ⟨2, "u32", 0, "2"⟩)] := by decide +kernel
  have tied : Tied (after spelledFirst).store (resolve none "top.agent") "MSG" :=
    tied_iff_candidates.mpr (by decide +kernel)
  refine ⟨fun less l => returns_insertionSort less l, tied, ?_, ?_⟩
  · intro pattern member
    rw [← exists_mem_candidates_iff, listed]
    simp only [List.mem_cons, List.not_mem_nil, or_false] at member
    rcases member with rfl | rfl
    · exact ⟨_, List.mem_cons_self⟩
    · exact ⟨_, List.mem_cons_of_mem _ List.mem_cons_self⟩
  · intro sort keeps rule
    have last : latest (concerning (writes spelledFirst) (resolve none "top.agent") "MSG") =
        some ⟨"top.*", "MSG", 1000, ⟨2, "u32", 0, "2"⟩⟩ := by decide +kernel
    have finds := found_of_tied keeps tied
    rw [listed] at finds
    have got := get_of_found (after spelledFirst) finds "u32" 0
    rw [rule _ last] at got
    simp [outcome] at got

end Rule

end Rustdv.Config
