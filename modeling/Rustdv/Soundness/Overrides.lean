import Mathlib.Order.WellFounded
import Rustdv.Model.Factory
import Rustdv.Soundness.GlobInclusion
import Rustdv.Soundness.Precedence

/-! # What a factory slot is resolved to

The factory keeps no table: overrides are looked up like any configuration value. A pattern of stars
alone matches every path, and every other pattern is strictly more specific than it. So it comes first
only when all the patterns are of stars alone, however the others are related; and these are tied, so
that the one spelled first answers, which has the fewest stars.
-/

namespace Rustdv.Config

open SortBy

variable {V : Type*}

/-- Stars, and nothing else. -/
def allStars (pattern : String) : Bool := !pattern.toList.isEmpty && pattern.toList.all (· == '*')

theorem allStars_iff {pattern : String} :
    allStars pattern = true ↔ ∃ n, pattern.toList = List.replicate (n + 1) '*' := by
  rw [allStars, Bool.and_eq_true, Bool.not_eq_true', List.isEmpty_eq_false_iff, List.all_eq_true]
  constructor
  · rintro ⟨nonempty, stars⟩
    obtain ⟨n, count⟩ := Nat.exists_eq_succ_of_ne_zero (mt List.length_eq_zero_iff.mp nonempty)
    exact ⟨n, List.eq_replicate_iff.mpr ⟨count, fun c member => beq_iff_eq.mp (stars c member)⟩⟩
  · rintro ⟨n, same⟩
    rw [same]
    exact ⟨List.cons_ne_nil _ _, fun c member => beq_iff_eq.mpr (List.eq_of_mem_replicate member)⟩

theorem globMatch_of_allStars {pattern : String} (stars : allStars pattern = true) (path : String) :
    globMatch path pattern = true := by
  obtain ⟨n, same⟩ := allStars_iff.mp stars
  rw [globMatch_eq, same]
  have takes (n : ℕ) : Glob.accepts '*' (List.replicate (n + 1) '*') path.toList = true := by
    induction n with
    | zero => exact Glob.accepts_wild.mpr ⟨path.toList, [], (List.append_nil _).symm, rfl⟩
    | succ n ih => exact Glob.accepts_wild.mpr ⟨[], path.toList, rfl, ih⟩
  exact takes n

/-- Any other pattern leaves out some path. -/
theorem exists_unmatched {pattern : String} (other : allStars pattern = false) :
    ∃ path, globMatch path pattern = false := by
  by_cases empty : pattern.toList = []
  · refine ⟨"x", ?_⟩
    rw [globMatch_eq, empty]
    rfl
  · refine ⟨"", ?_⟩
    rw [← Bool.not_eq_true, globMatch_eq, Glob.accepts_iff_fill]
    rintro ⟨words, -, same⟩
    have letters : ∃ g ∈ pattern.toList, g ≠ '*' := by
      rw [allStars, List.isEmpty_eq_false_iff.mpr empty, Bool.not_false, Bool.true_and, List.all_eq_false] at other
      obtain ⟨g, member, apart⟩ := other
      exact ⟨g, member, fun any => apart (beq_iff_eq.mpr any)⟩
    have filled (l : List Char) (words : List (List Char)) (some_letter : ∃ g ∈ l, g ≠ '*') :
        Glob.fill '*' l words ≠ [] := by
      induction l generalizing words with
      | nil => simp at some_letter
      | cons x l ih =>
        rw [Glob.fill]
        split_ifs with any
        · obtain ⟨g, member, apart⟩ := some_letter
          rcases List.mem_cons.mp member with here | later
          · exact absurd (here.trans any) apart
          · simp [ih words.tail ⟨g, later, apart⟩]
        · exact List.cons_ne_nil _ _
    exact filled _ words letters same.symm

/-- It is strictly more specific than stars alone. -/
theorem less_of_allStars {a b : String} (other : allStars a = false) (stars : allStars b = true) :
    (bySpecificity a b == .lt) = true := by
  rw [beq_iff_eq, bySpecificity_eq_lt_iff]
  refine ⟨fun path _ => globMatch_of_allStars stars path, ?_⟩
  intro within
  obtain ⟨path, unmatched⟩ := exists_unmatched other
  rw [within path (globMatch_of_allStars stars path)] at unmatched
  cases unmatched

/-- Stars alone are more specific than nothing. -/
theorem not_less_of_allStars {a : String} (stars : allStars a = true) (b : String) :
    (bySpecificity a b == .lt) = false := by
  rw [beq_eq_false_iff_ne, Ne, bySpecificity_eq_lt_iff]
  exact fun strictly => strictly.2 fun path _ => globMatch_of_allStars stars path

/-- Of two patterns of stars alone the shorter is spelled first. -/
theorem eq_of_allStars {a b : String} (stars : allStars a = true) (stars' : allStars b = true)
    (short : a.length ≤ b.length) (before : (compare b a).isLE = true) : a = b := by
  obtain ⟨n, same⟩ := allStars_iff.mp stars
  obtain ⟨m, same'⟩ := allStars_iff.mp stars'
  rw [← String.length_toList, ← String.length_toList, same, same', List.length_replicate, List.length_replicate] at short
  by_contra apart
  have fewer : n < m := by
    refine lt_of_le_of_ne (Nat.le_of_succ_le_succ short) ?_
    rintro rfl
    exact apart (String.toList_inj.mp (same.trans same'.symm))
  have first : a < b := by
    rw [String.lt_iff, same, same']
    have smaller (n k : ℕ) : List.replicate n '*' < List.replicate (n + k + 1) '*' := by
      induction n with
      | zero => exact List.Lex.nil
      | succ n ih =>
        rw [List.replicate_succ, Nat.add_right_comm n 1 k, List.replicate_succ]
        exact List.Lex.cons ih
    obtain ⟨k, rfl⟩ := Nat.exists_eq_add_of_lt fewer
    have grown := smaller (n + 1) k
    rwa [Nat.add_right_comm n 1 k] at grown
  have greater : compare b a = .gt := by
    change compareOfLessAndEq b a = .gt
    have after : ¬ b < a := List.lt_asymm (String.lt_iff.mp first)
    rw [compareOfLessAndEq, if_neg after, if_neg (Ne.symm apart)]
  rw [greater] at before
  cases before

/-- A candidate carries the setting that is selected under its pattern. -/
theorem exists_setting_of_candidate {history : List (Call V)} {path field pattern : String} {entry : Entry V}
    (member : (pattern, entry) ∈ candidates (after history).store path field) :
    ∃ s ∈ relevant history path field, s.pattern = pattern ∧ s.entry = entry ∧
      Selected ((relevant history path field).filter fun s => s.pattern == pattern) s := by
  obtain ⟨matched, prec, held⟩ := mem_candidates_iff_top.mp member
  rw [top_eq_latest (keeps_after history) matched, concerning_eq, List.filter_map] at held
  obtain ⟨w, last, same⟩ := Option.map_eq_some_iff.mp held
  have some_set : (relevant history path field).filter (fun s => s.pattern == pattern) ≠ [] := by
    intro none
    have empty : (relevant history path field).filter ((fun v : Write V => v.pattern == pattern) ∘ Setting.write) = [] := none
    rw [empty] at last
    cases last
  obtain ⟨s, selected, last'⟩ := exists_selected some_set
  obtain rfl : s.write = w := Option.some.inj (last'.symm.trans last)
  have inside := selected
  obtain ⟨front, back, cut, -⟩ := inside
  obtain ⟨member, named⟩ := List.mem_filter.mp (cut ▸ List.mem_append_right front List.mem_cons_self)
  exact ⟨s, member, beq_iff_eq.mp named, congrArg Prod.snd same, selected⟩

/-- Every setting that a lookup concerns has its pattern among the candidates. -/
theorem exists_candidate_of_setting {history : List (Call V)} {path field : String} {s : Setting V}
    (member : s ∈ relevant history path field) :
    ∃ entry, (s.pattern, entry) ∈ candidates (after history).store path field := by
  refine exists_candidate (w := s.write) (keeps_after history) ?_
  rw [concerning_eq]
  exact List.mem_map_of_mem member

end Rustdv.Config

namespace Rustdv.Component

open Config (Setting Selected allStars bySpecificity candidates globMatch relevant settings)
open SortBy

variable {κ V : Type*}

/-- The overrides that are installed for a name where they match the path. -/
def overrides (history : List (Install κ V)) (path requested : String) : List (Setting (Value κ V)) :=
  relevant (history.map Install.call) path (overrideKey requested)

/-- The component is the target of the override. -/
def Builds (s : Setting (Value κ V)) (inner : Node κ) : Prop :=
  ∃ make target, s.entry.value = .override make target ∧ inner = make.1

/-- The specificity sort has few patterns to sort for this name and path, or specificity orders them. -/
def Sortable (history : List (Install κ V)) (path requested : String) : Prop :=
  (candidates (installed history).store path (overrideKey requested)).length ≤ maxLenAlwaysInsertionSort ∨
    StrictWeakOn (fun a b => bySpecificity a.1 b.1 == .lt)
      (candidates (installed history).store path (overrideKey requested))

theorem overrideKey_injective : Function.Injective overrideKey :=
  fun _ _ same => String.append_right_inj _ |>.mp same

section Settings

/-- What is set under a key of the factory is an override; one that no context sets is under the star. -/
def IsOverride (s : Setting (Value κ V)) : Prop :=
  (∃ make target, s.entry.value = .override make target) ∧ s.entry.typeId = overrideTypeId ∧
    (s.setter = none → s.pattern = "*")

theorem isOverride_settings (history : List (Install κ V)) {requested : String} {s : Setting (Value κ V)}
    (member : s ∈ settings (history.map Install.call)) (key : s.field = overrideKey requested) : IsOverride s := by
  rw [settings] at member
  induction history using List.reverseRecOn with
  | nil => cases member
  | append_singleton history i ih =>
    rw [List.map_append, List.foldl_append, List.map_singleton, List.foldl_cons, List.foldl_nil] at member
    cases i with
    | setTypeOverride other target make =>
      rcases List.mem_append.mp member with early | here
      · exact ih early
      · obtain rfl := List.mem_singleton.mp here
        exact ⟨⟨make, target, rfl⟩, rfl, fun _ => rfl⟩
    | setInstOverride ctx path other target make =>
      rcases List.mem_append.mp member with early | here
      · exact ih early
      · obtain rfl := List.mem_singleton.mp here
        exact ⟨⟨make, target, rfl⟩, rfl, fun absent => nomatch absent⟩
    | set ctx offset field entry plain =>
      rcases List.mem_append.mp member with early | here
      · exact ih early
      · obtain rfl := List.mem_singleton.mp here
        exact absurd key (plain requested)
    | setTracing on => exact ih member
    | setInBuild active => exact ih member
    | clear => cases member

theorem isOverride_of_mem {history : List (Install κ V)} {path requested : String} {s : Setting (Value κ V)}
    (member : s ∈ overrides history path requested) : IsOverride s := by
  obtain ⟨inside, concerns⟩ := List.mem_filter.mp member
  exact isOverride_settings history inside (beq_iff_eq.mp (Bool.and_eq_true_iff.mp concerns).2)

end Settings

section Resolve

variable {sort : (String × Config.Entry (Value κ V) → String × Config.Entry (Value κ V) → Bool) →
  List (String × Config.Entry (Value κ V)) → Option (List (String × Config.Entry (Value κ V)))}

/-- What is found decides what is left in the slot. -/
theorem resolve_of_found {db : Config.ConfigDb (Value κ V)} {path field requested pattern : String}
    {s : Setting (Value κ V)} (inner : Option (Node κ)) (override : IsOverride s)
    (finds : Config.found sort db.store (childPath path field) (overrideKey requested) = some (some (pattern, s.entry))) :
    ∃ node, resolve sort db path (createComp field requested) inner =
      some (⟨field, .rustdvComp false (some requested)⟩, some node) ∧ Builds s node := by
  obtain ⟨⟨make, target, same⟩, typed, -⟩ := override
  refine ⟨make.1, ?_, make, target, same, rfl⟩
  have known : Config.found sort db.store (Config.resolve none (childPath path field)) (overrideKey requested) =
    some (some (pattern, s.entry)) := finds
  simp only [resolve, createComp, lookupOverride, Config.get, known, Option.map_some, typed, if_true, same]

theorem resolve_of_missing {db : Config.ConfigDb (Value κ V)} {path field requested : String}
    (inner : Option (Node κ))
    (missing : Config.found sort db.store (childPath path field) (overrideKey requested) = some none) :
    resolve sort db path (createComp field requested) inner =
      some (⟨field, .rustdvComp false (some requested)⟩, inner) := by
  have known : Config.found sort db.store (Config.resolve none (childPath path field)) (overrideKey requested) =
    some none := missing
  simp only [resolve, createComp, lookupOverride, Config.get, known, Option.map_some]

/-- Where a pattern other than stars alone matches, a slot gets the target of an instance override. -/
theorem resolve_instance (keeps : Contract sort) {history : List (Install κ V)} {path field requested : String}
    (sortable : Sortable history (childPath path field) requested) (inner : Option (Node κ))
    (special : ∃ s ∈ overrides history (childPath path field) requested, allStars s.pattern = false) :
    ∃ s ∈ overrides history (childPath path field) requested, s.setter ≠ none ∧ allStars s.pattern = false ∧
      ∃ node, resolve sort (installed history) path (createComp field requested) inner =
        some (⟨field, .rustdvComp false (some requested)⟩, some node) ∧ Builds s node := by
  obtain ⟨s, member, other⟩ := special
  obtain ⟨entry, candidate⟩ := Config.exists_candidate_of_setting member
  obtain ⟨sorted, ⟨pattern, first⟩, same, head, better⟩ := (keeps _ _).first_better
    (fun c => allStars c.1) sortable (fun a b => Config.less_of_allStars)
    (fun a b stars => Config.not_less_of_allStars stars b.1) ⟨_, candidate, other⟩
  have inside := ((keeps _ _).perm sorted same).mem_iff.mp (List.mem_of_mem_head? head)
  obtain ⟨t, member', rfl, rfl, -⟩ := Config.exists_setting_of_candidate inside
  have override := isOverride_of_mem member'
  refine ⟨t, member', ?_, better, resolve_of_found inner override (Option.map_eq_some_iff.mpr ⟨sorted, same, head⟩)⟩
  intro unset
  have star : allStars "*" = true := by decide
  rw [override.2.2 unset, star] at better
  cases better

/-- Where only stars match, the slot gets what was set last with highest precedence under the fewest. -/
theorem resolve_stars (keeps : Contract sort) {history : List (Install κ V)} {path field requested pattern : String}
    (inner : Option (Node κ))
    (stars : ∀ s ∈ overrides history (childPath path field) requested, allStars s.pattern = true)
    (stored : ∃ s ∈ overrides history (childPath path field) requested, s.pattern = pattern)
    (fewest : ∀ s ∈ overrides history (childPath path field) requested, pattern.length ≤ s.pattern.length) :
    ∃ s, Selected ((overrides history (childPath path field) requested).filter fun s => s.pattern == pattern) s ∧
      ∃ node, resolve sort (installed history) path (createComp field requested) inner =
        some (⟨field, .rustdvComp false (some requested)⟩, some node) ∧ Builds s node := by
  have listed : ∀ c ∈ candidates (installed history).store (childPath path field) (overrideKey requested),
      allStars c.1 = true ∧ pattern.length ≤ c.1.length := by
    rintro ⟨other, entry⟩ member
    obtain ⟨t, inside, rfl, -⟩ := Config.exists_setting_of_candidate member
    exact ⟨stars t inside, fewest t inside⟩
  have finds := Config.found_of_tied keeps (Config.tied_iff_candidates.mpr fun a member b _ =>
    Config.not_less_of_allStars (listed a member).1 b.1)
  obtain ⟨s, member, rfl⟩ := stored
  obtain ⟨entry, candidate⟩ := Config.exists_candidate_of_setting member
  have ordered := Config.pairwise_candidates (installed history).store (childPath path field) (overrideKey requested)
  cases front : candidates (installed history).store (childPath path field) (overrideKey requested) with
  | nil =>
    rw [installed] at front
    rw [front] at candidate
    cases candidate
  | cons c rest =>
    have first : c ∈ candidates (installed history).store (childPath path field) (overrideKey requested) := by
      rw [front]
      exact List.mem_cons_self
    have same : s.pattern = c.1 := by
      refine Config.eq_of_allStars (stars s member) (listed c first).1 (listed c first).2 ?_
      have candidate' : (s.pattern, entry) ∈ c :: rest := front ▸ candidate
      rcases List.mem_cons.mp candidate' with here | later
      · rw [← here, Std.compare_self]
        rfl
      · rw [front] at ordered
        rw [(List.pairwise_cons.mp ordered).1 _ later]
        rfl
    obtain ⟨t, inside, -, held, selected⟩ := Config.exists_setting_of_candidate (show (c.1, c.2) ∈ _ from first)
    rw [← same] at selected
    have found : Config.found sort (installed history).store (childPath path field) (overrideKey requested) =
        some (some (c.1, t.entry)) := by
      rw [finds, front, held]
      rfl
    exact ⟨t, selected, resolve_of_found inner (isOverride_of_mem inside) found⟩

/-- Where nothing matches, the slot keeps what it holds. -/
theorem resolve_default (keeps : Contract sort) {history : List (Install κ V)} {path field requested : String}
    (inner : Option (Node κ)) (none_set : overrides history (childPath path field) requested = []) :
    resolve sort (installed history) path (createComp field requested) inner =
      some (⟨field, .rustdvComp false (some requested)⟩, inner) := by
  have empty : candidates (installed history).store (childPath path field) (overrideKey requested) = [] := by
    rw [List.eq_nil_iff_forall_not_mem]
    rintro ⟨pattern, entry⟩ member
    obtain ⟨s, inside, -⟩ := Config.exists_setting_of_candidate member
    have absent : s ∈ overrides history (childPath path field) requested := inside
    rw [none_set] at absent
    cases absent
  refine resolve_of_missing inner ?_
  rw [Config.found, (keeps _ _).short (by simp [empty]), empty]
  rfl

/-- A slot that was resolved is left alone from then on. -/
theorem resolve_again {db : Config.ConfigDb (Value κ V)} {path : String} {slot slot' : Slot}
    {inner inner' : Option (Node κ)} (resolved : resolve sort db path slot inner = some (slot', inner'))
    (later : Config.ConfigDb (Value κ V)) (path' : String) :
    resolve sort later path' slot' inner' = some (slot', inner') := by
  obtain ⟨field, kind⟩ := slot
  unfold resolve at resolved
  split at resolved
  · obtain ⟨found, -, same⟩ := Option.map_eq_some_iff.mp resolved
    cases same
    rfl
  · next other =>
    cases resolved
    unfold resolve
    split
    · next requested same => exact absurd same (other requested)
    · rfl

/-- An override that is installed for another name changes nothing. -/
theorem resolve_unmoved {before later : List (Install κ V)} {i : Install κ V} {other requested : String}
    (named : i.overridden = some other) (apart : other ≠ requested) (path field : String) (inner : Option (Node κ)) :
    resolve sort (installed (before ++ i :: later)) path (createComp field requested) inner =
      resolve sort (installed (before ++ later)) path (createComp field requested) inner := by
  have elsewhere : ∃ ctx offset entry, i.call = .set ctx offset (overrideKey other) entry := by
    cases i with
    | setTypeOverride r target make =>
      cases named
      exact ⟨_, _, _, rfl⟩
    | setInstOverride ctx path r target make =>
      cases named
      exact ⟨_, _, _, rfl⟩
    | set | setTracing | setInBuild | clear => cases named
  obtain ⟨ctx, offset, entry, same⟩ := elsewhere
  have keyed : ¬ (globMatch (Config.resolve none (childPath path field)) (Config.resolve ctx offset) = true ∧
      overrideKey other = overrideKey requested) := fun both => apart (overrideKey_injective both.2)
  have alike := (Config.indistinct_set (installed before) entry keyed).calls (later.map Install.call)
  have looked : lookupOverride sort (installed (before ++ i :: later)) requested (childPath path field) =
      lookupOverride sort (installed (before ++ later)) requested (childPath path field) := by
    simp only [lookupOverride, installed, List.map_append, List.map_cons, same, Config.after, List.foldl_append,
      List.foldl_cons]
    exact congrArg _ (alike.get overrideTypeName overrideTypeId)
  simp only [resolve, createComp, looked]

/-- A factory slot is left with the target of an instance override if a pattern other than stars alone
matches; otherwise with the target of the override of highest precedence, of several the most recent, under
the fewest stars that are stored; otherwise with the default. A fixed slot keeps what it holds, overrides
for other names do not matter, and a slot is resolved once. -/
theorem override_resolution (keeps : Contract sort) (history : List (Install κ V)) (path field requested : String)
    (default : Node κ) (sortable : Sortable history (childPath path field) requested) :
    (∃ inner, resolve sort (installed history) path (createComp field requested) (some default) =
        some (⟨field, .rustdvComp false (some requested)⟩, some inner) ∧
      ((∃ s ∈ overrides history (childPath path field) requested, allStars s.pattern = false) →
        ∃ s ∈ overrides history (childPath path field) requested, s.setter ≠ none ∧ allStars s.pattern = false ∧
          Builds s inner) ∧
      (∀ pattern, (∀ s ∈ overrides history (childPath path field) requested,
          allStars s.pattern = true ∧ pattern.length ≤ s.pattern.length) →
        (∃ s ∈ overrides history (childPath path field) requested, s.pattern = pattern) →
        ∃ s, Selected ((overrides history (childPath path field) requested).filter fun s => s.pattern == pattern) s ∧
          Builds s inner) ∧
      (overrides history (childPath path field) requested = [] → inner = default)) ∧
    (∀ inner, resolve sort (installed history) path (newComp field) inner = some (newComp field, inner)) ∧
    (∀ before i later, history = before ++ later → (∃ other ≠ requested, i.overridden = some other) → ∀ inner,
      resolve sort (installed (before ++ i :: later)) path (createComp field requested) inner =
        resolve sort (installed history) path (createComp field requested) inner) ∧
    ∀ slot inner slot' inner', resolve sort (installed history) path slot inner = some (slot', inner') →
      ∀ later path', resolve sort later path' slot' inner' = some (slot', inner') := by
  refine ⟨?_, fun _ => rfl, ?_, fun slot inner slot' inner' resolved => resolve_again resolved⟩
  · by_cases special : ∃ s ∈ overrides history (childPath path field) requested, allStars s.pattern = false
    · obtain ⟨s, member, set_by, other, node, resolved, builds⟩ :=
        resolve_instance keeps sortable (some default) special
      refine ⟨node, resolved, fun _ => ⟨s, member, set_by, other, builds⟩, ?_, ?_⟩
      · intro pattern stars _
        rw [(stars s member).1] at other
        cases other
      · intro none_set
        rw [none_set] at member
        cases member
    · have stars : ∀ s ∈ overrides history (childPath path field) requested, allStars s.pattern = true := by
        simpa using special
      by_cases none_set : overrides history (childPath path field) requested = []
      · refine ⟨default, resolve_default keeps _ none_set, fun some_set => absurd some_set special, ?_, fun _ => rfl⟩
        rintro pattern - ⟨s, member, -⟩
        rw [none_set] at member
        cases member
      · obtain ⟨s, member, fewest⟩ := WellFounded.has_min (measure fun s => s.pattern.length).wf
          {s | s ∈ overrides history (childPath path field) requested} (List.exists_mem_of_ne_nil _ none_set)
        obtain ⟨-, -, node, resolved, -⟩ := resolve_stars keeps (some default) stars ⟨s, member, rfl⟩
          fun t inside => not_lt.mp (fewest t inside)
        refine ⟨node, resolved, fun some_set => absurd some_set special, ?_, fun empty => absurd empty none_set⟩
        intro pattern short stored
        obtain ⟨t, selected, node', resolved', builds⟩ :=
          resolve_stars keeps (some default) stars stored fun u inside => (short u inside).2
        cases resolved.symm.trans resolved'
        exact ⟨t, selected, builds⟩
  · rintro before i later rfl ⟨other, apart, named⟩ inner
    exact resolve_unmoved named apart path field inner

/-- Components without children, by their types. -/
def leaf (name : String) : Maker String := ⟨.mk name .nil, List.nodup_nil, trivial⟩

/-- A type override, and an instance override of one component. -/
def agents : List (Install String Unit) :=
  [.setTypeOverride "Agent" "TypeAgent" (leaf "TypeAgent"), .setInBuild true,
    .setInstOverride "test" "env.agent" "Agent" "InstAgent" (leaf "InstAgent")]

/-- The component gets the instance override. -/
theorem override_resolution_agents :
    resolve (fun less l => some (insertionSort less l)) (installed agents) "test.env" (createComp "agent" "Agent")
      (some (leaf "Agent").1) = some (⟨"agent", .rustdvComp false (some "Agent")⟩, some (leaf "InstAgent").1) := by
  have listed : (candidates (installed agents).store (childPath "test.env" "agent") (overrideKey "Agent")).length = 2 := by
    decide +kernel
  have log : overrides agents (childPath "test.env" "agent") "Agent" =
      [⟨none, false, "*", overrideKey "Agent", .override (leaf "TypeAgent") "TypeAgent", overrideTypeName,
          overrideTypeId, "-> TypeAgent"⟩,
        ⟨some "test", true, "env.agent", overrideKey "Agent", .override (leaf "InstAgent") "InstAgent",
          overrideTypeName, overrideTypeId, "-> InstAgent"⟩] := by rfl
  obtain ⟨⟨inner, resolved, special, -⟩, -⟩ := override_resolution (fun less l => returns_insertionSort less l) agents
    "test.env" "agent" "Agent" (leaf "Agent").1 (.inl (by rw [listed]; decide))
  obtain ⟨s, member, set_by, -, make, target, builds, rfl⟩ := special ⟨_, log ▸ List.mem_cons_of_mem _ List.mem_cons_self, rfl⟩
  rw [log] at member
  simp only [List.mem_cons, List.not_mem_nil, or_false] at member
  rcases member with rfl | rfl
  · exact absurd rfl set_by
  · cases builds
    exact resolved

/-- The rule with `*` for all patterns of stars alone, whatever the sort does. -/
def PlainResolution (sort : (String × Config.Entry (Value κ V) → String × Config.Entry (Value κ V) → Bool) →
    List (String × Config.Entry (Value κ V)) → Option (List (String × Config.Entry (Value κ V))))
    (history : List (Install κ V)) (path field requested : String) (default : Node κ) : Prop :=
  ∃ inner, resolve sort (installed history) path (createComp field requested) (some default) =
      some (⟨field, .rustdvComp false (some requested)⟩, some inner) ∧
    ((∃ s ∈ overrides history (childPath path field) requested, ∃ c ∈ s.pattern.toList, c ≠ '*') →
      ∃ s ∈ overrides history (childPath path field) requested, (∃ c ∈ s.pattern.toList, c ≠ '*') ∧ Builds s inner) ∧
    ((∀ s ∈ overrides history (childPath path field) requested, ∀ c ∈ s.pattern.toList, c = '*') →
      ((∃ s ∈ overrides history (childPath path field) requested, s.pattern = "*") →
        ∃ s, Selected ((overrides history (childPath path field) requested).filter fun s => s.pattern == "*") s ∧
          Builds s inner) ∧
      ((∀ s ∈ overrides history (childPath path field) requested, s.pattern ≠ "*") → inner = default))

/-- Two stars, from a context at the top. -/
def doubleStar : List (Install String Unit) := [.setInstOverride "" "**" "Agent" "LoudAgent" (leaf "LoudAgent")]

/-- More overlapping patterns than are sorted by insertion. -/
def crowded : List (Install String Unit) :=
  (["t*", "tr*", "tra*", "tran*", "trans*", "transm*", "transmi*", "transmit*", "transmitt*", "transmitte*", "*r", "*er",
    "*ter", "*tter", "*itter", "*mitter", "*smitter", "*nsmitter", "*ansmitter", "*ransmitter", "*s*"]).map fun path =>
      .setInstOverride "env" path "Agent" "LoudAgent" (leaf "LoudAgent")

/-- Two stars match everything, so they replace the default although nothing is stored under `*`. And among
overlapping patterns the comparison is not an order, so that a sort may panic. -/
theorem doubleStar_replaces :
    Contract (fun less (l : List (String × Config.Entry (Value String Unit))) => some (insertionSort less l)) ∧
    (∀ sort, Contract sort → ¬ PlainResolution sort doubleStar "env" "agent" "Agent" (leaf "Agent").1) ∧
    ∃ sort, Contract sort ∧ ¬ PlainResolution sort crowded "env" "transmitter" "Agent" (leaf "Agent").1 := by
  refine ⟨fun less l => returns_insertionSort less l, ?_, ?_⟩
  · rintro sort keeps ⟨inner, resolved, -, rest⟩
    have log : overrides doubleStar (childPath "env" "agent") "Agent" = [⟨some "", false, "**", overrideKey "Agent",
        .override (leaf "LoudAgent") "LoudAgent", overrideTypeName, overrideTypeId, "-> LoudAgent"⟩] := by rfl
    simp only [log, List.mem_singleton, forall_eq] at rest
    have letters : ∀ c ∈ "**".toList, c = '*' := by simp
    have kept := (rest letters).2 (by decide)
    have stars : ∀ s ∈ overrides doubleStar (childPath "env" "agent") "Agent", allStars s.pattern = true := by
      rw [log]
      decide
    have stored : ∃ s ∈ overrides doubleStar (childPath "env" "agent") "Agent", s.pattern = "**" := by
      rw [log]
      decide
    have fewest : ∀ s ∈ overrides doubleStar (childPath "env" "agent") "Agent", "**".length ≤ s.pattern.length := by
      rw [log]
      decide
    obtain ⟨s, selected, node, resolved', make, target, builds, rfl⟩ :=
      resolve_stars keeps (some (leaf "Agent").1) stars stored fewest
    rw [log] at selected
    obtain ⟨front, back, cut, -⟩ := selected
    obtain rfl := List.mem_singleton.mp (cut ▸ List.mem_append_right front List.mem_cons_self)
    cases builds
    cases resolved.symm.trans resolved'
    exact absurd (Node.mk.inj kept).1 (by decide)
  · have listed : (candidates (installed crowded).store (childPath "env" "transmitter") (overrideKey "Agent")).map
        Prod.fst = ["env.*ansmitter", "env.*er", "env.*itter", "env.*mitter", "env.*nsmitter", "env.*r",
          "env.*ransmitter", "env.*s*", "env.*smitter", "env.*ter", "env.*tter", "env.t*", "env.tr*", "env.tra*",
          "env.tran*", "env.trans*", "env.transm*", "env.transmi*", "env.transmit*", "env.transmitt*",
          "env.transmitte*"] := by
      decide +kernel
    have stored (pattern : String) (member : pattern ∈ (candidates (installed crowded).store
        (childPath "env" "transmitter") (overrideKey "Agent")).map Prod.fst) : ∃ entry, (pattern, entry) ∈
          candidates (installed crowded).store (childPath "env" "transmitter") (overrideKey "Agent") := by
      obtain ⟨⟨_, entry⟩, inside, rfl⟩ := List.mem_map.mp member
      exact ⟨entry, inside⟩
    have long : ¬ (candidates (installed crowded).store (childPath "env" "transmitter") (overrideKey "Agent")).length ≤
        maxLenAlwaysInsertionSort := by
      rw [← List.length_map (f := Prod.fst), listed]
      decide
    have unordered : ¬ StrictWeakOn (fun a b => bySpecificity a.1 b.1 == .lt)
        (candidates (installed crowded).store (childPath "env" "transmitter") (overrideKey "Agent")) := by
      intro weak
      obtain ⟨_, wide⟩ := stored "env.t*" (by rw [listed]; decide)
      obtain ⟨_, aside⟩ := stored "env.*r" (by rw [listed]; decide)
      obtain ⟨_, narrow⟩ := stored "env.tr*" (by rw [listed]; decide)
      have first : (bySpecificity "env.*r" "env.t*" == .lt) = false := by decide +kernel
      have second : (bySpecificity "env.tr*" "env.*r" == .lt) = false := by decide +kernel
      have across : (bySpecificity "env.tr*" "env.t*" == .lt) = true := by decide +kernel
      have apart := weak.trans _ wide _ aside _ narrow first second
      rw [across] at apart
      cases apart
    have allowed : Returns (fun a b => bySpecificity a.1 b.1 == .lt)
        (candidates (installed crowded).store (childPath "env" "transmitter") (overrideKey "Agent")) none :=
      ⟨fun _ same => (nomatch same), fun short => absurd short long, fun weak => absurd weak unordered⟩
    obtain ⟨sort, keeps, panics⟩ := exists_contract allowed
    refine ⟨sort, keeps, ?_⟩
    rintro ⟨inner, resolved, -⟩
    have finds : Config.found sort (installed crowded).store (Config.resolve none (childPath "env" "transmitter"))
        (overrideKey "Agent") = none := by
      rw [Config.found]
      exact congrArg (Option.map List.head?) panics
    simp [resolve, createComp, lookupOverride, Config.get, finds] at resolved

end Resolve

end Rustdv.Component
