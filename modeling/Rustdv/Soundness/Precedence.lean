import Rustdv.Soundness.TieRule

/-! # Precedence among the writes of one pattern

What a history sets, each setting with the context it was made in and whether the build walk was on,
decides what a lookup returns when all the settings it concerns are under one pattern: the last one of
highest precedence. Settings that a lookup does not concern never matter, under whatever patterns the
others are.
-/

namespace Rustdv.Config

open SortBy
open Std (TreeMap)

variable {V : Type*}

/-- A value set, by whom, and whether during the build walk. -/
structure Setting (V : Type*) where
  setter : Option String
  inBuild : Bool
  offset : String
  field : String
  entry : Entry V

namespace Setting

variable (s : Setting V)

def pattern : String := resolve s.setter s.offset

/-- The dots in the path of the setter. -/
def depth : ℕ := s.setter.elim 0 fun path => path.toList.count '.'

def prec : ℤ := if s.inBuild then 1000 - (s.depth : ℤ) else 1000

def write : Write V := ⟨s.pattern, s.field, s.prec, s.entry⟩

end Setting

/-- Follow the build walk and the settings through a history. -/
def setting (s : Bool × List (Setting V)) : Call V → Bool × List (Setting V)
  | .set ctx offset field entry => (s.1, s.2 ++ [⟨ctx, s.1, offset, field, entry⟩])
  | .setTracing _ => s
  | .setInBuild active => (active, s.2)
  | .clear => (false, [])

/-- The settings of a history since the last `clear`, in order. -/
def settings (history : List (Call V)) : List (Setting V) := (history.foldl setting (false, [])).2

/-- The settings that a lookup concerns. -/
def relevant (history : List (Call V)) (path field : String) : List (Setting V) :=
  (settings history).filter fun s => globMatch path s.pattern && s.field == field

/-- The last of the settings of highest precedence. -/
def Selected (log : List (Setting V)) (s : Setting V) : Prop :=
  ∃ front back, log = front ++ s :: back ∧ (∀ t ∈ front, t.prec ≤ s.prec) ∧ ∀ t ∈ back, t.prec < s.prec

section Settings

theorem depthOf_eq (path : String) : depthOf path = path.toList.count '.' := by
  rw [depthOf]
  split_ifs with empty
  · rw [empty]
    rfl
  · rfl

/-- The store is written with the precedences of the settings. -/
theorem precedence_eq (db : ConfigDb V) (s : Setting V) (flag : s.inBuild = db.inBuild) :
    precedence db s.setter = s.prec := by
  rw [precedence, Setting.prec, Setting.depth, flag]
  cases s.setter with
  | none => rfl
  | some path => rw [Option.elim_some, Option.elim_some, depthOf_eq, defaultPrecedence]

/-- The writes of a history are those of its settings. -/
theorem writes_eq (history : List (Call V)) : writes history = (settings history).map Setting.write := by
  have both : (history.foldl record (init, [])).1.inBuild = (history.foldl setting (false, [])).1 ∧
      (history.foldl record (init, [])).2 = ((history.foldl setting (false, [])).2).map Setting.write := by
    induction history using List.reverseRecOn with
    | nil => exact ⟨rfl, rfl⟩
    | append_singleton history c ih =>
      obtain ⟨flag, same⟩ := ih
      rw [List.foldl_append, List.foldl_append, List.foldl_cons, List.foldl_nil, List.foldl_cons, List.foldl_nil]
      cases c with
      | set ctx offset field entry =>
        refine ⟨flag, ?_⟩
        have prec := precedence_eq _ ⟨ctx, (history.foldl setting (false, [])).1, offset, field, entry⟩ flag.symm
        simp only [record, setting, same, List.map_append, List.map_singleton, Setting.write, Setting.pattern, ← prec]
      | setTracing on => exact ⟨flag, same⟩
      | setInBuild active => exact ⟨rfl, same⟩
      | clear => exact ⟨rfl, rfl⟩
  exact both.2

theorem concerning_eq (history : List (Call V)) (path field : String) :
    concerning (writes history) path field = (relevant history path field).map Setting.write := by
  rw [writes_eq, concerning, List.filter_map]
  rfl

theorem selected_append_singleton {log : List (Setting V)} {s t : Setting V} (selected : Selected log s) :
    Selected (log ++ [t]) (if t.prec < s.prec then s else t) := by
  obtain ⟨front, back, rfl, before, behind⟩ := selected
  split_ifs with lower
  · refine ⟨front, back ++ [t], by simp, before, ?_⟩
    intro u member
    rcases List.mem_append.mp member with early | here
    · exact behind u early
    · rwa [List.mem_singleton.mp here]
  · refine ⟨front ++ s :: back, [], rfl, ?_, by simp⟩
    intro u member
    have upto : u.prec ≤ s.prec := by
      rcases List.mem_append.mp member with early | late
      · exact before u early
      · rcases List.mem_cons.mp late with rfl | late
        · exact le_refl _
        · exact (behind u late).le
    omega

/-- Some setting is selected, and the latest write is made by it. -/
theorem exists_selected {log : List (Setting V)} (some_set : log ≠ []) :
    ∃ s, Selected log s ∧ latest (log.map Setting.write) = some s.write := by
  induction log using List.reverseRecOn with
  | nil => exact absurd rfl some_set
  | append_singleton log t ih =>
    rw [List.map_append, List.map_singleton, latest_append_singleton]
    by_cases empty : log = []
    · subst empty
      exact ⟨t, ⟨[], [], rfl, by simp, by simp⟩, rfl⟩
    · obtain ⟨s, selected, last⟩ := ih empty
      refine ⟨_, selected_append_singleton selected, ?_⟩
      rw [last, Option.elim_some]
      exact congrArg some (apply_ite Setting.write (t.prec < s.prec) s t).symm

/-- There is only one place where a selected setting can stand. -/
theorem Selected.unique {log : List (Setting V)} {s t : Setting V} (selected : Selected log s)
    (other : Selected log t) : s = t := by
  obtain ⟨front, back, rfl, before, behind⟩ := selected
  obtain ⟨front', back', cut, before', behind'⟩ := other
  rcases List.append_eq_append_iff.mp cut with ⟨more, rfl, same⟩ | ⟨more, rfl, same⟩
  · cases more with
    | nil => exact (List.cons.inj same).1
    | cons u more =>
      obtain ⟨rfl, rfl⟩ := List.cons.inj same
      have lower := behind t (by simp)
      have upper := before' s (by simp)
      omega
  · cases more with
    | nil => exact (List.cons.inj same).1.symm
    | cons u more =>
      obtain ⟨rfl, rfl⟩ := List.cons.inj same
      have lower := behind' s (by simp)
      have upper := before t (by simp)
      omega

theorem latest_of_selected {log : List (Setting V)} {s : Setting V} (selected : Selected log s) :
    latest (log.map Setting.write) = some s.write := by
  obtain ⟨front, back, same, -⟩ := id selected
  have some_set : log ≠ [] := by simp [same]
  obtain ⟨t, other, last⟩ := exists_selected some_set
  rw [selected.unique other, last]

/-- A setting made outside the build walk shadows all before it. -/
theorem Selected.shadows {front back : List (Setting V)} {s w : Setting V} (outside : s.inBuild = false)
    (selected : Selected (front ++ s :: back) w) : Selected (s :: back) w := by
  obtain ⟨before, behind, cut, upto, below⟩ := selected
  rcases List.append_eq_append_iff.mp cut with ⟨more, rfl, same⟩ | ⟨more, rfl, same⟩
  · exact ⟨more, behind, same, fun t member => upto t (List.mem_append_right _ member), below⟩
  · cases more with
    | nil => exact ⟨[], behind, same.symm, by simp, below⟩
    | cons u more =>
      -- what stands before it has at most its precedence
      obtain ⟨rfl, rfl⟩ := List.cons.inj same
      have lower := below s (by simp)
      have highest : s.prec = 1000 := by simp [Setting.prec, outside]
      have bound : w.prec ≤ 1000 := by
        rw [Setting.prec]
        split_ifs <;> omega
      omega

/-- During the build walk nobody shallower than the selected setter sets the field. -/
theorem Selected.shallowest {log : List (Setting V)} {w : Setting V} (selected : Selected log w)
    (inside : ∀ s ∈ log, s.inBuild = true) : ∀ s ∈ log, w.depth ≤ s.depth := by
  obtain ⟨front, back, rfl, before, behind⟩ := selected
  intro s member
  have upto : s.prec ≤ w.prec := by
    rcases List.mem_append.mp member with early | late
    · exact before s early
    · rcases List.mem_cons.mp late with rfl | late
      · exact le_refl _
      · exact (behind s late).le
  rw [Setting.prec, Setting.prec, inside s member, inside w (by simp)] at upto
  simp only [if_true] at upto
  omega

end Settings

section Lookup

/-- The stores have the same on top of every pattern that matches. -/
def SameTops (a b : Store V) (path field : String) : Prop :=
  ∀ pattern, globMatch path pattern = true → top a pattern field = top b pattern field

/-- What is on top of the matching patterns determines the candidates, with their order. -/
theorem candidates_congr {a b : Store V} {path field : String} (same : SameTops a b path field) :
    candidates a path field = candidates b path field := by
  have ordered (store : Store V) := pairwise_candidates store path field
  have apart (store : Store V) : (candidates store path field).Nodup := by
    refine (ordered store).imp ?_
    rintro c d less rfl
    rw [Std.compare_self] at less
    cases less
  have perm : (candidates a path field).Perm (candidates b path field) := by
    rw [List.perm_ext_iff_of_nodup (apart a) (apart b)]
    rintro ⟨pattern, entry⟩
    rw [mem_candidates_iff_top, mem_candidates_iff_top]
    exact and_congr_right fun matched => by rw [same pattern matched]
  refine perm.eq_of_pairwise ?_ (ordered a) (ordered b)
  intro c d _ _ less greater
  have turned := Std.OrientedCmp.lt_of_gt (Std.OrientedCmp.gt_of_lt less)
  rw [← Std.OrientedCmp.gt_iff_lt, greater] at turned
  cases turned

/-- Databases that a lookup cannot tell apart, nor the calls before it. -/
structure Indistinct (path field : String) (a b : ConfigDb V) : Prop where
  tops : SameTops a.store b.store path field
  tracing : a.tracing = b.tracing
  inBuild : a.inBuild = b.inBuild

variable {path field : String} {a b : ConfigDb V}

theorem Indistinct.call (alike : Indistinct path field a b) (c : Call V) :
    Indistinct path field (call a c) (Config.call b c) := by
  cases c with
  | set ctx offset field' entry =>
    refine ⟨?_, alike.tracing, alike.inBuild⟩
    intro pattern matched
    have prec : precedence a ctx = precedence b ctx := by rw [precedence, precedence, alike.inBuild]
    simp only [Config.call, Config.set, top_insert, prec, alike.tops pattern matched]
    split_ifs with here
    · obtain ⟨rfl, rfl⟩ := here
      rw [alike.tops _ matched]
    · rfl
  | setTracing on => exact ⟨alike.tops, rfl, alike.inBuild⟩
  | setInBuild active => exact ⟨alike.tops, alike.tracing, rfl⟩
  | clear => exact ⟨fun _ _ => rfl, rfl, rfl⟩

theorem Indistinct.calls (alike : Indistinct path field a b) (later : List (Call V)) :
    Indistinct path field (later.foldl Config.call a) (later.foldl Config.call b) := by
  induction later generalizing a b with
  | nil => exact alike
  | cons c later ih => exact ih (alike.call c)

/-- A setting that the lookup does not concern. -/
theorem indistinct_set (db : ConfigDb V) {ctx : Option String} {offset field' : String} (entry : Entry V)
    (apart : ¬ (globMatch path (resolve ctx offset) = true ∧ field' = field)) :
    Indistinct path field (Config.call db (.set ctx offset field' entry)) db := by
  refine ⟨?_, rfl, rfl⟩
  intro pattern matched
  simp only [Config.call, Config.set, top_insert]
  rw [if_neg]
  rintro ⟨rfl, same⟩
  exact apart ⟨matched, same⟩

variable {sort : (String × Entry V → String × Entry V → Bool) → List (String × Entry V) →
  Option (List (String × Entry V))}

theorem Indistinct.get {ctx : Option String} {offset : String} (alike : Indistinct (resolve ctx offset) field a b)
    (typeName : String) (typeId : ℕ) :
    get sort a ctx offset field typeName typeId = Config.get sort b ctx offset field typeName typeId := by
  simp only [Config.get, found, candidates_congr alike.tops, trace, alike.tracing]

/-- Every field stored has an entry. -/
def Filled (store : Store V) : Prop :=
  ∀ (pattern : String) fields (field : String), store[pattern]? = some fields → fields.contains field = true →
    ∃ entry, winning fields field = some entry

theorem Filled.insert {store : Store V} (filled : Filled store) (path field : String) (prec : ℤ) (entry : Entry V) :
    Filled (Store.insert store path field prec entry) := by
  intro pattern fields field' stored held
  rw [Store.insert, TreeMap.getElem?_insert] at stored
  split_ifs at stored with here
  · obtain rfl := Option.some.inj stored
    by_cases same : field = field'
    · subst same
      refine winning_isSome_iff.mpr ⟨_, prec, entry, TreeMap.getElem?_insert_self, TreeMap.getElem?_insert_self⟩
    · rw [TreeMap.contains_insert, Bool.or_eq_true] at held
      have inner : (store.getD path ∅).contains field' = true :=
        held.resolve_left fun eq => same (Std.LawfulEqCmp.compare_eq_iff_eq.mp (beq_iff_eq.mp eq))
      have kept : ∃ entry, winning (store.getD path ∅) field' = some entry := by
        rw [TreeMap.getD_eq_getD_getElem?] at inner ⊢
        cases old : store[path]? with
        | none => simp [old] at inner
        | some fields =>
          rw [old, Option.getD_some] at inner
          exact filled path fields field' old inner
      obtain ⟨entry', wins⟩ := kept
      refine ⟨entry', ?_⟩
      rw [winning, TreeMap.getElem?_insert, if_neg (by simpa using same)]
      exact wins
  · exact filled pattern fields field' stored held

theorem filled_after (history : List (Call V)) : Filled (after history).store := by
  induction history using List.reverseRecOn with
  | nil =>
    intro pattern fields field stored
    exact absurd stored (by simp [after, init])
  | append_singleton history c ih =>
    rw [after, List.foldl_append, List.foldl_cons, List.foldl_nil]
    cases c with
    | set ctx offset field entry => exact ih.insert _ _ _ _
    | setTracing on => exact ih
    | setInBuild active => exact ih
    | clear =>
      intro pattern fields field stored
      exact absurd stored (by simp [call, clear, init])

/-- Something exists exactly when there are candidates. -/
theorem exists_eq_false_iff (history : List (Call V)) (ctx : Option String) (offset field : String) :
    «exists» (after history) ctx offset field = false ↔
      candidates (after history).store (resolve ctx offset) field = [] := by
  rw [List.eq_nil_iff_forall_not_mem, «exists», List.any_eq_false]
  constructor
  · rintro absent ⟨pattern, entry⟩ member
    obtain ⟨matched, fields, stored, wins⟩ := mem_candidates.mp member
    refine absent (pattern, fields) (TreeMap.mem_toList_iff_getElem?_eq_some.mpr stored) ?_
    obtain ⟨byPrec, -, -, held, -⟩ := winning_isSome_iff.mp ⟨entry, wins⟩
    rw [matched, Bool.true_and, ← TreeMap.isSome_getElem?_eq_contains, held]
    rfl
  · rintro none ⟨pattern, fields⟩ member holds
    obtain ⟨matched, held⟩ := Bool.and_eq_true_iff.mp holds
    have stored := TreeMap.mem_toList_iff_getElem?_eq_some.mp member
    obtain ⟨entry, wins⟩ := filled_after history pattern fields field stored held
    exact none (pattern, entry) (mem_candidates.mpr ⟨matched, fields, stored, wins⟩)

/-- A lookup finds nothing exactly when there are no candidates. -/
theorem get_eq_notFound_iff (keeps : Contract sort) (db : ConfigDb V) (ctx : Option String)
    (offset field typeName : String) (typeId : ℕ) :
    (get sort db ctx offset field typeName typeId).map Prod.fst =
      some (.error (.notFound (resolve ctx offset) field)) ↔ candidates db.store (resolve ctx offset) field = [] := by
  have allowed := keeps (fun a b => bySpecificity a.1 b.1 == .lt) (candidates db.store (resolve ctx offset) field)
  constructor
  · intro missing
    cases same : found sort db.store (resolve ctx offset) field with
    | none => simp [get, same] at missing
    | some first =>
      cases first with
      | none =>
        obtain ⟨sorted, sorts, head⟩ := Option.map_eq_some_iff.mp same
        have perm := allowed.perm sorted sorts
        rw [List.head?_eq_none_iff.mp head] at perm
        exact perm.nil_eq.symm
      | some c =>
        rw [get_of_found db same, outcome] at missing
        split_ifs at missing <;> simp at missing
  · intro none
    have sorts := allowed.short (by simp [none])
    have same : found sort db.store (resolve ctx offset) field = some Option.none := by
      rw [found, sorts, none]
      rfl
    simp [get, same]

/-- Under one pattern the selected setting answers. -/
theorem get_of_selected (keeps : Contract sort) {history : List (Call V)} {ctx : Option String}
    {offset field pattern : String} (single : ∀ s ∈ relevant history (resolve ctx offset) field, s.pattern = pattern)
    {s : Setting V} (selected : Selected (relevant history (resolve ctx offset) field) s) (typeName : String)
    (typeId : ℕ) : (get sort (after history) ctx offset field typeName typeId).map Prod.fst =
      some (outcome (resolve ctx offset) field typeName typeId s.entry) := by
  have last := latest_of_selected selected
  rw [← concerning_eq] at last
  have alone : ∀ w ∈ concerning (writes history) (resolve ctx offset) field, w.pattern = pattern := by
    rw [concerning_eq]
    intro w member
    obtain ⟨t, inside, rfl⟩ := List.mem_map.mp member
    exact single t inside
  have tied : Tied (after history).store (resolve ctx offset) field := by
    rw [tied_iff_candidates]
    have one : ∀ c ∈ candidates (after history).store (resolve ctx offset) field, c.1 = pattern := by
      rintro ⟨other, entry⟩ member
      obtain ⟨matched, prec, held⟩ := mem_candidates_iff_top.mp member
      rw [top_eq_latest (keeps_after history) matched] at held
      obtain ⟨w, latest', -⟩ := Option.map_eq_some_iff.mp held
      obtain ⟨inside, named⟩ := List.mem_filter.mp (mem_of_latest latest')
      exact (beq_iff_eq.mp named).symm.trans (alone w inside)
    intro c member d member'
    rw [one c member, one d member']
    have irrefl : bySpecificity pattern pattern ≠ .lt := fun less => bySpecificity_asymm less less
    simpa using irrefl
  refine (tie_rule_iff_latest_first keeps history ctx offset field tied).mpr ?_ s.write last typeName typeId
  intro w other last' first
  obtain ⟨⟨v, member, rfl⟩, -⟩ := first
  exact .inl ((alone w (mem_of_latest last')).trans (alone v member).symm)

end Lookup

section Law

variable {sort : (String × Entry V → String × Entry V → Bool) → List (String × Entry V) →
  Option (List (String × Entry V))}

/-- When all the settings that a lookup concerns are under one pattern, it returns the last of highest
precedence, or the mismatch of its type. A setting outside build shadows those before it; during build no
shallower setter has set the field; what else was set under other patterns or fields, at any point, does
not matter; and nothing is found exactly when nothing exists. -/
theorem precedence_law (keeps : Contract sort) (history : List (Call V)) (ctx : Option String)
    (offset field pattern : String)
    (single : ∀ s ∈ relevant history (resolve ctx offset) field, s.pattern = pattern) :
    (relevant history (resolve ctx offset) field = [] ∨
      ∃ s, Selected (relevant history (resolve ctx offset) field) s) ∧
    (∀ s, Selected (relevant history (resolve ctx offset) field) s → ∀ typeName typeId,
      (get sort (after history) ctx offset field typeName typeId).map Prod.fst =
        some (if s.entry.typeId = typeId then .ok s.entry.value
          else .error (.typeMismatch (resolve ctx offset) field s.entry.typeName typeName))) ∧
    (∀ typeName typeId, (get sort (after history) ctx offset field typeName typeId).map Prod.fst =
      some (.error (.notFound (resolve ctx offset) field)) ↔ «exists» (after history) ctx offset field = false) ∧
    (∀ front s back, relevant history (resolve ctx offset) field = front ++ s :: back → s.inBuild = false →
      ∀ w, Selected (relevant history (resolve ctx offset) field) w → Selected (s :: back) w) ∧
    (∀ w, Selected (relevant history (resolve ctx offset) field) w →
      (∀ s ∈ relevant history (resolve ctx offset) field, s.inBuild = true) →
      ∀ s ∈ relevant history (resolve ctx offset) field, w.depth ≤ s.depth) ∧
    ∀ before later, history = before ++ later → ∀ ctx' offset' field' entry,
      ¬ (globMatch (resolve ctx offset) (resolve ctx' offset') = true ∧ field' = field) → ∀ typeName typeId,
      get sort (after (before ++ .set ctx' offset' field' entry :: later)) ctx offset field typeName typeId =
        get sort (after history) ctx offset field typeName typeId := by
  refine ⟨?_, ?_, ?_, ?_, fun w selected inside => selected.shallowest inside, ?_⟩
  · by_cases some_set : relevant history (resolve ctx offset) field = []
    · exact .inl some_set
    · obtain ⟨s, selected, -⟩ := exists_selected some_set
      exact .inr ⟨s, selected⟩
  · exact fun s selected typeName typeId => get_of_selected keeps single selected typeName typeId
  · intro typeName typeId
    rw [get_eq_notFound_iff keeps, exists_eq_false_iff]
  · intro front s back cut outside w selected
    rw [cut] at selected
    exact selected.shadows outside
  · rintro before later rfl ctx' offset' field' entry apart typeName typeId
    have alike := (indistinct_set (after before) entry apart).calls later
    rw [after, after, List.foldl_append, List.foldl_append]
    exact alike.get typeName typeId

/-- The root test and a child set the same field during build, the child last. -/
def conflict : List (Call ℕ) :=
  [.setInBuild true, .set (some "test") "env.loga" "MSG" ⟨1, "u32", 0, "1"⟩,
    .set (some "test.env") "loga" "MSG" ⟨2, "u32", 0, "2"⟩, .setInBuild false,
    .set none "other" "MSG" ⟨3, "u32", 0, "3"⟩]

/-- The parent's value is found. -/
theorem precedence_law_conflict : (get (fun less l => some (insertionSort less l)) (after conflict) none "test.env.loga"
    "MSG" "u32" 0).map Prod.fst = some (.ok 1) := by
  have log : relevant conflict (resolve none "test.env.loga") "MSG" =
      [⟨some "test", true, "env.loga", "MSG", ⟨1, "u32", 0, "1"⟩⟩,
        ⟨some "test.env", true, "loga", "MSG", ⟨2, "u32", 0, "2"⟩⟩] := by rfl
  have law := precedence_law (fun less l => returns_insertionSort less l) conflict none "test.env.loga" "MSG"
    "test.env.loga" (by rw [log]; decide)
  have selected : Selected (relevant conflict (resolve none "test.env.loga") "MSG")
      ⟨some "test", true, "env.loga", "MSG", ⟨1, "u32", 0, "1"⟩⟩ := ⟨[], [_], log, by simp, by decide⟩
  exact law.2.1 _ selected "u32" 0

end Law

end Rustdv.Config
