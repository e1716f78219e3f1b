import Rustdv.Model.ConfigDb

/-! # Which pattern a lookup takes

Matching a pattern against a pattern decides inclusion, so the comparison that `get` sorts by is strict
inclusion: an order, but not a total one. A sort is promised to work for total preorders only. What a
lookup finds is a most specific pattern exactly when the comparison happens to be settled on the
candidates.
-/

namespace Rustdv.Config

open Std SortBy

variable {V : Type*}

/-- Every path matched by the one is matched by the other, and not conversely. -/
def StrictlyMoreSpecific (a b : String) : Prop :=
  (∀ path, globMatch path a = true → globMatch path b = true) ∧
    ¬ ∀ path, globMatch path b = true → globMatch path a = true

/-- The pattern is stored with an entry for the field. -/
def Holds (store : Store V) (pattern field : String) : Prop :=
  ∃ fields byPrec, ∃ prec : ℤ, ∃ entry, store[pattern]? = some fields ∧ fields[field]? = some byPrec ∧
    byPrec[prec]? = some entry

/-- `more_specific` decides inclusion. -/
theorem moreSpecific_iff {a b : String} :
    moreSpecific a b = true ↔ ∀ path, globMatch path a = true → globMatch path b = true := by
  constructor
  · intro general path matched
    exact Glob.accepts_trans general matched
  · intro within
    exact within a (Glob.accepts_self _)

/-- The comparison is strict inclusion. -/
theorem bySpecificity_eq_lt_iff {a b : String} : bySpecificity a b = .lt ↔ StrictlyMoreSpecific a b := by
  rw [StrictlyMoreSpecific, ← moreSpecific_iff, ← moreSpecific_iff, bySpecificity]
  cases moreSpecific a b <;> cases moreSpecific b a <;> decide

theorem bySpecificity_asymm {a b : String} (less : bySpecificity a b = .lt) : bySpecificity b a ≠ .lt := by
  rw [Ne, bySpecificity_eq_lt_iff]
  intro other
  exact (bySpecificity_eq_lt_iff.mp less).2 other.1

theorem winning_isSome_iff {fields : TreeMap String (TreeMap ℤ (Entry V))} {field : String} :
    (∃ entry, winning fields field = some entry) ↔
      ∃ byPrec, ∃ prec : ℤ, ∃ entry, fields[field]? = some byPrec ∧ byPrec[prec]? = some entry := by
  constructor
  · rintro ⟨entry, wins⟩
    obtain ⟨byPrec, stored, mapped⟩ := Option.bind_eq_some_iff.mp wins
    obtain ⟨⟨prec, entry'⟩, last, rfl⟩ := Option.map_eq_some_iff.mp mapped
    have member := TreeMap.mem_toList_iff_getElem?_eq_some.mp (List.mem_of_getLast? last)
    exact ⟨byPrec, prec, entry', stored, member⟩
  · rintro ⟨byPrec, prec, entry, stored, held⟩
    have member := TreeMap.mem_toList_iff_getElem?_eq_some.mpr held
    have last := List.getLast?_eq_some_getLast (List.ne_nil_of_mem member)
    exact ⟨_, by rw [winning, stored, Option.bind_some, last, Option.map_some]⟩

theorem mem_candidates {store : Store V} {path field : String} {c : String × Entry V} :
    c ∈ candidates store path field ↔ globMatch path c.1 = true ∧
      ∃ fields, store[c.1]? = some fields ∧ winning fields field = some c.2 := by
  obtain ⟨pattern, entry⟩ := c
  simp only [candidates, List.mem_filterMap, List.mem_filter, Option.map_eq_some_iff, Prod.mk.injEq]
  constructor
  · rintro ⟨⟨pattern', fields⟩, ⟨member, matched⟩, entry', wins, rfl, rfl⟩
    exact ⟨matched, fields, TreeMap.mem_toList_iff_getElem?_eq_some.mp member, wins⟩
  · rintro ⟨matched, fields, stored, wins⟩
    exact ⟨(pattern, fields), ⟨TreeMap.mem_toList_iff_getElem?_eq_some.mpr stored, matched⟩, entry, wins, rfl, rfl⟩

/-- The candidates are the stored patterns that match and hold the field. -/
theorem exists_mem_candidates_iff {store : Store V} {path field pattern : String} :
    (∃ entry, (pattern, entry) ∈ candidates store path field) ↔
      globMatch path pattern = true ∧ Holds store pattern field := by
  constructor
  · rintro ⟨entry, member⟩
    obtain ⟨matched, fields, stored, wins⟩ := mem_candidates.mp member
    obtain ⟨byPrec, prec, entry', held⟩ := winning_isSome_iff.mp ⟨entry, wins⟩
    exact ⟨matched, fields, byPrec, prec, entry', stored, held⟩
  · rintro ⟨matched, fields, byPrec, prec, entry, stored, held⟩
    obtain ⟨entry', wins⟩ := winning_isSome_iff.mpr ⟨byPrec, prec, entry, held⟩
    exact ⟨entry', mem_candidates.mpr ⟨matched, fields, stored, wins⟩⟩

/-- What a lookup finds is under no pattern that is strictly less specific than another stored pattern
which also matches and holds the field. -/
def Specific (sort : (String × Entry V → String × Entry V → Bool) → List (String × Entry V) →
    Option (List (String × Entry V))) (store : Store V) (path field : String) : Prop :=
  ∀ pattern entry, found sort store path field = some (some (pattern, entry)) →
    ∀ other, globMatch path other = true → Holds store other field → ¬ StrictlyMoreSpecific other pattern

/-- That is, nothing less in the order of the sort. -/
theorem specific_iff_leastFirst (sort : (String × Entry V → String × Entry V → Bool) → List (String × Entry V) →
    Option (List (String × Entry V))) (store : Store V) (path field : String) :
    Specific sort store path field ↔ LeastFirst (fun a b => bySpecificity a.1 b.1 == .lt)
      (candidates store path field) (sort (fun a b => bySpecificity a.1 b.1 == .lt) (candidates store path field)) := by
  constructor
  · rintro specific sorted ⟨pattern, entry⟩ same first ⟨other, entry'⟩ member
    obtain ⟨matched, held⟩ := exists_mem_candidates_iff.mp ⟨entry', member⟩
    have apart := specific pattern entry (by rw [found, same, Option.map_some, first]) other matched held
    simpa [← bySpecificity_eq_lt_iff] using apart
  · intro least pattern entry finds other matched held
    obtain ⟨sorted, same, first⟩ := Option.map_eq_some_iff.mp finds
    obtain ⟨entry', member⟩ := exists_mem_candidates_iff.mpr ⟨matched, held⟩
    have apart := least sorted (pattern, entry) same first (other, entry') member
    simpa [← bySpecificity_eq_lt_iff] using apart

/-- After any history of calls, a lookup is sure to find a most specific pattern exactly when the
comparison is settled on the candidates, as the store orders them. -/
theorem specificity_iff_settled (history : List (Call V)) (ctx : Option String) (offset field : String) :
    (∀ sort, Contract sort → Specific sort (after history).store (resolve ctx offset) field) ↔
      Settled (fun a b => bySpecificity a.1 b.1 == .lt)
        (candidates (after history).store (resolve ctx offset) field) := by
  rw [← leastFirst_iff_settled]
  · exact forall_congr' fun sort => imp_congr_right fun _ => specific_iff_leastFirst sort ..
  · intro a b less
    simpa using bySpecificity_asymm (by simpa using less)

/-- Three overlapping patterns for one field. -/
def overlapping : List (Call ℕ) :=
  [.set none "*.agent" "MSG" ⟨1, "u32", 0, "1"⟩, .set none "*env*" "MSG" ⟨2, "u32", 0, "2"⟩,
    .set none "top.*.agent" "MSG" ⟨3, "u32", 0, "3"⟩]

/-- The last pattern is not compared with the first, which is then found although it is less specific. -/
theorem overlapping_not_specific :
    Contract (fun less (l : List (String × Entry ℕ)) => some (insertionSort less l)) ∧
      ∀ sort, Contract sort → ¬ Specific sort (after overlapping).store (resolve none "top.env.agent") "MSG" := by
  refine ⟨fun less l => returns_insertionSort less l, ?_⟩
  intro sort keeps specific
  have listed : candidates (after overlapping).store (resolve none "top.env.agent") "MSG" =
      [("*.agent", ⟨1, "u32", 0, "1"⟩), ("*env*", ⟨2, "u32", 0, "2"⟩), ("top.*.agent", ⟨3, "u32", 0, "3"⟩)] := by
    decide +kernel
  have sorted := (keeps (fun a b => bySpecificity a.1 b.1 == .lt)
    (candidates (after overlapping).store (resolve none "top.env.agent") "MSG")).short (by rw [listed]; decide)
  have first : found sort (after overlapping).store (resolve none "top.env.agent") "MSG" =
      some (some ("*.agent", ⟨1, "u32", 0, "1"⟩)) := by
    rw [found, sorted, listed]
    decide +kernel
  obtain ⟨matched, held⟩ := exists_mem_candidates_iff.mp
    (⟨⟨3, "u32", 0, "3"⟩, by rw [listed]; simp⟩ :
      ∃ entry, ("top.*.agent", entry) ∈ candidates (after overlapping).store (resolve none "top.env.agent") "MSG")
  refine specific _ _ first "top.*.agent" matched held ?_
  rw [← bySpecificity_eq_lt_iff]
  decide +kernel

end Rustdv.Config
