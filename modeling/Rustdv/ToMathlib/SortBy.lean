import Mathlib.Data.List.Basic
import Mathlib.Data.List.Induction
import Mathlib.Data.List.Perm.Basic
import Mathlib.Logic.Function.Basic

/-! # Sorting with a comparison that need not be an order

A library's stable sort is documented for comparisons that are strict weak orders on the elements.
Short lists are sorted by insertion, whatever the comparison; on longer ones nothing is promised
without an order but a permutation, or a panic. What insertion sort puts in front with an arbitrary
comparison is the last element that is less than everything before it.
-/

namespace SortBy

variable {α : Type*}

/-- Neither element is less than the other. -/
def alike (less : α → α → Bool) (a b : α) : Bool := !less a b && !less b a

/-- `less` is the strict part of a total preorder on the elements of the list. -/
structure StrictWeakOn (less : α → α → Bool) (l : List α) : Prop where
  asymm : ∀ a ∈ l, ∀ b ∈ l, less a b = true → less b a = false
  trans : ∀ a ∈ l, ∀ b ∈ l, ∀ c ∈ l, less b a = false → less c b = false → less c a = false

/-- The list, in order, with equivalent elements where they stood relative to each other. -/
structure StableSort (less : α → α → Bool) (l sorted : List α) : Prop where
  perm : sorted.Perm l
  ordered : sorted.Pairwise fun a b => less b a = false
  stable : ∀ a ∈ l, sorted.filter (alike less a) = l.filter (alike less a)

/-- Move a new last element to the left of those it is less than, as far as they reach; the list is
given from its last element on. -/
def sift (less : α → α → Bool) (x : α) : List α → List α
  | [] => [x]
  | y :: front => if less x y then y :: sift less x front else x :: y :: front

/-- Insert the next element behind the sorted front. -/
def insertTail (less : α → α → Bool) (sorted : List α) (x : α) : List α :=
  (sift less x sorted.reverse).reverse

/-- Insertion sort, from the left. -/
def insertionSort (less : α → α → Bool) (l : List α) : List α :=
  l.foldl (insertTail less) []

/-- Lists up to this length are always sorted by insertion. -/
def maxLenAlwaysInsertionSort : ℕ := 20

/-- What a library's stable sort may return for this comparison and list; `none` is a panic. -/
structure Returns (less : α → α → Bool) (l : List α) (result : Option (List α)) : Prop where
  perm : ∀ sorted, result = some sorted → sorted.Perm l
  short : l.length ≤ maxLenAlwaysInsertionSort → result = some (insertionSort less l)
  ordered : StrictWeakOn less l → ∃ sorted, result = some sorted ∧ StableSort less l sorted

/-- A library's stable sort. -/
def Contract (sort : (α → α → Bool) → List α → Option (List α)) : Prop :=
  ∀ less l, Returns less l (sort less l)

section Insertion

variable {less : α → α → Bool}

/-- The elements right of the new one are those it is less than, up to the first that stops it. -/
theorem insertTail_split (less : α → α → Bool) (sorted : List α) (x : α) :
    ∃ front back, sorted = front ++ back ∧ insertTail less sorted x = front ++ x :: back ∧
      (∀ y ∈ back, less x y = true) ∧ ∀ y ∈ front.getLast?, less x y = false := by
  have sifted (rev : List α) : ∃ back front, rev = back ++ front ∧ sift less x rev = back ++ x :: front ∧
      (∀ y ∈ back, less x y = true) ∧ ∀ y ∈ front.head?, less x y = false := by
    induction rev with
    | nil => exact ⟨[], [], rfl, rfl, by simp, by simp⟩
    | cons y rev ih =>
      by_cases smaller : less x y = true
      · obtain ⟨back, front, rfl, same, right, stop⟩ := ih
        refine ⟨y :: back, front, rfl, ?_, ?_, stop⟩
        · simp [sift, smaller, same]
        · simpa using ⟨smaller, right⟩
      · exact ⟨[], y :: rev, rfl, by simp [sift, smaller], by simp, by simpa using smaller⟩
  obtain ⟨back, front, cut, same, right, stop⟩ := sifted sorted.reverse
  refine ⟨front.reverse, back.reverse, ?_, ?_, by simpa using right, by simpa using stop⟩
  · rw [← List.reverse_append, ← cut, List.reverse_reverse]
  · rw [insertTail, same, List.reverse_append, List.reverse_cons, List.append_assoc, List.singleton_append]

theorem insertTail_perm (sorted : List α) (x : α) : (insertTail less sorted x).Perm (sorted ++ [x]) := by
  obtain ⟨front, back, rfl, same, -, -⟩ := insertTail_split less sorted x
  rw [same, List.append_assoc]
  exact List.Perm.append_left front (List.perm_append_singleton x back).symm

theorem insertionSort_append_singleton (l : List α) (x : α) :
    insertionSort less (l ++ [x]) = insertTail less (insertionSort less l) x := by
  rw [insertionSort, List.foldl_append]
  rfl

theorem insertionSort_perm (l : List α) : (insertionSort less l).Perm l := by
  induction l using List.reverseRecOn with
  | nil => exact List.Perm.refl _
  | append_singleton l x ih =>
    rw [insertionSort_append_singleton]
    exact (insertTail_perm _ _).trans (ih.append_right [x])

/-- The front changes only for an element that is less than all before it. -/
theorem head?_insertTail (sorted : List α) (x : α) :
    (insertTail less sorted x).head? = if ∀ y ∈ sorted, less x y = true then some x else sorted.head? := by
  obtain ⟨front, back, rfl, same, right, stop⟩ := insertTail_split less sorted x
  rw [same]
  cases front with
  | nil => rw [if_pos (by simpa using right), List.nil_append, List.head?_cons]
  | cons y front =>
    have last := List.getLast?_eq_some_getLast (List.cons_ne_nil y front)
    have stopped := stop _ last
    rw [if_neg, List.cons_append, List.cons_append, List.head?_cons, List.head?_cons]
    intro all
    have less' := all _ (List.mem_append_left back (List.getLast_mem (List.cons_ne_nil y front)))
    rw [stopped] at less'
    cases less'

/-- In front stands an element less than all that came before it. -/
theorem head?_insertionSort_record {l : List α} {x : α} (front : (insertionSort less l).head? = some x) :
    ∃ pre post, l = pre ++ x :: post ∧ ∀ y ∈ pre, less x y = true := by
  induction l using List.reverseRecOn with
  | nil => cases front
  | append_singleton l z ih =>
    rw [insertionSort_append_singleton, head?_insertTail] at front
    split_ifs at front with all
    · cases front
      exact ⟨l, [], rfl, fun y member => all y ((insertionSort_perm l).mem_iff.mpr member)⟩
    · obtain ⟨pre, post, rfl, record⟩ := ih front
      exact ⟨pre, post ++ [z], by simp, record⟩

/-- An element less than all before it, and than which none after it is less, stands in front. -/
theorem head?_insertionSort {pre post : List α} {x : α} (before : ∀ y ∈ pre, less x y = true)
    (after : ∀ y ∈ post, less y x = false) : (insertionSort less (pre ++ x :: post)).head? = some x := by
  induction post using List.reverseRecOn with
  | nil =>
    rw [insertionSort_append_singleton, head?_insertTail, if_pos]
    exact fun y member => before y ((insertionSort_perm pre).mem_iff.mp member)
  | append_singleton post z ih =>
    have kept := ih fun y member => after y (List.mem_append_left _ member)
    rw [← List.cons_append, ← List.append_assoc, insertionSort_append_singleton, head?_insertTail, if_neg, kept]
    intro all
    have member : x ∈ insertionSort less (pre ++ x :: post) := List.mem_of_mem_head? kept
    have less' := all x member
    rw [after z (by simp)] at less'
    cases less'

/-- Inserting into an ordered front gives an ordered list. -/
private theorem pairwise_insertTail {all sorted : List α} {x : α} (weak : StrictWeakOn less all)
    (within : sorted ⊆ all) (member : x ∈ all) (ordered : sorted.Pairwise fun a b => less b a = false) :
    (insertTail less sorted x).Pairwise fun a b => less b a = false := by
  obtain ⟨front, back, rfl, same, right, stop⟩ := insertTail_split less sorted x
  obtain ⟨left, rest, across⟩ := List.pairwise_append.mp ordered
  rw [same, List.pairwise_append, List.pairwise_cons]
  refine ⟨left, ⟨?_, rest⟩, ?_⟩
  · intro y later
    exact weak.asymm x member y (within (List.mem_append_right _ later)) (right y later)
  · intro y early z late
    rcases List.mem_cons.mp late with rfl | late
    · -- `y` is at most the last of the front, which is at most the new element
      have nonempty := List.ne_nil_of_mem early
      have stopped := stop _ (List.getLast?_eq_some_getLast nonempty)
      have last : front.getLast nonempty ∈ all := within (List.mem_append_left _ (List.getLast_mem nonempty))
      have upto : less (front.getLast nonempty) y = false ∨ y = front.getLast nonempty := by
        rw [← List.dropLast_append_getLast nonempty] at early left
        rcases List.mem_append.mp early with before | same
        · exact .inl ((List.pairwise_append.mp left).2.2 y before _ (by simp))
        · exact .inr (List.mem_singleton.mp same)
      rcases upto with below | rfl
      · exact weak.trans y (within (List.mem_append_left _ early)) _ last z member below stopped
      · exact stopped
    · exact across y early z late

/-- Inserting an element puts it behind those equivalent to it. -/
private theorem filter_insertTail {all sorted : List α} {x a : α} (weak : StrictWeakOn less all)
    (within : sorted ⊆ all) (member : x ∈ all) (known : a ∈ all) :
    (insertTail less sorted x).filter (alike less a) = (sorted ++ [x]).filter (alike less a) := by
  obtain ⟨front, back, rfl, same, right, -⟩ := insertTail_split less sorted x
  by_cases equivalent : alike less a x = true
  · have none : back.filter (alike less a) = [] := by
      refine List.filter_eq_nil_iff.mpr ?_
      intro y later other
      simp only [alike, Bool.and_eq_true, Bool.not_eq_true'] at equivalent other
      have not := weak.trans y (within (List.mem_append_right _ later)) a known x member other.1 equivalent.2
      rw [right y later] at not
      cases not
    simp [same, equivalent, none]
  · simp [same, equivalent]

/-- With an order, insertion sort is a stable sort. -/
theorem insertionSort_stableSort {l : List α} (weak : StrictWeakOn less l) :
    StableSort less l (insertionSort less l) := by
  have upto (front : List α) (within : front ⊆ l) :
      (insertionSort less front).Pairwise (fun a b => less b a = false) ∧
      ∀ a ∈ l, (insertionSort less front).filter (alike less a) = front.filter (alike less a) := by
    induction front using List.reverseRecOn with
    | nil => exact ⟨List.Pairwise.nil, fun _ _ => rfl⟩
    | append_singleton front x ih =>
      obtain ⟨ordered, stable⟩ := ih fun y member => within (List.mem_append_left _ member)
      have member : x ∈ l := within (by simp)
      have sorted : insertionSort less front ⊆ l := fun y inside =>
        within (List.mem_append_left _ ((insertionSort_perm front).mem_iff.mp inside))
      rw [insertionSort_append_singleton]
      refine ⟨pairwise_insertTail weak sorted member ordered, ?_⟩
      intro a known
      rw [filter_insertTail weak sorted member known, List.filter_append, stable a known, ← List.filter_append]
  obtain ⟨ordered, stable⟩ := upto l (List.Subset.refl l)
  exact ⟨insertionSort_perm l, ordered, stable⟩

end Insertion

section Front

variable {less : α → α → Bool}

/-- Some element is less than all before it and not more than any after it. -/
def HasRecord (less : α → α → Bool) (l : List α) : Prop :=
  ∃ pre x post, l = pre ++ x :: post ∧ (∀ y ∈ pre, less x y = true) ∧ ∀ y ∈ post, less y x = false

/-- A short list has such an element; on a long one the comparison is an order. -/
def Settled (less : α → α → Bool) (l : List α) : Prop :=
  if l.length ≤ maxLenAlwaysInsertionSort then l = [] ∨ HasRecord less l else StrictWeakOn less l

/-- Nothing is less than the element in front. -/
def LeastFirst (less : α → α → Bool) (l : List α) (result : Option (List α)) : Prop :=
  ∀ sorted x, result = some sorted → sorted.head? = some x → ∀ y ∈ l, less y x = false

/-- Insertion sort may always be used. -/
theorem returns_insertionSort (less : α → α → Bool) (l : List α) : Returns less l (some (insertionSort less l)) := by
  refine ⟨?_, fun _ => rfl, fun weak => ⟨_, rfl, insertionSort_stableSort weak⟩⟩
  intro sorted same
  cases same
  exact insertionSort_perm l

/-- A sort may do at one place whatever it is allowed to do there. -/
theorem exists_contract {l : List α} {result : Option (List α)} (allowed : Returns less l result) :
    ∃ sort, Contract sort ∧ sort less l = result := by
  classical
  refine ⟨fun less' l' => if less' = less ∧ l' = l then result else some (insertionSort less' l'), ?_, if_pos ⟨rfl, rfl⟩⟩
  intro less' l'
  by_cases here : less' = less ∧ l' = l
  · obtain ⟨rfl, rfl⟩ := here
    simpa using allowed
  · simp only [if_neg here]
    exact returns_insertionSort less' l'

private theorem less_self {x : α} (asymm : less x x = true → less x x = false) : less x x = false := by
  cases same : less x x with
  | true => exact absurd (asymm same) (by simp [same])
  | false => rfl

/-- With an order, the least comes first. -/
theorem leastFirst_of_strictWeakOn {l : List α} {result : Option (List α)} (weak : StrictWeakOn less l)
    (allowed : Returns less l result) : LeastFirst less l result := by
  intro sorted x same first y member
  obtain ⟨sorted', same', perm, ordered, -⟩ := allowed.ordered weak
  obtain rfl : sorted = sorted' := Option.some.inj (same.symm.trans same')
  cases sorted with
  | nil => cases first
  | cons z rest =>
    cases first
    rcases List.mem_cons.mp (perm.mem_iff.mpr member) with rfl | later
    · exact less_self (weak.asymm y member y member)
    · exact (List.pairwise_cons.mp ordered).1 y later

/-- Insertion sort puts a least element first exactly when there is a record that stands. -/
theorem leastFirst_insertionSort_iff {l : List α} (asymm : ∀ a b, less a b = true → less b a = false) :
    LeastFirst less l (some (insertionSort less l)) ↔ l = [] ∨ HasRecord less l := by
  constructor
  · intro least
    cases first : (insertionSort less l).head? with
    | none =>
      rw [List.head?_eq_none_iff] at first
      exact .inl (List.Perm.nil_eq (first ▸ insertionSort_perm l)).symm
    | some x =>
      obtain ⟨pre, post, rfl, record⟩ := head?_insertionSort_record first
      exact .inr ⟨pre, x, post, rfl, record, fun y member => least _ x rfl first y (by simp [member])⟩
  · intro settled sorted x same first y member
    cases same
    rcases settled with rfl | ⟨pre, z, post, rfl, before, after⟩
    · cases member
    · rw [head?_insertionSort before after] at first
      cases first
      rcases List.mem_append.mp member with early | late
      · exact asymm x y (before y early)
      · rcases List.mem_cons.mp late with rfl | late
        · exact less_self (asymm y y)
        · exact after y late

/-- On a long list without an order, a sort may put something else first. -/
theorem exists_not_leastFirst {l : List α} (long : ¬ l.length ≤ maxLenAlwaysInsertionSort)
    (unordered : ¬ StrictWeakOn less l) : ∃ result, Returns less l result ∧ ¬ LeastFirst less l result := by
  classical
  obtain ⟨a, member, b, member', smaller⟩ : ∃ a ∈ l, ∃ b ∈ l, less a b = true := by
    by_contra none
    simp only [not_exists, not_and, Bool.not_eq_true] at none
    exact unordered ⟨fun a known b known' _ => none b known' a known,
      fun a known _ _ c known' _ _ => none c known' a known⟩
  refine ⟨some (b :: l.erase b), ⟨?_, fun short => absurd short long, fun weak => absurd weak unordered⟩, ?_⟩
  · intro sorted same
    cases same
    exact (List.perm_cons_erase member').symm
  · intro least
    have other := least _ b rfl rfl a member
    rw [smaller] at other
    cases other

/-- A sort that keeps to its contract puts a least element first, whatever else it may do, exactly
when the comparison is settled on the list. -/
theorem leastFirst_iff_settled {l : List α} (asymm : ∀ a b, less a b = true → less b a = false) :
    (∀ sort, Contract sort → LeastFirst less l (sort less l)) ↔ Settled less l := by
  by_cases short : l.length ≤ maxLenAlwaysInsertionSort
  · rw [Settled, if_pos short, ← leastFirst_insertionSort_iff asymm]
    constructor
    · intro every
      obtain ⟨sort, keeps, same⟩ := exists_contract (returns_insertionSort less l)
      exact same ▸ every sort keeps
    · intro least sort keeps
      rwa [(keeps less l).short short]
  · rw [Settled, if_neg short]
    constructor
    · intro every
      by_contra unordered
      obtain ⟨result, allowed, wrong⟩ := exists_not_leastFirst short unordered
      obtain ⟨sort, keeps, same⟩ := exists_contract allowed
      exact wrong (same ▸ every sort keeps)
    · intro weak sort keeps
      exact leastFirst_of_strictWeakOn weak (keeps less l)

end Front

section Worse

variable {less : α → α → Bool} {worse : α → Bool}

/-- Elements than which all others are less do not come first, unless there are no others. -/
theorem head?_insertionSort_of_worse (above : ∀ a b, worse a = false → worse b = true → less a b = true)
    (never : ∀ a b, worse a = true → less a b = false) {l : List α} (better : ∃ a ∈ l, worse a = false) {x : α}
    (first : (insertionSort less l).head? = some x) : worse x = false := by
  induction l using List.reverseRecOn generalizing x with
  | nil => cases first
  | append_singleton l z ih =>
    rw [insertionSort_append_singleton, head?_insertTail] at first
    by_cases early : ∃ a ∈ l, worse a = false
    · split_ifs at first with all
      · cases first
        obtain ⟨a, member, _⟩ := early
        have smaller := all a ((insertionSort_perm l).mem_iff.mpr member)
        by_contra bad
        rw [never z a (by simpa using bad)] at smaller
        cases smaller
      · exact ih early first
    · simp only [not_exists, not_and, Bool.not_eq_false] at early
      obtain ⟨a, member, good⟩ := better
      have here : worse z = false := by
        rcases List.mem_append.mp member with before | now
        · rw [early a before] at good
          cases good
        · rwa [List.mem_singleton.mp now] at good
      rw [if_pos] at first
      · cases first
        exact here
      · exact fun y member => above z y here (early y ((insertionSort_perm l).mem_iff.mp member))

/-- So it is in every sort, if the list is short or the comparison an order. -/
theorem Returns.first_better {l : List α} {result : Option (List α)} (allowed : Returns less l result) (worse : α → Bool)
    (settled : l.length ≤ maxLenAlwaysInsertionSort ∨ StrictWeakOn less l)
    (above : ∀ a b, worse a = false → worse b = true → less a b = true)
    (never : ∀ a b, worse a = true → less a b = false) (better : ∃ a ∈ l, worse a = false) :
    ∃ sorted x, result = some sorted ∧ sorted.head? = some x ∧ worse x = false := by
  rcases settled with short | weak
  · have same := allowed.short short
    cases first : (insertionSort less l).head? with
    | none =>
      obtain ⟨a, member, -⟩ := better
      rw [List.head?_eq_none_iff] at first
      have perm : (insertionSort less l).Perm l := insertionSort_perm l
      rw [← perm.mem_iff, first] at member
      cases member
    | some x => exact ⟨_, x, same, first, head?_insertionSort_of_worse above never better first⟩
  · obtain ⟨sorted, same, perm, -⟩ := allowed.ordered weak
    obtain ⟨a, member, good⟩ := better
    cases first : sorted.head? with
    | none =>
      rw [List.head?_eq_none_iff] at first
      rw [← perm.mem_iff, first] at member
      cases member
    | some x =>
      refine ⟨sorted, x, same, first, ?_⟩
      by_contra bad
      have smaller := above a x good (by simpa using bad)
      rw [leastFirst_of_strictWeakOn weak allowed sorted x same first a member] at smaller
      cases smaller

end Worse

end SortBy
