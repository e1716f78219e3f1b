import Mathlib.Data.List.Range
import Rustdv.Soundness.Rounds

/-! # The slots of a join

The loop of a join goes through the slots once and touches each at most once. So a slot holds its future
until that yields, and its value from then on, and the vector of values is full when the slots are empty.
-/

namespace Rustdv.Combinators

open scoped Classical

universe u

variable {E : Type*} {T : Type u}

section JoinAll

variable {waker : Waker} {log : List (Round (fun _ : ℕ => T) (List T))}

/-- The indices from `i` on whose slots hold a future. -/
def live (i : ℕ) (slots : List (Option (Fut E T))) : List ℕ :=
  ((List.range slots.length).filter fun j => slots[j]?.join.isSome).map (i + ·)

theorem live_cons {i : ℕ} {slot : Option (Fut E T)} {slots : List (Option (Fut E T))} :
    live i (slot :: slots) = (if slot.isSome then [i] else []) ++ live (i + 1) slots := by
  unfold live
  rw [List.length_cons, List.range_succ_eq_map]
  cases slot <;> simp [List.filter_map, Function.comp_def, Nat.add_assoc, Nat.add_comm 1]

/-- The loop over the slots from index `i` on: what it polled, and what it left. -/
structure Swept (i : ℕ) (slots : List (Option (Fut E T))) (st : Loop E T) (slots' : List (Option (Fut E T)))
    (st' : Loop E T) (polls : List (Σ _ : ℕ, Poll T)) : Prop where
  polled : polls.map Sigma.fst = live i slots
  slot_eq : ∀ j, slots'[j]? = slots[j]?.map fun slot => if ∃ v, ⟨i + j, .ready v⟩ ∈ polls then none else slot
  out_iff : ∀ j v, st'.out[j]? = some (some v) ↔ st.out[j]? = some (some v) ∨ ⟨j, .ready v⟩ ∈ polls
  length_out : st'.out.length = st.out.length
  allDone_iff : st'.allDone = true ↔ st.allDone = true ∧ ∀ slot ∈ slots', slot = none

/-- The body of the loop at index `i`. -/
structure SweptSlot (i : ℕ) (slot : Option (Fut E T)) (st : Loop E T) (slot' : Option (Fut E T)) (st' : Loop E T)
    (polls : List (Σ _ : ℕ, Poll T)) : Prop where
  polled : polls.map Sigma.fst = if slot.isSome then [i] else []
  slot_eq : slot' = if ∃ v, ⟨i, .ready v⟩ ∈ polls then none else slot
  out_iff : ∀ j v, st'.out[j]? = some (some v) ↔ st.out[j]? = some (some v) ∨ ⟨j, .ready v⟩ ∈ polls
  out_other : ∀ j, j ≠ i → st'.out[j]? = st.out[j]?
  length_out : st'.out.length = st.out.length
  allDone_iff : st'.allDone = true ↔ st.allDone = true ∧ slot' = none

/-- Where there is a future to poll there is room for its value. -/
theorem pollSlot_swept (waker : Waker) {i : ℕ} {slot : Option (Fut E T)} {st : Loop E T}
    (room : slot.isSome → st.out[i]? = some none) :
    SweptSlot i slot st (pollSlot waker i slot st).1 (pollSlot waker i slot st).2.1 (pollSlot waker i slot st).2.2 := by
  cases slot with
  | none =>
    simp only [pollSlot]
    exact ⟨rfl, by simp, by simp, fun _ _ => rfl, rfl, by simp⟩
  | some f =>
    have free := room rfl
    have bound : i < st.out.length := (List.getElem?_eq_some_iff.mp free).1
    simp only [pollSlot]
    split
    · refine ⟨rfl, by simp, ?_, ?_, by simp, by simp⟩
      · intro j v
        rw [List.getElem?_set]
        split_ifs with here
        · subst here
          simp [free, eq_comm]
        · simp [Ne.symm here]
      · intro j other
        exact List.getElem?_set_ne other.symm
    · exact ⟨rfl, by simp, by simp, fun _ _ => rfl, rfl, by simp⟩

section Swept

variable {i : ℕ} {slot slot' : Option (Fut E T)} {slots slots' : List (Option (Fut E T))}
variable {st mid st' : Loop E T} {first polls : List (Σ _ : ℕ, Poll T)}

/-- Polls of the slots from `i + 1` on say nothing about slot `i`. -/
theorem Swept.not_polled (swept : Swept (i + 1) slots st slots' st' polls) (answer : Poll T) : ⟨i, answer⟩ ∉ polls := by
  intro mem
  have polled := List.mem_map_of_mem (f := Sigma.fst) mem
  rw [swept.polled, live, List.mem_map] at polled
  obtain ⟨j, -, same⟩ := polled
  simp only at same
  omega

/-- The body polls no other slot. -/
theorem SweptSlot.not_polled (swept : SweptSlot i slot st slot' st' polls) {j : ℕ} (other : j ≠ i) (answer : Poll T) :
    ⟨j, answer⟩ ∉ polls := by
  intro mem
  have polled := List.mem_map_of_mem (f := Sigma.fst) mem
  rw [swept.polled] at polled
  split_ifs at polled
  · exact other (List.mem_singleton.mp polled)
  · cases polled

theorem SweptSlot.cons (body : SweptSlot i slot st slot' mid first) (rest : Swept (i + 1) slots mid slots' st' polls) :
    Swept i (slot :: slots) st (slot' :: slots') st' (first ++ polls) where
  polled := by rw [List.map_append, body.polled, rest.polled, live_cons]
  slot_eq := by
    rintro (_ | j)
    · simp [body.slot_eq, rest.not_polled]
    · have other : i + (j + 1) ≠ i := by omega
      simpa [body.not_polled other, Nat.add_assoc, Nat.add_comm 1] using rest.slot_eq j
  out_iff := by
    intro j v
    rw [rest.out_iff, body.out_iff, List.mem_append, or_assoc]
  length_out := rest.length_out.trans body.length_out
  allDone_iff := by rw [rest.allDone_iff, body.allDone_iff, List.forall_mem_cons, and_assoc]

end Swept

/-- The loop touches no slot twice, so it finds room for every value. -/
theorem pollSlots_swept {i : ℕ} {slots : List (Option (Fut E T))} {st : Loop E T}
    (room : ∀ j f, slots[j]? = some (some f) → st.out[i + j]? = some none) :
    Swept i slots st (pollSlots waker i slots st).1 (pollSlots waker i slots st).2.1
      (pollSlots waker i slots st).2.2 := by
  induction slots generalizing i st with
  | nil => exact ⟨rfl, by simp [pollSlots], by simp [pollSlots], rfl, by simp [pollSlots]⟩
  | cons slot slots ih =>
    have body : SweptSlot i slot st _ _ _ := pollSlot_swept waker (by
      intro some
      obtain ⟨f, rfl⟩ := Option.isSome_iff_exists.mp some
      exact room 0 f rfl)
    refine body.cons (ih ?_)
    intro j f found
    rw [body.out_other _ (by omega), ← room (j + 1) f found]
    congr 1
    omega

/-- A future that was ready is dropped. -/
def dropOf (futs : List (Fut E T)) (i : ℕ) (env : E) : E := futs[i]?.elim env fun f => f.drop env

/-- The loop polls the futures in their slots, one after the other. -/
theorem pollSlots_threaded {futs : List (Fut E T)} (waker : Waker) {i : ℕ} {slots : List (Option (Fut E T))}
    {st : Loop E T} (held : ∀ j f, slots[j]? = some (some f) → futs[i + j]? = some f) :
    @Threaded E ℕ (fun _ => T) (fun i => futs[i]?) (dropOf futs) waker st.env (pollSlots waker i slots st).2.2
      (pollSlots waker i slots st).2.1.env := by
  induction slots generalizing i st with
  | nil => exact .nil _
  | cons slot slots ih =>
    have rest (mid : Loop E T) := @ih (i + 1) mid fun j f found => by
      rw [← held (j + 1) f found]
      congr 1
      omega
    simp only [pollSlots]
    cases slot with
    | none => exact rest st
    | some f =>
      have there := held 0 f rfl
      rw [Nat.add_zero] at there
      rcases answered : f.poll waker st.env with ⟨v | _, mid⟩
      · simp only [pollSlot, answered]
        refine .ready there answered ?_
        rw [dropOf, there]
        exact rest ⟨st.out.set i (some v), st.allDone, f.drop mid⟩
      · simp only [pollSlot, answered]
        exact .pending there answered (rest ⟨st.out, false, mid⟩)

/-- The slots of a join in the course of its rounds: a slot keeps its future until that has yielded, and then
its value is there. -/
structure Slots (futs : List (Fut E T)) (join : JoinAll E T) (log : List (Round (fun _ : ℕ => T) (List T))) :
    Prop where
  slot_eq : ∀ i, join.futs[i]? = futs[i]?.map fun f => if Finished log i then none else some f
  out_iff : ∀ i v, join.out[i]? = some (some v) ↔ Yielded log i v
  length_out : join.out.length = futs.length

section Slots

variable {futs : List (Fut E T)} {join : JoinAll E T}

theorem slots_joinAll : Slots futs (joinAll futs) [] where
  slot_eq := by simp [joinAll, Finished, Yielded]
  out_iff := by simp [joinAll, Yielded, List.getElem?_replicate]
  length_out := by simp [joinAll]

theorem Slots.room (slots : Slots futs join log) {j : ℕ} {f : Fut E T} (found : join.futs[j]? = some (some f)) :
    join.out[j]? = some none := by
  rw [slots.slot_eq] at found
  obtain ⟨g, there, kept⟩ := Option.map_eq_some_iff.mp found
  split_ifs at kept with finished
  have bound : j < join.out.length := by
    rw [slots.length_out]
    exact (List.getElem?_eq_some_iff.mp there).1
  cases value : join.out[j] with
  | none => rw [List.getElem?_eq_getElem bound, value]
  | some v =>
    have yielded := (slots.out_iff j v).mp (by rw [List.getElem?_eq_getElem bound, value])
    exact (finished ⟨v, yielded⟩).elim

theorem Slots.length_futs (slots : Slots futs join log) : join.futs.length = futs.length := by
  apply le_antisymm
  · rw [← List.getElem?_eq_none_iff, slots.slot_eq]
    simp
  · rw [← List.getElem?_eq_none_iff, ← Option.map_eq_none_iff, ← slots.slot_eq]
    simp

theorem Slots.live_eq (slots : Slots futs join log) :
    live 0 join.futs = (List.range futs.length).filter fun i => ¬ Finished log i := by
  simp only [live, Nat.zero_add, List.map_id', slots.length_futs]
  apply List.filter_congr
  intro i mem
  rw [slots.slot_eq, List.getElem?_eq_getElem (List.mem_range.mp mem)]
  by_cases finished : Finished log i <;> simp [finished]

/-- After the loop the slots are right for the history with the new round in it. -/
theorem Slots.swept {futs' : List (Option (Fut E T))} {env : E} {st : Loop E T}
    {round : Round (fun _ : ℕ => T) (List T)} (slots : Slots futs join log)
    (swept : Swept 0 join.futs ⟨join.out, true, env⟩ futs' st round.polls) :
    Slots futs ⟨futs', st.out⟩ (log ++ [round]) where
  slot_eq := by
    intro i
    rw [swept.slot_eq, slots.slot_eq, Option.map_map]
    congr 1
    funext f
    simp only [Finished, yielded_concat, exists_or, Function.comp_apply, Nat.zero_add]
    split_ifs <;> simp_all
  out_iff := by
    intro i v
    rw [swept.out_iff, slots.out_iff, yielded_concat]
  length_out := swept.length_out.trans slots.length_out

theorem Slots.empty_iff (slots : Slots futs join log) :
    (∀ slot ∈ join.futs, slot = none) ↔ ∀ i ∈ List.range futs.length, Finished log i := by
  constructor
  · intro empty i mem
    have found := slots.slot_eq i
    rw [List.getElem?_eq_getElem (List.mem_range.mp mem), Option.map_some] at found
    have none := empty _ (List.mem_of_getElem? found)
    split_ifs at none with finished
    exact finished
  · intro finished slot mem
    obtain ⟨i, found⟩ := List.mem_iff_getElem?.mp mem
    rw [slots.slot_eq] at found
    obtain ⟨f, there, rfl⟩ := Option.map_eq_some_iff.mp found
    have bound := (List.getElem?_eq_some_iff.mp there).1
    rw [if_pos (finished i (List.mem_range.mpr bound))]

/-- With every future finished every value is there. -/
theorem Slots.full (slots : Slots futs join log) (finished : ∀ i ∈ List.range futs.length, Finished log i) :
    ∀ o ∈ join.out, o ≠ none := by
  intro o mem
  obtain ⟨i, found⟩ := List.mem_iff_getElem?.mp mem
  have bound := (List.getElem?_eq_some_iff.mp found).1
  rw [slots.length_out] at bound
  obtain ⟨v, yielded⟩ := finished i (List.mem_range.mpr bound)
  have value := (slots.out_iff i v).mpr yielded
  rw [found] at value
  simp [Option.some.inj value]

end Slots

/-- A vector with every value in it is taken without a panic. -/
theorem takeAll_eq {out : List (Option T)} (full : ∀ o ∈ out, o ≠ none) :
    ∃ values, (takeAll out).2 = .ok values ∧ values.map some = out := by
  induction out with
  | nil => exact ⟨[], rfl, rfl⟩
  | cons o out ih =>
    obtain ⟨values, taken, same⟩ := ih fun o mem => full o (List.mem_cons_of_mem _ mem)
    cases o with
    | none => exact (full none List.mem_cons_self rfl).elim
    | some v => exact ⟨v :: values, by simp [takeAll, taken, Except.map], by simp [same]⟩

theorem joinAll_poll {futs : List (Fut E T)} {join : JoinAll E T} {env : E} (slots : Slots futs join log) :
    JoinRound (List.range futs.length) (fun values i => values[i]?) log (join.poll waker env).2.2 ∧
      ((join.poll waker env).2.2.isPending →
        Slots futs (join.poll waker env).1 (log ++ [(join.poll waker env).2.2])) := by
  have swept := @pollSlots_swept _ _ waker 0 join.futs ⟨join.out, true, env⟩ fun j f found => by
    rw [Nat.zero_add]
    exact slots.room found
  simp only [JoinAll.poll]
  generalize pollSlots waker 0 join.futs ⟨join.out, true, env⟩ = loop at swept ⊢
  obtain ⟨futs', st, polls⟩ := loop
  simp only at swept ⊢
  have after (answer : Except String (Poll (List T))) : Slots futs ⟨futs', st.out⟩ (log ++ [⟨polls, answer⟩]) :=
    slots.swept swept
  have polled := swept.polled.trans slots.live_eq
  have done (answer : Except String (Poll (List T))) :
      st.allDone = true ↔ ∀ i ∈ List.range futs.length, Finished (log ++ [⟨polls, answer⟩]) i := by
    rw [swept.allDone_iff, ← (after answer).empty_iff]
    exact and_iff_right rfl
  split_ifs with allDone
  · obtain ⟨values, taken, same⟩ := takeAll_eq ((after (.ok .pending)).full ((done _).mp allDone))
    simp only [taken, Except.map]
    refine ⟨⟨polled, ?_, ?_, ?_⟩, ?_⟩
    · exact iff_of_true ⟨values, rfl⟩ ((done _).mp allDone)
    · rintro _ ⟨⟩ i v
      rw [← (after _).out_iff, ← same, List.getElem?_map]
      cases values[i]? <;> simp
    · rintro _ ⟨⟩
    · rintro ⟨⟩
  · refine ⟨⟨polled, ?_, ?_, ?_⟩, fun _ => after _⟩
    · refine iff_of_false ?_ (fun finished => allDone ((done _).mpr finished))
      rintro ⟨_, ⟨⟩⟩
    · rintro _ ⟨⟩
    · rintro _ ⟨⟩

theorem joinAll_threaded {futs : List (Fut E T)} {join : JoinAll E T} (slots : Slots futs join log) (waker : Waker)
    (env : E) : @Threaded E ℕ (fun _ => T) (fun i => futs[i]?) (dropOf futs) waker env
      (join.poll waker env).2.2.polls (join.poll waker env).2.1 := by
  have threaded := @pollSlots_threaded _ _ futs waker 0 join.futs ⟨join.out, true, env⟩ fun j f found => by
    rw [slots.slot_eq] at found
    obtain ⟨g, there, kept⟩ := Option.map_eq_some_iff.mp found
    split_ifs at kept
    rw [Nat.zero_add, there, kept]
  simp only [JoinAll.poll]
  split_ifs <;> exact threaded

end JoinAll

end Rustdv.Combinators
