import Mathlib.Data.List.Basic

/-! # Registrations that are still owed an answer

A party that has to wait registers and is answered later, by an observation of its own. A
registration is owed while no answer has been emitted after it. A wait list books the parties that
are owed: a step may forget one only if it answers it, so a wait list that is empty is a proof that
nobody waits unanswered.
-/

/-- `request` was emitted and `answer` has not been emitted since. -/
def Owed {Obs : Type*} (request answer : Obs) (obs : List Obs) : Prop :=
  ∃ before after, obs = before ++ request :: after ∧ answer ∉ after

section Owed

variable {Obs : Type*} {request answer : Obs} {obs out : List Obs}

theorem Owed.mem (owed : Owed request answer obs) : request ∈ obs := by
  obtain ⟨before, after, rfl, -⟩ := owed
  simp

/-- A registration is owed after a step if it is owed within the step, or was owed before it and
the step does not answer. -/
theorem owed_append (request answer : Obs) (obs out : List Obs) :
    Owed request answer (obs ++ out) ↔
      Owed request answer out ∨ Owed request answer obs ∧ answer ∉ out := by
  constructor
  · rintro ⟨before, after, split, unanswered⟩
    rcases List.append_eq_append_iff.mp split with ⟨middle, rfl, rfl⟩ | ⟨middle, rfl, tail⟩
    · exact .inl ⟨middle, after, rfl, unanswered⟩
    · rcases List.cons_eq_append_iff.mp tail with ⟨rfl, rfl⟩ | ⟨middle', rfl, rfl⟩
      · exact .inl ⟨[], after, rfl, unanswered⟩
      · rw [List.mem_append, not_or] at unanswered
        exact .inr ⟨⟨before, middle', rfl, unanswered.1⟩, unanswered.2⟩
  · rintro (⟨before, after, rfl, unanswered⟩ | ⟨⟨before, after, rfl, unanswered⟩, quiet⟩)
    · exact ⟨obs ++ before, after, by simp, unanswered⟩
    · exact ⟨before, after ++ out, by simp, by simp [unanswered, quiet]⟩

end Owed

/-- Every party that is owed an answer stands in the wait list. -/
def Booked {Obs Party : Type*} (request answer : Party → Obs) (waiters : List Party) (obs : List Obs) : Prop :=
  ∀ party, Owed (request party) (answer party) obs → party ∈ waiters

namespace Booked

variable {Obs Party : Type*} {request answer : Party → Obs} {waiters waiters' : List Party}
variable {obs out : List Obs}

theorem nil : Booked request answer waiters [] := by
  rintro party ⟨before, after, split, -⟩
  simp at split

/-- A step keeps the books if it answers whomever it forgets and books whomever it registers. -/
theorem step (booked : Booked request answer waiters obs)
    (kept : ∀ party ∈ waiters, party ∈ waiters' ∨ answer party ∈ out)
    (added : ∀ party, request party ∈ out → party ∈ waiters') :
    Booked request answer waiters' (obs ++ out) := by
  intro party owed
  rcases (owed_append ..).mp owed with now | ⟨earlier, unanswered⟩
  · exact added party now.mem
  · exact (kept party (booked party earlier)).resolve_right unanswered

/-- A step that registers nobody keeps the list. -/
theorem quiet (booked : Booked request answer waiters obs) (none : ∀ party, request party ∉ out) :
    Booked request answer waiters (obs ++ out) :=
  booked.step (fun _ member => .inl member) fun party now => (none party now).elim

/-- A step that registers one party appends it to the list. -/
theorem register (booked : Booked request answer waiters obs) {party : Party}
    (only : ∀ other, request other ∈ out → other = party) :
    Booked request answer (waiters ++ [party]) (obs ++ out) :=
  booked.step (fun _ member => .inl (List.mem_append_left _ member)) fun other now => by
    rw [only other now]
    exact List.mem_append_right _ List.mem_cons_self

/-- A step that answers the whole list and registers nobody may empty it. -/
theorem drain (booked : Booked request answer waiters obs) (none : ∀ party, request party ∉ out)
    (answered : ∀ party ∈ waiters, answer party ∈ out) : Booked request answer [] (obs ++ out) :=
  booked.step (fun party member => .inr (answered party member)) fun party now => (none party now).elim

/-- Nobody is owed an answer when the list is empty. -/
theorem none_owed (booked : Booked request answer waiters obs) (empty : waiters = []) (party : Party) :
    ¬ Owed (request party) (answer party) obs := by
  intro owed
  have member := booked party owed
  rw [empty] at member
  cases member

end Booked
