import Rustdv.Soundness.CallbackLifecycle

/-! # Panics in trampolines

The call of the closure is guarded, so whatever it panics with ends up in the sink and its trampoline
returns. The borrow of a recurring closure is not guarded: it panics when the simulator enters the
callback again while the closure is running, and that panic leaves the trampoline.
-/

namespace Rustdv.Callback

/-- A panic calls for its message to get to the sink at once. -/
def Obs.reports : Obs → Option Obs
  | .panicked id msg => some (.reported id msg)
  | _ => none

/-- The closure of a recurring callback that is entered is running. -/
def Callbacks.reenters (s : Callbacks) : Act → Bool
  | .fire id => s.stack.contains id && (s.shared id).any fun c => c.kind = .recurring
  | _ => false

/-- Every panic gets to the sink, and every trampoline returns 0 or has its closure running. -/
structure Contained (s : Callbacks) (obs : List Obs) : Prop where
  routed : obs.Followed Obs.reports
  returned : ∀ id, obs.count (.entered id) = obs.count (.returned id 0) + s.stack.count id
  status : ∀ id status, .returned id status ∈ obs → status = 0

/-- What one step adds. -/
structure Adds (s t : Callbacks) (out : List Obs) : Prop where
  routed : out.Followed Obs.reports
  returned : ∀ id, out.count (.entered id) + s.stack.count id = out.count (.returned id 0) + t.stack.count id
  status : ∀ id status, .returned id status ∈ out → status = 0

theorem Contained.append {s t : Callbacks} {obs out : List Obs} (contained : Contained s obs) (adds : Adds s t out) :
    Contained t (obs ++ out) := by
  refine ⟨contained.routed.append adds.routed, ?_, ?_⟩
  · intro id
    have before := contained.returned id
    have now := adds.returned id
    rw [List.count_append, List.count_append]
    omega
  · intro id status member
    exact (List.mem_append.mp member).elim (contained.status id status) (adds.status id status)

section Steps

variable {s t : Callbacks} {obs out : List Obs} {a : Act}

/-- Nobody enters or leaves a trampoline. -/
theorem adds_of_silent (same : t.stack = s.stack)
    (silent : ∀ o ∈ out, o.reports = none ∧ ∀ id status, o ≠ .entered id ∧ o ≠ .returned id status) : Adds s t out := by
  refine ⟨List.followed_of_calm fun o member => (silent o member).1, ?_, ?_⟩
  · intro id
    rw [same, List.count_eq_zero_of_not_mem fun member => ((silent _ member).2 id 0).1 rfl,
      List.count_eq_zero_of_not_mem fun member => ((silent _ member).2 id 0).2 rfl]
  · intro id status member
    exact absurd rfl ((silent _ member).2 id status).2

theorem letGo_cases (c : CbShared) (id : ℕ) : (c.letGo id).2 = [] ∨ (c.letGo id).2 = [.freed id] := by
  unfold CbShared.letGo
  split_ifs
  · exact .inr rfl
  · exact .inl rfl

theorem letGo_silent (c : CbShared) (id : ℕ) :
    ∀ o ∈ (c.letGo id).2, o.reports = none ∧ ∀ other status, o ≠ .entered other ∧ o ≠ .returned other status := by
  rcases letGo_cases c id with none | one
  · simp [none]
  · simp [one, Obs.reports]

/-- The closure has ended, and its trampoline returns 0. -/
theorem adds_finish {id : ℕ} {below : List ℕ} (c : CbShared) (top : s.stack = id :: below) :
    Adds s (s.finish id below c).1 (s.finish id below c).2 := by
  have out : (s.finish id below c).2 = (CbShared.letGo { c with borrowed := false } id).2 ++ [.returned id 0] := rfl
  have stack : (s.finish id below c).1.stack = below := rfl
  rw [out]
  refine ⟨?_, ?_, ?_⟩
  · refine List.followed_of_calm fun o member => ?_
    rcases List.mem_append.mp member with freed | returned
    · exact (letGo_silent _ id o freed).1
    · rw [List.mem_singleton.mp returned]
      rfl
  · intro other
    rw [top, stack]
    rcases letGo_cases { c with borrowed := false } id with none | one
    · rw [none]
      simp [List.count_cons, Nat.add_comm]
    · rw [one]
      simp [List.count_cons, Nat.add_comm]
  · intro other status member
    rcases List.mem_append.mp member with freed | returned
    · exact absurd rfl ((letGo_silent _ id _ freed).2 other status).2
    · exact (Obs.returned.inj (List.mem_singleton.mp returned)).2

/-- As long as no running recurring callback is entered, nothing escapes. -/
theorem Stepped.adds (stepped : Stepped s a t out) (books : Books s obs) (apart : s.reenters a = false) :
    Adds s t out := by
  cases stepped with
  | register kind accepted =>
    refine adds_of_silent rfl ?_
    cases accepted <;> simp [Callbacks.register, Obs.reports]
  | @fire id c there registered =>
    have fits := books.fits id c there
    have entered := fits.entered registered id
    unfold Callbacks.fire
    generalize c.enter id = result at entered ⊢
    cases entered with
    | shot kind =>
      refine ⟨List.followed_of_calm (by simp [Obs.reports]), ?_, by simp⟩
      intro other
      by_cases here : id = other <;> simp [here, Nat.add_comm]
    | again kind free =>
      refine ⟨List.followed_of_calm (by simp [Obs.reports]), ?_, by simp⟩
      intro other
      by_cases here : id = other <;> simp [here, Nat.add_comm]
    | escape kind held =>
      have running := fits.borrowed kind
      rw [if_pos held] at running
      have member : id ∈ s.stack := List.count_pos_iff.mp (by omega)
      simp [Callbacks.reenters, there, kind, member] at apart
  | @«return» id below c top there => exact adds_finish c top
  | @panic id below c msg top there =>
    obtain ⟨routed, returned, status⟩ := adds_finish c top
    refine ⟨?_, ?_, ?_⟩
    · exact .cons_cons rfl (.cons rfl routed)
    · intro other
      simpa using returned other
    · intro other status' member
      exact status other status' (by simpa using member)
  | @dropHandle id c there attached =>
    refine adds_of_silent rfl ?_
    simp only [CbShared.dropHandle, List.cons_append, List.mem_cons, List.mem_append, forall_eq_or_imp]
    refine ⟨by simp [Obs.reports], ?_⟩
    rintro o (member | member)
    · split_ifs at member
      · cases member
      · simp only [CbShared.release, List.mem_cons] at member
        rcases member with rfl | rfl | freed
        · simp [Obs.reports]
        · simp [Obs.reports]
        · exact letGo_silent _ id o freed
    · exact letGo_silent _ id o member
  | @forget id c there attached =>
    refine adds_of_silent rfl ?_
    simp only [CbShared.forget, List.mem_cons, forall_eq_or_imp]
    exact ⟨by simp [Obs.reports], letGo_silent _ id⟩

/-- The entry into a running recurring callback panics, and the panic escapes. -/
theorem Stepped.escapes (stepped : Stepped s a t out) (books : Books s obs) (reenters : s.reenters a = true) :
    ∃ id, out = [.entered id, .panicked id CbShared.borrowText, .escaped id] := by
  cases stepped with
  | @fire id c there registered =>
    have fits := books.fits id c there
    have entered := fits.entered registered id
    simp only [Callbacks.reenters, there, Option.any_some, Bool.and_eq_true, List.contains_iff_mem, decide_eq_true_eq] at reenters
    obtain ⟨running, kind⟩ := reenters
    have held : c.borrowed = true := by
      have count := fits.borrowed kind
      have positive := List.count_pos_iff.mpr running
      split_ifs at count with held
      · exact held
      · omega
    unfold Callbacks.fire
    generalize c.enter id = result at entered ⊢
    cases entered with
    | shot other => cases kind.symm.trans other
    | again _ free => cases held.symm.trans free
    | escape => exact ⟨id, rfl⟩
  | _ => cases reenters

end Steps

/-- In every run all panics are contained exactly if no recurring callback is entered while its closure is
running. -/
theorem trampoline_contains_iff {actions : List Act} {s : Callbacks} {obs : List Obs}
    (ran : callbacks.run .init actions = some (s, obs)) :
    Contained s obs ↔ (callbacks.restrict fun s a => s.reenters a = false).run .init actions = some (s, obs) := by
  constructor
  · intro contained
    refine (callbacks.restrict_run_or ran).resolve_right ?_
    rintro ⟨before, a, after, u, v, first, out, later, -, prior, refused, moved, -, rfl⟩
    have told := callbacks.run_invariant_nil Told told_init (fun told moved => told.step moved) prior
    obtain ⟨id, rfl⟩ := (stepped_of_step moved).escapes told.books (by simpa using refused)
    -- behind the panic stands the escape
    obtain ⟨rest, same⟩ := contained.routed (first ++ [.entered id]) (.panicked id CbShared.borrowText)
      (.escaped id :: later) (.reported id CbShared.borrowText) (by simp) rfl
    cases same
  · intro restricted
    have holds := (callbacks.restrict fun s a => s.reenters a = false).run_invariant_nil
      (fun s obs => Told s obs ∧ Contained s obs)
      ⟨told_init, List.followed_nil, fun _ => rfl, by simp⟩ (by
        intro u v seen out a holds moved
        obtain ⟨apart, moved⟩ := callbacks.restrict_step_eq_some_iff.mp moved
        exact ⟨holds.1.step moved, holds.2.append ((stepped_of_step moved).adds holds.1.books apart)⟩) restricted
    exact holds.2

/-- A one-shot fires while a recurring callback runs, and both panic. -/
def bothPanic : List Act :=
  [.register .recurring true, .register .oneShot true, .fire 0, .fire 1, .panic "inner", .panic "outer"]

theorem trampoline_contains_bothPanic :
    ∃ s obs, callbacks.run .init bothPanic = some (s, obs) ∧ s.stack = [] ∧
      (Contained s obs ↔ (callbacks.restrict fun s a => s.reenters a = false).run .init bothPanic = some (s, obs)) := by
  have seen : (callbacks.run .init bothPanic).map (fun last => last.1.stack) = some [] := by decide
  obtain ⟨⟨s, obs⟩, ran, same⟩ := Option.map_eq_some_iff.mp seen
  exact ⟨s, obs, ran, same, trampoline_contains_iff ran⟩

/-- The closure of a value-change callback writes a signal, and the simulator calls it again. -/
def reentered : List Act := [.register .recurring true, .fire 0, .fire 0]

theorem reentered_escapes :
    ∃ s, callbacks.run .init reentered = some (s, [.registered 0, .entered 0, .ran 0, .entered 0,
        .panicked 0 CbShared.borrowText, .escaped 0]) ∧ s.aborted = true ∧
      ¬ Contained s [.registered 0, .entered 0, .ran 0, .entered 0, .panicked 0 CbShared.borrowText, .escaped 0] := by
  refine ⟨_, rfl, rfl, fun contained => ?_⟩
  obtain ⟨rest, same⟩ := contained.routed [.registered 0, .entered 0, .ran 0, .entered 0]
    (.panicked 0 CbShared.borrowText) [.escaped 0] (.reported 0 CbShared.borrowText) rfl rfl
  cases same

end Rustdv.Callback
