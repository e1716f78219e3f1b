import Rustdv.Model.Callbacks
import Rustdv.ToMathlib.Followed

/-! # The life of a callback registration

The strong count is the number of those who hold a reference: the simulator as long as the callback is
not released, the handle, and the trampolines whose closures are running. The released flag decides who
reclaims: it is set once, together with the removal, by the first shot or by the drop of the handle.
-/

namespace Rustdv.Callback

/-- The removal of a callback calls for the reference to be reclaimed at once. -/
def Obs.reclaims : Obs → Option Obs
  | .removed id => some (.reclaimed id)
  | _ => none

/-- How often things have happened to a registration. -/
@[ext] structure Tally where
  entered : ℕ
  ran : ℕ
  removed : ℕ
  reclaimed : ℕ
  dropped : ℕ
  freed : ℕ

def tally (id : ℕ) (obs : List Obs) : Tally where
  entered := obs.count (.entered id)
  ran := obs.count (.ran id)
  removed := obs.count (.removed id)
  reclaimed := obs.count (.reclaimed id)
  dropped := obs.count (.dropped id)
  freed := obs.count (.freed id)

def Tally.add (t u : Tally) : Tally where
  entered := t.entered + u.entered
  ran := t.ran + u.ran
  removed := t.removed + u.removed
  reclaimed := t.reclaimed + u.reclaimed
  dropped := t.dropped + u.dropped
  freed := t.freed + u.freed

theorem Tally.zero_add (t : Tally) : Tally.add ⟨0, 0, 0, 0, 0, 0⟩ t = t := by
  simp only [Tally.add, Nat.zero_add]

theorem tally_append (id : ℕ) (obs out : List Obs) : tally id (obs ++ out) = (tally id obs).add (tally id out) := by
  simp only [tally, Tally.add, List.count_append]

/-- Nothing has happened to a registration that is not spoken of. -/
theorem tally_elsewhere {id : ℕ} {obs : List Obs} (elsewhere : ∀ o ∈ obs, o.id ≠ id) :
    tally id obs = ⟨0, 0, 0, 0, 0, 0⟩ := by
  have absent (o : Obs) (own : o.id = id) : obs.count o = 0 :=
    List.count_eq_zero_of_not_mem fun member => elsewhere o member own
  ext <;> exact absent _ rfl

/-- How a registration with some running closures stands to what has happened to it. -/
structure Fits (c : CbShared) (running : ℕ) (t : Tally) : Prop where
  strong : c.strong = (if c.released then 0 else 1) + (if c.attached then 1 else 0) + running
  registered : c.registered = true → c.released = false ∧ (c.kind = .oneShot → c.once = true)
  borrowed : c.kind = .recurring → running = if c.borrowed then 1 else 0
  removed : t.removed = if c.released then 1 else 0
  reclaimed : t.reclaimed = if c.released then 1 else 0
  ran : c.kind = .oneShot → t.ran = if c.once then 0 else 1
  fired : c.kind = .oneShot → 0 < t.entered → c.released = true
  dropped : 0 < t.dropped → c.released = true
  freed : t.freed = if c.strong = 0 then 1 else 0

section Shared

variable {id : ℕ} {c : CbShared} {running : ℕ} {t : Tally}

theorem fits_new (kind : CbKind) (accepted : Bool) : Fits (.new kind accepted) 0 ⟨0, 0, 0, 0, 0, 0⟩ := by
  refine ⟨?_, ?_, ?_, ?_, ?_, ?_, ?_, ?_, ?_⟩ <;> cases kind <;> cases accepted <;> simp [CbShared.new]

/-- Nothing is freed but by the last one to let go. -/
theorem tally_letGo (c : CbShared) (id : ℕ) :
    tally id (c.letGo id).2 = ⟨0, 0, 0, 0, 0, if c.strong = 1 then 1 else 0⟩ := by
  unfold CbShared.letGo
  split_ifs <;> simp [tally]

theorem tally_cons (id : ℕ) (o : Obs) (obs : List Obs) : tally id (o :: obs) = (tally id [o]).add (tally id obs) :=
  tally_append id [o] obs

theorem leave_fst : (c.leave id).1 = { c with borrowed := false, strong := c.strong - 1 } := rfl

theorem tally_leave : tally id (c.leave id).2 = ⟨0, 0, 0, 0, 0, if c.strong = 1 then 1 else 0⟩ := by
  unfold CbShared.leave
  rw [tally_append, tally_letGo]
  simp [tally, Tally.add]

/-- A running closure ends. -/
theorem Fits.leave (fits : Fits c (running + 1) t) (id : ℕ) :
    Fits (c.leave id).1 running (t.add (tally id (c.leave id).2)) := by
  rw [tally_leave, leave_fst]
  obtain ⟨strong, registered, borrowed, removed, reclaimed, ran, fired, dropped, freed⟩ := fits
  refine ⟨?_, registered, ?_, removed, reclaimed, ran, fired, dropped, ?_⟩
  · dsimp only
    omega
  · intro kind
    have one := borrowed kind
    simp only [Bool.false_eq_true, ↓reduceIte]
    split_ifs at one
    omega
  · dsimp only [Tally.add]
    rw [freed]
    split_ifs <;> omega

theorem forget_fst : (c.forget id).1 = { c with attached := false, strong := c.strong - 1 } := rfl

theorem tally_forget : tally id (c.forget id).2 = ⟨0, 0, 0, 0, 0, if c.strong = 1 then 1 else 0⟩ := by
  unfold CbShared.forget
  rw [tally_cons, tally_letGo]
  simp [tally, Tally.add]

theorem Fits.forget (fits : Fits c running t) (attached : c.attached = true) (id : ℕ) :
    Fits (c.forget id).1 running (t.add (tally id (c.forget id).2)) := by
  rw [tally_forget, forget_fst]
  obtain ⟨strong, registered, borrowed, removed, reclaimed, ran, fired, dropped, freed⟩ := fits
  rw [if_pos attached] at strong
  refine ⟨?_, registered, borrowed, removed, reclaimed, ran, fired, dropped, ?_⟩
  · simp only [Bool.false_eq_true, ↓reduceIte]
    omega
  · dsimp only [Tally.add]
    rw [freed]
    split_ifs <;> omega

/-- The handle goes: unless it has been done, the callback is removed and the reference reclaimed. -/
theorem Fits.dropHandle (fits : Fits c running t) (attached : c.attached = true) (id : ℕ) :
    Fits (c.dropHandle id).1 running (t.add (tally id (c.dropHandle id).2)) := by
  obtain ⟨strong, registered, borrowed, removed, reclaimed, ran, fired, dropped, freed⟩ := fits
  rw [if_pos attached] at strong
  cases released : c.released with
  | true =>
    simp only [released, ↓reduceIte] at strong removed reclaimed
    have now : tally id (c.dropHandle id).2 = ⟨0, 0, 0, 0, 1, if c.strong = 1 then 1 else 0⟩ := by
      simp only [CbShared.dropHandle, released, ↓reduceIte, CbShared.letGo]
      split_ifs <;> simp [tally]
    have left : (c.dropHandle id).1 = { c with attached := false, strong := c.strong - 1 } := by
      simp only [CbShared.dropHandle, released, ↓reduceIte, CbShared.letGo]
    rw [now, left]
    refine ⟨?_, registered, borrowed, ?_, ?_, ran, fired, fun _ => released, ?_⟩
    · simp only [released, ↓reduceIte, Bool.false_eq_true]
      omega
    · simp [Tally.add, released, removed]
    · simp [Tally.add, released, reclaimed]
    · dsimp only [Tally.add]
      rw [freed]
      split_ifs <;> omega
  | false =>
    simp only [released, Bool.false_eq_true, ↓reduceIte] at strong removed reclaimed
    have now : tally id (c.dropHandle id).2 =
        ⟨0, 0, 1, 1, 1, (if c.strong = 1 then 1 else 0) + if c.strong - 1 = 1 then 1 else 0⟩ := by
      simp only [CbShared.dropHandle, released, ↓reduceIte, CbShared.letGo, CbShared.release, Bool.false_eq_true]
      split_ifs <;> simp [tally]
    have left : (c.dropHandle id).1 =
        { c with released := true, registered := false, attached := false, strong := c.strong - 1 - 1 } := by
      simp only [CbShared.dropHandle, released, ↓reduceIte, CbShared.letGo, CbShared.release, Bool.false_eq_true]
    rw [now, left]
    refine ⟨?_, ?_, borrowed, ?_, ?_, ran, fun _ _ => rfl, fun _ => rfl, ?_⟩
    · simp only [↓reduceIte, Bool.false_eq_true]
      omega
    · simp
    · simp [Tally.add, removed]
    · simp [Tally.add, reclaimed]
    · dsimp only [Tally.add]
      rw [freed]
      split_ifs <;> omega

/-- The three ways into a trampoline. -/
inductive Entered (c : CbShared) (id : ℕ) : CbShared × List Obs × Entry → Prop where
  | shot (kind : c.kind = .oneShot) : Entered c id
      ({ c with released := true, once := false, registered := false }, [.removed id, .reclaimed id, .ran id], .runs)
  | again (kind : c.kind = .recurring) (free : c.borrowed = false) : Entered c id
      ({ c with borrowed := true, strong := c.strong + 1 }, [.ran id], .runs)
  | escape (kind : c.kind = .recurring) (borrowed : c.borrowed = true) : Entered c id
      (c, [.panicked id CbShared.borrowText, .escaped id], .escapes)

/-- A callback that the simulator has is entered in one of them. -/
theorem Fits.entered (fits : Fits c running t) (registered : c.registered = true) (id : ℕ) :
    Entered c id (c.enter id) := by
  obtain ⟨released, once⟩ := fits.registered registered
  have strong := fits.strong
  rw [released] at strong
  cases kind : c.kind with
  | oneShot =>
    have held : c.strong ≠ 0 := by
      simp only [Bool.false_eq_true, ↓reduceIte] at strong
      omega
    have same : c.enter id =
        ({ c with released := true, once := false, registered := false }, [.removed id, .reclaimed id, .ran id], .runs) := by
      simp [CbShared.enter, kind, released, once kind, CbShared.release, CbShared.letGo, held]
    rw [same]
    exact .shot kind
  | recurring =>
    cases borrowed : c.borrowed with
    | false =>
      have same : c.enter id = ({ c with borrowed := true, strong := c.strong + 1 }, [.ran id], .runs) := by
        simp [CbShared.enter, kind, borrowed]
      rw [same]
      exact .again kind borrowed
    | true =>
      have same : c.enter id = (c, [.panicked id CbShared.borrowText, .escaped id], .escapes) := by
        simp [CbShared.enter, kind, borrowed]
      rw [same]
      exact .escape kind borrowed

theorem Fits.enter (fits : Fits c running t) (registered : c.registered = true) (id : ℕ) {rest : CbShared}
    {out : List Obs} {entry : Entry} (entered : Entered c id (rest, out, entry)) :
    Fits rest (if entry = .runs then running + 1 else running) (t.add (tally id (.entered id :: out))) := by
  obtain ⟨released, once⟩ := fits.registered registered
  obtain ⟨strong, -, borrowed, removed, reclaimed, ran, fired, dropped, freed⟩ := fits
  simp only [released, Bool.false_eq_true, ↓reduceIte] at strong removed reclaimed
  cases entered with
  | shot kind =>
    have now : tally id [.entered id, .removed id, .reclaimed id, .ran id] = ⟨1, 1, 1, 1, 0, 0⟩ := by simp [tally]
    rw [now]
    refine ⟨?_, ?_, ?_, ?_, ?_, ?_, fun _ _ => rfl, fun _ => rfl, ?_⟩
    · simp only [↓reduceIte]
      omega
    · simp
    · simp [kind]
    · simp [Tally.add, removed]
    · simp [Tally.add, reclaimed]
    · simp [Tally.add, ran kind, once kind]
    · exact freed
  | again kind free =>
    have now : tally id [.entered id, .ran id] = ⟨1, 1, 0, 0, 0, 0⟩ := by simp [tally]
    rw [now]
    refine ⟨?_, ?_, ?_, ?_, ?_, ?_, ?_, dropped, ?_⟩
    · simp only [released, Bool.false_eq_true, ↓reduceIte]
      omega
    · simp [released, kind]
    · simp [borrowed kind, free]
    · simp [Tally.add, removed, released]
    · simp [Tally.add, reclaimed, released]
    · simp [kind]
    · simp [kind]
    · have live : c.strong ≠ 0 := by omega
      simp [Tally.add, freed, live]
  | escape kind held =>
    have now : tally id [.entered id, .panicked id CbShared.borrowText, .escaped id] = ⟨1, 0, 0, 0, 0, 0⟩ := by
      simp [tally]
    rw [now]
    refine ⟨?_, fun _ => ⟨released, once⟩, borrowed, ?_, ?_, ?_, ?_, dropped, freed⟩
    · simp only [released, Bool.false_eq_true, ↓reduceIte, reduceCtorEq]
      exact strong
    · simp [Tally.add, removed, released]
    · simp [Tally.add, reclaimed, released]
    · simp [kind]
    · simp [kind]

end Shared

/-! ## All registrations -/

/-- Everything that one action can do. -/
inductive Stepped (s : Callbacks) : Act → Callbacks → List Obs → Prop where
  | register (kind : CbKind) (accepted : Bool) :
      Stepped s (.register kind accepted) (s.register kind accepted).1 (s.register kind accepted).2
  | fire {id : ℕ} {c : CbShared} (there : s.shared id = some c) (registered : c.registered = true) :
      Stepped s (.fire id) (s.fire id c).1 (s.fire id c).2
  | return {id : ℕ} {below : List ℕ} {c : CbShared} (top : s.stack = id :: below) (there : s.shared id = some c) :
      Stepped s .return (s.finish id below c).1 (s.finish id below c).2
  | panic {id : ℕ} {below : List ℕ} {c : CbShared} (msg : String) (top : s.stack = id :: below)
      (there : s.shared id = some c) : Stepped s (.panic msg) (s.finish id below c).1
        (.panicked id msg :: .reported id msg :: (s.finish id below c).2)
  | dropHandle {id : ℕ} {c : CbShared} (there : s.shared id = some c) (attached : c.attached = true) :
      Stepped s (.dropHandle id) (s.put id (c.dropHandle id).1) (c.dropHandle id).2
  | forget {id : ℕ} {c : CbShared} (there : s.shared id = some c) (attached : c.attached = true) :
      Stepped s (.forget id) (s.put id (c.forget id).1) (c.forget id).2

theorem stepped_of_step {s t : Callbacks} {a : Act} {out : List Obs} (moved : s.step a = some (t, out)) :
    Stepped s a t out := by
  obtain ⟨-, moved⟩ := Option.ite_none_left_eq_some.mp moved
  cases a with
  | register kind accepted =>
    cases moved
    exact .register kind accepted
  | fire id =>
    obtain ⟨c, there, moved⟩ := Option.bind_eq_some_iff.mp moved
    obtain ⟨registered, same⟩ := Option.ite_none_right_eq_some.mp moved
    cases same
    exact .fire there registered
  | «return» =>
    dsimp only at moved
    split at moved
    · next id below top =>
      obtain ⟨c, there, same⟩ := Option.map_eq_some_iff.mp moved
      cases same
      exact .return top there
    · cases moved
  | panic msg =>
    dsimp only at moved
    split at moved
    · next id below top =>
      obtain ⟨c, there, same⟩ := Option.map_eq_some_iff.mp moved
      cases same
      exact .panic msg top there
    · cases moved
  | dropHandle id =>
    obtain ⟨c, there, moved⟩ := Option.bind_eq_some_iff.mp moved
    obtain ⟨attached, same⟩ := Option.ite_none_right_eq_some.mp moved
    cases same
    exact .dropHandle there attached
  | forget id =>
    obtain ⟨c, there, moved⟩ := Option.bind_eq_some_iff.mp moved
    obtain ⟨attached, same⟩ := Option.ite_none_right_eq_some.mp moved
    cases same
    exact .forget there attached

section About

variable {id : ℕ} {c : CbShared}

theorem letGo_about : ∀ o ∈ (c.letGo id).2, o.id = id := by
  unfold CbShared.letGo
  split_ifs <;> simp [Obs.id]

theorem release_about : ∀ o ∈ (c.release id).2, o.id = id := by
  simp only [CbShared.release, List.mem_cons, forall_eq_or_imp]
  exact ⟨rfl, rfl, letGo_about⟩

theorem leave_about : ∀ o ∈ (c.leave id).2, o.id = id := by
  simp only [CbShared.leave, List.mem_append, List.mem_singleton]
  rintro o (member | rfl)
  · exact letGo_about o member
  · rfl

theorem forget_about : ∀ o ∈ (c.forget id).2, o.id = id := by
  simp only [CbShared.forget, List.mem_cons, forall_eq_or_imp]
  exact ⟨rfl, letGo_about⟩

theorem dropHandle_about : ∀ o ∈ (c.dropHandle id).2, o.id = id := by
  simp only [CbShared.dropHandle, List.cons_append, List.mem_cons, List.mem_append, forall_eq_or_imp]
  refine ⟨rfl, ?_⟩
  rintro o (member | member)
  · split_ifs at member
    · cases member
    · exact release_about o member
  · exact letGo_about o member

theorem Entered.about {rest : CbShared} {out : List Obs} {entry : Entry} (entered : Entered c id (rest, out, entry)) :
    ∀ o ∈ out, o.id = id := by
  cases entered <;> simp [Obs.id]

end About

/-- Every registration fits its share of what has been seen. -/
structure Books (s : Callbacks) (obs : List Obs) : Prop where
  fits : ∀ id c, s.shared id = some c → Fits c (s.stack.count id) (tally id obs)
  unborn : ∀ id, s.shared id = none → id ∉ s.stack ∧ ∀ o ∈ obs, o.id ≠ id
  fresh : ∀ id, s.next ≤ id → s.shared id = none

theorem books_init : Books .init [] where
  fits _ _ there := by cases there
  unborn _ _ := ⟨List.not_mem_nil, by simp⟩
  fresh _ _ := rfl

section Steps

variable {s t : Callbacks} {obs out : List Obs} {a : Act}

/-- Something happens to one registration. -/
theorem Books.touch (books : Books s obs) {id : ℕ} {c : CbShared} {stack : List ℕ} {next : ℕ} {aborted : Bool}
    (others : ∀ other ≠ id, stack.count other = s.stack.count other) (about : ∀ o ∈ out, o.id = id)
    (fits : Fits c (stack.count id) ((tally id obs).add (tally id out))) (grows : s.next ≤ next) (bound : id < next) :
    Books ⟨Function.update s.shared id (some c), next, stack, aborted⟩ (obs ++ out) := by
  have elsewhere (other : ℕ) (apart : other ≠ id) : ∀ o ∈ out, o.id ≠ other :=
    fun o member same => apart (same.symm.trans (about o member))
  constructor <;> dsimp only
  · intro other c' there
    rw [tally_append]
    by_cases here : other = id
    · subst here
      rw [Function.update_self] at there
      exact Option.some.inj there ▸ fits
    · rw [Function.update_of_ne here] at there
      rw [others other here, tally_elsewhere (elsewhere other here)]
      exact books.fits other c' there
  · intro other gone
    by_cases here : other = id
    · rw [here, Function.update_self] at gone
      cases gone
    · rw [Function.update_of_ne here] at gone
      obtain ⟨absent, unseen⟩ := books.unborn other gone
      refine ⟨?_, fun o member => ?_⟩
      · rw [← List.count_eq_zero, others other here, List.count_eq_zero]
        exact absent
      · exact (List.mem_append.mp member).elim (unseen o) (elsewhere other here o)
  · intro other beyond
    rw [Function.update_of_ne (Nat.ne_of_gt (Nat.lt_of_lt_of_le bound beyond))]
    exact books.fresh other (Nat.le_trans grows beyond)

theorem Books.born (books : Books s obs) {id : ℕ} {c : CbShared} (there : s.shared id = some c) : id < s.next := by
  by_contra beyond
  cases (books.fresh id (Nat.le_of_not_lt beyond)).symm.trans there

/-- The innermost closure ends, after whatever else is told of it. -/
theorem Books.finish (books : Books s obs) {id : ℕ} {below : List ℕ} {c : CbShared} (top : s.stack = id :: below)
    (there : s.shared id = some c) (told : List Obs) (about : ∀ o ∈ told, o.id = id)
    (quiet : tally id told = ⟨0, 0, 0, 0, 0, 0⟩) :
    Books (s.finish id below c).1 (obs ++ (told ++ (s.finish id below c).2)) := by
  refine books.touch ?_ ?_ ?_ (Nat.le_refl _) (books.born there)
  · intro other apart
    rw [top, List.count_cons_of_ne apart.symm]
  · intro o member
    exact (List.mem_append.mp member).elim (about o) (leave_about o)
  · have fits := books.fits id c there
    rw [top, List.count_cons_self] at fits
    have left := fits.leave id
    rw [tally_append, quiet, Tally.zero_add]
    exact left

theorem Books.step (books : Books s obs) (stepped : Stepped s a t out) : Books t (obs ++ out) := by
  cases stepped with
  | register kind accepted =>
    have unborn := books.fresh s.next (Nat.le_refl _)
    obtain ⟨absent, unseen⟩ := books.unborn s.next unborn
    refine books.touch (fun _ _ => rfl) ?_ ?_ (Nat.le_succ _) (Nat.lt_succ_self _)
    · cases accepted <;> simp [Callbacks.register, Obs.id]
    · have nothing : tally s.next (s.register kind accepted).2 = ⟨0, 0, 0, 0, 0, 0⟩ := by
        cases accepted <;> simp [Callbacks.register, tally]
      change Fits _ (s.stack.count s.next) _
      rw [tally_elsewhere unseen, List.count_eq_zero_of_not_mem absent, nothing]
      exact fits_new kind accepted
  | @fire id c there registered =>
    have fits := books.fits id c there
    have entered := fits.entered registered id
    unfold Callbacks.fire
    generalize c.enter id = result at entered ⊢
    obtain ⟨rest, out, entry⟩ := result
    refine books.touch ?_ ?_ ?_ (Nat.le_refl _) (books.born there)
    · intro other apart
      split_ifs
      · rw [List.count_cons_of_ne apart.symm]
      · rfl
    · intro o member
      rcases List.mem_cons.mp member with rfl | later
      · rfl
      · exact entered.about o later
    · have after := fits.enter registered id entered
      split_ifs at after ⊢
      · rwa [List.count_cons_self]
      · exact after
  | @«return» id below c top there =>
    have left := books.finish top there [] (by simp) (tally_elsewhere (by simp))
    rwa [List.nil_append] at left
  | @panic id below c msg top there =>
    exact books.finish top there [.panicked id msg, .reported id msg] (by simp [Obs.id]) (by simp [tally])
  | @dropHandle id c there attached =>
    exact books.touch (fun _ _ => rfl) dropHandle_about ((books.fits id c there).dropHandle attached id)
      (Nat.le_refl _) (books.born there)
  | @forget id c there attached =>
    exact books.touch (fun _ _ => rfl) forget_about ((books.fits id c there).forget attached id)
      (Nat.le_refl _) (books.born there)

theorem letGo_calm (c : CbShared) (id : ℕ) : ∀ o ∈ (c.letGo id).2, o.reclaims = none ∧ ∀ other, o ≠ .ran other := by
  unfold CbShared.letGo
  split_ifs <;> simp [Obs.reclaims]

theorem leave_calm (c : CbShared) (id : ℕ) : ∀ o ∈ (c.leave id).2, o.reclaims = none ∧ ∀ other, o ≠ .ran other := by
  intro o member
  rcases List.mem_append.mp member with freed | returned
  · exact letGo_calm _ id o freed
  · rw [List.mem_singleton.mp returned]
    simp [Obs.reclaims]

/-- In every step the reference is reclaimed right behind the removal. -/
theorem Stepped.followed (stepped : Stepped s a t out) (books : Books s obs) : out.Followed Obs.reclaims := by
  have calm {l : List Obs} (all : ∀ o ∈ l, o.reclaims = none ∧ ∀ other, o ≠ .ran other) : l.Followed Obs.reclaims :=
    List.followed_of_calm fun o member => (all o member).1
  cases stepped with
  | register kind accepted =>
    refine List.followed_of_calm ?_
    cases accepted <;> simp [Callbacks.register, Obs.reclaims]
  | @fire id c there registered =>
    have entered := (books.fits id c there).entered registered id
    unfold Callbacks.fire
    generalize c.enter id = result at entered ⊢
    cases entered with
    | shot => exact .cons rfl (.cons_cons rfl (List.followed_of_calm (by simp [Obs.reclaims])))
    | again => exact List.followed_of_calm (by simp [Obs.reclaims])
    | escape => exact List.followed_of_calm (by simp [Obs.reclaims])
  | @«return» id below c top there => exact calm (leave_calm c id)
  | @panic id below c msg top there => exact .cons rfl (.cons rfl (calm (leave_calm c id)))
  | @dropHandle id c there attached =>
    cases released : c.released with
    | true =>
      have same : (c.dropHandle id).2 = .dropped id :: (CbShared.letGo { c with attached := false } id).2 := by
        simp [CbShared.dropHandle, released]
      rw [same]
      exact .cons rfl (calm (letGo_calm _ id))
    | false =>
      have same : (c.dropHandle id).2 = (.dropped id :: (c.release id).2) ++
          (CbShared.letGo { (c.release id).1 with attached := false } id).2 := by
        simp [CbShared.dropHandle, released]
      rw [same]
      exact .append (.cons rfl (.cons_cons rfl (.cons rfl (calm (letGo_calm _ id))))) (calm (letGo_calm _ id))
  | @forget id c there attached => exact .cons rfl (calm (letGo_calm _ id))

/-- A closure is called only while the simulator has the callback, and not while its handle is dropped. -/
theorem Stepped.ran (stepped : Stepped s a t out) (books : Books s obs) {id : ℕ} (ran : .ran id ∈ out) :
    (∃ c, s.shared id = some c ∧ c.registered = true) ∧ ∀ other, .dropped other ∉ out := by
  cases stepped with
  | register kind accepted => cases accepted <;> simp [Callbacks.register] at ran
  | @fire other c there registered =>
    have entered := (books.fits other c there).entered registered other
    unfold Callbacks.fire at ran ⊢
    generalize c.enter other = result at entered ran ⊢
    cases entered with
    | shot | again =>
      obtain rfl : id = other := by simpa using ran
      exact ⟨⟨c, there, registered⟩, by simp⟩
    | escape => simp at ran
  | @«return» other below c top there => exact absurd rfl ((leave_calm c other _ ran).2 id)
  | @panic other below c msg top there =>
    simp only [List.mem_cons, reduceCtorEq, false_or] at ran
    exact absurd rfl ((leave_calm c other _ ran).2 id)
  | @dropHandle other c there attached =>
    simp only [CbShared.dropHandle, List.cons_append, List.mem_cons, reduceCtorEq, false_or, List.mem_append] at ran
    rcases ran with released | freed
    · split_ifs at released
      · cases released
      · have later : .ran id ∈ (CbShared.letGo { c with released := true, registered := false } other).2 := by
          simpa [CbShared.release] using released
        exact absurd rfl ((letGo_calm _ other _ later).2 id)
    · exact absurd rfl ((letGo_calm _ other _ freed).2 id)
  | @forget other c there attached =>
    have later : .ran id ∈ (CbShared.letGo { c with attached := false } other).2 := by simpa [CbShared.forget] using ran
    exact absurd rfl ((letGo_calm _ other _ later).2 id)

end Steps

/-- What the life of every registration keeps to, in a run of the actions. -/
structure Lifecycle (actions : List Act) (s : Callbacks) (obs : List Obs) : Prop where
  /-- A callback is removed at most once. -/
  removed_le : ∀ id, obs.count (.removed id) ≤ 1
  /-- By the time that a drop of its handle is over it is removed, and no closure of it is called later. -/
  drop_removes : ∀ front id back, actions = front ++ .dropHandle id :: back → ∃ u seen later,
    callbacks.run .init (front ++ [.dropHandle id]) = some (u, seen) ∧ obs = seen ++ later ∧
      seen.count (.removed id) = 1 ∧ seen.count (.reclaimed id) = 1 ∧ .ran id ∉ later
  /-- So is a one-shot by the time that its closure is called. -/
  shot_removes : ∀ front id back, actions = front ++ .fire id :: back → ∀ c, s.shared id = some c →
    c.kind = .oneShot → ∃ u seen later,
      callbacks.run .init (front ++ [.fire id]) = some (u, seen) ∧ obs = seen ++ later ∧
        seen.count (.removed id) = 1 ∧ seen.count (.reclaimed id) = 1 ∧ seen.count (.ran id) = 1
  /-- The reference given to the C side is reclaimed right at the removal, and only then. -/
  reclaimed : obs.Followed Obs.reclaims ∧ ∀ id, obs.count (.reclaimed id) = obs.count (.removed id)
  /-- The closure of a one-shot is called at most once. -/
  ran_le : ∀ id c, s.shared id = some c → c.kind = .oneShot → obs.count (.ran id) ≤ 1
  /-- The references are those of the simulator, the handle and the running trampolines; with the last the
  shared state is freed. -/
  references : ∀ id c, s.shared id = some c →
    c.strong = (if c.released then 0 else 1) + (if c.attached then 1 else 0) + s.stack.count id ∧
      obs.count (.freed id) = if c.strong = 0 then 1 else 0
  /-- What a running trampoline uses is not freed. -/
  held : ∀ id ∈ s.stack, .freed id ∉ obs

/-- The books, with the order of things. -/
structure Told (s : Callbacks) (obs : List Obs) : Prop where
  books : Books s obs
  followed : obs.Followed Obs.reclaims
  dropped : obs.Pairwise fun o o' => ∀ id, o = .dropped id → o' ≠ .ran id

theorem told_init : Told .init [] := ⟨books_init, List.followed_nil, List.Pairwise.nil⟩

theorem Told.step {s t : Callbacks} {obs out : List Obs} {a : Act} (told : Told s obs)
    (moved : s.step a = some (t, out)) : Told t (obs ++ out) := by
  have stepped := stepped_of_step moved
  refine ⟨told.books.step stepped, told.followed.append (stepped.followed told.books), ?_⟩
  refine List.pairwise_append.mpr ⟨told.dropped, ?_, ?_⟩
  · refine List.Pairwise.imp_of_mem (R := fun _ _ => True) ?_ (List.pairwise_of_forall fun _ _ => trivial)
    rintro o o' member member' - id rfl rfl
    exact (stepped.ran told.books member').2 id member
  · rintro o member o' member' id rfl rfl
    -- the handle is gone, so the simulator does not have the callback any more
    obtain ⟨⟨c, there, registered⟩, -⟩ := stepped.ran told.books member'
    have fits := told.books.fits id c there
    have released := fits.dropped (List.count_pos_iff.mpr member)
    cases released.symm.trans (fits.registered registered).1

theorem told_of_run {actions : List Act} {s : Callbacks} {obs : List Obs}
    (ran : callbacks.run .init actions = some (s, obs)) : Told s obs :=
  callbacks.run_invariant_nil Told told_init (fun told moved => told.step moved) ran

/-- A run up to one of its actions, that action, and the rest. -/
theorem run_at {front back : List Act} {a : Act} {s : Callbacks} {obs : List Obs}
    (ran : callbacks.run .init (front ++ a :: back) = some (s, obs)) :
    ∃ u v before out later, Told u before ∧ Stepped u a v out ∧
      callbacks.run .init (front ++ [a]) = some (v, before ++ out) ∧ callbacks.run v back = some (s, later) ∧
        obs = (before ++ out) ++ later := by
  obtain ⟨u, before, rest, prior, onward, rfl⟩ := callbacks.run_append_eq_some_iff.mp ran
  obtain ⟨v, out, later, moved, after, rfl⟩ := callbacks.run_cons_eq_some_iff.mp onward
  refine ⟨u, v, before, out, later, told_of_run prior, stepped_of_step moved, ?_, after, (List.append_assoc ..).symm⟩
  exact callbacks.run_append prior ((callbacks.run_singleton u a).trans moved)

section Counts

variable {s : Callbacks} {obs : List Obs}

/-- What has happened to the handle, or to a one-shot, has removed the callback. -/
theorem Told.removed (told : Told s obs) {id : ℕ} {c : CbShared} (there : s.shared id = some c)
    (happened : .dropped id ∈ obs ∨ c.kind = .oneShot ∧ .entered id ∈ obs) :
    obs.count (.removed id) = 1 ∧ obs.count (.reclaimed id) = 1 := by
  have fits := told.books.fits id c there
  have released : c.released = true := by
    rcases happened with gone | ⟨kind, fired⟩
    · exact fits.dropped (List.count_pos_iff.mpr gone)
    · exact fits.fired kind (List.count_pos_iff.mpr fired)
  exact ⟨fits.removed.trans (if_pos released), fits.reclaimed.trans (if_pos released)⟩

/-- A one-shot that was fired has been called. -/
theorem Told.ran (told : Told s obs) {id : ℕ} {c : CbShared} (there : s.shared id = some c) (kind : c.kind = .oneShot)
    (ran : .ran id ∈ obs) : obs.count (.ran id) = 1 := by
  have once : obs.count (.ran id) = if c.once then 0 else 1 := (told.books.fits id c there).ran kind
  have positive := List.count_pos_iff.mpr ran
  split_ifs at once <;> omega

end Counts

section Kinds

variable {id : ℕ} {c : CbShared}

theorem enter_kind (c : CbShared) (id : ℕ) : (c.enter id).1.kind = c.kind := by
  rcases c with ⟨_ | _, _ | _, _ | _, _ | _, strong, registered, attached⟩ <;> rfl

theorem dropHandle_kind (c : CbShared) (id : ℕ) : (c.dropHandle id).1.kind = c.kind := by
  unfold CbShared.dropHandle CbShared.release CbShared.letGo
  split_ifs <;> rfl

/-- Nothing that is done to a registration changes its kind. -/
theorem Stepped.kind {s t : Callbacks} {a : Act} {obs out : List Obs} (stepped : Stepped s a t out) (books : Books s obs)
    (there : s.shared id = some c) : ∃ c', t.shared id = some c' ∧ c'.kind = c.kind := by
  have kept {shared : ℕ → Option CbShared} {other : ℕ} {old new : CbShared} (own : s.shared other = some old)
      (kind : new.kind = old.kind) (same : shared = Function.update s.shared other (some new)) :
      ∃ c', shared id = some c' ∧ c'.kind = c.kind := by
    subst same
    by_cases here : id = other
    · subst here
      obtain rfl := Option.some.inj (own.symm.trans there)
      exact ⟨new, Function.update_self .., kind⟩
    · exact ⟨c, (Function.update_of_ne here ..).trans there, rfl⟩
  cases stepped with
  | register kind accepted =>
    exact ⟨c, (Function.update_of_ne (Nat.ne_of_lt (books.born there)) ..).trans there, rfl⟩
  | fire own registered => exact kept own (enter_kind _ _) rfl
  | @«return» other below old top own => exact @kept _ other old (old.leave other).1 own rfl rfl
  | @panic other below old msg top own => exact @kept _ other old (old.leave other).1 own rfl rfl
  | dropHandle own attached => exact kept own (dropHandle_kind _ _) rfl
  | @forget other old own attached => exact @kept _ other old (old.forget other).1 own rfl rfl

theorem kind_of_run {s t : Callbacks} {actions : List Act} {obs later : List Obs} (told : Told s obs)
    (ran : callbacks.run s actions = some (t, later)) (there : s.shared id = some c) :
    ∃ c', t.shared id = some c' ∧ c'.kind = c.kind := by
  have both := callbacks.run_invariant (fun t obs => Told t obs ∧ ∃ c', t.shared id = some c' ∧ c'.kind = c.kind)
    ⟨told, c, there, rfl⟩ ?_ ran
  · exact both.2
  · rintro u v seen out a ⟨told, c', there', same⟩ moved
    obtain ⟨c'', after, kind⟩ := (stepped_of_step moved).kind told.books there'
    exact ⟨told.step moved, c'', after, kind.trans same⟩

end Kinds

/-- The life of every registration, in every run. -/
theorem callback_lifecycle {actions : List Act} {s : Callbacks} {obs : List Obs}
    (ran : callbacks.run .init actions = some (s, obs)) : Lifecycle actions s obs := by
  have told := told_of_run ran
  obtain ⟨books, followed, dropped⟩ := id told
  have unseen (id : ℕ) (gone : s.shared id = none) (o : Obs) (about : o.id = id) : obs.count o = 0 :=
    List.count_eq_zero_of_not_mem fun member => (books.unborn id gone).2 o member about
  refine ⟨?_, ?_, ?_, ⟨followed, ?_⟩, ?_, ?_, ?_⟩
  · intro id
    cases there : s.shared id with
    | none => rw [unseen id there _ rfl]; exact Nat.zero_le _
    | some c =>
      have removed : obs.count (.removed id) = _ := (books.fits id c there).removed
      rw [removed]
      split_ifs <;> decide
  · rintro front id back rfl
    obtain ⟨u, v, before, out, later, -, stepped, reached, -, rfl⟩ := run_at ran
    cases stepped with
    | @dropHandle id c there attached =>
      have member : .dropped id ∈ before ++ (c.dropHandle id).2 :=
        List.mem_append_right _ (by simp [CbShared.dropHandle])
      obtain ⟨removed, reclaimed⟩ := (told_of_run reached).removed (Function.update_self ..) (.inl member)
      refine ⟨_, _, later, reached, rfl, removed, reclaimed, fun again => ?_⟩
      exact (List.pairwise_append.mp dropped).2.2 _ member _ again id rfl rfl
  · rintro front id back rfl c there kind
    obtain ⟨u, v, before, out, later, before_told, stepped, reached, onward, rfl⟩ := run_at ran
    have told := told_of_run reached
    cases stepped with
    | @fire id old own registered =>
      have after : (u.fire id old).1.shared id = some (old.enter id).1 := Function.update_self ..
      obtain ⟨c', end_, same⟩ := kind_of_run told onward after
      obtain rfl := Option.some.inj (end_.symm.trans there)
      have shot : (old.enter id).1.kind = .oneShot := same.symm.trans kind
      have entered := (before_told.books.fits id old own).entered registered id
      have called : .ran id ∈ (u.fire id old).2 := by
        unfold Callbacks.fire
        generalize old.enter id = result at entered shot
        cases entered with
        | shot => simp
        | again => simp
        | escape recurring => cases recurring.symm.trans shot
      obtain ⟨removed, reclaimed⟩ := told.removed after (.inr ⟨shot, List.mem_append_right _ List.mem_cons_self⟩)
      exact ⟨_, _, later, reached, rfl, removed, reclaimed, told.ran after shot (List.mem_append_right _ called)⟩
  · intro id
    cases there : s.shared id with
    | none => rw [unseen id there _ rfl, unseen id there _ rfl]
    | some c => exact (books.fits id c there).reclaimed.trans (books.fits id c there).removed.symm
  · intro id c there kind
    have ran : obs.count (.ran id) = _ := (books.fits id c there).ran kind
    rw [ran]
    split_ifs <;> decide
  · intro id c there
    exact ⟨(books.fits id c there).strong, (books.fits id c there).freed⟩
  · intro id running freed
    cases there : s.shared id with
    | none => exact (books.unborn id there).1 running
    | some c =>
      have fits := books.fits id c there
      have gone : obs.count (.freed id) = _ := fits.freed
      have seen := List.count_pos_iff.mpr freed
      have count := List.count_pos_iff.mpr running
      have strong := fits.strong
      split_ifs at gone <;> omega

/-- A one-shot drops its own handle from its closure and fires a recurring callback, whose handle is
dropped while it runs. -/
def selfDropping : List Act :=
  [.register .oneShot true, .register .recurring true, .fire 0, .dropHandle 0, .fire 1, .dropHandle 1, .panic "late",
    .return]

/-- What is seen of it: each callback is removed and its reference reclaimed once, and the shared state is
freed when its trampoline returns. -/
def selfDroppingObs : List Obs :=
  [.registered 0, .registered 1, .entered 0, .removed 0, .reclaimed 0, .ran 0, .dropped 0, .entered 1, .ran 1, .dropped 1,
    .removed 1, .reclaimed 1, .panicked 1 "late", .reported 1 "late", .freed 1, .returned 1 0, .freed 0, .returned 0 0]

theorem callback_lifecycle_selfDropping :
    ∃ s, callbacks.run .init selfDropping = some (s, selfDroppingObs) ∧ s.stack = [] ∧
      Lifecycle selfDropping s selfDroppingObs := by
  have seen : (callbacks.run .init selfDropping).map (fun last => (last.1.stack, last.2)) =
      some ([], selfDroppingObs) := by decide
  obtain ⟨⟨s, obs⟩, ran, same⟩ := Option.map_eq_some_iff.mp seen
  obtain ⟨idle, rfl⟩ := Prod.mk.inj same
  exact ⟨s, ran, idle, callback_lifecycle ran⟩

end Rustdv.Callback
