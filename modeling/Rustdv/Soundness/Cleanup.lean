import Rustdv.Soundness.CallStack

/-! # The cleanup at the end of a test

`cancel_after` takes the ids of the live tasks first and cancels them one after the other. What the
destructors do meanwhile is theirs: they may spawn, wake and cancel. Every task that was found is gone
when the call returns, and told so; a task that a destructor spawned is gone if and only if a later
destructor cancelled it.
-/

namespace Rustdv.Executor

variable {V : Type*}

/-- What the loop of `cancel_after` and the destructors that it runs do. -/
def Move.ofCleanup : Move V → Bool
  | .spawnNamed _ | .wake _ | .cancel _ | .next | .dropped => true
  | _ => false

/-- A call of `cancel_after` takes these steps and returns. -/
def Returns (s : Thread V) (watermark : TaskId) (order : List TaskId) (actions : List (Move V)) (t : Thread V)
    (obs : List (Obs V)) : Prop :=
  ∃ called, s.step (.cancelAfter watermark order) = some (called, []) ∧
    ((threads V).restrict fun u a => s.stack.length < u.stack.length ∧ a.ofCleanup = true).run called actions =
      some (t, obs) ∧ t.stack = s.stack

/-- Every task that these steps spawn, the first of them under this id, is cancelled by a later one. -/
def Settled : TaskId → List (Move V) → Prop
  | _, [] => True
  | fresh, .spawnNamed _ :: rest => .cancel fresh ∈ rest ∧ Settled (fresh + 1) rest
  | fresh, _ :: rest => Settled fresh rest

/-- The cleanup has done all that is expected of it. -/
structure Complete (s : Thread V) (watermark : TaskId) (actions : List (Move V)) (t : Thread V)
    (obs : List (Obs V)) : Prop where
  /-- No live task has an id from the watermark on. -/
  none_left : ∀ id, watermark ≤ id → t.inner.tasks id = none
  /-- An older task that no destructor cancelled is as it was. -/
  kept : ∀ id < watermark, .cancel id ∉ actions →
    t.inner.tasks id = s.inner.tasks id ∧ t.inner.shared id = s.inner.shared id
  /-- A removed task's handle reports the cancellation, and no joiner is left. -/
  told : ∀ id, (s.inner.tasks id).isSome ∨ s.inner.nextId ≤ id ∧ id < t.inner.nextId → t.inner.tasks id = none →
    t.inner.shared id = ⟨.cancelled, some (.error .cancelled), []⟩
  /-- The joiners it had are woken. -/
  woken : ∀ id, (s.inner.tasks id).isSome → t.inner.tasks id = none →
    ∀ waker ∈ (s.inner.shared id).joiners, .woke waker ∈ obs

section Steps

variable {base : List Frame} {rest : List TaskId} {s u t : Thread V} {a : Move V} {out : List (Obs V)}

/-- The call is in progress: its loop with these tasks ahead, and destructors above it. -/
def Amid (base : List Frame) (rest : List TaskId) (stack : List Frame) : Prop :=
  ∃ depth, stack = List.replicate depth .dropping ++ .cancelling rest :: base

/-- What a step of the cleanup can do. -/
inductive Cleans (base : List Frame) (rest : List TaskId) (u : Thread V) :
    Move V → Thread V → List (Obs V) → Prop where
  | returns (done : rest = []) : Cleans base rest u .next ⟨u.inner, base⟩ []
  | spawns (name : Option String) : Cleans base rest u (.spawnNamed name)
      ⟨(spawnNamed u.inner name).1, u.stack⟩ (spawnNamed u.inner name).2
  | wakes (waker : Waker) : Cleans base rest u (.wake waker) ⟨wake u.inner [waker], u.stack⟩ [.woke waker]
  | ends {stack : List Frame} (amid : Amid base rest stack) : Cleans base rest u .dropped ⟨u.inner, stack⟩ []
  | cancels {a : Move V} {id : TaskId} {ahead : List TaskId} {stack : List Frame}
      (why : a = .cancel id ∧ ahead = rest ∨ a = .next ∧ rest = id :: ahead) (amid : Amid base ahead stack) :
      Cleans base rest u a ⟨(cancel u.inner id).1, stack⟩ (cancel u.inner id).2

theorem Amid.push {stack : List Frame} (amid : Amid base rest stack) : Amid base rest (.dropping :: stack) := by
  obtain ⟨depth, rfl⟩ := amid
  exact ⟨depth + 1, rfl⟩

theorem cleans_of_step (amid : Amid base rest u.stack) (cleanup : a.ofCleanup = true)
    (moved : u.step a = some (t, out)) : Cleans base rest u a t out := by
  cases a with
  | spawnNamed name =>
    obtain ⟨-, same⟩ := Option.ite_none_right_eq_some.mp moved
    cases same
    exact .spawns name
  | wake waker =>
    obtain ⟨-, same⟩ := Option.ite_none_right_eq_some.mp moved
    cases same
    exact .wakes waker
  | cancel id =>
    obtain ⟨-, same⟩ := Option.ite_none_right_eq_some.mp moved
    cases same
    refine .cancels (.inl ⟨rfl, rfl⟩) ?_
    split_ifs
    · exact amid.push
    · exact amid
  | next =>
    obtain ⟨depth, stack⟩ := amid
    cases depth with
    | zero =>
      rw [List.replicate_zero, List.nil_append] at stack
      cases rest with
      | nil =>
        simp only [Thread.step, stack] at moved
        cases moved
        exact .returns rfl
      | cons id ahead =>
        simp only [Thread.step, stack] at moved
        cases moved
        refine .cancels (.inr ⟨rfl, rfl⟩) ?_
        split_ifs
        · exact ⟨1, rfl⟩
        · exact ⟨0, rfl⟩
    | succ depth =>
      simp only [Thread.step, stack, List.replicate_succ, List.cons_append] at moved
      cases moved
  | dropped =>
    obtain ⟨depth, stack⟩ := amid
    cases depth with
    | zero =>
      simp only [Thread.step, stack, List.replicate_zero, List.nil_append] at moved
      cases moved
    | succ depth =>
      simp only [Thread.step, stack, List.replicate_succ, List.cons_append] at moved
      cases moved
      exact .ends ⟨depth, rfl⟩
  | _ => cases cleanup

/-- A task that a call of `cancel` does not remove is as it was. -/
theorem cancel_apart (s : ExecInner V) {target id : TaskId}
    (apart : id ≠ target ∨ s.currentlyPolling = some target ∨ s.tasks target = none) :
    (cancel s target).1.tasks id = s.tasks id ∧ (cancel s target).1.shared id = s.shared id := by
  by_cases self : s.currentlyPolling = some target
  · rw [cancel, if_pos self]
    exact ⟨rfl, rfl⟩
  · cases there : s.tasks target with
    | none =>
      have same : cancel s target = (s, []) := by simp only [cancel, self, ↓reduceIte, there]
      rw [same]
      exact ⟨rfl, rfl⟩
    | some entry =>
      have distinct : id ≠ target := by simpa [self, there] using apart
      rw [cancel_of_live self there, finish_tasks, finish_shared]
      exact ⟨Function.update_of_ne distinct .., Function.update_of_ne distinct ..⟩

/-- The task is gone, its handle reports the cancellation, and the joiners it had are woken. -/
structure Removed (id : TaskId) (s t : ExecInner V) (out : List (Obs V)) : Prop where
  gone : t.tasks id = none
  told : t.shared id = ⟨.cancelled, some (.error .cancelled), []⟩
  woken : ∀ waker ∈ (s.shared id).joiners, .woke waker ∈ out

theorem cancel_removes (s : ExecInner V) {id : TaskId} (other : s.currentlyPolling ≠ some id)
    (live : (s.tasks id).isSome) : Removed id s (cancel s id).1 (cancel s id).2 := by
  obtain ⟨entry, there⟩ := Option.isSome_iff_exists.mp live
  rw [cancel_of_live other there]
  refine ⟨by simp, by simp, fun waker member => ?_⟩
  rw [finish_out]
  exact List.mem_cons_of_mem _ (List.mem_map_of_mem member)

theorem cancel_nextId (s : ExecInner V) (id : TaskId) : (cancel s id).1.nextId = s.nextId := by
  unfold cancel
  split_ifs
  · rfl
  · split <;> rfl

/-- A cleanup leaves the polled task's mark and only counts ids up. -/
theorem Cleans.frame (cleans : Cleans base rest u a t out) :
    t.inner.currentlyPolling = u.inner.currentlyPolling ∧ u.inner.nextId ≤ t.inner.nextId := by
  cases cleans with
  | returns | wakes | ends => exact ⟨rfl, Nat.le_refl _⟩
  | spawns name => exact ⟨rfl, Nat.le_succ _⟩
  | cancels why amid => exact ⟨(cancel_meddled u.inner _).polling, (cancel_meddled u.inner _).nextId⟩

/-- A task that is gone stays so, with the cell it has. -/
theorem Cleans.dead (cleans : Cleans base rest u a t out) {id : TaskId} (bound : id < u.inner.nextId)
    (gone : u.inner.tasks id = none) : t.inner.tasks id = none ∧ t.inner.shared id = u.inner.shared id := by
  cases cleans with
  | returns | wakes | ends => exact ⟨gone, rfl⟩
  | spawns name =>
    have apart := Nat.ne_of_lt bound
    exact ⟨(Function.update_of_ne apart ..).trans gone, Function.update_of_ne apart ..⟩
  | @cancels _ target =>
    have apart : id ≠ target ∨ u.inner.currentlyPolling = some target ∨ u.inner.tasks target = none := by
      by_cases here : id = target
      · exact .inr (.inr (here ▸ gone))
      · exact .inl here
    exact ⟨(cancel_apart u.inner apart).1.trans gone, (cancel_apart u.inner apart).2⟩

end Steps

section Calls

variable {base : List Frame} {rest : List TaskId} {s u t : Thread V} {actions : List (Move V)} {obs : List (Obs V)}

/-- The steps of a call that returns to this stack. -/
def cleanup (V : Type*) (base : List Frame) : Machine (Thread V) (Move V) (Obs V) :=
  (threads V).restrict fun u a => base.length < u.stack.length ∧ a.ofCleanup = true

theorem Amid.deeper {stack : List Frame} (amid : Amid base rest stack) : base.length < stack.length := by
  obtain ⟨depth, rfl⟩ := amid
  rw [List.length_append, List.length_cons]
  omega

/-- A call that is not over takes another step. -/
theorem cleanup_ne_nil (amid : Amid base rest u.stack) (back : t.stack = base) :
    (cleanup V base).run u [] ≠ some (t, obs) := by
  rintro ran
  cases ran
  exact absurd amid.deeper (by simp [back])

/-- A call that is over takes none. -/
theorem cleanup_over (top : u.stack = base) (ran : (cleanup V base).run u actions = some (t, obs)) :
    actions = [] ∧ t = u ∧ obs = [] := by
  cases actions with
  | nil =>
    cases ran
    exact ⟨rfl, rfl, rfl⟩
  | cons a later =>
    obtain ⟨mid, out, tail, moved, -, -⟩ := (cleanup V base).run_cons_eq_some_iff.mp ran
    have deeper := ((threads V).restrict_step_eq_some_iff.mp moved).1.1
    exact absurd deeper (by simp [top])

theorem cleanup_cons {a : Move V} (amid : Amid base rest u.stack)
    (ran : (cleanup V base).run u (a :: actions) = some (t, obs)) :
    ∃ mid out later, Cleans base rest u a mid out ∧ (cleanup V base).run mid actions = some (t, later) ∧
      obs = out ++ later := by
  obtain ⟨mid, out, later, moved, suffix, rfl⟩ := (cleanup V base).run_cons_eq_some_iff.mp ran
  obtain ⟨allowed, moved⟩ := (threads V).restrict_step_eq_some_iff.mp moved
  exact ⟨mid, out, later, cleans_of_step amid allowed.2 moved, suffix, rfl⟩

/-- A task that is gone stays so to the end of the call. -/
theorem cleanup_dead (amid : Amid base rest u.stack) (back : t.stack = base)
    (ran : (cleanup V base).run u actions = some (t, obs)) {id : TaskId} (bound : id < u.inner.nextId)
    (gone : u.inner.tasks id = none) : t.inner.tasks id = none ∧ t.inner.shared id = u.inner.shared id := by
  induction actions generalizing u rest obs with
  | nil => exact absurd ran (cleanup_ne_nil amid back)
  | cons a actions ih =>
    obtain ⟨mid, out, later, cleans, suffix, rfl⟩ := cleanup_cons amid ran
    obtain ⟨gone', same⟩ := cleans.dead bound gone
    have bound' := Nat.lt_of_lt_of_le bound cleans.frame.2
    rw [← same]
    cases cleans with
    | returns done =>
      obtain ⟨-, rfl, -⟩ := cleanup_over (u := ⟨u.inner, base⟩) rfl suffix
      exact ⟨gone, rfl⟩
    | spawns | wakes => exact ih amid suffix bound' gone'
    | ends amid' => exact ih amid' suffix bound' gone'
    | cancels why amid' => exact ih amid' suffix bound' gone'

/-- A live task that is not being polled is removed if the loop or a destructor cancels it. -/
theorem cleanup_removes (amid : Amid base rest u.stack) (back : t.stack = base)
    (ran : (cleanup V base).run u actions = some (t, obs)) {id : TaskId} (bound : id < u.inner.nextId)
    (live : (u.inner.tasks id).isSome) (other : u.inner.currentlyPolling ≠ some id)
    (doomed : .cancel id ∈ actions ∨ id ∈ rest) : Removed id u.inner t.inner obs := by
  induction actions generalizing u rest obs with
  | nil => exact absurd ran (cleanup_ne_nil amid back)
  | cons a actions ih =>
    obtain ⟨mid, out, later, cleans, suffix, rfl⟩ := cleanup_cons amid ran
    obtain ⟨polling, counted⟩ := cleans.frame
    have bound' := Nat.lt_of_lt_of_le bound counted
    -- as long as the task is as it was, the rest of the call removes it
    have remain {ahead : List TaskId} (amid' : Amid base ahead mid.stack)
        (tasks : mid.inner.tasks id = u.inner.tasks id) (shared : mid.inner.shared id = u.inner.shared id)
        (doomed' : .cancel id ∈ actions ∨ id ∈ ahead) : Removed id u.inner t.inner (out ++ later) := by
      obtain ⟨gone, told, woken⟩ := ih amid' suffix bound' (tasks ▸ live) (polling ▸ other) doomed'
      refine ⟨gone, told, fun waker member => List.mem_append_right _ (woken waker ?_)⟩
      rwa [shared]
    cases cleans with
    | returns done =>
      obtain ⟨rfl, -, -⟩ := cleanup_over (u := ⟨u.inner, base⟩) rfl suffix
      simp [done] at doomed
    | spawns name =>
      have apart := Nat.ne_of_lt bound
      exact remain amid (Function.update_of_ne apart ..) (Function.update_of_ne apart ..) (by simpa using doomed)
    | wakes waker => exact remain amid rfl rfl (by simpa using doomed)
    | ends amid' => exact remain amid' rfl rfl (by simpa using doomed)
    | @cancels _ target ahead _ why amid' =>
      by_cases here : id = target
      · subst here
        obtain ⟨gone, told, woken⟩ := cancel_removes u.inner other live
        obtain ⟨gone', same⟩ := cleanup_dead amid' back suffix bound' gone
        exact ⟨gone', same.trans told, fun waker member => List.mem_append_left _ (woken waker member)⟩
      · obtain ⟨tasks, shared⟩ := cancel_apart u.inner (.inl here)
        refine remain amid' tasks shared ?_
        rcases why with ⟨rfl, rfl⟩ | ⟨rfl, rfl⟩
        · simpa [here] using doomed
        · simpa [here] using doomed

/-- A task that nobody cancels, or that is being polled, is as it was. -/
theorem cleanup_keeps (amid : Amid base rest u.stack) (back : t.stack = base)
    (ran : (cleanup V base).run u actions = some (t, obs)) {id : TaskId} (bound : id < u.inner.nextId)
    (spared : u.inner.currentlyPolling = some id ∨ .cancel id ∉ actions ∧ id ∉ rest) :
    t.inner.tasks id = u.inner.tasks id ∧ t.inner.shared id = u.inner.shared id := by
  induction actions generalizing u rest obs with
  | nil => exact absurd ran (cleanup_ne_nil amid back)
  | cons a actions ih =>
    obtain ⟨mid, out, later, cleans, suffix, rfl⟩ := cleanup_cons amid ran
    obtain ⟨polling, counted⟩ := cleans.frame
    have bound' := Nat.lt_of_lt_of_le bound counted
    have remain {ahead : List TaskId} (amid' : Amid base ahead mid.stack)
        (tasks : mid.inner.tasks id = u.inner.tasks id) (shared : mid.inner.shared id = u.inner.shared id)
        (spared' : u.inner.currentlyPolling = some id ∨ .cancel id ∉ actions ∧ id ∉ ahead) :
        t.inner.tasks id = u.inner.tasks id ∧ t.inner.shared id = u.inner.shared id := by
      rw [← tasks, ← shared]
      exact ih amid' suffix bound' (polling ▸ spared')
    cases cleans with
    | returns done =>
      obtain ⟨-, rfl, -⟩ := cleanup_over (u := ⟨u.inner, base⟩) rfl suffix
      exact ⟨rfl, rfl⟩
    | spawns name =>
      have apart := Nat.ne_of_lt bound
      exact remain amid (Function.update_of_ne apart ..) (Function.update_of_ne apart ..) (by simpa using spared)
    | wakes waker => exact remain amid rfl rfl (by simpa using spared)
    | ends amid' => exact remain amid' rfl rfl (by simpa using spared)
    | @cancels _ target ahead _ why amid' =>
      have apart : id ≠ target ∨ u.inner.currentlyPolling = some target ∨ u.inner.tasks target = none := by
        by_cases here : id = target
        · subst here
          rcases spared with polled | ⟨uncancelled, absent⟩
          · exact .inr (.inl polled)
          · rcases why with ⟨rfl, -⟩ | ⟨-, rfl⟩
            · exact absurd List.mem_cons_self uncancelled
            · exact absurd List.mem_cons_self absent
        · exact .inl here
      obtain ⟨tasks, shared⟩ := cancel_apart u.inner apart
      refine remain amid' tasks shared (spared.imp_right fun ⟨uncancelled, absent⟩ => ⟨?_, ?_⟩)
      · exact fun member => uncancelled (List.mem_cons_of_mem _ member)
      · rcases why with ⟨-, rfl⟩ | ⟨-, rfl⟩
        · exact absent
        · exact fun member => absent (List.mem_cons_of_mem _ member)

/-- The tasks ahead and the task that is polled are older than any that the call spawns. -/
def Older (rest : List TaskId) (s : ExecInner V) : Prop :=
  (∀ id ∈ rest, id < s.nextId) ∧ ∀ id, s.currentlyPolling = some id → id < s.nextId

theorem Older.cleans {ahead : List TaskId} {a : Move V} {out : List (Obs V)} (older : Older rest u.inner)
    (cleans : Cleans base rest u a t out) (sub : ∀ id ∈ ahead, id ∈ rest) : Older ahead t.inner := by
  obtain ⟨polling, counted⟩ := cleans.frame
  exact ⟨fun id member => Nat.lt_of_lt_of_le (older.1 id (sub id member)) counted,
    fun id polled => Nat.lt_of_lt_of_le (older.2 id (polling ▸ polled)) counted⟩

/-- A task that the call spawns is gone at its end if and only if a later step cancels it. -/
theorem cleanup_newborn {fresh : ExecInner V} {name : Option String} {stack : List Frame} (amid : Amid base rest stack)
    (back : t.stack = base) (older : Older rest fresh)
    (ran : (cleanup V base).run ⟨(spawnNamed fresh name).1, stack⟩ actions = some (t, obs)) :
    (t.inner.tasks fresh.nextId = none ↔ .cancel fresh.nextId ∈ actions) ∧
      (t.inner.tasks fresh.nextId = none → t.inner.shared fresh.nextId = ⟨.cancelled, some (.error .cancelled), []⟩) := by
  have bound : fresh.nextId < (spawnNamed fresh name).1.nextId := Nat.lt_succ_self _
  have live : (spawnNamed fresh name).1.tasks fresh.nextId = some ⟨name.getD s!"task_{fresh.nextId}", .scheduled⟩ :=
    Function.update_self ..
  have other : (spawnNamed fresh name).1.currentlyPolling ≠ some fresh.nextId := fun polled =>
    Nat.lt_irrefl _ (older.2 _ polled)
  have removed (doomed : .cancel fresh.nextId ∈ actions) := cleanup_removes amid back ran bound
    (Option.isSome_iff_exists.mpr ⟨_, live⟩) other (.inl doomed)
  have cancelled (gone : t.inner.tasks fresh.nextId = none) : .cancel fresh.nextId ∈ actions := by
    by_contra uncancelled
    have absent : fresh.nextId ∉ rest := fun member => Nat.lt_irrefl _ (older.1 _ member)
    have same := (cleanup_keeps amid back ran bound (.inr ⟨uncancelled, absent⟩)).1
    cases gone.symm.trans (same.trans live)
  exact ⟨⟨cancelled, fun doomed => (removed doomed).gone⟩, fun gone => (removed (cancelled gone)).told⟩

/-- The tasks that the call spawns are all gone at its end if and only if each is cancelled by a later
step. -/
theorem cleanup_settled (amid : Amid base rest u.stack) (back : t.stack = base) (older : Older rest u.inner)
    (born : ∀ id, u.inner.nextId ≤ id → u.inner.tasks id = none)
    (ran : (cleanup V base).run u actions = some (t, obs)) :
    (Settled u.inner.nextId actions ↔ ∀ id, u.inner.nextId ≤ id → t.inner.tasks id = none) ∧
      ∀ id, u.inner.nextId ≤ id → id < t.inner.nextId → t.inner.tasks id = none →
        t.inner.shared id = ⟨.cancelled, some (.error .cancelled), []⟩ := by
  induction actions generalizing u rest obs with
  | nil => exact absurd ran (cleanup_ne_nil amid back)
  | cons a actions ih =>
    obtain ⟨mid, out, later, cleans, suffix, rfl⟩ := cleanup_cons amid ran
    cases cleans with
    | returns done =>
      obtain ⟨rfl, rfl, -⟩ := cleanup_over (u := ⟨u.inner, base⟩) rfl suffix
      exact ⟨iff_of_true trivial born, fun id beyond bound => absurd bound (Nat.not_lt.mpr beyond)⟩
    | spawns name =>
      have next : (spawnNamed u.inner name).1.nextId = u.inner.nextId + 1 := rfl
      have born' (id : TaskId) (beyond : u.inner.nextId + 1 ≤ id) : (spawnNamed u.inner name).1.tasks id = none :=
        (Function.update_of_ne (Nat.ne_of_gt beyond) ..).trans (born id (Nat.le_of_succ_le beyond))
      have spawns : Cleans base rest u (.spawnNamed name) ⟨(spawnNamed u.inner name).1, u.stack⟩
          (spawnNamed u.inner name).2 := .spawns name
      have older' : Older rest (spawnNamed u.inner name).1 := older.cleans spawns fun _ => id
      obtain ⟨settled, told⟩ := cleanup_newborn amid back older suffix
      obtain ⟨others, toldOthers⟩ := ih (u := ⟨(spawnNamed u.inner name).1, u.stack⟩) amid older' born' suffix
      simp only [next] at others toldOthers
      constructor
      · rw [Settled, ← settled, others]
        constructor
        · rintro ⟨first, others⟩ id beyond
          rcases Nat.eq_or_lt_of_le beyond with rfl | later
          · exact first
          · exact others id later
        · exact fun all => ⟨all _ (Nat.le_refl _), fun id beyond => all id (Nat.le_of_succ_le beyond)⟩
      · intro id beyond bound gone
        rcases Nat.eq_or_lt_of_le beyond with rfl | later
        · exact told gone
        · exact toldOthers id later bound gone
    | wakes waker => exact ih (u := ⟨wake u.inner [waker], u.stack⟩) amid older born suffix
    | @ends stack amid' => exact ih (u := ⟨u.inner, stack⟩) amid' older born suffix
    | @cancels _ target ahead stack why amid' =>
      have same : (cancel u.inner target).1.nextId = u.inner.nextId := cancel_nextId u.inner target
      have born' (id : TaskId) (beyond : u.inner.nextId ≤ id) : (cancel u.inner target).1.tasks id = none := by
        refine (cancel_apart u.inner ?_).1.trans (born id beyond)
        by_cases here : id = target
        · exact .inr (.inr (here ▸ born id beyond))
        · exact .inl here
      have older' : Older ahead (cancel u.inner target).1 := by
        have cancels : Cleans base rest u a ⟨(cancel u.inner target).1, stack⟩ (cancel u.inner target).2 :=
          .cancels why amid'
        refine older.cleans cancels ?_
        rcases why with ⟨-, rfl⟩ | ⟨-, rfl⟩
        · exact fun _ => id
        · exact fun id => List.mem_cons_of_mem _
      have remain := ih (u := ⟨(cancel u.inner target).1, stack⟩) amid' older' (by rwa [same]) suffix
      rw [same] at remain
      rcases why with ⟨rfl, -⟩ | ⟨rfl, -⟩
      · exact remain
      · exact remain

/-- With nothing to cancel, the call returns at once. -/
theorem cleanup_empty (top : u.stack = .cancelling [] :: base) (back : t.stack = base)
    (ran : (cleanup V base).run u actions = some (t, obs)) : actions = [.next] ∧ t.inner = u.inner := by
  have amid : Amid base [] u.stack := ⟨0, top⟩
  cases actions with
  | nil => exact absurd ran (cleanup_ne_nil amid back)
  | cons a actions =>
    obtain ⟨mid, out, later, moved, suffix, -⟩ := (cleanup V base).run_cons_eq_some_iff.mp ran
    obtain ⟨allowed, moved⟩ := (threads V).restrict_step_eq_some_iff.mp moved
    have idle : u.userRuns = false := by simp only [Thread.userRuns, top]
    change u.step a = some (mid, out) at moved
    cases a with
    | next =>
      simp only [Thread.step, top] at moved
      cases moved
      obtain ⟨rfl, rfl, -⟩ := cleanup_over (u := ⟨u.inner, base⟩) rfl suffix
      exact ⟨rfl, rfl⟩
    | dropped =>
      simp only [Thread.step, top] at moved
      cases moved
    | spawnNamed | wake | cancel => simp [Thread.step, idle] at moved
    | _ => cases allowed.2

theorem mem_victims {s : ExecInner V} {watermark id : TaskId} :
    id ∈ victims s watermark ↔ id < s.nextId ∧ watermark ≤ id ∧ (s.tasks id).isSome := by
  simp only [victims, List.mem_filter, List.mem_range, Bool.and_eq_true, decide_eq_true_eq]

/-- Called from a reachable state while a task below the watermark is polled, or none, the cleanup is
complete when it returns, if and only if every task that a destructor spawned was cancelled by a later
one. -/
theorem cleanup_complete_iff {before actions : List (Move V)} {past obs : List (Obs V)} {s t : Thread V}
    {watermark : TaskId} {order : List TaskId}
    (reached : (threads V).run (Thread.init V) before = some (s, past))
    (below : ∀ id, s.inner.currentlyPolling = some id → id < watermark)
    (returns : Returns s watermark order actions t obs) :
    Complete s watermark actions t obs ↔ Settled s.inner.nextId actions := by
  have sound : Sound s := sound_of_run reached
  obtain ⟨called, started, ran, back⟩ := returns
  obtain ⟨⟨-, perm⟩, same⟩ := Option.ite_none_right_eq_some.mp started
  cases same
  have amid : Amid s.stack order (.cancelling order :: s.stack) := ⟨0, rfl⟩
  have ahead (id : TaskId) : id ∈ order ↔ id < s.inner.nextId ∧ watermark ≤ id ∧ (s.inner.tasks id).isSome :=
    perm.mem_iff.trans mem_victims
  have older : Older order s.inner :=
    ⟨fun id member => ((ahead id).mp member).1, fun id polled => (sound.polled id ((sound.current id).mp polled)).1⟩
  have bound {id : TaskId} (live : (s.inner.tasks id).isSome) : id < s.inner.nextId := by
    obtain ⟨entry, there⟩ := Option.isSome_iff_exists.mp live
    exact sound.born id entry there
  have born (id : TaskId) (beyond : s.inner.nextId ≤ id) : s.inner.tasks id = none := by
    by_contra live
    exact Nat.not_lt.mpr beyond (bound (Option.isSome_iff_ne_none.mpr live))
  obtain ⟨settled, toldNew⟩ := cleanup_settled (u := ⟨s.inner, .cancelling order :: s.stack⟩) amid back older born ran
  change Settled s.inner.nextId actions ↔ ∀ id, s.inner.nextId ≤ id → t.inner.tasks id = none at settled
  -- a live task that is gone at the end was cancelled while another task was polled
  have removed {id : TaskId} (live : (s.inner.tasks id).isSome) (gone : t.inner.tasks id = none) :
      Removed id s.inner t.inner obs := by
    by_cases spared : s.inner.currentlyPolling = some id ∨ .cancel id ∉ actions ∧ id ∉ order
    · have kept := (cleanup_keeps (u := ⟨s.inner, .cancelling order :: s.stack⟩) amid back ran (bound live) spared).1
      rw [← kept, gone] at live
      cases live
    · obtain ⟨other, doomed⟩ := not_or.mp spared
      exact cleanup_removes (u := ⟨s.inner, .cancelling order :: s.stack⟩) amid back ran (bound live) live other
        (by rwa [not_and_or, not_not, not_not] at doomed)
  -- above all ids there is nothing to cancel
  have empty (beyond : s.inner.nextId < watermark) : actions = [.next] ∧ t.inner = s.inner := by
    have none : order = [] := by
      refine List.eq_nil_iff_forall_not_mem.mpr fun id member => ?_
      obtain ⟨small, large, -⟩ := (ahead id).mp member
      exact Nat.lt_asymm small (Nat.lt_of_lt_of_le beyond large)
    rw [none] at ran
    exact cleanup_empty (u := ⟨s.inner, .cancelling [] :: s.stack⟩) rfl back ran
  constructor
  · intro complete
    by_cases beyond : s.inner.nextId < watermark
    · rw [(empty beyond).1]
      trivial
    · exact settled.mpr fun id large => complete.none_left id (Nat.le_trans (Nat.not_lt.mp beyond) large)
  · intro clean
    have spawned := settled.mp clean
    refine ⟨?_, ?_, ?_, fun id live gone => (removed live gone).woken⟩
    · intro id large
      rcases Nat.lt_or_ge id s.inner.nextId with small | new
      · cases there : s.inner.tasks id with
        | none =>
          exact (cleanup_dead (u := ⟨s.inner, .cancelling order :: s.stack⟩) amid back ran small there).1
        | some entry =>
          have live : (s.inner.tasks id).isSome := Option.isSome_iff_exists.mpr ⟨entry, there⟩
          have other : s.inner.currentlyPolling ≠ some id := fun polled => Nat.not_lt.mpr large (below id polled)
          exact (cleanup_removes (u := ⟨s.inner, .cancelling order :: s.stack⟩) amid back ran small live other
            (.inr ((ahead id).mpr ⟨small, large, live⟩))).gone
      · exact spawned id new
    · intro id small uncancelled
      rcases Nat.lt_or_ge id s.inner.nextId with old | new
      · have absent : id ∉ order := fun member => Nat.not_lt.mpr ((ahead id).mp member).2.1 small
        exact cleanup_keeps (u := ⟨s.inner, .cancelling order :: s.stack⟩) amid back ran old
          (.inr ⟨uncancelled, absent⟩)
      · rw [(empty (Nat.lt_of_le_of_lt new small)).2]
        exact ⟨rfl, rfl⟩
    · rintro id (live | ⟨new, counted⟩) gone
      · exact (removed live gone).told
      · exact toldNew id new counted gone

end Calls

/-- The regression's task runs a test's task and is about to clean up. -/
def testEnd : List (Move ℕ) := [.spawnNamed none, .runUntilIdle, .turn, .spawnNamed none]

/-- A call of `cancel_after` at the end of the test, whose task has this destructor. -/
def cleanedUp (destructor : List (Move ℕ)) : Option (Thread ℕ × Thread ℕ) :=
  ((threads ℕ).run (Thread.init ℕ) testEnd).bind fun (s, _) =>
    (s.step (.cancelAfter 2 [2])).bind fun (called, _) =>
      ((cleanup ℕ s.stack).run called (.next :: destructor ++ [.dropped, .next])).map fun (t, _) => (s, t)

/-- What is known of a cleanup that has been carried out. -/
theorem returns_of_cleanedUp {destructor : List (Move ℕ)} {s t : Thread ℕ}
    (cleaned : cleanedUp destructor = some (s, t)) (back : t.stack = s.stack) :
    ∃ past obs, (threads ℕ).run (Thread.init ℕ) testEnd = some (s, past) ∧
      Returns s 2 [2] (.next :: destructor ++ [.dropped, .next]) t obs := by
  obtain ⟨⟨u, past⟩, reached, rest⟩ := Option.bind_eq_some_iff.mp cleaned
  obtain ⟨⟨called, first⟩, started, rest⟩ := Option.bind_eq_some_iff.mp rest
  obtain ⟨⟨v, obs⟩, ran, same⟩ := Option.map_eq_some_iff.mp rest
  cases same
  obtain ⟨-, same⟩ := Option.ite_none_right_eq_some.mp started
  cases same
  exact ⟨past, obs, reached, _, started, ran, back⟩

/-- The destructor spawns a task, wakes the regression and cancels the new task. -/
def tidy : List (Move ℕ) := [.spawnNamed none, .wake (.task 1), .cancel 3, .dropped]

theorem cleanup_complete_tidy :
    ∃ s t obs, Returns s 2 [2] (.next :: tidy ++ [.dropped, .next]) t obs ∧
      Complete s 2 (.next :: tidy ++ [.dropped, .next]) t obs := by
  have seen : (cleanedUp tidy).map
      (fun last => (last.2.stack, last.1.stack, last.1.inner.currentlyPolling, last.1.inner.nextId)) =
        some ([.polling 1, .draining], [.polling 1, .draining], some 1, 3) := by decide
  obtain ⟨⟨s, t⟩, cleaned, same⟩ := Option.map_eq_some_iff.mp seen
  obtain ⟨back, here, polled, fresh⟩ : t.stack = [.polling 1, .draining] ∧ s.stack = [.polling 1, .draining] ∧
      s.inner.currentlyPolling = some 1 ∧ s.inner.nextId = 3 := by simpa using same
  obtain ⟨past, obs, reached, returns⟩ := returns_of_cleanedUp cleaned (back.trans here.symm)
  refine ⟨s, t, obs, returns, (cleanup_complete_iff reached ?_ returns).mpr ?_⟩
  · intro id polling
    rw [polled] at polling
    cases polling
    decide
  · rw [fresh]
    simp [Settled, tidy]

/-- The destructor spawns a task, which is still there after the cleanup. -/
theorem cleanup_leaves_newborn :
    ∃ s t past obs, (threads ℕ).run (Thread.init ℕ) testEnd = some (s, past) ∧ s.inner.currentlyPolling = some 1 ∧
      Returns s 2 [2] (.next :: [.spawnNamed none] ++ [.dropped, .next]) t obs ∧
      ¬ Complete s 2 (.next :: [.spawnNamed none] ++ [.dropped, .next]) t obs := by
  have seen : (cleanedUp [.spawnNamed none]).map
      (fun last => (last.2.stack, last.1.stack, last.1.inner.currentlyPolling, (last.2.inner.tasks 3).isSome)) =
        some ([.polling 1, .draining], [.polling 1, .draining], some 1, true) := by decide
  obtain ⟨⟨s, t⟩, cleaned, same⟩ := Option.map_eq_some_iff.mp seen
  obtain ⟨back, here, polled, live⟩ : t.stack = [.polling 1, .draining] ∧ s.stack = [.polling 1, .draining] ∧
      s.inner.currentlyPolling = some 1 ∧ (t.inner.tasks 3).isSome = true := by simpa using same
  obtain ⟨past, obs, reached, returns⟩ := returns_of_cleanedUp cleaned (back.trans here.symm)
  refine ⟨s, t, past, obs, reached, polled, returns, fun complete => ?_⟩
  rw [complete.none_left 3 (by decide)] at live
  cases live

end Rustdv.Executor
