import Mathlib.Data.List.Nodup
import Mathlib.Data.Multiset.Defs
import Rustdv.Machine.WaitList
import Rustdv.Model.ObjectionWaits

/-! # The books of the objection registry

The count is the number of live guards, the descriptions are theirs, and the drained event is set just
when an objection was raised and none is left. A pending future is booked in the event until it is woken,
and the last drop wakes everyone who is booked.
-/

namespace Rustdv.Objection

/-- An objection was raised some time. -/
def RaisedIn (obs : List WaitObs) : Prop :=
  ∃ guard description drained, .objection (.raised guard description drained) ∈ obs

/-- A poll was pending, and its waker has not been woken since. -/
def Pends (fut : ℕ) (waker : Waker) (obs : List WaitObs) : Prop :=
  Owed (.pended fut waker) (.objection (.woke waker)) obs

/-! ## The registry alone -/

/-- The guards that are alive are what is counted. -/
structure ObjectionRegistry.Counted (reg : ObjectionRegistry) : Prop where
  count : reg.count = reg.guards.length
  active : reg.active.Perm (reg.guards.map Prod.snd)
  ids : (reg.guards.map Prod.fst).Nodup
  below : ∀ g ∈ reg.guards, g.1 < reg.fresh
  drained : reg.drained.isSet = (reg.raisedEver && decide (reg.count = 0))
  idle : reg.drained.isSet = true → reg.drained.waiters = []
  raised : reg.guards ≠ [] → reg.raisedEver = true

/-- The registry with one more waker booked. -/
def ObjectionRegistry.book (reg : ObjectionRegistry) (waker : Waker) : ObjectionRegistry :=
  { reg with drained := { reg.drained with waiters := reg.drained.waiters ++ [waker] } }

namespace ObjectionRegistry.Counted

variable {reg : ObjectionRegistry}

theorem new : Objection.new.Counted where
  count := rfl
  active := .nil
  ids := .nil
  below := fun _ live => absurd live List.not_mem_nil
  drained := rfl
  idle := fun _ => rfl
  raised := fun live => absurd rfl live

theorem raise (counted : reg.Counted) (description : String) : (raise reg description).Counted where
  count := by simp only [Objection.raise, counted.count, List.length_append, List.length_singleton]
  active := by
    simp only [Objection.raise, List.map_append, List.map_singleton]
    exact counted.active.append_right [description]
  ids := by
    simp only [Objection.raise, List.map_append, List.map_singleton]
    refine List.nodup_append.mpr ⟨counted.ids, List.nodup_singleton _, ?_⟩
    rintro id live _ new rfl
    obtain ⟨g, member, rfl⟩ := List.mem_map.mp live
    exact absurd (List.mem_singleton.mp new) (Nat.ne_of_lt (counted.below g member))
  below g live := by
    rcases List.mem_append.mp live with earlier | now
    · exact Nat.lt_succ_of_lt (counted.below g earlier)
    · rw [List.mem_singleton.mp now]
      exact Nat.lt_succ_self _
  drained := by simp [Objection.raise, Event.clear]
  idle set := by simp [Objection.raise, Event.clear] at set
  raised _ := rfl

/-- A guard that is found is dropped, and no other. -/
theorem dropGuard (counted : reg.Counted) {guard : GuardRef} {description : String}
    (live : (guard, description) ∈ reg.guards) : (dropGuard reg guard description).1.Counted := by
  have ever : reg.raisedEver = true := counted.raised (List.ne_nil_of_mem live)
  have count : reg.count - 1 = (reg.guards.erase (guard, description)).length := by
    rw [List.length_erase_of_mem live, counted.count]
  have active : (reg.active.erase description).Perm ((reg.guards.erase (guard, description)).map Prod.snd) := by
    have whole := counted.active.trans ((List.perm_cons_erase live).map Prod.snd)
    rw [List.map_cons] at whole
    have less := whole.erase description
    rwa [List.erase_cons_head] at less
  have ids : ((reg.guards.erase (guard, description)).map Prod.fst).Nodup :=
    counted.ids.sublist (List.erase_sublist.map Prod.fst)
  have below : ∀ g ∈ reg.guards.erase (guard, description), g.1 < reg.fresh :=
    fun g member => counted.below g (List.mem_of_mem_erase member)
  simp only [Objection.dropGuard]
  split_ifs with emptied
  · exact ⟨count, active, ids, below, by simp [ever, emptied], fun _ => rfl, fun _ => ever⟩
  · refine ⟨count, active, ids, below, ?_, ?_, fun _ => ever⟩
    · -- There was more than one guard, so the event was clear.
      have several : reg.count ≠ 0 := by omega
      rw [counted.drained, decide_eq_false several, decide_eq_false emptied]
    · exact counted.idle

/-- A waker is only booked while the event is clear. -/
theorem book (counted : reg.Counted) (clear : reg.drained.isSet = false) (waker : Waker) : (reg.book waker).Counted where
  count := counted.count
  active := counted.active
  ids := counted.ids
  below := counted.below
  drained := counted.drained
  idle set := absurd (clear.symm.trans set) Bool.false_ne_true
  raised := counted.raised

theorem perform (counted : reg.Counted) (op : Op) : (perform reg op).1.Counted := by
  cases op with
  | raise description => exact counted.raise description
  | drop guard =>
    rw [Objection.perform]
    split
    · next g description found =>
      obtain rfl : g = guard := by simpa using List.find?_some found
      exact counted.dropGuard (List.mem_of_find?_eq_some found)
    · exact counted

end ObjectionRegistry.Counted

/-! ## One operation -/

/-- What an operation does: it raises, drops a live guard, or finds nothing to drop. -/
theorem perform_cases (reg : ObjectionRegistry) (op : Op) :
    (∃ description, op = .raise description ∧
      perform reg op = (raise reg description, [.raised reg.fresh description reg.drained.isSet])) ∨
    (∃ guard description, op = .drop guard ∧ (guard, description) ∈ reg.guards ∧
      perform reg op = ((dropGuard reg guard description).1,
        .lowered guard ((dropGuard reg guard description).1.count = 0) ::
          (dropGuard reg guard description).2.map .woke)) ∨
    ∃ guard, op = .drop guard ∧ perform reg op = (reg, []) := by
  cases op with
  | raise description => exact .inl ⟨description, rfl, rfl⟩
  | drop guard =>
    right
    rw [perform]
    split
    · next g description found =>
      obtain rfl : g = guard := by simpa using List.find?_some found
      exact .inl ⟨g, description, rfl, List.mem_of_find?_eq_some found, rfl⟩
    · exact .inr ⟨guard, rfl, rfl⟩

/-- Whoever is booked stays so or is woken. -/
theorem perform_wakes {reg : ObjectionRegistry} (op : Op) {waker : Waker} (booked : waker ∈ reg.drained.waiters) :
    waker ∈ (perform reg op).1.drained.waiters ∨ .woke waker ∈ (perform reg op).2 := by
  rcases perform_cases reg op with ⟨description, rfl, same⟩ | ⟨guard, description, rfl, live, same⟩ | ⟨guard, rfl, same⟩
  · rw [same]
    exact .inl booked
  · rw [same, dropGuard]
    split_ifs
    · exact .inr (List.mem_cons_of_mem _ (List.mem_map.mpr ⟨waker, booked, rfl⟩))
    · exact .inl booked
  · rw [same]
    exact .inl booked

theorem waitDrained_cases (reg : ObjectionRegistry) (waker : Waker) :
    (reg.drained.isSet = true ∧ waitDrained reg waker = (.ready (), reg)) ∨
      (reg.drained.isSet = false ∧ waitDrained reg waker = (.pending, reg.book waker)) := by
  cases set : reg.drained.isSet with
  | true => exact .inl ⟨rfl, by rw [waitDrained, Event.wait_of_isSet set]⟩
  | false =>
    refine .inr ⟨rfl, ?_⟩
    rw [waitDrained, Event.wait_of_not_isSet set]
    rfl

/-- A poll completes with the event set, or at once in `wait_all_dropped`; else it books the waker. -/
theorem poll_cases {fut : WaitFut} {reg next : ObjectionRegistry} {waker : Waker} {poll : Poll Unit}
    {warnings : List String} (polled : fut.poll reg waker = some (poll, next, warnings)) :
    (poll = .ready () ∧ next = reg ∧ (fut.kind = .drainedEvent → reg.drained.isSet = true)) ∨
      (poll = .pending ∧ warnings = [] ∧ reg.drained.isSet = false ∧ next = reg.book waker) := by
  obtain ⟨kind, stage⟩ := fut
  -- The wait for the event is the last part of both futures.
  have waited (event : some ((waitDrained reg waker).1, (waitDrained reg waker).2, []) = some (poll, next, warnings)) :
      (poll = .ready () ∧ next = reg ∧ (kind = .drainedEvent → reg.drained.isSet = true)) ∨
        (poll = .pending ∧ warnings = [] ∧ reg.drained.isSet = false ∧ next = reg.book waker) := by
    rcases waitDrained_cases reg waker with ⟨set, same⟩ | ⟨clear, same⟩
    · rw [same] at event
      cases event
      exact .inl ⟨rfl, rfl, fun _ => set⟩
    · rw [same] at event
      cases event
      exact .inr ⟨rfl, rfl, clear, rfl⟩
  cases stage with
  | complete => cases kind <;> cases polled
  | cancelled => cases kind <;> cases polled
  | waiting => cases kind <;> exact waited polled
  | unpolled =>
    cases kind with
    | drainedEvent => exact waited polled
    | allDropped =>
      simp only [WaitFut.poll, pollAllDropped] at polled
      split_ifs at polled
      · cases polled
        exact .inl ⟨rfl, rfl, fun other => nomatch other⟩
      · cases polled
        exact .inl ⟨rfl, rfl, fun other => nomatch other⟩
      · exact waited polled

/-! ## Whole runs -/

/-- The guards that were raised and not dropped, by what was seen. -/
structure Live (reg : ObjectionRegistry) (obs : List WaitObs) : Prop where
  iff : ∀ guard description, (guard, description) ∈ reg.guards ↔
    (∃ drained, .objection (.raised guard description drained) ∈ obs) ∧
      ∀ drained, .objection (.lowered guard drained) ∉ obs
  raised_below : ∀ guard description drained, .objection (.raised guard description drained) ∈ obs → guard < reg.fresh
  lowered_below : ∀ guard drained, .objection (.lowered guard drained) ∈ obs → guard < reg.fresh

/-- What holds at every point of a run. -/
structure Books (s : Waits) (obs : List WaitObs) : Prop where
  counted : s.reg.Counted
  live : Live s.reg obs
  ever : s.reg.raisedEver = true ↔ RaisedIn obs
  booked : ∀ fut, Booked (WaitObs.pended fut) (fun waker => .objection (.woke waker)) s.reg.drained.waiters obs
  waiting : ∀ i fut, s.futs[i]? = some fut → fut.stage = .waiting → ∃ waker, .pended i waker ∈ obs

theorem raisedIn_append {obs out : List WaitObs} : RaisedIn (obs ++ out) ↔ RaisedIn obs ∨ RaisedIn out := by
  simp only [RaisedIn, List.mem_append, exists_or]

/-- An observation that neither raises nor drops. -/
def Calm (out : List WaitObs) : Prop :=
  (∀ guard description drained, .objection (.raised guard description drained) ∉ out) ∧
    ∀ guard drained, .objection (.lowered guard drained) ∉ out

theorem Calm.not_raisedIn {out : List WaitObs} (calm : Calm out) : ¬ RaisedIn out :=
  fun ⟨guard, description, drained, member⟩ => calm.1 guard description drained member

theorem Live.calm {reg next : ObjectionRegistry} {obs out : List WaitObs} (live : Live reg obs) (calm : Calm out)
    (guards : next.guards = reg.guards) (fresh : next.fresh = reg.fresh) : Live next (obs ++ out) where
  iff guard description := by
    simp only [guards, live.iff, List.mem_append, calm.1, calm.2, or_false]
  raised_below guard description drained member := by
    rw [fresh]
    exact live.raised_below _ _ _ ((List.mem_append.mp member).resolve_right (calm.1 _ _ _))
  lowered_below guard drained member := by
    rw [fresh]
    exact live.lowered_below _ _ ((List.mem_append.mp member).resolve_right (calm.2 _ _))

theorem Live.raise {reg : ObjectionRegistry} {obs : List WaitObs} (live : Live reg obs) (description : String)
    (drained : Bool) :
    Live (raise reg description) (obs ++ [.objection (.raised reg.fresh description drained)]) where
  iff guard text := by
    have never : ∀ drained, .objection (.lowered reg.fresh drained) ∉ obs :=
      fun drained member => Nat.lt_irrefl _ (live.lowered_below _ _ member)
    simp only [Objection.raise, List.mem_append, List.mem_singleton, live.iff, Prod.mk.injEq, WaitObs.objection.injEq,
      Obs.raised.injEq, reduceCtorEq, or_false]
    constructor
    · rintro (⟨⟨flag, member⟩, kept⟩ | ⟨rfl, rfl⟩)
      · exact ⟨⟨flag, .inl member⟩, kept⟩
      · exact ⟨⟨drained, .inr ⟨rfl, rfl, rfl⟩⟩, never⟩
    · rintro ⟨⟨flag, member | ⟨rfl, rfl, rfl⟩⟩, kept⟩
      · exact .inl ⟨⟨flag, member⟩, kept⟩
      · exact .inr ⟨rfl, rfl⟩
  raised_below guard text flag member := by
    rcases List.mem_append.mp member with earlier | now
    · exact Nat.lt_succ_of_lt (live.raised_below _ _ _ earlier)
    · cases List.mem_singleton.mp now
      exact Nat.lt_succ_self _
  lowered_below guard flag member := by
    rcases List.mem_append.mp member with earlier | now
    · exact Nat.lt_succ_of_lt (live.lowered_below _ _ earlier)
    · cases List.mem_singleton.mp now

/-- What a drop shows: the guard, and who is woken. -/
theorem mem_dropped {guard : GuardRef} {flag : Bool} {woken : List Waker} {o : Obs} :
    WaitObs.objection o ∈ (Obs.lowered guard flag :: woken.map .woke).map .objection ↔
      o = .lowered guard flag ∨ ∃ waker ∈ woken, o = .woke waker := by
  rw [List.map_cons, List.mem_cons, WaitObs.objection.injEq]
  refine or_congr_right ⟨fun member => ?_, ?_⟩
  · obtain ⟨_, woke, same⟩ := List.mem_map.mp member
    obtain ⟨waker, booked, rfl⟩ := List.mem_map.mp woke
    exact ⟨waker, booked, (WaitObs.objection.inj same).symm⟩
  · rintro ⟨waker, booked, rfl⟩
    exact List.mem_map.mpr ⟨_, List.mem_map.mpr ⟨waker, booked, rfl⟩, rfl⟩

theorem Live.drop {reg : ObjectionRegistry} {obs : List WaitObs} (counted : reg.Counted) (live : Live reg obs)
    {guard : GuardRef} {description : String} (alive : (guard, description) ∈ reg.guards) {next : ObjectionRegistry}
    (guards : next.guards = reg.guards.erase (guard, description)) (fresh : next.fresh = reg.fresh) (flag : Bool)
    (woken : List Waker) :
    Live next (obs ++ (Obs.lowered guard flag :: woken.map .woke).map .objection) where
  iff g text := by
    have rest : (g, text) ∈ next.guards ↔ (g, text) ∈ reg.guards ∧ g ≠ guard := by
      rw [guards, counted.ids.of_map.mem_erase_iff, and_comm, and_congr_right_iff]
      intro member
      refine not_congr ⟨fun same => congrArg Prod.fst same, fun same => ?_⟩
      exact List.inj_on_of_nodup_map counted.ids member alive same
    rw [rest, live.iff]
    simp only [List.mem_append, mem_dropped, reduceCtorEq, and_false, exists_false, or_false, Obs.lowered.injEq,
      not_or, forall_and, and_assoc]
    refine and_congr_right fun _ => and_congr_right fun _ => ?_
    exact ⟨fun other flag' both => other both.1, fun never same => never flag ⟨same, rfl⟩⟩
  raised_below g text seen member := by
    rw [fresh]
    refine live.raised_below g text seen ((List.mem_append.mp member).resolve_right fun now => ?_)
    rcases mem_dropped.mp now with same | ⟨_, _, same⟩ <;> cases same
  lowered_below g seen member := by
    rw [fresh]
    rcases List.mem_append.mp member with earlier | now
    · exact live.lowered_below g seen earlier
    · rcases mem_dropped.mp now with same | ⟨_, _, same⟩
      · cases same
        exact counted.below _ alive
      · cases same

theorem guards_dropGuard (reg : ObjectionRegistry) (guard : GuardRef) (description : String) :
    (dropGuard reg guard description).1.guards = reg.guards.erase (guard, description) ∧
      (dropGuard reg guard description).1.fresh = reg.fresh ∧
      (dropGuard reg guard description).1.raisedEver = reg.raisedEver := by
  rw [dropGuard]
  split_ifs <;> exact ⟨rfl, rfl, rfl⟩

/-- An operation keeps the books. -/
theorem Books.op {s : Waits} {obs : List WaitObs} (books : Books s obs) (op : Op) :
    Books { s with reg := (perform s.reg op).1 } (obs ++ (perform s.reg op).2.map .objection) where
  counted := books.counted.perform op
  live := by
    rcases perform_cases s.reg op with ⟨description, -, same⟩ | ⟨guard, description, -, alive, same⟩ | ⟨guard, -, same⟩
    · rw [same]
      exact books.live.raise description _
    · rw [same]
      exact books.live.drop books.counted alive (guards_dropGuard ..).1 (guards_dropGuard ..).2.1 _ _
    · rw [same]
      exact books.live.calm ⟨fun _ _ _ => List.not_mem_nil, fun _ _ => List.not_mem_nil⟩ rfl rfl
  ever := by
    rw [raisedIn_append]
    rcases perform_cases s.reg op with ⟨description, -, same⟩ | ⟨guard, description, -, alive, same⟩ | ⟨guard, -, same⟩
    · rw [same]
      exact iff_of_true rfl (.inr ⟨_, _, _, List.mem_singleton.mpr rfl⟩)
    · rw [same]
      simp only
      rw [(guards_dropGuard ..).2.2, books.ever, or_iff_left]
      rintro ⟨g, text, flag, member⟩
      rcases mem_dropped.mp member with same | ⟨_, _, same⟩ <;> cases same
    · rw [same]
      simp only
      rw [books.ever, or_iff_left]
      rintro ⟨g, text, flag, member⟩
      exact List.not_mem_nil member
  booked fut := by
    refine (books.booked fut).step (fun waker member => ?_) fun waker now => ?_
    · rcases perform_wakes op member with stays | woken
      · exact .inl stays
      · exact .inr (List.mem_map.mpr ⟨_, woken, rfl⟩)
    · obtain ⟨o, -, same⟩ := List.mem_map.mp now
      cases same
  waiting i fut found stage := by
    obtain ⟨waker, member⟩ := books.waiting i fut found stage
    exact ⟨waker, List.mem_append_left _ member⟩

/-- What the step of a poll does. -/
theorem step_poll {s t : Waits} {out : List WaitObs} {i : ℕ} {waker : Waker}
    (stepped : s.step (.poll i waker) = some (t, out)) :
    ∃ fut poll next warnings, s.futs[i]? = some fut ∧ fut.poll s.reg waker = some (poll, next, warnings) ∧
      t = ⟨next, s.futs.set i ⟨fut.kind, .after poll⟩⟩ ∧ out = warnings.map .warned ++ [.polled i waker poll] := by
  obtain ⟨fut, found, moved⟩ := Option.bind_eq_some_iff.mp stepped
  obtain ⟨⟨poll, next, warnings⟩, polled, same⟩ := Option.map_eq_some_iff.mp moved
  cases same
  exact ⟨fut, poll, next, warnings, found, polled, rfl, rfl⟩

/-- No observation of a poll is about a guard. -/
theorem calm_polled (fut : ℕ) (waker : Waker) (poll : Poll Unit) (warnings : List String) :
    Calm (warnings.map .warned ++ [.polled fut waker poll]) := by
  have none (o : Obs) : .objection o ∉ warnings.map WaitObs.warned ++ [.polled fut waker poll] := by
    intro member
    rcases List.mem_append.mp member with warned | polled
    · obtain ⟨_, -, same⟩ := List.mem_map.mp warned
      cases same
    · cases poll <;> cases List.mem_singleton.mp polled
  exact ⟨fun _ _ _ => none _, fun _ _ => none _⟩

/-- A future that has left the wait is not waiting any more, the others are where they were. -/
theorem Books.waiting_set {s : Waits} {obs : List WaitObs} (books : Books s obs) {i : ℕ} {moved : WaitFut}
    (left : moved.stage ≠ .waiting) (j : ℕ) (fut : WaitFut) (found : (s.futs.set i moved)[j]? = some fut)
    (stage : fut.stage = .waiting) : ∃ waker, .pended j waker ∈ obs := by
  rw [List.getElem?_set] at found
  split_ifs at found with same inside
  · cases found
    exact absurd stage left
  · exact books.waiting j fut found stage

theorem Books.poll {s t : Waits} {obs out : List WaitObs} (books : Books s obs) {i : ℕ} {waker : Waker}
    (stepped : s.step (.poll i waker) = some (t, out)) : Books t (obs ++ out) := by
  obtain ⟨fut, poll, next, warnings, found, polled, rfl, rfl⟩ := step_poll stepped
  have calm := calm_polled i waker poll warnings
  have ever : s.reg.raisedEver = true ↔ RaisedIn (obs ++ (warnings.map .warned ++ [.polled i waker poll])) := by
    rw [raisedIn_append, or_iff_left calm.not_raisedIn]
    exact books.ever
  rcases poll_cases polled with ⟨rfl, rfl, -⟩ | ⟨rfl, rfl, clear, rfl⟩
  · refine ⟨books.counted, books.live.calm calm rfl rfl, ever, fun fut' => (books.booked fut').quiet fun waker' now => ?_,
      fun j fut' found' stage => ?_⟩
    · rcases List.mem_append.mp now with warned | completed
      · obtain ⟨_, -, same⟩ := List.mem_map.mp warned
        cases same
      · cases List.mem_singleton.mp completed
    · obtain ⟨waker', member⟩ := books.waiting_set (fun (other : Stage.complete = .waiting) => nomatch other) j fut' found' stage
      exact ⟨waker', List.mem_append_left _ member⟩
  · refine ⟨books.counted.book clear waker, books.live.calm calm rfl rfl, ever, fun fut' => ?_, fun j fut' found' stage => ?_⟩
    · refine (books.booked fut').register fun other now => ?_
      cases List.mem_singleton.mp now
      rfl
    · by_cases own : i = j
      · exact ⟨waker, List.mem_append_right _ (own ▸ List.mem_singleton.mpr rfl)⟩
      · rw [List.getElem?_set_ne own] at found'
        obtain ⟨waker', member⟩ := books.waiting j fut' found' stage
        exact ⟨waker', List.mem_append_left _ member⟩

theorem Books.step {s t : Waits} {obs out : List WaitObs} {a : Action} (books : Books s obs)
    (stepped : s.step a = some (t, out)) : Books t (obs ++ out) := by
  cases a with
  | op op =>
    cases stepped
    exact books.op op
  | poll i waker => exact books.poll stepped
  | wait kind =>
    cases stepped
    rw [List.append_nil]
    refine ⟨books.counted, books.live, books.ever, books.booked, fun j fut found stage => ?_⟩
    simp only [List.getElem?_append] at found
    split_ifs at found
    · exact books.waiting j fut found stage
    · cases List.mem_singleton.mp (List.mem_of_getElem? found)
      cases stage
  | cancel i =>
    obtain ⟨fut, -, same⟩ := Option.map_eq_some_iff.mp stepped
    cases same
    rw [List.append_nil]
    exact ⟨books.counted, books.live, books.ever, books.booked, books.waiting_set fun other => nomatch other⟩

theorem Books.init : Books .init [] where
  counted := .new
  live := ⟨fun _ _ => iff_of_false List.not_mem_nil fun ⟨⟨_, member⟩, _⟩ => List.not_mem_nil member,
    fun _ _ _ member => absurd member List.not_mem_nil, fun _ _ member => absurd member List.not_mem_nil⟩
  ever := iff_of_false Bool.false_ne_true fun ⟨_, _, _, member⟩ => List.not_mem_nil member
  booked _ := .nil
  waiting _ _ found := nomatch found

theorem books_of_run {actions : List Action} {s : Waits} {obs : List WaitObs}
    (ran : waits.run .init actions = some (s, obs)) : Books s obs :=
  waits.run_invariant_nil Books .init (fun books stepped => books.step stepped) ran

/-- Whoever is pending when an operation leaves no guard alive is woken by it. -/
theorem Books.woken {s : Waits} {obs : List WaitObs} (books : Books s obs) (op : Op)
    (lowered : (perform s.reg op).1.count = 0) (before : s.reg.count ≠ 0) {fut : ℕ} {waker : Waker}
    (pends : Pends fut waker obs) : .objection (.woke waker) ∈ (perform s.reg op).2.map WaitObs.objection := by
  have counted := books.counted.perform op
  have ever : (perform s.reg op).1.raisedEver = true := by
    have live : s.reg.guards ≠ [] := by
      intro none
      rw [books.counted.count, none] at before
      exact before rfl
    have was := books.counted.raised live
    rcases perform_cases s.reg op with ⟨description, -, same⟩ | ⟨guard, description, -, -, same⟩ | ⟨guard, -, same⟩
    · rw [same]
      rfl
    · rw [same]
      exact (guards_dropGuard ..).2.2.trans was
    · rw [same]
      exact was
  have set : (perform s.reg op).1.drained.isSet = true := by
    rw [counted.drained, ever, lowered]
    rfl
  rcases perform_wakes op (books.booked fut waker pends) with stays | woken
  · rw [counted.idle set] at stays
    exact absurd stays List.not_mem_nil
  · exact List.mem_map.mpr ⟨_, woken, rfl⟩

/-- In every run the count is that of the live guards, which were raised and not dropped, their
descriptions are the active ones, and the drained event is set just when an objection was raised and none
is left. A future of the drained event completes only at a poll where this holds; and an operation after
which none is left wakes whoever is pending. -/
theorem objections_on_the_books {actions : List Action} {s : Waits} {obs : List WaitObs}
    (ran : waits.run .init actions = some (s, obs)) :
    s.reg.count = s.reg.guards.length ∧ (s.reg.guards.map Prod.fst).Nodup ∧
    (∀ guard description, (guard, description) ∈ s.reg.guards ↔
      (∃ drained, .objection (.raised guard description drained) ∈ obs) ∧
        ∀ drained, .objection (.lowered guard drained) ∉ obs) ∧
    (s.reg.active : Multiset String) = s.reg.guards.map Prod.snd ∧
    (s.reg.drained.isSet = true ↔ RaisedIn obs ∧ s.reg.count = 0) ∧
    (∀ i waker stage t out, s.futs[i]? = some ⟨.drainedEvent, stage⟩ → s.step (.poll i waker) = some (t, out) →
      .completed i ∈ out → RaisedIn obs ∧ s.reg.count = 0) ∧
    (∀ i fut, s.futs[i]? = some fut → fut.stage = .waiting → ∃ waker, .pended i waker ∈ obs) ∧
    (∀ op t out, s.step (.op op) = some (t, out) → s.reg.count ≠ 0 → t.reg.count = 0 →
      ∀ i waker, Pends i waker obs → .objection (.woke waker) ∈ out) ∧
    (RaisedIn obs ∧ s.reg.count = 0 → ∀ i waker, ¬ Pends i waker obs) := by
  have books := books_of_run ran
  have set_iff : s.reg.drained.isSet = true ↔ RaisedIn obs ∧ s.reg.count = 0 := by
    rw [books.counted.drained, Bool.and_eq_true, decide_eq_true_iff, books.ever]
  refine ⟨books.counted.count, books.counted.ids, books.live.iff, Multiset.coe_eq_coe.mpr books.counted.active, set_iff,
    ?_, books.waiting, ?_, ?_⟩
  · intro i waker stage t out found stepped completed
    obtain ⟨fut, poll, next, warnings, found', polled, rfl, rfl⟩ := step_poll stepped
    cases found.symm.trans found'
    rcases poll_cases polled with ⟨-, -, set⟩ | ⟨rfl, rfl, -, -⟩
    · exact set_iff.mp (set rfl)
    · cases List.mem_singleton.mp completed
  · rintro op t out ⟨⟩ before lowered i waker pends
    exact books.woken op lowered before pends
  · intro consensus i waker pends
    have member := books.booked i waker pends
    rw [books.counted.idle (set_iff.mpr consensus)] at member
    exact List.not_mem_nil member

/-- Two objections of one description, a future that is polled, and both guards dropped, the first one
last. -/
def twoDrops : List Action :=
  [.op (.raise "work"), .wait .drainedEvent, .op (.raise "work"), .poll 0 (.task 1), .op (.drop 1)]

/-- One guard is left, and dropping it wakes the task that waits. -/
theorem objections_on_the_books_twoDrops : ∃ s obs, waits.run .init twoDrops = some (s, obs) ∧
    s.reg.guards = [(0, "work")] ∧ s.reg.count = 1 ∧
    ∀ t out, s.step (.op (.drop 0)) = some (t, out) → .objection (.woke (.task 1)) ∈ out := by
  obtain ⟨s, obs, ran, guards, last, pends⟩ : ∃ s obs, waits.run .init twoDrops = some (s, obs) ∧
      s.reg.guards = [(0, "work")] ∧ (∀ t out, s.step (.op (.drop 0)) = some (t, out) → t.reg.count = 0) ∧
        Pends 0 (.task 1) obs := by
    refine ⟨_, _, rfl, rfl, ?_, [_, _], [_], rfl, by decide⟩
    intro t out stepped
    cases stepped
    decide
  have books := objections_on_the_books ran
  have count : s.reg.count = 1 := by rw [books.1, guards]; rfl
  refine ⟨s, obs, ran, guards, count, fun t out stepped => ?_⟩
  exact books.2.2.2.2.2.2.2.1 _ t out stepped (count ▸ Nat.one_ne_zero) (last t out stepped) 0 (.task 1) pends

end Rustdv.Objection
