import Rustdv.Machine.WaitList
import Rustdv.Model.Responses
import Rustdv.Soundness.SequencerRefinement

/-! # Responses are routed once, in order, and nobody sleeps over one

All that happens to the responses is that one is pushed, one is removed by a request that admits
it, or a request that admits none of them leaves its waker. A push wakes every waiting request, so
a request whose waker has not been woken since it was left has not missed a push.
-/

namespace Rustdv.Sequencer

variable {ι Req Rsp : Type*}

/-- Whether the request may take the entry. -/
def Request.admits : Request → TxnId × Rsp → Bool
  | none, _ => true
  | some id, entry => entry.1 = id

namespace ResponseQueue

variable {responses rest : ResponseQueue Rsp} {request : Request} {entry : TxnId × Rsp}

theorem select_eq (responses : ResponseQueue Rsp) (request : Request) :
    responses.select request = responses.items.findIdx? request.admits := by
  cases request with
  | none => cases items : responses.items <;> simp [select, items, Request.admits, List.findIdx?_cons]
  | some id => rfl

/-- A request takes the oldest entry it admits. -/
theorem tryGetResponse_eq_some (taken : responses.tryGetResponse request = some (entry, rest)) :
    ∃ front back, responses.items = front ++ entry :: back ∧ rest = { responses with items := front ++ back } ∧
      request.admits entry = true ∧ ∀ older ∈ front, request.admits older = false := by
  obtain ⟨index, selected, mapped⟩ := Option.bind_eq_some_iff.mp taken
  obtain ⟨found, present, same⟩ := Option.map_eq_some_iff.mp mapped
  cases same
  rw [select_eq, List.findIdx?_eq_some_iff_getElem] at selected
  obtain ⟨bound, admits, first⟩ := selected
  obtain rfl : responses.items[index] = entry := by simpa [bound] using present
  refine ⟨responses.items.take index, responses.items.drop (index + 1), ?_, ?_, admits, ?_⟩
  · rw [List.getElem_cons_drop, List.take_append_drop]
  · rw [List.eraseIdx_eq_take_drop_succ]
  · intro older member
    obtain ⟨position, early, rfl⟩ := List.mem_take_iff_getElem.mp member
    simpa using first position (by omega)

/-- A request waits only if it admits nothing that is queued. -/
theorem tryGetResponse_eq_none (missing : responses.tryGetResponse request = none) :
    ∀ entry ∈ responses.items, request.admits entry = false := by
  simp only [tryGetResponse, Option.bind_eq_none_iff, Option.map_eq_none_iff] at missing
  rw [← List.findIdx?_eq_none_iff, ← select_eq]
  by_contra selected
  obtain ⟨index, selected⟩ := Option.ne_none_iff_exists'.mp selected
  have absent := missing index selected
  rw [select_eq, List.findIdx?_eq_some_iff_getElem] at selected
  obtain ⟨bound, -⟩ := selected
  simp [bound] at absent

end ResponseQueue

/-! ## What the sequencer's own steps do to the responses -/

section Frame

variable [DecidableEq ι] (s : System ι Req Rsp)

omit [DecidableEq ι] in
/-- `item_done` pushes at most the response it is given. -/
theorem itemDone_responses (rsp : Option Rsp) :
    (pushes s (.itemDone rsp) = [] ∧ (itemDone s rsp).1.inner.responses = s.inner.responses) ∨
      ∃ id r, pushes s (.itemDone rsp) = [(id, r)] ∧
        (itemDone s rsp).1.inner.responses = (s.inner.responses.push id r).1 ∧
        ∀ waker ∈ s.inner.responses.waiters, .woke waker ∈ (itemDone s rsp).2 := by
  cases current : s.inner.current with
  | none => exact .inl ⟨by cases rsp <;> simp [pushes, current], by simp only [itemDone, current]⟩
  | some slot =>
    cases rsp with
    | none => exact .inl ⟨rfl, by simp only [itemDone, current, System.setInner]⟩
    | some r =>
      refine .inr ⟨(s.heap slot).id, r, by simp [pushes, current], ?_, ?_⟩
      · simp only [itemDone, current, System.setInner]
      · intro waker member
        simp only [itemDone, current]
        exact List.mem_append_left _ (List.mem_map_of_mem member)

/-- A step pushes one response and wakes everyone who waits for one, or leaves the responses alone. -/
theorem step_responses {t : System ι Req Rsp} {a : Action ι Req Rsp} {out : List (Obs ι Req)}
    (stepped : step s a = some (t, out)) :
    (pushes s a = [] ∧ t.inner.responses = s.inner.responses) ∨
      ∃ id r, pushes s a = [(id, r)] ∧ t.inner.responses = (s.inner.responses.push id r).1 ∧
        ∀ waker ∈ s.inner.responses.waiters, .woke waker ∈ out := by
  cases a with
  | itemDone rsp =>
    have done := itemDone_responses s rsp
    rwa [Option.some.inj stepped] at done
  | putResponse id rsp =>
    cases stepped
    exact .inr ⟨id, rsp, rfl, rfl, fun waker member => List.mem_map_of_mem member⟩
  | _ => exact .inl ⟨rfl, (step_framed s (by simp) (by simp) stepped).responses⟩

end Frame

namespace Router

/-- The pushed responses with their tickets, in order. -/
def pushed (obs : List (RouterObs ι Req Rsp)) : List (TxnId × Rsp) :=
  obs.filterMap fun
    | .pushed entry => some entry
    | _ => none

/-- The returned responses with the tickets they were pushed under, in order. -/
def answered (obs : List (RouterObs ι Req Rsp)) : List (TxnId × Rsp) :=
  obs.filterMap fun
    | .answered _ entry => some entry
    | _ => none

section Observations

variable (obs out : List (RouterObs ι Req Rsp))

@[simp] theorem pushed_append : pushed (obs ++ out) = pushed obs ++ pushed out := List.filterMap_append

@[simp] theorem answered_append : answered (obs ++ out) = answered obs ++ answered out := List.filterMap_append

@[simp] theorem pushed_pushed (entries : List (TxnId × Rsp)) :
    pushed (entries.map RouterObs.pushed : List (RouterObs ι Req Rsp)) = entries := by
  simp [pushed, List.filterMap_map]

@[simp] theorem answered_pushed (entries : List (TxnId × Rsp)) :
    answered (entries.map RouterObs.pushed : List (RouterObs ι Req Rsp)) = [] := by
  simp [answered]

@[simp] theorem pushed_seqr (inner : List (Obs ι Req)) :
    pushed (inner.map RouterObs.seqr : List (RouterObs ι Req Rsp)) = [] := by
  simp [pushed]

@[simp] theorem answered_seqr (inner : List (Obs ι Req)) :
    answered (inner.map RouterObs.seqr : List (RouterObs ι Req Rsp)) = [] := by
  simp [answered]

end Observations

/-- Everything a step can do to the responses, with what it shows of them. -/
inductive Effect (responses : ResponseQueue Rsp) :
    ResponseQueue Rsp → List (RouterObs ι Req Rsp) → Prop where
  | idle (out : List (RouterObs ι Req Rsp)) (push : pushed out = []) (answer : answered out = [])
      (quiet : ∀ ref request waker, .registered ref request waker ∉ out) : Effect responses responses out
  | push (id : TxnId) (rsp : Rsp) (out : List (RouterObs ι Req Rsp)) (push : pushed out = [(id, rsp)])
      (answer : answered out = []) (quiet : ∀ ref request waker, .registered ref request waker ∉ out)
      (wakes : ∀ waker ∈ responses.waiters, .seqr (.woke waker) ∈ out) :
      Effect responses (responses.push id rsp).1 out
  | answer (request : Request) (entry : TxnId × Rsp) (front back : List (TxnId × Rsp))
      (queued : responses.items = front ++ entry :: back) (admits : request.admits entry = true)
      (oldest : ∀ older ∈ front, request.admits older = false) :
      Effect responses { responses with items := front ++ back } [.answered request entry]
  | register (ref : GetRef) (request : Request) (waker : Waker)
      (missing : ∀ entry ∈ responses.items, request.admits entry = false) :
      Effect responses { responses with waiters := responses.waiters ++ [waker] }
        [.registered ref request waker]

section Step

variable [DecidableEq ι] {s t : Router ι Req Rsp} {a : RouterAction ι Req Rsp}
variable {out : List (RouterObs ι Req Rsp)}

omit [DecidableEq ι] in
theorem effect_poll (s : Router ι Req Rsp) (ref : GetRef) (get : GetResponse ι) (waker : Waker) :
    Effect s.system.inner.responses (s.poll ref get waker).1.system.inner.responses (s.poll ref get waker).2 := by
  unfold Router.poll
  split_ifs
  · unfold ResponseQueue.pollResponse
    cases taken : s.system.inner.responses.tryGetResponse get.request with
    | some result =>
      obtain ⟨entry, rest⟩ := result
      obtain ⟨front, back, queued, rfl, admits, oldest⟩ := ResponseQueue.tryGetResponse_eq_some taken
      exact .answer get.request entry front back queued admits oldest
    | none => exact .register ref get.request waker (ResponseQueue.tryGetResponse_eq_none taken)
  · exact .idle _ rfl rfl (by simp)

omit [DecidableEq ι] in
theorem effect_tryGetResponse (s : Router ι Req Rsp) (seq : ι) (request : Request) :
    Effect s.system.inner.responses (s.tryGetResponse seq request).1.system.inner.responses
      (s.tryGetResponse seq request).2 := by
  unfold Router.tryGetResponse
  split_ifs
  · cases taken : s.system.inner.responses.tryGetResponse request with
    | some result =>
      obtain ⟨entry, rest⟩ := result
      obtain ⟨front, back, queued, rfl, admits, oldest⟩ := ResponseQueue.tryGetResponse_eq_some taken
      exact .answer request entry front back queued admits oldest
    | none => exact .idle _ rfl rfl (by simp)
  · exact .idle _ rfl rfl (by simp)

theorem effect_of_step (stepped : s.step a = some (t, out)) :
    Effect s.system.inner.responses t.system.inner.responses out := by
  cases a with
  | seqr action =>
    obtain ⟨⟨next, shown⟩, moved, same⟩ := Option.map_eq_some_iff.mp stepped
    cases same
    rcases step_responses s.system moved with ⟨none, frame⟩ | ⟨id, rsp, one, frame, wakes⟩
    · change Effect _ next.inner.responses _
      rw [frame]
      refine .idle _ ?_ (by simp only [answered_append, answered_pushed, answered_seqr, List.nil_append]) (by simp)
      simp only [pushed_append, pushed_pushed, pushed_seqr, none, List.nil_append]
    · change Effect _ next.inner.responses _
      rw [frame]
      refine .push id rsp _ ?_ (by simp only [answered_append, answered_pushed, answered_seqr, List.nil_append])
        (by simp) fun waker member => ?_
      · simp only [pushed_append, pushed_pushed, pushed_seqr, one, List.append_nil]
      · exact List.mem_append_right _ (List.mem_map_of_mem (wakes waker member))
  | getResponse seq request =>
    cases stepped
    exact .idle _ rfl rfl (by simp)
  | poll ref waker =>
    obtain ⟨get, -, polled⟩ := Option.map_eq_some_iff.mp stepped
    have effect := effect_poll s ref get waker
    rwa [polled] at effect
  | drop ref =>
    obtain ⟨-, same⟩ := Option.ite_none_right_eq_some.mp stepped
    cases same
    exact .idle _ rfl rfl (by simp)
  | tryGetResponse seq request =>
    have effect := effect_tryGetResponse s seq request
    rwa [Option.some.inj stepped] at effect

end Step

/-- The books of the responses. -/
structure Routed (responses : ResponseQueue Rsp) (obs : List (RouterObs ι Req Rsp)) : Prop where
  /-- Every pushed response was returned once or is queued, and nothing else was or is. -/
  ledger : (pushed obs).Perm (answered obs ++ responses.items)
  /-- The queue is in arrival order. -/
  arrival : responses.items.Sublist (pushed obs)
  admitted : ∀ request entry, .answered request entry ∈ obs → request.admits entry = true
  booked : ∀ ref request,
    Booked (fun waker => .registered ref request waker) (fun waker => .seqr (.woke waker)) responses.waiters obs
  /-- A request that has not been woken since it left its waker has nothing to take. -/
  pending : ∀ ref request waker, Owed (.registered ref request waker) (.seqr (.woke waker)) obs →
    ∀ entry ∈ responses.items, request.admits entry = false

section Routed

variable {responses responses' : ResponseQueue Rsp} {seen out : List (RouterObs ι Req Rsp)}

theorem mem_answered {entry : TxnId × Rsp} {obs : List (RouterObs ι Req Rsp)} :
    entry ∈ answered obs ↔ ∃ request, .answered request entry ∈ obs := by
  simp only [answered, List.mem_filterMap]
  constructor
  · rintro ⟨o, member, shown⟩
    cases o <;> cases shown
    exact ⟨_, member⟩
  · rintro ⟨request, member⟩
    exact ⟨_, member, rfl⟩

/-- Whoever is owed after a step that registers nobody was owed before it, unanswered. -/
theorem owed_before {ref : GetRef} {request : Request} {waker : Waker}
    (quiet : ∀ ref request waker, .registered ref request waker ∉ out)
    (owed : Owed (.registered ref request waker) (.seqr (.woke waker)) (seen ++ out)) :
    Owed (.registered ref request waker) (.seqr (.woke waker)) seen ∧ .seqr (.woke waker) ∉ out := by
  rcases (owed_append ..).mp owed with now | before
  · exact absurd now.mem (quiet ref request waker)
  · exact before

theorem Effect.routed (effect : Effect responses responses' out) (routed : Routed responses seen) :
    Routed responses' (seen ++ out) := by
  obtain ⟨ledger, arrival, admitted, booked, pending⟩ := routed
  have answeredBefore (none : answered out = []) (request : Request) (entry : TxnId × Rsp)
      (shown : .answered request entry ∈ seen ++ out) : request.admits entry = true := by
    rcases List.mem_append.mp shown with before | now
    · exact admitted request entry before
    · have member : entry ∈ answered out := mem_answered.mpr ⟨request, now⟩
      rw [none] at member
      cases member
  cases effect with
  | idle out push answer quiet =>
    refine ⟨by simpa [push, answer] using ledger, by simpa [push] using arrival, answeredBefore answer, ?_, ?_⟩
    · exact fun ref request => (booked ref request).quiet (quiet ref request)
    · exact fun ref request waker owed => pending ref request waker (owed_before quiet owed).1
  | push id rsp out push answer quiet wakes =>
    refine ⟨?_, ?_, answeredBefore answer, ?_, ?_⟩
    · simpa [push, answer, ResponseQueue.push] using ledger.append_right [(id, rsp)]
    · simpa [push, ResponseQueue.push] using arrival.append (List.Sublist.refl [(id, rsp)])
    · exact fun ref request => (booked ref request).drain (quiet ref request) wakes
    · intro ref request waker owed
      obtain ⟨before, unanswered⟩ := owed_before quiet owed
      exact absurd (wakes waker (booked ref request waker before)) unanswered
  | answer request entry front back queued admits oldest =>
    have quiet : ∀ ref request' waker,
        (.registered ref request' waker : RouterObs ι Req Rsp) ∉ [.answered request entry] := by simp
    refine ⟨?_, ?_, ?_, ?_, ?_⟩
    · have moved : (answered seen ++ responses.items).Perm (answered seen ++ [entry] ++ (front ++ back)) := by
        rw [queued, List.append_assoc]
        exact List.perm_middle.append_left (answered seen)
      simpa [pushed, answered] using ledger.trans moved
    · have fewer : (front ++ back).Sublist responses.items := by
        rw [queued]
        exact (List.sublist_cons_self entry back).append_left front
      simpa [pushed] using fewer.trans arrival
    · intro request' entry' shown
      rcases List.mem_append.mp shown with before | now
      · exact admitted request' entry' before
      · cases List.mem_singleton.mp now
        exact admits
    · exact fun ref request' => (booked ref request').quiet (quiet ref request')
    · intro ref request' waker owed entry' member
      refine pending ref request' waker (owed_before quiet owed).1 entry' ?_
      rw [queued]
      rcases List.mem_append.mp member with earlier | later
      · exact List.mem_append_left _ earlier
      · exact List.mem_append_right _ (List.mem_cons_of_mem entry later)
  | register ref request waker missing =>
    refine ⟨by simpa [pushed, answered] using ledger, by simpa [pushed] using arrival, answeredBefore rfl, ?_, ?_⟩
    · intro ref' request'
      exact (booked ref' request').register (by simp)
    · intro ref' request' waker' owed
      rcases (owed_append ..).mp owed with now | ⟨before, -⟩
      · cases List.mem_singleton.mp now.mem
        exact missing
      · exact pending ref' request' waker' before

/-- An answer removes the oldest entry that the request admits. -/
theorem Effect.oldest {request : Request} {entry : TxnId × Rsp} (effect : Effect responses responses' out)
    (shown : .answered request entry ∈ out) :
    ∃ front back, responses.items = front ++ entry :: back ∧ responses'.items = front ++ back ∧
      request.admits entry = true ∧ ∀ older ∈ front, request.admits older = false := by
  have member : entry ∈ answered out := mem_answered.mpr ⟨request, shown⟩
  cases effect with
  | idle _ _ none | push _ _ _ _ none =>
    rw [none] at member
    cases member
  | answer request' entry' front back queued admits oldest =>
    cases List.mem_singleton.mp shown
    exact ⟨front, back, queued, rfl, admits, oldest⟩
  | register => simp at shown

/-- The books are kept along every run. -/
theorem routed_of_run [DecidableEq ι] {names : ι → String} {attached : ι → Bool}
    {actions : List (RouterAction ι Req Rsp)} {s : Router ι Req Rsp} {obs : List (RouterObs ι Req Rsp)}
    (ran : (machine ι Req Rsp).run (initial names attached) actions = some (s, obs)) :
    Routed s.system.inner.responses obs := by
  refine (machine ι Req Rsp).run_invariant_nil (fun s obs => Routed s.system.inner.responses obs) ?_
    (fun routed stepped => (effect_of_step stepped).routed routed) ran
  refine ⟨.refl _, .refl _, by simp, fun _ _ => .nil, ?_⟩
  intro ref request waker owed
  exact absurd owed.mem (by simp)

end Routed

/-- In every run: the pushed responses are, as a collection, the returned and the queued ones; the
queue is in arrival order; a request for a ticket returns what was pushed under it; a step that
answers a request takes the oldest queued response that the request admits; and a waker that a
request left and that has not been woken since implies that the request admits nothing queued. -/
theorem response_routing [DecidableEq ι] (names : ι → String) (attached : ι → Bool)
    {actions : List (RouterAction ι Req Rsp)} {s : Router ι Req Rsp} {obs : List (RouterObs ι Req Rsp)}
    (ran : (machine ι Req Rsp).run (initial names attached) actions = some (s, obs)) :
    (pushed obs).Perm (answered obs ++ s.system.inner.responses.items) ∧
    s.system.inner.responses.items.Sublist (pushed obs) ∧
    (∀ id entry, .answered (some id) entry ∈ obs → entry.1 = id ∧ entry ∈ pushed obs) ∧
    (∀ a t out request entry, s.step a = some (t, out) → .answered request entry ∈ out →
      ∃ front back, s.system.inner.responses.items = front ++ entry :: back ∧
        t.system.inner.responses.items = front ++ back ∧ request.admits entry = true ∧
        ∀ older ∈ front, request.admits older = false) ∧
    (∀ ref request waker, Owed (.registered ref request waker) (.seqr (.woke waker)) obs →
      ∀ entry ∈ s.system.inner.responses.items, request.admits entry = false) := by
  have routed := routed_of_run ran
  refine ⟨routed.ledger, routed.arrival, ?_, ?_, routed.pending⟩
  · intro id entry shown
    refine ⟨by simpa [Request.admits] using routed.admitted (some id) entry shown, ?_⟩
    exact routed.ledger.mem_iff.mpr (List.mem_append_left _ (mem_answered.mpr ⟨some id, shown⟩))
  · intro a t out request entry stepped shown
    exact (effect_of_step stepped).oldest shown

/-- Two requests wait, one for ticket 2 and one for anything; the driver answers ticket 1, which
wakes both and goes to the one that takes anything, and then ticket 2. -/
theorem response_routing_out_of_order :
    ∃ s obs, (machine (Fin 2) ℕ String).run (initial (fun _ => "s") fun _ => true)
        [.getResponse 0 (some ⟨2⟩), .getResponse 1 none, .poll 0 (.task 1), .poll 1 (.task 2),
          .seqr (.putResponse ⟨1⟩ "one"), .poll 0 (.task 1), .poll 1 (.task 2),
          .seqr (.putResponse ⟨2⟩ "two"), .poll 0 (.task 1)] = some (s, obs) ∧
      answered obs = [(⟨1⟩, "one"), (⟨2⟩, "two")] ∧
      (pushed obs).Perm (answered obs ++ s.system.inner.responses.items) := by
  obtain ⟨s, obs, ran, shown⟩ : ∃ s obs,
      (machine (Fin 2) ℕ String).run (initial (fun _ => "s") fun _ => true)
        [.getResponse 0 (some ⟨2⟩), .getResponse 1 none, .poll 0 (.task 1), .poll 1 (.task 2),
          .seqr (.putResponse ⟨1⟩ "one"), .poll 0 (.task 1), .poll 1 (.task 2),
          .seqr (.putResponse ⟨2⟩ "two"), .poll 0 (.task 1)] = some (s, obs) ∧
      answered obs = [(⟨1⟩, "one"), (⟨2⟩, "two")] := ⟨_, _, rfl, by decide⟩
  exact ⟨s, obs, ran, shown, (response_routing _ _ ran).1⟩

end Router

end Rustdv.Sequencer
