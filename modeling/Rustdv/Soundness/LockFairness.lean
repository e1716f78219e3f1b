import Rustdv.Model.Lock
import Mathlib.Data.List.Nodup
import Mathlib.Data.List.Perm.Basic

/-! # The lock has one owner and serves in order

Ownership is given when an `Acquire` finds the lock open and when `release` grants it to the first
waiter; it is given up when a guard, or an `Acquire` that was granted and not polled since, is
dropped. The books of a run say that ownership is given in the order of the first polls, cancelled
waiters left out, and that each ownership is given up once before the next one is given.
-/

namespace Rustdv.Lock

section Observations

/-- The kinds of observations the books are kept about. -/
inductive Kind where
  | firstPolled
  | owned
  | released
  | cancelled
deriving DecidableEq, Repr

@[simp] def Kind.pick : Kind → Obs → Option AcqRef
  | .firstPolled, .firstPolled acq => some acq
  | .owned, .owned acq => some acq
  | .released, .released acq => some acq
  | .cancelled, .cancelled acq => some acq
  | _, _ => none

/-- The `Acquire`s that the observations of one kind name, in order. -/
def log (kind : Kind) (obs : List Obs) : List AcqRef := obs.filterMap kind.pick

variable (kind : Kind) (obs out : List Obs)

@[simp] theorem log_nil : log kind [] = [] := rfl

@[simp] theorem log_cons (o : Obs) : log kind (o :: out) = (kind.pick o).toList ++ log kind out := by
  cases picked : kind.pick o with
  | none => simp only [log, List.filterMap_cons, picked, Option.toList_none, List.nil_append]
  | some acq => simp only [log, List.filterMap_cons, picked, Option.toList_some, List.singleton_append]

@[simp] theorem log_append : log kind (obs ++ out) = log kind obs ++ log kind out := List.filterMap_append

@[simp] theorem log_wake (waker : Option Waker) : log kind (waker.map Obs.woke).toList = [] := by
  cases waker <;> cases kind <;> rfl

end Observations

/-- The tables agree: waiters are named by their `Acquire`s, and those in the queue are exactly the
ones that wait. -/
structure Layout (s : System) : Prop where
  own : ∀ acq w acquired, s.acquires acq = some ⟨some w, acquired⟩ → w = acq
  fresh : ∀ acq, s.fresh ≤ acq → s.acquires acq = none
  queued : ∀ acq, acq ∈ s.inner.waiters ↔
    s.acquires acq = some ⟨some acq, false⟩ ∧ (s.heap acq).granted = false

theorem grantedUnpolled_iff (s : System) (acq : AcqRef) :
    s.grantedUnpolled acq = true ↔
      ∃ w, s.acquires acq = some ⟨some w, false⟩ ∧ (s.heap w).granted = true := by
  unfold System.grantedUnpolled
  split <;> simp_all

/-- Who owns the lock: nobody, a live guard, or a granted `Acquire` that has not been polled since. -/
inductive Holds (s : System) : Option AcqRef → Prop where
  | free (guards : s.guards = []) (granted : ∀ acq, s.grantedUnpolled acq = false) : Holds s none
  | guard (acq : AcqRef) (guards : s.guards = [acq])
      (granted : ∀ other, s.grantedUnpolled other = false) : Holds s (some acq)
  | granted (acq : AcqRef) (guards : s.guards = [])
      (granted : ∀ other, s.grantedUnpolled other = true ↔ other = acq) : Holds s (some acq)

theorem Holds.owners {s : System} {owner : Option AcqRef} (holds : Holds s owner) (layout : Layout s) :
    s.owners = owner.toList := by
  cases holds with
  | free guards granted => simp [System.owners, guards, granted]
  | guard acq guards granted => simp [System.owners, guards, granted]
  | granted acq guards granted =>
    have bound : acq < s.fresh := by
      by_contra beyond
      have absent := layout.fresh acq (Nat.le_of_not_lt beyond)
      obtain ⟨w, present, -⟩ := (grantedUnpolled_iff s acq).mp ((granted acq).mpr rfl)
      rw [absent] at present
      cases present
    have one : (List.range s.fresh).filter s.grantedUnpolled = [acq] := by
      refine List.perm_singleton.mp ((List.perm_ext_iff_of_nodup (List.nodup_range.filter _)
        (List.nodup_singleton acq)).mpr fun other => ?_)
      rw [List.mem_filter, List.mem_range, granted, List.mem_singleton]
      constructor
      · exact fun both => both.2
      · rintro rfl
        exact ⟨bound, rfl⟩
    simp [System.owners, guards, one]

/-- The books of the queue: first polls, less the cancelled, were served or stand in line. -/
structure Queueing (s : System) (obs : List Obs) : Prop where
  layout : Layout s
  order : (log .firstPolled obs).filter (· ∉ log .cancelled obs) = log .owned obs ++ s.inner.waiters
  nodup : (log .firstPolled obs).Nodup
  polled : ∀ acq ∈ log .firstPolled obs, acq < s.fresh ∧ s.acquires acq ≠ some ⟨none, false⟩
  cancelled : ∀ acq ∈ log .cancelled obs, acq ∈ log .firstPolled obs

/-- The books of the lock: ownership is given up once before it is given again. -/
structure Books (s : System) (obs : List Obs) : Prop extends Queueing s obs where
  owner : ∃ owner, Holds s owner ∧ s.inner.locked = owner.isSome ∧ log .owned obs = log .released obs ++ owner.toList
  waiting : s.inner.waiters ≠ [] → s.inner.locked = true

theorem Queueing.nodup_waiters {s : System} {obs : List Obs} (queueing : Queueing s obs) :
    (log .owned obs ++ s.inner.waiters).Nodup := by
  rw [← queueing.order]
  exact queueing.nodup.filter _

/-- Everything a step can do. `passOn` is the drop of a granted `Acquire`. -/
inductive Transition (s : System) : System → List Obs → Prop where
  | make : Transition s { s.setAcquire s.fresh (some ⟨none, false⟩) with fresh := s.fresh + 1 } []
  | lock (acq : AcqRef) (state : s.acquires acq = some ⟨none, false⟩) (unlocked : s.inner.locked = false) :
      Transition s (complete { s with inner := { s.inner with locked := true } } acq none)
        [.firstPolled acq, .owned acq, .acquired acq]
  | enqueue (acq : AcqRef) (waker : Waker) (state : s.acquires acq = some ⟨none, false⟩)
      (locked : s.inner.locked = true) :
      Transition s
        { (s.setWaiter acq ⟨false, some waker⟩).setAcquire acq (some ⟨some acq, false⟩) with
          inner := { s.inner with waiters := s.inner.waiters ++ [acq] } } [.firstPolled acq]
  | complete (acq w : AcqRef) (state : s.acquires acq = some ⟨some w, false⟩)
      (granted : (s.heap w).granted = true) : Transition s (complete s acq (some w)) [.acquired acq]
  | rewait (acq w : AcqRef) (waker : Waker) (state : s.acquires acq = some ⟨some w, false⟩)
      (waits : (s.heap w).granted = false) :
      Transition s (s.setWaiter w { s.heap w with waker := some waker }) []
  | forget (acq : AcqRef) (waiter : Option AcqRef) (acquired : Bool)
      (state : s.acquires acq = some ⟨waiter, acquired⟩) (idle : acquired = true ∨ waiter = none) :
      Transition s (s.setAcquire acq none) []
  | cancel (acq w : AcqRef) (state : s.acquires acq = some ⟨some w, false⟩)
      (waits : (s.heap w).granted = false) :
      Transition s
        { s.setAcquire acq none with inner := { s.inner with waiters := s.inner.waiters.filter (· ≠ w) } }
        [.cancelled acq]
  | passOn (acq w : AcqRef) (state : s.acquires acq = some ⟨some w, false⟩)
      (granted : (s.heap w).granted = true) :
      Transition s (release (s.setAcquire acq none)).1 (.released acq :: (release (s.setAcquire acq none)).2)
  | unguard (acq : AcqRef) (live : acq ∈ s.guards) :
      Transition s (release { s with guards := s.guards.erase acq }).1
        (.released acq :: (release { s with guards := s.guards.erase acq }).2)

theorem transition_of_step {s t : System} {a : Action} {out : List Obs} (stepped : step s a = some (t, out)) :
    Transition s t out := by
  cases a with
  | acquire =>
    cases stepped
    exact .make
  | poll acq waker =>
    simp only [step] at stepped
    split at stepped
    · next state present =>
      obtain ⟨waiter, acquired⟩ := state
      obtain ⟨pending, same⟩ := Option.ite_none_left_eq_some.mp stepped
      obtain rfl : acquired = false := by simpa using pending
      have taken := Option.some.inj same
      cases waiter with
      | none =>
        cases locked : s.inner.locked with
        | false =>
          simp only [poll, locked, Bool.not_false, if_true] at taken
          cases taken
          exact .lock acq present locked
        | true =>
          simp only [poll] at taken
          rw [if_neg (by simp [locked])] at taken
          cases taken
          exact .enqueue acq waker present locked
      | some w =>
        cases granted : (s.heap w).granted with
        | true =>
          simp only [poll, granted, if_true] at taken
          cases taken
          exact .complete acq w present granted
        | false =>
          simp only [poll] at taken
          rw [if_neg (by simp [granted])] at taken
          cases taken
          exact .rewait acq w waker present granted
    · cases stepped
  | dropAcquire acq =>
    obtain ⟨⟨waiter, acquired⟩, present, dropped⟩ := Option.map_eq_some_iff.mp stepped
    cases acquired with
    | true =>
      simp only [dropAcquire, if_true] at dropped
      cases dropped
      exact .forget acq waiter true present (.inl rfl)
    | false =>
      cases waiter with
      | none =>
        simp only [dropAcquire, Bool.false_eq_true, if_false] at dropped
        cases dropped
        exact .forget acq none false present (.inr rfl)
      | some w =>
        cases granted : (s.heap w).granted with
        | true =>
          simp only [dropAcquire, granted, Bool.false_eq_true, if_false, if_true] at dropped
          cases dropped
          exact .passOn acq w present granted
        | false =>
          simp only [dropAcquire, granted, Bool.false_eq_true, if_false] at dropped
          cases dropped
          exact .cancel acq w present granted
  | dropGuard acq =>
    obtain ⟨live, same⟩ := Option.ite_none_right_eq_some.mp stepped
    cases same
    exact .unguard acq live

theorem Layout.grantedUnpolled {s : System} (layout : Layout s) (acq : AcqRef) :
    s.grantedUnpolled acq = true ↔
      s.acquires acq = some ⟨some acq, false⟩ ∧ (s.heap acq).granted = true := by
  rw [grantedUnpolled_iff]
  constructor
  · rintro ⟨w, state, granted⟩
    obtain rfl := layout.own acq w false state
    exact ⟨state, granted⟩
  · rintro ⟨state, granted⟩
    exact ⟨acq, state, granted⟩

section Elsewhere

variable {s t : System} {obs out : List Obs} {acq other : AcqRef}

/-- All `Acquire`s but one stand where they stood. -/
structure Elsewhere (acq : AcqRef) (s t : System) : Prop where
  fresh : s.fresh ≤ t.fresh
  acquires : ∀ other ≠ acq, t.acquires other = s.acquires other
  heap : ∀ other ≠ acq, t.heap other = s.heap other
  waiters : ∀ other ≠ acq, other ∈ t.inner.waiters ↔ other ∈ s.inner.waiters

theorem Layout.bound (layout : Layout s) {state : Acquire} (present : s.acquires acq = some state) : acq < s.fresh := by
  by_contra beyond
  rw [layout.fresh acq (Nat.le_of_not_lt beyond)] at present
  cases present

/-- An `Acquire` that does not wait is not in the queue. -/
theorem Layout.outside (layout : Layout s) {state : Option Acquire} (stands : s.acquires acq = state)
    (distinct : state ≠ some ⟨some acq, false⟩) : acq ∉ s.inner.waiters := by
  intro inside
  exact distinct (stands.symm.trans ((layout.queued acq).mp inside).1)

/-- The layout has to be checked for the `Acquire` that the step is about. -/
theorem Layout.of_elsewhere (layout : Layout s) (elsewhere : Elsewhere acq s t) (bound : acq < t.fresh)
    (own : ∀ w acquired, t.acquires acq = some ⟨some w, acquired⟩ → w = acq)
    (queued : acq ∈ t.inner.waiters ↔ t.acquires acq = some ⟨some acq, false⟩ ∧ (t.heap acq).granted = false) :
    Layout t := by
  refine ⟨?_, ?_, ?_⟩
  · intro other
    by_cases here : other = acq
    · rw [here]
      exact own
    · rw [elsewhere.acquires other here]
      exact layout.own other
  · intro other beyond
    have here : other ≠ acq := Nat.ne_of_gt (Nat.lt_of_lt_of_le bound beyond)
    rw [elsewhere.acquires other here]
    exact layout.fresh other (Nat.le_trans elsewhere.fresh beyond)
  · intro other
    by_cases here : other = acq
    · rw [here]
      exact queued
    · rw [elsewhere.waiters other here, elsewhere.acquires other here, elsewhere.heap other here]
      exact layout.queued other

/-- A step after which its `Acquire` does not wait. -/
theorem Layout.of_left (layout : Layout s) (elsewhere : Elsewhere acq s t) (bound : acq < t.fresh)
    {state : Option Acquire} (stands : t.acquires acq = state) (outside : acq ∉ t.inner.waiters)
    (moved : ∀ w acquired, state = some ⟨some w, acquired⟩ → w = acq ∧ acquired = true) : Layout t := by
  refine layout.of_elsewhere elsewhere bound ?_ (iff_of_false outside ?_)
  · intro w acquired same
    exact (moved w acquired (stands.symm.trans same)).1
  · rintro ⟨waits, -⟩
    cases (moved acq false (stands.symm.trans waits)).2

theorem Elsewhere.grantedUnpolled (elsewhere : Elsewhere acq s t) (layout : Layout s) (layout' : Layout t)
    (distinct : other ≠ acq) : t.grantedUnpolled other = s.grantedUnpolled other := by
  rw [Bool.eq_iff_iff, layout'.grantedUnpolled, layout.grantedUnpolled, elsewhere.acquires other distinct,
    elsewhere.heap other distinct]

/-- A step about an `Acquire` that is not the owner and does not become it. -/
theorem Elsewhere.same_granted (elsewhere : Elsewhere acq s t) (layout : Layout s) (layout' : Layout t)
    (before : s.grantedUnpolled acq = false) (after : t.grantedUnpolled acq = false) (other : AcqRef) :
    t.grantedUnpolled other = s.grantedUnpolled other := by
  by_cases here : other = acq
  · rw [here, before, after]
  · exact elsewhere.grantedUnpolled layout layout' here

/-- The owner itself takes the step, after which nobody is granted the lock. -/
theorem Elsewhere.none_granted (elsewhere : Elsewhere acq s t) (layout : Layout s) (layout' : Layout t)
    (only : ∀ other, s.grantedUnpolled other = true ↔ other = acq) (after : t.grantedUnpolled acq = false)
    (other : AcqRef) : t.grantedUnpolled other = false := by
  by_cases here : other = acq
  · rw [here, after]
  · rw [elsewhere.grantedUnpolled layout layout' here, Bool.eq_false_iff]
    exact fun granted => here ((only other).mp granted)

/-- The books of the queue have to be checked for the `Acquire` that the step is about. -/
theorem Queueing.polled_elsewhere (queueing : Queueing s obs) (elsewhere : Elsewhere acq s t) (bound : acq < t.fresh)
    (named : ∀ other ∈ log .firstPolled out, other = acq)
    (moved : acq ∈ log .firstPolled (obs ++ out) → t.acquires acq ≠ some ⟨none, false⟩) (other : AcqRef)
    (polled : other ∈ log .firstPolled (obs ++ out)) : other < t.fresh ∧ t.acquires other ≠ some ⟨none, false⟩ := by
  by_cases here : other = acq
  · subst here
    exact ⟨bound, moved polled⟩
  · rw [log_append, List.mem_append] at polled
    rcases polled with earlier | now
    · obtain ⟨within, beyond⟩ := queueing.polled other earlier
      rw [elsewhere.acquires other here]
      exact ⟨Nat.lt_of_lt_of_le within elsewhere.fresh, beyond⟩
    · exact absurd (named other now) here

/-- A step that no books are kept about. -/
theorem Queueing.unlogged (queueing : Queueing s obs) (layout : Layout t) (elsewhere : Elsewhere acq s t)
    (bound : acq < t.fresh) (moved : acq ∈ log .firstPolled obs → t.acquires acq ≠ some ⟨none, false⟩)
    (silent : ∀ kind, kind ≠ .released → log kind out = []) (line : t.inner.waiters = s.inner.waiters) :
    Queueing t (obs ++ out) := by
  have same (kind : Kind) (distinct : kind ≠ .released) : log kind (obs ++ out) = log kind obs := by
    rw [log_append, silent kind distinct, List.append_nil]
  have first := same .firstPolled (by decide)
  refine ⟨layout, ?_, ?_, ?_, ?_⟩
  · rw [first, same .cancelled (by decide), same .owned (by decide), line]
    exact queueing.order
  · rw [first]
    exact queueing.nodup
  · refine queueing.polled_elsewhere elsewhere bound ?_ (by rwa [first])
    rw [silent .firstPolled (by decide)]
    simp
  · rw [first, same .cancelled (by decide)]
    exact queueing.cancelled

/-- An `Acquire` polled for the first time joins the books. -/
theorem Queueing.first (queueing : Queueing s obs) (state : s.acquires acq = some ⟨none, false⟩) :
    acq ∉ log .firstPolled obs ∧ acq ∉ log .cancelled obs ∧ (log .firstPolled obs ++ [acq]).Nodup := by
  have first : acq ∉ log .firstPolled obs := fun before => (queueing.polled acq before).2 state
  refine ⟨first, fun before => first (queueing.cancelled acq before), ?_⟩
  rw [← List.concat_eq_append]
  exact queueing.nodup.concat first

end Elsewhere

section Release

variable {s : System} {obs : List Obs}

theorem release_of_nil (empty : s.inner.waiters = []) :
    release s = ({ s with inner := { s.inner with locked := false } }, []) := by
  simp only [release, empty]

theorem release_of_cons {next : AcqRef} {rest : List AcqRef} (front : s.inner.waiters = next :: rest) :
    release s = ({ s.setWaiter next ⟨true, none⟩ with inner := { s.inner with waiters := rest } },
      .owned next :: ((s.heap next).waker.map Obs.woke).toList) := by
  simp only [release, front]

/-- A release on behalf of the owner that just went away gives the lock to the first in line. -/
theorem Queueing.release (queueing : Queueing s obs) (free : Holds s none) (locked : s.inner.locked = true)
    (settled : log .owned obs = log .released obs) : Books (Lock.release s).1 (obs ++ (Lock.release s).2) := by
  obtain ⟨layout, order, nodup, polled, within⟩ := id queueing
  cases free with
  | free guards granted =>
  cases front : s.inner.waiters with
  | nil =>
    rw [release_of_nil front]
    refine ⟨⟨⟨layout.own, layout.fresh, layout.queued⟩, ?_, ?_, ?_, ?_⟩, ⟨none, .free guards granted, rfl, ?_⟩, ?_⟩
    · simpa using order
    · simpa using nodup
    · simpa using polled
    · simpa using within
    · simpa using settled
    · intro waiting
      exact absurd front waiting
  | cons next rest =>
    have distinct : next ∉ rest := by
      have line := (List.nodup_append.mp queueing.nodup_waiters).2.1
      rw [front] at line
      exact (List.nodup_cons.mp line).1
    have state := ((layout.queued next).mp (by simp [front])).1
    rw [release_of_cons front]
    have elsewhere : Elsewhere next s { s.setWaiter next ⟨true, none⟩ with inner := { s.inner with waiters := rest } } := by
      refine ⟨Nat.le_refl _, fun _ _ => rfl, fun other apart => Function.update_of_ne apart .., ?_⟩
      intro other apart
      rw [front, List.mem_cons]
      exact (or_iff_right apart).symm
    have layout' : Layout { s.setWaiter next ⟨true, none⟩ with inner := { s.inner with waiters := rest } } :=
      layout.of_elsewhere elsewhere (layout.bound state) (layout.own next) (iff_of_false distinct (by simp))
    refine ⟨⟨layout', ?_, ?_, ?_, ?_⟩, ⟨some next, .granted next guards ?_, locked, ?_⟩, fun _ => locked⟩
    · simpa [front] using order
    · simpa using nodup
    · simpa using polled
    · simpa using within
    · intro other
      by_cases here : other = next
      · subst here
        exact iff_of_true ((layout'.grantedUnpolled other).mpr ⟨state, by simp⟩) rfl
      · rw [elsewhere.grantedUnpolled layout layout' here, granted other]
        exact iff_of_false Bool.false_ne_true here
    · simpa using settled

end Release

section Steps

variable {s t : System} {obs out : List Obs}

theorem Holds.congr {owner : Option AcqRef} (holds : Holds s owner) (guards : t.guards = s.guards)
    (granted : ∀ acq, t.grantedUnpolled acq = s.grantedUnpolled acq) : Holds t owner := by
  cases holds with
  | free none unpolled => exact .free (guards.trans none) fun acq => (granted acq).trans (unpolled acq)
  | guard acq one unpolled => exact .guard acq (guards.trans one) fun acq => (granted acq).trans (unpolled acq)
  | granted acq none unpolled =>
    exact .granted acq (guards.trans none) fun other => by rw [granted other, unpolled other]

/-- A granted `Acquire` that has not been polled since is the owner. -/
theorem Holds.of_granted {owner : Option AcqRef} {acq : AcqRef} (holds : Holds s owner)
    (granted : s.grantedUnpolled acq = true) :
    owner = some acq ∧ s.guards = [] ∧ ∀ other, s.grantedUnpolled other = true ↔ other = acq := by
  cases holds with
  | free guards none | guard other guards none =>
    rw [none acq] at granted
    cases granted
  | granted other guards only =>
    obtain rfl := (only acq).mp granted
    exact ⟨rfl, guards, only⟩

/-- A live guard is the owner. -/
theorem Holds.of_guard {owner : Option AcqRef} {acq : AcqRef} (holds : Holds s owner) (live : acq ∈ s.guards) :
    owner = some acq ∧ s.guards = [acq] ∧ ∀ other, s.grantedUnpolled other = false := by
  cases holds with
  | free guards none | granted other guards none =>
    rw [guards] at live
    cases live
  | guard other guards none =>
    obtain rfl := List.mem_singleton.mp (guards ▸ live)
    exact ⟨rfl, guards, none⟩

/-- A step of the queue that leaves the owner alone. -/
theorem Books.of_queueing (books : Books s obs) (queueing : Queueing t (obs ++ out))
    (guards : t.guards = s.guards) (granted : ∀ acq, t.grantedUnpolled acq = s.grantedUnpolled acq)
    (locked : t.inner.locked = s.inner.locked) (given : log .owned out = []) (back : log .released out = [])
    (waiting : t.inner.waiters ≠ [] → s.inner.locked = true) : Books t (obs ++ out) := by
  obtain ⟨owner, holds, same, balance⟩ := books.owner
  refine ⟨queueing, ⟨owner, holds.congr guards granted, locked.trans same, ?_⟩, ?_⟩
  · simpa [given, back] using balance
  · intro line
    exact locked.trans (waiting line)

/-! ### Steps that leave the owner alone -/

theorem Books.make (books : Books s obs) :
    Books { s.setAcquire s.fresh (some ⟨none, false⟩) with fresh := s.fresh + 1 } (obs ++ []) := by
  have layout := books.layout
  have absent : s.acquires s.fresh = none := layout.fresh s.fresh (Nat.le_refl _)
  have elsewhere : Elsewhere s.fresh s { s.setAcquire s.fresh (some ⟨none, false⟩) with fresh := s.fresh + 1 } :=
    ⟨Nat.le_succ _, fun _ apart => Function.update_of_ne apart .., fun _ _ => rfl, fun _ _ => Iff.rfl⟩
  have layout' := layout.of_left elsewhere (Nat.lt_succ_self _) (Function.update_self ..)
    (layout.outside absent (by simp)) (by simp)
  have queueing := books.unlogged layout' elsewhere (Nat.lt_succ_self _) ?_ (fun _ _ => log_nil _) rfl
  · refine books.of_queueing queueing rfl (elsewhere.same_granted layout layout' ?_ ?_) rfl rfl rfl books.waiting
    · simp [System.grantedUnpolled, absent]
    · simp [System.grantedUnpolled]
  · intro polled
    exact absurd (books.polled s.fresh polled).1 (Nat.lt_irrefl _)

theorem Books.enqueue (books : Books s obs) {acq : AcqRef} (waker : Waker)
    (state : s.acquires acq = some ⟨none, false⟩) (locked : s.inner.locked = true) :
    Books { (s.setWaiter acq ⟨false, some waker⟩).setAcquire acq (some ⟨some acq, false⟩) with
      inner := { s.inner with waiters := s.inner.waiters ++ [acq] } } (obs ++ [.firstPolled acq]) := by
  have layout := books.layout
  have bound := layout.bound state
  have elsewhere : Elsewhere acq s { (s.setWaiter acq ⟨false, some waker⟩).setAcquire acq (some ⟨some acq, false⟩) with
      inner := { s.inner with waiters := s.inner.waiters ++ [acq] } } := by
    refine ⟨Nat.le_refl _, fun _ apart => Function.update_of_ne apart .., fun _ apart => Function.update_of_ne apart .., ?_⟩
    intro other apart
    simp [apart]
  have layout' := layout.of_elsewhere elsewhere bound (by simp) (by simp)
  obtain ⟨-, kept, nodup⟩ := books.first state
  refine books.of_queueing ⟨layout', ?_, ?_, ?_, ?_⟩ rfl ?_ rfl rfl rfl fun _ => locked
  · have served := congrArg (· ++ [acq]) books.order
    simpa [kept] using served
  · simpa using nodup
  · exact books.polled_elsewhere elsewhere bound (by simp) (by simp)
  · simpa using fun other before => .inl (books.cancelled other before)
  · refine elsewhere.same_granted layout layout' ?_ ?_
    · simp [System.grantedUnpolled, state]
    · simp [System.grantedUnpolled]

theorem Books.rewait (books : Books s obs) {acq w : AcqRef} (waker : Waker)
    (state : s.acquires acq = some ⟨some w, false⟩) (waits : (s.heap w).granted = false) :
    Books (s.setWaiter w { s.heap w with waker := some waker }) (obs ++ []) := by
  have layout := books.layout
  obtain rfl := layout.own acq w false state
  have bound := layout.bound state
  have elsewhere : Elsewhere w s (s.setWaiter w { s.heap w with waker := some waker }) :=
    ⟨Nat.le_refl _, fun _ _ => rfl, fun _ apart => Function.update_of_ne apart .., fun _ _ => Iff.rfl⟩
  have layout' := layout.of_elsewhere elsewhere bound (layout.own w) (by simpa using layout.queued w)
  have queueing := books.unlogged layout' elsewhere bound (by simp [state]) (fun _ _ => log_nil _) rfl
  refine books.of_queueing queueing rfl (elsewhere.same_granted layout layout' ?_ ?_) rfl rfl rfl books.waiting
  · simp [System.grantedUnpolled, state, waits]
  · simp [System.grantedUnpolled, state, waits]

/-- Dropping an `Acquire` that was never polled or has completed. -/
theorem Books.forget (books : Books s obs) {acq : AcqRef} {waiter : Option AcqRef} {acquired : Bool}
    (state : s.acquires acq = some ⟨waiter, acquired⟩) (idle : acquired = true ∨ waiter = none) :
    Books (s.setAcquire acq none) (obs ++ []) := by
  have layout := books.layout
  have bound := layout.bound state
  have elsewhere : Elsewhere acq s (s.setAcquire acq none) :=
    ⟨Nat.le_refl _, fun _ apart => Function.update_of_ne apart .., fun _ _ => rfl, fun _ _ => Iff.rfl⟩
  have outside : acq ∉ s.inner.waiters := by
    refine layout.outside state ?_
    rcases idle with rfl | rfl <;> simp
  have layout' := layout.of_left elsewhere bound (Function.update_self ..) outside (by simp)
  have queueing := books.unlogged layout' elsewhere bound (by simp) (fun _ _ => log_nil _) rfl
  refine books.of_queueing queueing rfl (elsewhere.same_granted layout layout' ?_ ?_) rfl rfl rfl books.waiting
  · rcases idle with rfl | rfl <;> simp [System.grantedUnpolled, state]
  · simp [System.grantedUnpolled]

theorem Books.cancel (books : Books s obs) {acq w : AcqRef}
    (state : s.acquires acq = some ⟨some w, false⟩) (waits : (s.heap w).granted = false) :
    Books { s.setAcquire acq none with inner := { s.inner with waiters := s.inner.waiters.filter (· ≠ w) } }
      (obs ++ [.cancelled acq]) := by
  have layout := books.layout
  obtain rfl := layout.own acq w false state
  have bound := layout.bound state
  have stood : w ∈ s.inner.waiters := (layout.queued w).mpr ⟨state, waits⟩
  have unserved : w ∉ log .owned obs := by
    intro served
    exact (List.nodup_append.mp books.nodup_waiters).2.2 w served w stood rfl
  have polled : w ∈ log .firstPolled obs := by
    have inside : w ∈ log .owned obs ++ s.inner.waiters := List.mem_append_right _ stood
    rw [← books.order] at inside
    exact List.mem_of_mem_filter inside
  have elsewhere : Elsewhere w s { s.setAcquire w none with
      inner := { s.inner with waiters := s.inner.waiters.filter (· ≠ w) } } := by
    refine ⟨Nat.le_refl _, fun _ apart => Function.update_of_ne apart .., fun _ _ => rfl, ?_⟩
    intro other apart
    simp [apart]
  have layout' := layout.of_left elsewhere bound (Function.update_self ..) (by simp) (by simp)
  refine books.of_queueing ⟨layout', ?_, by simpa using books.nodup, ?_, ?_⟩ rfl ?_ rfl rfl rfl
    fun _ => books.waiting (List.ne_nil_of_mem stood)
  · -- what is served or stands in line, without the one that leaves
    have left := congrArg (List.filter (· ≠ w)) books.order
    have served : (log .owned obs).filter (· ≠ w) = log .owned obs :=
      List.filter_eq_self.mpr fun other member => decide_eq_true (ne_of_mem_of_not_mem member unserved)
    rw [List.filter_append, served, List.filter_filter] at left
    simpa [and_comm, Bool.and_comm] using left
  · exact books.polled_elsewhere elsewhere bound (by simp) (by simp)
  · have within (other : AcqRef) (member : other ∈ log .cancelled obs ∨ other = w) : other ∈ log .firstPolled obs := by
      rcases member with earlier | rfl
      · exact books.cancelled other earlier
      · exact polled
    simpa using within
  · refine elsewhere.same_granted layout layout' ?_ ?_
    · simp [System.grantedUnpolled, state, waits]
    · simp [System.grantedUnpolled]

/-! ### Steps that give the lock or give it up -/

theorem Books.lock (books : Books s obs) {acq : AcqRef} (state : s.acquires acq = some ⟨none, false⟩)
    (unlocked : s.inner.locked = false) :
    Books (complete { s with inner := { s.inner with locked := true } } acq none)
      (obs ++ [.firstPolled acq, .owned acq, .acquired acq]) := by
  have layout := books.layout
  have bound := layout.bound state
  obtain ⟨owner, holds, same, balance⟩ := books.owner
  obtain ⟨-, kept, nodup⟩ := books.first state
  have empty : s.inner.waiters = [] := by
    by_contra line
    have locked := books.waiting line
    rw [unlocked] at locked
    cases locked
  obtain rfl : owner = none := by
    rw [unlocked] at same
    exact Option.isNone_iff_eq_none.mp (by simpa using same.symm)
  have elsewhere : Elsewhere acq s (complete { s with inner := { s.inner with locked := true } } acq none) :=
    ⟨Nat.le_refl _, fun _ apart => Function.update_of_ne apart .., fun _ _ => rfl, fun _ _ => Iff.rfl⟩
  have layout' := layout.of_left elsewhere bound (Function.update_self ..) (layout.outside state (by simp)) (by simp)
  cases holds with
  | free guards granted =>
  refine ⟨⟨layout', ?_, by simpa using nodup, ?_, ?_⟩, ⟨some acq, .guard acq ?_ ?_, rfl, ?_⟩, fun _ => rfl⟩
  · have order := books.order
    rw [empty, List.append_nil] at order
    simpa [kept, complete, empty] using order
  · exact books.polled_elsewhere elsewhere bound (by simp) (by simp [complete])
  · simpa using fun other before => .inl (books.cancelled other before)
  · simp [complete, guards]
  · intro other
    rw [elsewhere.same_granted layout layout' (granted acq) (by simp [System.grantedUnpolled, complete])]
    exact granted other
  · simpa using balance

theorem Books.complete (books : Books s obs) {acq w : AcqRef}
    (state : s.acquires acq = some ⟨some w, false⟩) (granted : (s.heap w).granted = true) :
    Books (Lock.complete s acq (some w)) (obs ++ [.acquired acq]) := by
  have layout := books.layout
  obtain rfl := layout.own acq w false state
  have bound := layout.bound state
  obtain ⟨owner, holds, same, balance⟩ := books.owner
  obtain ⟨rfl, guards, only⟩ := holds.of_granted ((layout.grantedUnpolled w).mpr ⟨state, granted⟩)
  have elsewhere : Elsewhere w s (Lock.complete s w (some w)) :=
    ⟨Nat.le_refl _, fun _ apart => Function.update_of_ne apart .., fun _ _ => rfl, fun _ _ => Iff.rfl⟩
  have outside : w ∉ s.inner.waiters := by
    rw [layout.queued, granted]
    simp
  have layout' := layout.of_left elsewhere bound (Function.update_self ..) outside (by simp)
  have queueing : Queueing (Lock.complete s w (some w)) (obs ++ [.acquired w]) := by
    refine books.unlogged layout' elsewhere bound (by simp [Lock.complete]) ?_ rfl
    intro kind _
    cases kind <;> rfl
  refine ⟨queueing, ⟨some w, .guard w ?_ ?_, same, by simpa using balance⟩, books.waiting⟩
  · simp [Lock.complete, guards]
  · exact elsewhere.none_granted layout layout' only (by simp [System.grantedUnpolled, Lock.complete])

/-- Dropping a granted `Acquire` leaves the lock without an owner, to be released. -/
theorem Books.passOn (books : Books s obs) {acq w : AcqRef}
    (state : s.acquires acq = some ⟨some w, false⟩) (granted : (s.heap w).granted = true) :
    Books (release (s.setAcquire acq none)).1
      (obs ++ .released acq :: (release (s.setAcquire acq none)).2) := by
  have layout := books.layout
  obtain rfl := layout.own acq w false state
  have bound := layout.bound state
  obtain ⟨owner, holds, same, balance⟩ := books.owner
  obtain ⟨rfl, guards, only⟩ := holds.of_granted ((layout.grantedUnpolled w).mpr ⟨state, granted⟩)
  have elsewhere : Elsewhere w s (s.setAcquire w none) :=
    ⟨Nat.le_refl _, fun _ apart => Function.update_of_ne apart .., fun _ _ => rfl, fun _ _ => Iff.rfl⟩
  have outside : w ∉ s.inner.waiters := by
    rw [layout.queued, granted]
    simp
  have layout' := layout.of_left elsewhere bound (Function.update_self ..) outside (by simp)
  have free : Holds (s.setAcquire w none) none :=
    .free guards (elsewhere.none_granted layout layout' only (by simp [System.grantedUnpolled]))
  have queueing : Queueing (s.setAcquire w none) (obs ++ [.released w]) := by
    refine books.unlogged layout' elsewhere bound (by simp) ?_ rfl
    intro kind other
    cases kind with
    | released => exact absurd rfl other
    | _ => rfl
  simpa using queueing.release free same (by simpa using balance)

theorem Books.unguard (books : Books s obs) {acq : AcqRef} (live : acq ∈ s.guards) :
    Books (release { s with guards := s.guards.erase acq }).1
      (obs ++ .released acq :: (release { s with guards := s.guards.erase acq }).2) := by
  obtain ⟨layout, order, nodup, polled, within⟩ := books.toQueueing
  obtain ⟨owner, holds, same, balance⟩ := books.owner
  obtain ⟨rfl, guards, unpolled⟩ := holds.of_guard live
  have free : Holds { s with guards := s.guards.erase acq } none := .free (by simp [guards]) unpolled
  have queueing : Queueing { s with guards := s.guards.erase acq } (obs ++ [.released acq]) :=
    ⟨⟨layout.own, layout.fresh, layout.queued⟩, by simpa using order, by simpa using nodup,
      by simpa using polled, by simpa using within⟩
  simpa using queueing.release free same (by simpa using balance)

theorem Transition.books (moved : Transition s t out) (books : Books s obs) : Books t (obs ++ out) := by
  cases moved with
  | make => exact books.make
  | lock acq state unlocked => exact books.lock state unlocked
  | enqueue acq waker state locked => exact books.enqueue waker state locked
  | complete acq w state granted => exact books.complete state granted
  | rewait acq w waker state waits => exact books.rewait waker state waits
  | forget acq waiter acquired state idle => exact books.forget state idle
  | cancel acq w state waits => exact books.cancel state waits
  | passOn acq w state granted => exact books.passOn state granted
  | unguard acq live => exact books.unguard live

end Steps

theorem books_initial : Books initial [] where
  layout := ⟨by simp [initial], by simp [initial], by simp [initial]⟩
  order := rfl
  nodup := List.nodup_nil
  polled := by simp
  cancelled := by simp
  owner := ⟨none, .free rfl fun _ => rfl, rfl, rfl⟩
  waiting line := absurd rfl line

theorem books_of_run {actions : List Action} {s : System} {obs : List Obs}
    (ran : machine.run initial actions = some (s, obs)) : Books s obs :=
  machine.run_invariant_nil Books books_initial
    (fun books stepped => (transition_of_step stepped).books books) ran

theorem Books.owners {s : System} {obs : List Obs} (books : Books s obs) :
    ∃ owner : Option AcqRef, s.owners = owner.toList ∧ s.inner.locked = owner.isSome ∧
      log .owned obs = log .released obs ++ s.owners := by
  obtain ⟨owner, holds, locked, balance⟩ := books.owner
  have owners := holds.owners books.layout
  exact ⟨owner, owners, locked, by rw [owners, balance]⟩

/-- Dropping a granted `Acquire` passes the lock to the first in line, or opens it. -/
theorem Books.drop_granted {s t : System} {obs out : List Obs} {acq : AcqRef} (books : Books s obs)
    (granted : s.grantedUnpolled acq = true) (dropped : step s (.dropAcquire acq) = some (t, out)) :
    t.owners = s.inner.waiters.head?.toList ∧ t.inner.waiters = s.inner.waiters.tail ∧
      t.inner.locked = s.inner.waiters.head?.isSome ∧ log .released out = [acq] ∧
      log .owned out = s.inner.waiters.head?.toList ∧ t.acquires acq = none := by
  obtain ⟨w, state, given⟩ := (grantedUnpolled_iff s acq).mp granted
  obtain ⟨owner, holds, locked, -⟩ := books.owner
  obtain ⟨rfl, -, -⟩ := holds.of_granted granted
  obtain ⟨-, same, -, balance⟩ := books.owners
  obtain ⟨-, -, -, balance'⟩ := ((transition_of_step dropped).books books).owners
  rw [holds.owners books.layout] at balance
  rw [log_append, log_append, balance] at balance'
  simp only [step, state, Option.map_some, dropAcquire, given, Bool.false_eq_true, if_false, if_true] at dropped
  cases dropped
  cases front : s.inner.waiters with
  | nil =>
    have opened := release_of_nil (s := s.setAcquire acq none) front
    rw [opened] at balance' ⊢
    refine ⟨by simpa using balance'.symm, ?_⟩
    simp [front]
  | cons next rest =>
    have passed := release_of_cons (s := s.setAcquire acq none) front
    rw [passed] at balance' ⊢
    refine ⟨by simpa using balance'.symm, ?_⟩
    simp [locked]

/-- In every state a run reaches there is at most one owner, and one exactly when the lock is
locked; a queue implies locked. Ownership is given in the order of the first polls of those not
cancelled while they stood in line, who are the rest of that order. Each ownership is given up once
before the next is given; a granted `Acquire` that is dropped gives it to the first in line or
opens the lock, and a completed one that is dropped does nothing. -/
theorem lock_mutual_exclusion_and_fairness {actions : List Action} {s : System} {obs : List Obs}
    (ran : machine.run initial actions = some (s, obs)) :
    s.owners.length ≤ 1 ∧ (s.inner.locked = true ↔ s.owners.length = 1) ∧
    (s.inner.waiters ≠ [] → s.inner.locked = true) ∧
    (log .firstPolled obs).Nodup ∧
    (log .firstPolled obs).filter (· ∉ log .cancelled obs) = log .owned obs ++ s.inner.waiters ∧
    log .owned obs = log .released obs ++ s.owners ∧
    (∀ acq t out, s.grantedUnpolled acq = true → step s (.dropAcquire acq) = some (t, out) →
      t.owners = s.inner.waiters.head?.toList ∧ t.inner.waiters = s.inner.waiters.tail ∧
      t.inner.locked = s.inner.waiters.head?.isSome ∧ log .released out = [acq] ∧
      log .owned out = s.inner.waiters.head?.toList ∧ t.acquires acq = none) ∧
    (∀ acq waiter t out, s.acquires acq = some ⟨waiter, true⟩ → step s (.dropAcquire acq) = some (t, out) →
      t.inner = s.inner ∧ t.owners = s.owners ∧ out = []) := by
  have books := books_of_run ran
  obtain ⟨owner, owners, locked, balance⟩ := books.owners
  refine ⟨?_, ?_, books.waiting, books.nodup, books.order, balance, ?_, ?_⟩
  · rw [owners]
    exact owner.length_toList_le
  · rw [owners, locked]
    cases owner <;> simp
  · intro acq t out granted dropped
    exact books.drop_granted granted dropped
  · intro acq waiter t out state dropped
    obtain ⟨-, -, -, after⟩ := ((transition_of_step dropped).books books).owners
    simp only [step, state, Option.map_some, dropAcquire, if_true] at dropped
    cases dropped
    rw [List.append_nil, balance, List.append_cancel_left_eq] at after
    exact ⟨rfl, after.symm, rfl⟩

/-- A second and a third `Acquire` queue behind a guard; the guard's drop grants the second, which
is dropped before it is polled again, and the lock goes to the third. -/
theorem lock_passes_to_third :
    ∃ s obs, machine.run initial [.acquire, .acquire, .acquire, .poll 0 (.task 0), .poll 1 (.task 1),
        .poll 2 (.task 2), .dropGuard 0, .dropAcquire 1] = some (s, obs) ∧
      s.grantedUnpolled 2 = true ∧ log .owned obs = [0, 1, 2] ∧ log .released obs = [0, 1] ∧
      s.owners.length ≤ 1 := by
  obtain ⟨s, obs, ran, granted, given, back⟩ : ∃ s obs, machine.run initial [.acquire, .acquire, .acquire,
        .poll 0 (.task 0), .poll 1 (.task 1), .poll 2 (.task 2), .dropGuard 0, .dropAcquire 1] = some (s, obs) ∧
      s.grantedUnpolled 2 = true ∧ log .owned obs = [0, 1, 2] ∧ log .released obs = [0, 1] :=
    ⟨_, _, rfl, by decide, by decide, by decide⟩
  exact ⟨s, obs, ran, granted, given, back, (lock_mutual_exclusion_and_fairness ran).1⟩

end Rustdv.Lock
