import Rustdv.Soundness.Joining

/-! # Joining and racing

Joins of two and of any number, and races, do what their rounds are specified to do: of futures of any
behaviour, polled at any time and in any environment.
-/

namespace Rustdv.Combinators

open scoped Classical

universe u

variable {E : Type*} {T A B : Type u}

section Pairs

variable {waker : Waker} {a : Fut E A} {b : Fut E B}
variable {log : List (Round (Side.Value A B) (A × B))}

/-- The outputs of a join of two. -/
def both (result : A × B) : (side : Side) → Option (Side.Value A B side)
  | .a => some result.1
  | .b => some result.2

theorem pollUnless_polled (waker : Waker) (fut : Fut E T) (result : Option T) (env : E) :
    (pollUnless waker fut result env).2.2.isSome ↔ result = none := by
  cases result with
  | some v => simp [pollUnless]
  | none =>
    simp only [pollUnless]
    split <;> simp

theorem pollUnless_result (waker : Waker) (fut : Fut E T) (result : Option T) (env : E) (v : T) :
    (pollUnless waker fut result env).1 = some v ↔
      result = some v ∨ (pollUnless waker fut result env).2.2 = some (.ready v) := by
  cases result with
  | some w => simp [pollUnless]
  | none =>
    simp only [pollUnless]
    split <;> simp

/-- A result is stored from the round on in which it is there. -/
structure Stored (a : Fut E A) (b : Fut E B) (join : Join2 E A B) (log : List (Round (Side.Value A B) (A × B))) :
    Prop where
  a_eq : join.a = a
  b_eq : join.b = b
  a_iff : ∀ v : A, join.ra = some v ↔ Yielded log .a v
  b_iff : ∀ v : B, join.rb = some v ↔ Yielded log .b v

theorem stored_join2 : Stored a b (join2 a b) [] where
  a_eq := rfl
  b_eq := rfl
  a_iff := by simp [join2, Yielded]
  b_iff := by simp [join2, Yielded]

/-- The polls of a round, of the first future and of the second. -/
def pairPolls (first : Option (Poll A)) (second : Option (Poll B)) : List (Σ side, Poll (Side.Value A B side)) :=
  first.toList.map (Sigma.mk .a) ++ second.toList.map (Sigma.mk .b)

theorem mem_pairPolls_a {first : Option (Poll A)} {second : Option (Poll B)} {answer : Poll A} :
    ⟨.a, answer⟩ ∈ pairPolls first second ↔ first = some answer := by
  simp [pairPolls]

theorem mem_pairPolls_b {first : Option (Poll A)} {second : Option (Poll B)} {answer : Poll B} :
    ⟨.b, answer⟩ ∈ pairPolls first second ↔ second = some answer := by
  simp [pairPolls]

theorem pairPolls_fst {first : Option (Poll A)} {second : Option (Poll B)} :
    (pairPolls first second).map Sigma.fst =
      (if first.isSome then [.a] else []) ++ if second.isSome then [.b] else [] := by
  cases first <;> cases second <;> rfl

theorem Stored.polled {join : Join2 E A B} (stored : Stored a b join log) {first : Option (Poll A)}
    {second : Option (Poll B)} (onA : first.isSome ↔ join.ra = none) (onB : second.isSome ↔ join.rb = none) :
    (pairPolls first second).map Sigma.fst = [.a, .b].filter fun side => ¬ Finished log side := by
  have a_finished : Finished log .a ↔ join.ra ≠ none := by
    rw [Option.ne_none_iff_exists']
    exact exists_congr fun v => (stored.a_iff v).symm
  have b_finished : Finished log .b ↔ join.rb ≠ none := by
    rw [Option.ne_none_iff_exists']
    exact exists_congr fun v => (stored.b_iff v).symm
  simp only [pairPolls_fst, onA, onB, List.filter_cons, a_finished, b_finished, not_not, decide_eq_true_iff,
    List.filter_nil]
  split_ifs <;> rfl

theorem join2_poll {join : Join2 E A B} {env : E} (stored : Stored a b join log) :
    JoinRound [.a, .b] both log (join.poll waker env).2.2 ∧
      ((join.poll waker env).2.2.isPending →
        Stored a b (join.poll waker env).1 (log ++ [(join.poll waker env).2.2])) := by
  simp only [Join2.poll]
  have aPolled := pollUnless_polled waker join.a join.ra env
  have aResult := pollUnless_result waker join.a join.ra env
  generalize pollUnless waker join.a join.ra env = onA at aPolled aResult ⊢
  obtain ⟨ra, mid, first⟩ := onA
  have bPolled := pollUnless_polled waker join.b join.rb mid
  have bResult := pollUnless_result waker join.b join.rb mid
  generalize pollUnless waker join.b join.rb mid = onB at bPolled bResult ⊢
  obtain ⟨rb, last, second⟩ := onB
  simp only at aPolled aResult bPolled bResult ⊢
  have polled := stored.polled aPolled bPolled
  -- A result is stored after the round precisely where its future has yielded by then.
  have aYielded (answer : Except String (Poll (A × B))) (v : A) :
      Yielded (log ++ [⟨pairPolls first second, answer⟩]) .a v ↔ ra = some v := by
    rw [yielded_concat, ← stored.a_iff, mem_pairPolls_a, aResult]
  have bYielded (answer : Except String (Poll (A × B))) (v : B) :
      Yielded (log ++ [⟨pairPolls first second, answer⟩]) .b v ↔ rb = some v := by
    rw [yielded_concat, ← stored.b_iff, mem_pairPolls_b, bResult]
  split
  · next a b =>
    refine ⟨⟨polled, ?_, ?_, ?_⟩, ?_⟩
    · refine iff_of_true ⟨_, rfl⟩ ?_
      rintro (_ | _) -
      · exact ⟨a, (aYielded _ a).mpr rfl⟩
      · exact ⟨b, (bYielded _ b).mpr rfl⟩
    · rintro _ ⟨⟩ side v
      cases side with
      | a => exact (aYielded _ v).symm
      | b => exact (bYielded _ v).symm
    · rintro _ ⟨⟩
    · rintro ⟨⟩
  · next absent =>
    refine ⟨⟨polled, ?_, ?_, ?_⟩, fun _ =>
      ⟨stored.a_eq, stored.b_eq, fun v => (aYielded _ v).symm, fun v => (bYielded _ v).symm⟩⟩
    · refine iff_of_false (by rintro ⟨_, ⟨⟩⟩) ?_
      intro finished
      obtain ⟨a, aThere⟩ := finished .a (by simp)
      obtain ⟨b, bThere⟩ := finished .b (by simp)
      exact absent a b ((aYielded _ a).mp aThere) ((bYielded _ b).mp bThere)
    · rintro _ ⟨⟩
    · rintro _ ⟨⟩

/-- The two futures by their sides. -/
def pair (a : Fut E A) (b : Fut E B) : (side : Side) → Option (Fut E (Side.Value A B side))
  | .a => some a
  | .b => some b

/-- The futures of a pair stay until the pair is dropped. -/
def keep (_ : Side) (env : E) : E := env

/-- What `pollUnless` polls is threaded, for the future on either side. -/
theorem pollUnless_threaded {Value : Side → Type u} {fut : (side : Side) → Option (Fut E (Value side))} {side : Side}
    {f : Fut E (Value side)} (there : fut side = some f) (waker : Waker) (result : Option (Value side)) (env : E) :
    Threaded fut keep waker env ((pollUnless waker f result env).2.2.toList.map (Sigma.mk side))
      (pollUnless waker f result env).2.1 := by
  cases result with
  | some v => exact .nil _
  | none =>
    rcases answered : f.poll waker env with ⟨v | _, mid⟩
    · simp only [pollUnless, answered]
      exact .ready there answered (.nil _)
    · simp only [pollUnless, answered]
      exact .pending there answered (.nil _)

theorem join2_threaded {join : Join2 E A B} (stored : Stored a b join log) (waker : Waker) (env : E) :
    Threaded (pair a b) keep waker env (join.poll waker env).2.2.polls (join.poll waker env).2.1 := by
  have first := @pollUnless_threaded E (Side.Value A B) (pair a b) .a a rfl waker join.ra env
  have second := @pollUnless_threaded E (Side.Value A B) (pair a b) .b b rfl waker join.rb
    (pollUnless waker a join.ra env).2.1
  rw [← stored.a_eq, ← stored.b_eq] at first second ⊢
  simp only [Join2.poll]
  split <;> exact first.append second

/-- As long as a race goes on nothing has yielded. -/
structure Undecided (a : Fut E A) (b : Fut E B) (race : First2 E A B)
    (log : List (Round (Side.Value A B) (Either A B))) : Prop where
  race_eq : race = first2 a b
  unfinished : ∀ side, ¬ Finished log side

section Race

variable {race : First2 E A B} {log : List (Round (Side.Value A B) (Either A B))}
variable {round : Round (Side.Value A B) (Either A B)}

theorem Undecided.yielded_iff (undecided : Undecided a b race log) {side : Side} {v : Side.Value A B side} :
    Yielded (log ++ [round]) side v ↔ ⟨side, .ready v⟩ ∈ round.polls := by
  rw [yielded_concat]
  exact or_iff_right fun yielded => undecided.unfinished side ⟨v, yielded⟩

theorem Undecided.exists_finished_iff (undecided : Undecided a b race log) :
    (∃ side, Finished (log ++ [round]) side) ↔
      (∃ v : A, ⟨.a, .ready v⟩ ∈ round.polls) ∨ ∃ v : B, ⟨.b, .ready v⟩ ∈ round.polls := by
  simp only [Finished, undecided.yielded_iff]
  constructor
  · rintro ⟨_ | _, v, polled⟩
    · exact .inl ⟨v, polled⟩
    · exact .inr ⟨v, polled⟩
  · rintro (⟨v, polled⟩ | ⟨v, polled⟩)
    · exact ⟨.a, v, polled⟩
    · exact ⟨.b, v, polled⟩

theorem first2_poll {env : E} (undecided : Undecided a b race log) :
    RaceRound log (race.poll waker env).2.2 ∧
      ((race.poll waker env).2.2.isPending →
        Undecided a b (race.poll waker env).1 (log ++ [(race.poll waker env).2.2])) := by
  simp only [First2.poll]
  split
  · -- The first is ready.
    refine ⟨⟨?_, ?_, ?_, ?_, ?_, ?_⟩, by rintro ⟨⟩⟩
    · simp
    · simp
    · simp [undecided.exists_finished_iff]
    · simp [undecided.yielded_iff, eq_comm]
    · simp [undecided.yielded_iff]
    · simp
  · split
    · -- The second is.
      refine ⟨⟨?_, ?_, ?_, ?_, ?_, ?_⟩, by rintro ⟨⟩⟩
      · simp
      · simp
      · simp [undecided.exists_finished_iff]
      · simp [undecided.yielded_iff]
      · simp [undecided.yielded_iff, eq_comm]
      · simp
    · refine ⟨⟨?_, ?_, ?_, ?_, ?_, ?_⟩, fun _ => ⟨undecided.race_eq, ?_⟩⟩
      · simp
      · simp
      · simp [undecided.exists_finished_iff]
      · simp [undecided.yielded_iff]
      · simp [undecided.yielded_iff]
      · simp
      · rw [← not_exists, undecided.exists_finished_iff]
        simp

theorem first2_threaded (undecided : Undecided a b race log) (waker : Waker) (env : E) :
    Threaded (pair a b) keep waker env (race.poll waker env).2.2.polls (race.poll waker env).2.1 := by
  obtain rfl := undecided.race_eq
  simp only [First2.poll, first2]
  rcases onA : a.poll waker env with ⟨v | _, mid⟩
  · exact .ready rfl onA (.nil _)
  · rcases onB : b.poll waker mid with ⟨v | _, last⟩
    · simp only [onB]
      exact .pending rfl onA (.ready rfl onB (.nil _))
    · simp only [onB]
      exact .pending rfl onA (.pending rfl onB (.nil _))

end Race

end Pairs

/-- Joins and races of any futures, awaited in any environment. What a round says of a future is what its
poll answered in the environment that the poll before it had left. -/
theorem combinators_correct :
    (∀ (futs : List (Fut E T)) (env : E) (actions : List (Action E)) (s : Await (JoinAll E T) E)
        (log : List (Round (fun _ : ℕ => T) (List T))),
      (awaiting JoinAll.poll).run ⟨some (joinAll futs), env⟩ actions = some (s, log) →
        Joins (List.range futs.length) (fun values i => values[i]?) log s ∧
          Performed (fun i => futs[i]?) (dropOf futs) env actions log s.env ∧
          ∀ join, s.fut = some join → Slots futs join log) ∧
    (∀ (a : Fut E A) (b : Fut E B) (env : E) (actions : List (Action E)) (s : Await (Join2 E A B) E)
        (log : List (Round (Side.Value A B) (A × B))),
      (awaiting Join2.poll).run ⟨some (join2 a b), env⟩ actions = some (s, log) →
        Joins [.a, .b] both log s ∧ Performed (pair a b) keep env actions log s.env ∧
          ∀ join, s.fut = some join → Stored a b join log) ∧
    (∀ (a : Fut E A) (b : Fut E B) (env : E) (actions : List (Action E)) (s : Await (First2 E A B) E)
        (log : List (Round (Side.Value A B) (Either A B))),
      (awaiting First2.poll).run ⟨some (first2 a b), env⟩ actions = some (s, log) →
        Rounds RaceRound log s ∧ Performed (pair a b) keep env actions log s.env ∧
          ∀ race, s.fut = some race → Undecided a b race log) := by
  refine ⟨?_, ?_, ?_⟩
  · intro futs env actions s log ran
    obtain ⟨rounds, slots⟩ := awaiting_rounds (Slots futs) slots_joinAll (fun _ _ => joinAll_poll) ran
    have performed := awaiting_performed (Slots futs) (fun _ _ slots => (joinAll_poll slots).2)
      (fun waker env slots => joinAll_threaded slots waker env) (by rintro _ ⟨⟩; exact slots_joinAll) ran
    exact ⟨rounds.joins List.nodup_range, performed, slots⟩
  · intro a b env actions s log ran
    obtain ⟨rounds, stored⟩ := awaiting_rounds (Stored a b) stored_join2 (fun _ _ => join2_poll) ran
    have performed := awaiting_performed (Stored a b) (fun _ _ stored => (join2_poll stored).2)
      (fun waker env stored => join2_threaded stored waker env) (by rintro _ ⟨⟩; exact stored_join2) ran
    exact ⟨rounds.joins (by simp), performed, stored⟩
  · intro a b env actions s log ran
    have undecided : Undecided a b (first2 a b) [] := ⟨rfl, by simp [Finished, Yielded]⟩
    obtain ⟨rounds, going⟩ := awaiting_rounds (Undecided a b) undecided (fun _ _ => first2_poll) ran
    have performed := awaiting_performed (Undecided a b) (fun _ _ undecided => (first2_poll undecided).2)
      (fun waker env undecided => first2_threaded undecided waker env) (by rintro _ ⟨⟩; exact undecided) ran
    exact ⟨rounds, performed, going⟩

/-- A future that counts its polls in the environment and is ready with `v` once this has come to `start`. -/
def readyFrom (start v : ℕ) : Fut ℕ ℕ := ⟨fun _ env => (if start ≤ env then .ready v else .pending, env + 1), (· + 10)⟩

/-- The task is polled, something else happens, and the task is polled again. -/
def polledTwice : List (Action ℕ) := [.poll (.task 1), .other Nat.succ, .poll (.task 1)]

def joinAllLate : List (Round (fun _ : ℕ => ℕ) (List ℕ)) :=
  [⟨[⟨0, .pending⟩, ⟨1, .ready 7⟩], .ok .pending⟩, ⟨[⟨0, .ready 8⟩], .ok (.ready [8, 7])⟩]

def join2Late : List (Round (Side.Value ℕ ℕ) (ℕ × ℕ)) :=
  [⟨[⟨.a, .pending⟩, ⟨.b, .ready 7⟩], .ok .pending⟩, ⟨[⟨.a, .ready 8⟩], .ok (.ready (8, 7))⟩]

def first2Late : List (Round (Side.Value ℕ ℕ) (Either ℕ ℕ)) :=
  [⟨[⟨.a, .pending⟩, ⟨.b, .pending⟩], .ok .pending⟩, ⟨[⟨.a, .ready 8⟩], .ok (.ready (.first 8))⟩]

theorem combinators_correct_late :
    (Joins (List.range 2) (fun values i => values[i]?) joinAllLate (⟨none, 24⟩ : Await (JoinAll ℕ ℕ) ℕ) ∧
      Performed (fun i => [readyFrom 3 8, readyFrom 0 7][i]?) (dropOf [readyFrom 3 8, readyFrom 0 7]) 0 polledTwice
        joinAllLate 24) ∧
    (Joins [.a, .b] both join2Late (⟨none, 4⟩ : Await (Join2 ℕ ℕ ℕ) ℕ) ∧
      Performed (pair (readyFrom 3 8) (readyFrom 0 7)) keep 0 polledTwice join2Late 4) ∧
    Rounds (RaceRound (A := ℕ) (B := ℕ)) first2Late (⟨none, 4⟩ : Await (First2 ℕ ℕ ℕ) ℕ) ∧
      Performed (pair (readyFrom 3 8) (readyFrom 9 7)) keep 0 polledTwice first2Late 4 := by
  obtain ⟨joinAll, join2, first2⟩ := @combinators_correct ℕ ℕ ℕ ℕ
  have all := joinAll [readyFrom 3 8, readyFrom 0 7] 0 polledTwice ⟨none, 24⟩ joinAllLate rfl
  have two := join2 (readyFrom 3 8) (readyFrom 0 7) 0 polledTwice ⟨none, 4⟩ join2Late rfl
  have race := first2 (readyFrom 3 8) (readyFrom 9 7) 0 polledTwice ⟨none, 4⟩ first2Late rfl
  exact ⟨⟨all.1, all.2.1⟩, ⟨two.1, two.2.1⟩, race.1, race.2.1⟩

end Rustdv.Combinators
