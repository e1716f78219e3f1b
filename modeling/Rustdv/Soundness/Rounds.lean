import Rustdv.Model.Combinators
import Rustdv.ToMathlib.Grounded

/-! # Rounds of polls

What an awaited combinator did is a list of rounds. A join polls in every round whatever has not
yielded before, and it completes in the round after which everything has. A race completes in the round
in which something yields, and asks the second future only where the first is pending.
-/

namespace Rustdv.Combinators

open scoped Classical

universe u

variable {E : Type*} {A B : Type u}

section History

variable {Source Output F : Type*} {Value : Source → Type u}
variable {log before : List (Round Value Output)} {round : Round Value Output} {source : Source}

/-- What a source yielded in some round. -/
def Yielded (log : List (Round Value Output)) (source : Source) (v : Value source) : Prop :=
  ∃ round ∈ log, ⟨source, .ready v⟩ ∈ round.polls

def Finished (log : List (Round Value Output)) (source : Source) : Prop := ∃ v, Yielded log source v

theorem yielded_concat {v : Value source} :
    Yielded (log ++ [round]) source v ↔ Yielded log source v ∨ ⟨source, .ready v⟩ ∈ round.polls := by
  simp only [Yielded, List.mem_append, List.mem_singleton, or_and_right, exists_or, exists_eq_left]

/-- A round of a join of the sources, with the rounds before it. -/
structure JoinRound (sources : List Source) (output : Output → (source : Source) → Option (Value source))
    (before : List (Round Value Output)) (round : Round Value Output) : Prop where
  /-- It polls what is unfinished, each source once and in order. -/
  polled : round.polls.map Sigma.fst = sources.filter fun source => ¬ Finished before source
  completes_iff : (∃ result, round.answer = .ok (.ready result)) ↔
    ∀ source ∈ sources, Finished (before ++ [round]) source
  output_eq : ∀ result, round.answer = .ok (.ready result) →
    ∀ source v, output result source = some v ↔ Yielded (before ++ [round]) source v
  unpanicked : ∀ msg, round.answer ≠ .error msg

/-- A round of a race of two, with the rounds before it. -/
structure RaceRound (before : List (Round (Side.Value A B) (Either A B))) (round : Round (Side.Value A B) (Either A B)) :
    Prop where
  /-- It polls the first, and the second after it if the first is pending. -/
  polled_both : ⟨.a, .pending⟩ ∈ round.polls → round.polls.map Sigma.fst = [.a, .b]
  polled_first : ⟨.a, .pending⟩ ∉ round.polls → round.polls.map Sigma.fst = [.a]
  completes_iff : (∃ result, round.answer = .ok (.ready result)) ↔ ∃ side, Finished (before ++ [round]) side
  first_iff : ∀ v, round.answer = .ok (.ready (.first v)) ↔ Yielded (before ++ [round]) .a v
  second_iff : ∀ v, round.answer = .ok (.ready (.second v)) ↔ Yielded (before ++ [round]) .b v
  unpanicked : ∀ msg, round.answer ≠ .error msg

/-- Polls made one after the other: each is what its future answers in the environment that the one before
left, and a future that was ready is ended. -/
inductive Threaded (fut : (source : Source) → Option (Fut E (Value source))) (ended : Source → E → E) (waker : Waker) :
    E → List (Σ source, Poll (Value source)) → E → Prop where
  | nil (env : E) : Threaded fut ended waker env [] env
  | pending {source : Source} {f : Fut E (Value source)} {env mid last : E} {polls : List (Σ source, Poll (Value source))}
      (there : fut source = some f) (polled : f.poll waker env = (.pending, mid))
      (rest : Threaded fut ended waker mid polls last) : Threaded fut ended waker env (⟨source, .pending⟩ :: polls) last
  | ready {source : Source} {f : Fut E (Value source)} {v : Value source} {env mid last : E}
      {polls : List (Σ source, Poll (Value source))} (there : fut source = some f)
      (polled : f.poll waker env = (.ready v, mid)) (rest : Threaded fut ended waker (ended source mid) polls last) :
      Threaded fut ended waker env (⟨source, .ready v⟩ :: polls) last

/-- The rounds that the actions brought about, from one environment to another. -/
inductive Performed (fut : (source : Source) → Option (Fut E (Value source))) (ended : Source → E → E) :
    E → List (Action E) → List (Round Value Output) → E → Prop where
  | nil (env : E) : Performed fut ended env [] [] env
  | poll {waker : Waker} {env mid last : E} {round : Round Value Output} {actions : List (Action E)}
      {log : List (Round Value Output)} (threaded : Threaded fut ended waker env round.polls mid)
      (rest : Performed fut ended mid actions log last) :
      Performed fut ended env (.poll waker :: actions) (round :: log) last
  | other {effect : E → E} {env last : E} {actions : List (Action E)} {log : List (Round Value Output)}
      (rest : Performed fut ended (effect env) actions log last) :
      Performed fut ended env (.other effect :: actions) log last

section Threads

variable {fut : (source : Source) → Option (Fut E (Value source))} {ended : Source → E → E} {waker : Waker}

theorem Threaded.append {env mid last : E} {front back : List (Σ source, Poll (Value source))}
    (first : Threaded fut ended waker env front mid) (rest : Threaded fut ended waker mid back last) :
    Threaded fut ended waker env (front ++ back) last := by
  induction first with
  | nil => exact rest
  | pending there polled _ ih => exact .pending there polled (ih rest)
  | ready there polled _ ih => exact .ready there polled (ih rest)

end Threads

/-- The rounds of an awaited future: each fits the rounds before it, which left it pending. -/
structure Rounds (P : List (Round Value Output) → Round Value Output → Prop)
    (log : List (Round Value Output)) (s : Await F E) : Prop where
  grounded : log.Grounded fun before round =>
    (∀ earlier ∈ before, earlier.isPending) ∧ P before round
  /-- It is there to be polled as long as it is pending. -/
  live_iff : s.fut.isSome ↔ ∀ round ∈ log, round.isPending

variable {poll : Waker → F → E → F × E × Round Value Output}
variable {P : List (Round Value Output) → Round Value Output → Prop}

/-- What can happen to an awaited future: something else, or a poll. -/
theorem awaiting_cases {s t : Await F E} {a : Action E} {out : List (Round Value Output)}
    (stepped : (awaiting poll).step s a = some (t, out)) :
    (t.fut = s.fut ∧ out = []) ∨
      ∃ waker fut, s.fut = some fut ∧ out = [(poll waker fut s.env).2.2] ∧
        t.fut = if (poll waker fut s.env).2.2.isPending then some (poll waker fut s.env).1 else none := by
  cases a with
  | other effect =>
    cases stepped
    exact .inl ⟨rfl, rfl⟩
  | poll waker =>
    obtain ⟨fut, awaited, same⟩ := Option.map_eq_some_iff.mp stepped
    cases same
    exact .inr ⟨waker, fut, awaited, rfl, rfl⟩

/-- What a poll does to a pending future with some history, it does in every run. -/
theorem awaiting_rounds (inv : F → List (Round Value Output) → Prop) {fut : F} {env : E}
    {actions : List (Action E)} {s : Await F E} (initial : inv fut [])
    (preserved : ∀ {fut : F} {log : List (Round Value Output)} (waker : Waker) (env : E), inv fut log →
      P log (poll waker fut env).2.2 ∧ ((poll waker fut env).2.2.isPending →
        inv (poll waker fut env).1 (log ++ [(poll waker fut env).2.2])))
    (ran : (awaiting poll).run ⟨some fut, env⟩ actions = some (s, log)) :
    Rounds P log s ∧ ∀ fut, s.fut = some fut → inv fut log := by
  refine (awaiting poll).run_invariant_nil (fun s log => Rounds P log s ∧ ∀ fut, s.fut = some fut → inv fut log)
    ?_ ?_ ran
  · refine ⟨⟨List.grounded_nil, by simp⟩, ?_⟩
    rintro _ ⟨⟩
    exact initial
  · rintro s t seen out a ⟨⟨grounded, live⟩, holds⟩ stepped
    rcases awaiting_cases stepped with ⟨same, rfl⟩ | ⟨waker, fut, awaited, rfl, goes⟩
    · rw [List.append_nil]
      exact ⟨⟨grounded, by rw [same, live]⟩, by rwa [same]⟩
    · obtain ⟨fits, next⟩ := preserved waker s.env (holds fut awaited)
      have pending := live.mp (by simp [awaited])
      refine ⟨⟨grounded.concat ⟨pending, fits⟩, ?_⟩, ?_⟩
      · simp only [goes, List.mem_append, List.mem_singleton, or_imp, forall_and, forall_eq]
        split_ifs with more
        · simp only [Option.isSome_some, more, and_true, true_iff]
          exact pending
        · simp [more]
      · intro later goesOn
        rw [goes] at goesOn
        split_ifs at goesOn with more
        cases goesOn
        exact next more

/-- A combinator whose polls are threaded performs its rounds by them. -/
theorem awaiting_performed {source : (source : Source) → Option (Fut E (Value source))} {ended : Source → E → E}
    (inv : F → List (Round Value Output) → Prop)
    (preserved : ∀ {fut : F} {log : List (Round Value Output)} (waker : Waker) (env : E), inv fut log →
      (poll waker fut env).2.2.isPending → inv (poll waker fut env).1 (log ++ [(poll waker fut env).2.2]))
    (threaded : ∀ {fut : F} {log : List (Round Value Output)} (waker : Waker) (env : E), inv fut log →
      Threaded source ended waker env (poll waker fut env).2.2.polls (poll waker fut env).2.1)
    {actions : List (Action E)} {s t : Await F E} {past log : List (Round Value Output)}
    (holds : ∀ fut, s.fut = some fut → inv fut past) (ran : (awaiting poll).run s actions = some (t, log)) :
    Performed source ended s.env actions log t.env := by
  induction actions generalizing s past log with
  | nil =>
    cases ran
    exact .nil _
  | cons a actions ih =>
    obtain ⟨mid, out, later, stepped, rest, rfl⟩ := (awaiting poll).run_cons_eq_some_iff.mp ran
    cases a with
    | other effect =>
      cases stepped
      exact .other (ih (s := ⟨s.fut, effect s.env⟩) holds rest)
    | poll waker =>
      obtain ⟨fut, awaited, same⟩ := Option.map_eq_some_iff.mp stepped
      cases same
      have next (later : F) (goesOn : (if (poll waker fut s.env).2.2.isPending then
          some (poll waker fut s.env).1 else none) = some later) : inv later (past ++ [(poll waker fut s.env).2.2]) := by
        split_ifs at goesOn with more
        cases goesOn
        exact preserved waker s.env (holds fut awaited) more
      exact .poll (threaded waker s.env (holds fut awaited)) (ih next rest)

/-- A join, whole: its rounds, and that a source is polled at most once in a round and not again after it
has yielded. -/
structure Joins (sources : List Source) (output : Output → (source : Source) → Option (Value source))
    (log : List (Round Value Output)) (s : Await F E) : Prop where
  rounds : Rounds (JoinRound sources output) log s
  nodup : ∀ round ∈ log, (round.polls.map Sigma.fst).Nodup
  not_again : ∀ before round after source v, log = before ++ round :: after → ⟨source, .ready v⟩ ∈ round.polls →
    ∀ later ∈ after, source ∉ later.polls.map Sigma.fst

theorem Rounds.joins {sources : List Source} {output : Output → (source : Source) → Option (Value source)}
    {s : Await F E} (distinct : sources.Nodup) (rounds : Rounds (JoinRound sources output) log s) :
    Joins sources output log s where
  rounds := rounds
  nodup := by
    intro round mem
    obtain ⟨before, after, rfl⟩ := List.append_of_mem mem
    rw [(rounds.grounded before round after rfl).2.polled]
    exact distinct.filter _
  not_again := by
    rintro before round after source v rfl yielded later mem polled
    obtain ⟨mid, rest, rfl⟩ := List.append_of_mem mem
    have fits := (rounds.grounded (before ++ round :: mid) later rest (by simp)).2
    rw [fits.polled, List.mem_filter, decide_eq_true_iff] at polled
    apply polled.2
    exact ⟨v, round, by simp, yielded⟩

end History

end Rustdv.Combinators
