import Mathlib.Data.List.Basic
import Rustdv.Machine.Run
import Rustdv.Model.Sync

/-! # Combinators of futures

A future may do anything when it is polled, and answer anything: it is a function of the waker and of an
environment, which holds its own state and all that it shares with the rest of the program. A combinator
is a future made of others. A poll of it comes out as a round: the polls it made, in order, and what it
answered, a panic being an answer of its own.
-/

namespace Rustdv.Combinators

universe u

variable {E : Type*} {T A B : Type u}

/-- A boxed future. -/
structure Fut (E T : Type*) where
  poll : Waker → E → Poll T × E
  /-- Its destructor. -/
  drop : E → E

/-- A poll of a combinator. -/
structure Round {Source : Type*} (Value : Source → Type u) (Output : Type*) where
  polls : List (Σ source, Poll (Value source))
  answer : Except String (Poll Output)

def Round.isPending {Source : Type*} {Value : Source → Type u} {Output : Type*} (round : Round Value Output) : Bool :=
  match round.answer with
  | .ok .pending => true
  | _ => false

section JoinAll

structure JoinAll (E : Type*) (T : Type u) where
  futs : List (Option (Fut E T))
  out : List (Option T)

def joinAll (futs : List (Fut E T)) : JoinAll E T := ⟨futs.map some, List.replicate futs.length none⟩

/-- What the loop over the futures changes besides their slots. -/
structure Loop (E : Type*) (T : Type u) where
  out : List (Option T)
  allDone : Bool
  env : E

/-- The body of the loop, for the slot at index `i`. A finished future is dropped. -/
def pollSlot (waker : Waker) (i : ℕ) (slot : Option (Fut E T)) (st : Loop E T) :
    Option (Fut E T) × Loop E T × List (Σ _ : ℕ, Poll T) :=
  match slot with
  | none => (none, st, [])
  | some f =>
      match f.poll waker st.env with
      | (.ready v, env) => (none, { st with out := st.out.set i (some v), env := f.drop env }, [⟨i, .ready v⟩])
      | (.pending, env) => (some f, { st with allDone := false, env }, [⟨i, .pending⟩])

/-- The loop, from the slot at index `i` on. -/
def pollSlots (waker : Waker) : ℕ → List (Option (Fut E T)) → Loop E T →
    List (Option (Fut E T)) × Loop E T × List (Σ _ : ℕ, Poll T)
  | _, [], st => ([], st, [])
  | i, slot :: slots, st =>
      let (slot, next, first) := pollSlot waker i slot st
      let (slots, last, later) := pollSlots waker (i + 1) slots next
      (slot :: slots, last, first ++ later)

/-- `out.iter_mut().map(|o| o.take().unwrap()).collect()`: what is left of `out`, and the values. -/
def takeAll : List (Option T) → List (Option T) × Except String (List T)
  | [] => ([], .ok [])
  | none :: out => (none :: out, .error "called `Option::unwrap()` on a `None` value")
  | some v :: out =>
      let (rest, values) := takeAll out
      (none :: rest, values.map (v :: ·))

/-- `JoinAll::poll`. -/
def JoinAll.poll (waker : Waker) (self : JoinAll E T) (env : E) :
    JoinAll E T × E × Round (fun _ : ℕ => T) (List T) :=
  let (futs, st, polls) := pollSlots waker 0 self.futs ⟨self.out, true, env⟩
  if st.allDone then
    let (out, values) := takeAll st.out
    (⟨futs, out⟩, st.env, ⟨polls, values.map .ready⟩)
  else (⟨futs, st.out⟩, st.env, ⟨polls, .ok .pending⟩)

end JoinAll

section Pairs

/-- The futures of a combinator of two. -/
inductive Side where
  | a
  | b
deriving DecidableEq, Repr

abbrev Side.Value (A B : Type u) : Side → Type u
  | .a => A
  | .b => B

structure Join2 (E : Type*) (A B : Type u) where
  a : Fut E A
  b : Fut E B
  ra : Option A
  rb : Option B

def join2 (a : Fut E A) (b : Fut E B) : Join2 E A B := ⟨a, b, none, none⟩

/-- A poll of a future whose result is not there yet. -/
def pollUnless (waker : Waker) (fut : Fut E T) (result : Option T) (env : E) : Option T × E × Option (Poll T) :=
  match result with
  | some v => (some v, env, none)
  | none =>
      match fut.poll waker env with
      | (.ready v, env) => (some v, env, some (.ready v))
      | (.pending, env) => (none, env, some .pending)

/-- `Join2::poll`. -/
def Join2.poll (waker : Waker) (self : Join2 E A B) (env : E) :
    Join2 E A B × E × Round (Side.Value A B) (A × B) :=
  let (ra, mid, first) := pollUnless waker self.a self.ra env
  let (rb, last, second) := pollUnless waker self.b self.rb mid
  let polls : List (Σ side, Poll (Side.Value A B side)) :=
    first.toList.map (Sigma.mk .a) ++ second.toList.map (Sigma.mk .b)
  match ra, rb with
  | some a, some b => ({ self with ra := none, rb := none }, last, ⟨polls, .ok (.ready (a, b))⟩)
  | ra, rb => ({ self with ra, rb }, last, ⟨polls, .ok .pending⟩)

inductive Either (A B : Type u) where
  | first (v : A)
  | second (v : B)
deriving DecidableEq, Repr

structure First2 (E : Type*) (A B : Type u) where
  a : Fut E A
  b : Fut E B

def first2 (a : Fut E A) (b : Fut E B) : First2 E A B := ⟨a, b⟩

/-- `First2::poll`. -/
def First2.poll (waker : Waker) (self : First2 E A B) (env : E) :
    First2 E A B × E × Round (Side.Value A B) (Either A B) :=
  match self.a.poll waker env with
  | (.ready v, env) => (self, env, ⟨[⟨.a, .ready v⟩], .ok (.ready (.first v))⟩)
  | (.pending, env) =>
      match self.b.poll waker env with
      | (.ready v, env) => (self, env, ⟨[⟨.a, .pending⟩, ⟨.b, .ready v⟩], .ok (.ready (.second v))⟩)
      | (.pending, env) => (self, env, ⟨[⟨.a, .pending⟩, ⟨.b, .pending⟩], .ok .pending⟩)

end Pairs

section Await

variable {Source Output F : Type*} {Value : Source → Type u}

/-- An awaited future, as long as it is pending, and the environment. -/
structure Await (F E : Type*) where
  fut : Option F
  env : E

inductive Action (E : Type*) where
  /-- The task that awaits is polled, for whatever reason. -/
  | poll (waker : Waker)
  /-- Anything else happens. -/
  | other (effect : E → E)

/-- Awaiting polls a future until it answers something else than pending. -/
def awaiting (poll : Waker → F → E → F × E × Round Value Output) :
    Machine (Await F E) (Action E) (Round Value Output) where
  step s
    | .poll waker => s.fut.map fun fut =>
        let (fut, env, round) := poll waker fut s.env
        (⟨if round.isPending then some fut else none, env⟩, [round])
    | .other effect => some ({ s with env := effect s.env }, [])

end Await

end Rustdv.Combinators
