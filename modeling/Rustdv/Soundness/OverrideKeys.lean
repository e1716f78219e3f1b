import Rustdv.Model.RustType
import Rustdv.Soundness.Overrides

/-! # Which types share an override key

The key of a type is what stands behind the last path separator of its rendering. For a generic type with
a path among its arguments this is the end of that rendering, from the last argument with a path on, and
the identifier of the type itself is not in it. From the end one can read back what it was rendered from:
types share a key exactly when their arguments end alike.
-/

namespace Rustdv.Component

open Config (allStars)
open SortBy

/-- The last argument with a path, without the path, and the arguments that follow it on each level. -/
structure Closing where
  ident : Ident
  args : TypeArgs
  after : List TypeArgs

def Closing.chars (c : Closing) : List Char :=
  c.ident.chars ++ c.args.chars ++ c.after.flatMap fun rest => rest.tail ++ ['>']

/-- How the arguments end, if there is a path among them. -/
def TypeArgs.closing : TypeArgs → Option Closing
  | .nil => none
  | .cons module ident args rest =>
      match rest.closing with
      | some c => some c
      | none =>
          match args.closing with
          | some c => some ⟨c.ident, c.args, c.after ++ [rest]⟩
          | none => if module.isEmpty then none else some ⟨ident, args, [rest]⟩

section Cut

open RustType (lastPart untilSeparator)

theorem untilSeparator_append {l : List Char} (plain : ':' ∉ l) (more : List Char) :
    untilSeparator (l ++ ':' :: ':' :: more) = l := by
  induction l with
  | nil => rfl
  | cons c l ih =>
    rw [List.mem_cons, not_or] at plain
    rw [List.cons_append, untilSeparator, ih plain.2]
    rintro rest rfl -
    exact plain.1 rfl

theorem untilSeparator_of_plain {l : List Char} (plain : ':' ∉ l) : untilSeparator l = l := by
  induction l with
  | nil => rfl
  | cons c l ih =>
    rw [List.mem_cons, not_or] at plain
    rw [untilSeparator, ih plain.2]
    rintro rest rfl -
    exact plain.1 rfl

theorem lastPart_append {l : List Char} (plain : ':' ∉ l) (front : List Char) :
    lastPart (front ++ ':' :: ':' :: l) = l := by
  have turned : (front ++ ':' :: ':' :: l).reverse = l.reverse ++ ':' :: ':' :: front.reverse := by simp
  rw [lastPart, turned, untilSeparator_append (by simpa using plain), List.reverse_reverse]

theorem lastPart_of_plain {l : List Char} (plain : ':' ∉ l) : lastPart l = l := by
  rw [lastPart, untilSeparator_of_plain (by simpa using plain), List.reverse_reverse]

theorem Ident.colon_not_mem (i : Ident) : ':' ∉ i.chars := fun member => i.plain _ member (by simp)

/-- A module path ends in a separator. -/
theorem pathChars_eq {module : List Ident} (some_path : module ≠ []) :
    ∃ front, pathChars module = front ++ [':', ':'] := by
  induction module with
  | nil => exact absurd rfl some_path
  | cons m module ih =>
    by_cases empty : module = []
    · subst empty
      exact ⟨m.chars, rfl⟩
    · obtain ⟨front, same⟩ := ih empty
      exact ⟨m.chars ++ ':' :: ':' :: front, by simp [pathChars, same]⟩

/-- Arguments in brackets, and behind others. -/
theorem TypeArgs.chars_eq (args : TypeArgs) :
    (args.chars = [] ∧ args.tail = []) ∨ ∃ inner, args.chars = '<' :: (inner ++ ['>']) ∧ args.tail = ',' :: ' ' :: inner := by
  cases args with
  | nil => exact .inl ⟨rfl, rfl⟩
  | cons module ident args rest => exact .inr ⟨_, rfl, rfl⟩

theorem TypeArgs.colon_mem_iff (args : TypeArgs) : ':' ∈ args.chars ↔ ':' ∈ args.tail := by
  rcases args.chars_eq with ⟨same, same'⟩ | ⟨inner, same, same'⟩ <;> simp [same, same']

/-- The end of the arguments is what is rendered behind their last path. -/
theorem TypeArgs.closing_spec (args : TypeArgs) :
    (args.closing = none → ':' ∉ args.tail) ∧
    ∀ c, args.closing = some c → ':' ∉ c.chars ∧ c.after ≠ [] ∧
      ∃ front, args.tail ++ ['>'] = ',' :: ' ' :: (front ++ ':' :: ':' :: c.chars) := by
  induction args with
  | nil => exact ⟨fun _ => List.not_mem_nil, fun _ absent => (nomatch absent)⟩
  | cons module ident args rest inside behind =>
    simp only [closing]
    cases later : rest.closing with
    | some c =>
      refine ⟨fun absent => (nomatch absent), ?_⟩
      rintro _ ⟨⟩
      obtain ⟨plain, levels, front, same⟩ := behind.2 c later
      refine ⟨plain, levels, pathChars module ++ ident.chars ++ args.chars ++ ',' :: ' ' :: front, ?_⟩
      simp only [tail, List.append_assoc, List.cons_append, same]
    | none =>
      have rest_plain := behind.1 later
      cases inner : args.closing with
      | some c =>
        refine ⟨fun absent => (nomatch absent), ?_⟩
        rintro _ ⟨⟩
        obtain ⟨plain, levels, front, same⟩ := inside.2 c inner
        have chars : (⟨c.ident, c.args, c.after ++ [rest]⟩ : Closing).chars = c.chars ++ (rest.tail ++ ['>']) := by
          simp [Closing.chars]
        refine ⟨by simp [chars, plain, rest_plain], by simp, pathChars module ++ ident.chars ++ '<' :: front, ?_⟩
        rcases args.chars_eq with ⟨-, none_inside⟩ | ⟨text, angled, listed⟩
        · simp [none_inside] at same
        · have cut : text ++ ['>'] = front ++ ':' :: ':' :: c.chars := by simpa [listed] using same
          simp only [tail, angled, chars, List.append_assoc, List.cons_append, cut]
      | none =>
        have args_plain : ':' ∉ args.chars := (args.colon_mem_iff).not.mpr (inside.1 inner)
        cases module with
        | nil =>
          refine ⟨fun _ => ?_, fun _ absent => (nomatch absent)⟩
          simp [tail, pathChars, ident.colon_not_mem, args_plain, rest_plain]
        | cons m module =>
          refine ⟨fun absent => (nomatch absent), ?_⟩
          rintro _ ⟨⟩
          obtain ⟨front, same⟩ := pathChars_eq (List.cons_ne_nil m module)
          refine ⟨?_, List.cons_ne_nil _ _, front, ?_⟩
          · simp [Closing.chars, ident.colon_not_mem, args_plain, rest_plain]
          · simp [tail, Closing.chars, same]

/-- The key of a type is its rendering without the path, or the end of its arguments. -/
theorem lastPart_chars (t : RustType) :
    lastPart t.chars = t.args.closing.elim (t.ident.chars ++ t.args.chars) Closing.chars := by
  obtain ⟨none_inside, some_inside⟩ := t.args.closing_spec
  rw [RustType.chars, List.append_assoc]
  cases inner : t.args.closing with
  | none =>
    have plain : ':' ∉ t.ident.chars ++ t.args.chars := by
      rw [List.mem_append, not_or]
      exact ⟨t.ident.colon_not_mem, (t.args.colon_mem_iff).not.mpr (none_inside inner)⟩
    by_cases empty : t.module = []
    · rw [empty]
      exact lastPart_of_plain plain
    · obtain ⟨front, same⟩ := pathChars_eq empty
      rw [same, List.append_assoc]
      exact lastPart_append plain front
  | some c =>
    obtain ⟨plain, -, front, same⟩ := some_inside c inner
    rcases t.args.chars_eq with ⟨-, none_there⟩ | ⟨text, angled, listed⟩
    · simp [none_there] at same
    · have cut : text ++ ['>'] = front ++ ':' :: ':' :: c.chars := by simpa [listed] using same
      have whole : pathChars t.module ++ (t.ident.chars ++ t.args.chars) =
          (pathChars t.module ++ t.ident.chars ++ '<' :: front) ++ ':' :: ':' :: c.chars := by
        simp only [angled, cut, List.append_assoc, List.cons_append]
      rw [whole]
      exact lastPart_append plain _

end Cut

section Read

theorem Ident.ext {i j : Ident} (same : i.chars = j.chars) : i = j := by
  obtain ⟨text, plain⟩ := i
  obtain ⟨text', plain'⟩ := j
  obtain rfl : text = text' := String.toList_inj.mp same
  rfl

/-- The text is at its end, or goes on with one of these characters. -/
def GoesOn (with_one : List Char) (l : List Char) : Prop := ∀ c ∈ l.head?, c ∈ with_one

/-- An identifier reaches up to the next character that is not of an identifier. -/
theorem Ident.read {i j : Ident} {x y : List Char} (stops : GoesOn ['<', ',', '>'] x)
    (stops' : GoesOn ['<', ',', '>'] y) (same : i.chars ++ x = j.chars ++ y) : i = j ∧ x = y := by
  have within (k : Ident) {c : Char} (member : c ∈ k.chars) (stop : c ∈ ['<', ',', '>']) : False := by
    refine k.plain c member ?_
    simp only [List.mem_cons, List.not_mem_nil, or_false] at stop ⊢
    rcases stop with rfl | rfl | rfl <;> simp
  rcases List.append_eq_append_iff.mp same with ⟨more, whole, cut⟩ | ⟨more, whole, cut⟩
  · cases more with
    | nil => exact ⟨Ident.ext (by simpa using whole.symm), by simpa using cut⟩
    | cons c more => exact (within j (whole ▸ by simp) (stops c (by simp [cut]))).elim
  · cases more with
    | nil => exact ⟨Ident.ext (by simpa using whole), by simpa using cut.symm⟩
    | cons c more => exact (within i (whole ▸ by simp) (stops' c (by simp [cut]))).elim

theorem TypeArgs.tail_goesOn (args : TypeArgs) (x : List Char) : GoesOn [',', '>'] (args.tail ++ '>' :: x) := by
  cases args <;> simp [GoesOn, tail]

theorem TypeArgs.chars_goesOn (args : TypeArgs) {x : List Char} (more : GoesOn [',', '>'] x) :
    GoesOn ['<', ',', '>'] (args.chars ++ x) := by
  cases args with
  | nil => exact fun c first => List.mem_cons_of_mem _ (more c first)
  | cons module ident args rest => simp [GoesOn, chars]

/-- Without separators there are no module paths. -/
theorem module_eq_nil {module : List Ident} (plain : ':' ∉ pathChars module) : module = [] := by
  by_contra some_path
  obtain ⟨front, same⟩ := pathChars_eq some_path
  simp [same] at plain

/-- Arguments without paths can be read back, in brackets and behind others. -/
theorem TypeArgs.read (a : TypeArgs) :
    (∀ b : TypeArgs, ∀ {x y}, ':' ∉ a.chars → ':' ∉ b.chars → GoesOn [',', '>'] x → GoesOn [',', '>'] y →
      a.chars ++ x = b.chars ++ y → a = b ∧ x = y) ∧
    ∀ b : TypeArgs, ∀ {x y}, ':' ∉ a.tail → ':' ∉ b.tail → a.tail ++ '>' :: x = b.tail ++ '>' :: y → a = b ∧ x = y := by
  induction a with
  | nil =>
    constructor
    · intro b x y _ _ more _ same
      cases b with
      | nil => exact ⟨rfl, same⟩
      | cons module ident args rest =>
        have first := more '<' (by simp [show x = _ from same, chars])
        simp at first
    · intro b x y _ _ same
      cases b with
      | nil => exact ⟨rfl, (List.cons.inj same).2⟩
      | cons module ident args rest =>
        have first := (List.cons.inj same).1
        simp at first
  | cons module ident args rest inside behind =>
    -- what is common to both: an argument, and those behind it
    have both (module' : List Ident) (ident' : Ident) (args' rest' : TypeArgs) {x y : List Char}
        (plain : ':' ∉ pathChars module ++ ident.chars ++ args.chars ++ rest.tail)
        (plain' : ':' ∉ pathChars module' ++ ident'.chars ++ args'.chars ++ rest'.tail)
        (same : pathChars module ++ ident.chars ++ args.chars ++ rest.tail ++ '>' :: x =
          pathChars module' ++ ident'.chars ++ args'.chars ++ rest'.tail ++ '>' :: y) :
        cons module ident args rest = cons module' ident' args' rest' ∧ x = y := by
      simp only [List.mem_append, not_or] at plain plain'
      obtain ⟨⟨⟨no_path, -⟩, args_plain⟩, rest_plain⟩ := plain
      obtain ⟨⟨⟨no_path', -⟩, args_plain'⟩, rest_plain'⟩ := plain'
      obtain rfl := module_eq_nil no_path
      obtain rfl := module_eq_nil no_path'
      simp only [pathChars, List.nil_append, List.append_assoc] at same
      have goes := rest.tail_goesOn x
      have goes' := rest'.tail_goesOn y
      obtain ⟨rfl, from_args⟩ := Ident.read (args.chars_goesOn goes) (args'.chars_goesOn goes') same
      obtain ⟨rfl, from_rest⟩ := inside.1 args' args_plain args_plain' goes goes' from_args
      obtain ⟨rfl, rfl⟩ := behind.2 rest' rest_plain rest_plain' from_rest
      exact ⟨rfl, rfl⟩
    constructor
    · intro b x y plain plain' _ more' same
      cases b with
      | nil =>
        have first := more' '<' (by simp [← show _ = y from same, chars])
        simp at first
      | cons module' ident' args' rest' =>
        have cut {front l : List Char} (plain : ':' ∉ '<' :: (front ++ l ++ ['>'])) : ':' ∉ front ++ l := by
          intro member
          exact plain (List.mem_cons_of_mem _ (List.mem_append_left _ member))
        refine both module' ident' args' rest' (cut plain) (cut plain') ?_
        simpa [chars] using same
    · intro b x y plain plain' same
      cases b with
      | nil =>
        have first := (List.cons.inj same).1
        simp at first
      | cons module' ident' args' rest' =>
        simp only [tail, List.mem_cons, not_or] at plain plain'
        refine both module' ident' args' rest' plain.2.2 plain'.2.2 ?_
        simpa [tail] using same

/-- What follows the last path goes on with the next argument or ends a level. -/
theorem levels_goesOn (levels : List TypeArgs) :
    GoesOn [',', '>'] (levels.flatMap fun rest => rest.tail ++ ['>']) := by
  cases levels with
  | nil => simp [GoesOn]
  | cons rest levels =>
    have goes := rest.tail_goesOn (levels.flatMap fun rest => rest.tail ++ ['>'])
    simpa using goes

theorem levels_read {a b : List TypeArgs} (plain : ':' ∉ a.flatMap fun rest => rest.tail ++ ['>'])
    (plain' : ':' ∉ b.flatMap fun rest => rest.tail ++ ['>'])
    (same : (a.flatMap fun rest => rest.tail ++ ['>']) = b.flatMap fun rest => rest.tail ++ ['>']) : a = b := by
  induction a generalizing b with
  | nil =>
    cases b with
    | nil => rfl
    | cons rest b => simp at same
  | cons rest a ih =>
    cases b with
    | nil => simp at same
    | cons rest' b =>
      rw [List.flatMap_cons, List.mem_append, List.mem_append, not_or, not_or] at plain plain'
      have cut : rest.tail ++ '>' :: (a.flatMap fun rest => rest.tail ++ ['>']) =
          rest'.tail ++ '>' :: (b.flatMap fun rest => rest.tail ++ ['>']) := by simpa using same
      obtain ⟨rfl, later⟩ := rest.read.2 rest' plain.1.1 plain'.1.1 cut
      exact congrArg (rest :: ·) (ih plain.2 plain'.2 later)

/-- An end of arguments can be read back. -/
theorem Closing.chars_inj {c d : Closing} (plain : ':' ∉ c.chars) (plain' : ':' ∉ d.chars)
    (same : c.chars = d.chars) : c = d := by
  obtain ⟨ident, args, levels⟩ := c
  obtain ⟨ident', args', levels'⟩ := d
  simp only [Closing.chars, List.mem_append, not_or, List.append_assoc] at plain plain' same
  obtain ⟨rfl, from_args⟩ := Ident.read (args.chars_goesOn (levels_goesOn levels))
    (args'.chars_goesOn (levels_goesOn levels')) same
  obtain ⟨rfl, from_levels⟩ :=
    args.read.1 args' plain.2.1 plain'.2.1 (levels_goesOn levels) (levels_goesOn levels') from_args
  rw [levels_read plain.2.2 plain'.2.2 from_levels]

/-- It is not the rendering of a type without paths. -/
theorem Closing.chars_ne {c : Closing} {ident : Ident} {args : TypeArgs} (plain : ':' ∉ c.chars)
    (plain' : ':' ∉ args.chars) (levels : c.after ≠ []) : ident.chars ++ args.chars ≠ c.chars := by
  obtain ⟨ident', args', after⟩ := c
  intro same
  simp only [Closing.chars, List.mem_append, not_or, List.append_assoc] at plain same
  have ends : GoesOn [',', '>'] ([] : List Char) := by simp [GoesOn]
  have same' : ident.chars ++ (args.chars ++ []) =
      ident'.chars ++ (args'.chars ++ after.flatMap fun rest => rest.tail ++ ['>']) := by simpa using same
  obtain ⟨-, same'⟩ := Ident.read (args.chars_goesOn ends) (args'.chars_goesOn (levels_goesOn after)) same'
  obtain ⟨-, left_over⟩ := args.read.1 args' plain' plain.2.1 ends (levels_goesOn after) same'
  cases after with
  | nil => exact levels rfl
  | cons rest after => simp at left_over

end Read

section Keys

variable {s t : RustType}

/-- Types with different identifiers share a key exactly when their arguments end alike, with a path. -/
theorem compName_eq_iff (apart : s.ident ≠ t.ident) :
    s.compName = t.compName ↔ ∃ c, s.args.closing = some c ∧ t.args.closing = some c := by
  rw [RustType.compName, RustType.compName, String.ofList_inj, lastPart_chars, lastPart_chars]
  have plain_args (t : RustType) (none_inside : t.args.closing = none) : ':' ∉ t.args.chars :=
    (t.args.colon_mem_iff).not.mpr (t.args.closing_spec.1 none_inside)
  have spec (t : RustType) := t.args.closing_spec.2
  cases inner : s.args.closing with
  | none =>
    cases inner' : t.args.closing with
    | none =>
      simp only [Option.elim_none, reduceCtorEq, false_and, exists_false, iff_false]
      intro same
      have ends : GoesOn [',', '>'] ([] : List Char) := by simp [GoesOn]
      have whole : s.ident.chars ++ (s.args.chars ++ []) = t.ident.chars ++ (t.args.chars ++ []) := by simpa using same
      exact apart (Ident.read (s.args.chars_goesOn ends) (t.args.chars_goesOn ends) whole).1
    | some d =>
      obtain ⟨plain, levels, -⟩ := spec t d inner'
      simpa using Closing.chars_ne plain (plain_args s inner) levels
  | some c =>
    obtain ⟨plain, levels, -⟩ := spec s c inner
    cases inner' : t.args.closing with
    | none => simpa using (Closing.chars_ne plain (plain_args t inner') levels).symm
    | some d =>
      obtain ⟨plain', -⟩ := spec t d inner'
      simp only [Option.elim_some, Option.some.injEq]
      constructor
      · exact fun same => ⟨c, rfl, (Closing.chars_inj plain plain' same).symm⟩
      · rintro ⟨_, rfl, rfl⟩
        rfl

/-- A type without arguments is overridden under the name it is registered with. -/
theorem compName_of_registered {name : String} (known : s.registered = some name) : s.compName = name := by
  obtain ⟨module, ident, args⟩ := s
  cases args with
  | nil =>
    cases known
    rw [RustType.compName, lastPart_chars]
    simp [TypeArgs.closing, TypeArgs.chars, Ident.chars]
  | cons module' ident' args' rest => cases known

variable {κ V : Type*} {sort : (String × Config.Entry (Value κ V) → String × Config.Entry (Value κ V) → Bool) →
  List (String × Config.Entry (Value κ V)) → Option (List (String × Config.Entry (Value κ V)))}

/-- The key of a type with another identifier is different, is the registered name, and its overrides
replace nothing that the other type creates, exactly when the arguments of the two do not end alike. -/
theorem override_keys_identify_iff (apart : s.ident ≠ t.ident) :
    (s.compName ≠ t.compName ∧ (∀ name, s.registered = some name → s.compName = name) ∧
      ∀ (before later : List (Install κ V)) (i : Install κ V),
        (∃ target make, i = s.setTypeOverride target make ∨ ∃ ctx path, i = s.setInstOverride ctx path target make) →
        ∀ path field inner, resolve sort (installed (before ++ i :: later)) path (t.createComp field) inner =
          resolve sort (installed (before ++ later)) path (t.createComp field) inner) ↔
      ∀ c, s.args.closing = some c → t.args.closing ≠ some c := by
  constructor
  · rintro ⟨keys, -⟩ c inner inner'
    exact keys ((compName_eq_iff apart).mpr ⟨c, inner, inner'⟩)
  · intro ends
    have keys : s.compName ≠ t.compName := by
      rw [Ne, compName_eq_iff apart]
      rintro ⟨c, inner, inner'⟩
      exact ends c inner inner'
    refine ⟨keys, fun name => compName_of_registered, ?_⟩
    rintro before later i ⟨target, make, rfl | ⟨ctx, path, rfl⟩⟩ path' field inner
    · exact resolve_unmoved rfl keys path' field inner
    · exact resolve_unmoved rfl keys path' field inner

end Keys

/-- Two generic components for the same argument. -/
def wrap : RustType :=
  ⟨[⟨"tb", by simp⟩], ⟨"Wrap", by simp⟩, .cons [⟨"tb", by simp⟩] ⟨"Inner", by simp⟩ .nil .nil⟩

def shell : RustType :=
  ⟨[⟨"tb", by simp⟩], ⟨"Shell", by simp⟩, .cons [⟨"tb", by simp⟩] ⟨"Inner", by simp⟩ .nil .nil⟩

/-- The same component for an argument without a path. -/
def shellOfWord : RustType :=
  ⟨[⟨"tb", by simp⟩], ⟨"Shell", by simp⟩, .cons [] ⟨"u32", by simp⟩ .nil .nil⟩

theorem override_keys_identify_shellOfWord : wrap.compName ≠ shellOfWord.compName :=
  ((@override_keys_identify_iff wrap shellOfWord String Unit (fun _ l => some l) (by simp [wrap, shellOfWord])).mpr
    fun _ _ => by simp [shellOfWord, TypeArgs.closing]).1

/-- Both have the key `Inner>`, and an override for the one replaces the other. -/
theorem wrap_replaces_shell :
    Contract (fun less (l : List (String × Config.Entry (Value String Unit))) => some (insertionSort less l)) ∧
    wrap.ident ≠ shell.ident ∧ wrap.compName = "Inner>" ∧ shell.compName = "Inner>" ∧
    ∀ sort, Contract sort → resolve sort (installed [wrap.setTypeOverride (V := Unit) wrap (leaf "Loud")]) "test"
      (shell.createComp "dut") (some (leaf "Shell").1) =
        some (⟨"dut", .rustdvComp false (some "Inner>")⟩, some (leaf "Loud").1) := by
  have keys : wrap.compName = "Inner>" ∧ shell.compName = "Inner>" := by decide
  refine ⟨fun less l => returns_insertionSort less l, by simp [wrap, shell], keys.1, keys.2, ?_⟩
  intro sort keeps
  have log : overrides [.setTypeOverride (V := Unit) "Inner>" "Inner>" (leaf "Loud")] (childPath "test" "dut") "Inner>" =
      [⟨none, false, "*", overrideKey "Inner>", .override (leaf "Loud") "Inner>", overrideTypeName, overrideTypeId,
        "-> Inner>"⟩] := by rfl
  have stars : ∀ s ∈ overrides [.setTypeOverride (V := Unit) "Inner>" "Inner>" (leaf "Loud")] (childPath "test" "dut")
      "Inner>", allStars s.pattern = true := by
    rw [log]
    decide
  obtain ⟨s, ⟨front, back, cut, -⟩, node, resolved, make, target, builds, rfl⟩ := resolve_stars keeps
    (some (leaf "Shell").1) stars ⟨_, log ▸ List.mem_cons_self, rfl⟩ fun t member => by
      rw [log, List.mem_singleton] at member
      rw [member]
  rw [log] at cut
  obtain rfl := List.mem_singleton.mp (cut ▸ List.mem_append_right front List.mem_cons_self)
  cases builds
  rw [RustType.setTypeOverride, RustType.createComp, keys.1, keys.2]
  exact resolved

end Rustdv.Component
