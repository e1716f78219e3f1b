import Mathlib.Data.List.Basic
import Mathlib.Data.List.Count

/-! # Glob patterns with one wildcard

A pattern is a word in which one letter, the wildcard, stands for any word and every other letter for
itself. A pattern is itself a word, so patterns can be matched against patterns: one pattern matches
another exactly when it matches every word that the other matches. Letters may be spelled by a code
without changing what matches, if the code shows where a letter begins.
-/

namespace Glob

variable {α : Type*} [DecidableEq α] {wild : α}

/-- Give a part of the word to the wildcard, from none to all of it, and try the rest. -/
def star (rest : List α → Bool) : List α → Bool
  | [] => rest []
  | x :: word => rest (x :: word) || star rest word

/-- Take one given letter off the word and try the rest. -/
def letter (g : α) (rest : List α → Bool) : List α → Bool
  | [] => false
  | x :: word => decide (x = g) && rest word

/-- Whether the pattern matches the word. -/
def accepts (wild : α) : List α → List α → Bool
  | [] => List.isEmpty
  | g :: pattern => if g = wild then star (accepts wild pattern) else letter g (accepts wild pattern)

@[simp] theorem accepts_nil (word : List α) : accepts wild [] word = true ↔ word = [] := by
  simp [accepts]

omit [DecidableEq α] in
theorem star_eq_true_iff {rest : List α → Bool} {word : List α} :
    star rest word = true ↔ ∃ front back, word = front ++ back ∧ rest back = true := by
  induction word with
  | nil => simp [star]
  | cons x word ih =>
    simp only [star, Bool.or_eq_true, ih]
    constructor
    · rintro (now | ⟨front, back, rfl, later⟩)
      · exact ⟨[], x :: word, rfl, now⟩
      · exact ⟨x :: front, back, rfl, later⟩
    · rintro ⟨front, back, cut, later⟩
      cases front with
      | nil => exact .inl (cut ▸ later)
      | cons y front =>
        obtain ⟨rfl, rfl⟩ := List.cons.inj cut
        exact .inr ⟨front, back, rfl, later⟩

/-- The wildcard stands for any word. -/
theorem accepts_wild {pattern word : List α} :
    accepts wild (wild :: pattern) word = true ↔
      ∃ front back, word = front ++ back ∧ accepts wild pattern back = true := by
  rw [accepts, if_pos rfl, star_eq_true_iff]

/-- Any other letter stands for itself. -/
theorem accepts_letter {g : α} {pattern word : List α} (plain : g ≠ wild) :
    accepts wild (g :: pattern) word = true ↔ ∃ rest, word = g :: rest ∧ accepts wild pattern rest = true := by
  rw [accepts, if_neg plain]
  cases word with
  | nil => simp [letter]
  | cons x word =>
    simp only [letter, Bool.and_eq_true, decide_eq_true_eq, List.cons.injEq, and_assoc]
    exact ⟨fun ⟨same, rest⟩ => ⟨word, same, rfl, rest⟩, fun ⟨_, same, cut, rest⟩ => ⟨same, cut ▸ rest⟩⟩

/-- One letter more or less for the wildcard. -/
theorem accepts_wild_append {pattern word : List α} (front : List α)
    (found : accepts wild (wild :: pattern) word = true) :
    accepts wild (wild :: pattern) (front ++ word) = true := by
  obtain ⟨more, back, rfl, rest⟩ := accepts_wild.mp found
  exact accepts_wild.mpr ⟨front ++ more, back, (List.append_assoc ..).symm, rest⟩

/-- A pattern matches itself. -/
theorem accepts_self (pattern : List α) : accepts wild pattern pattern = true := by
  induction pattern with
  | nil => rfl
  | cons g pattern ih =>
    by_cases any : g = wild
    · subst any
      exact accepts_wild.mpr ⟨[g], pattern, rfl, ih⟩
    · exact (accepts_letter any).mpr ⟨pattern, rfl, ih⟩

/-- The words of a wildcard pattern that are matched after dropping what the wildcard took. -/
private theorem accepts_wild_of_accepts {p q word : List α}
    (within : ∀ word, accepts wild p word = true → accepts wild (wild :: q) word = true) (g : α)
    (found : accepts wild (g :: p) word = true) : accepts wild (wild :: q) word = true := by
  by_cases any : g = wild
  · subst any
    obtain ⟨front, back, rfl, rest⟩ := accepts_wild.mp found
    exact accepts_wild_append front (within back rest)
  · obtain ⟨rest, rfl, tail⟩ := (accepts_letter any).mp found
    exact accepts_wild_append [g] (within rest tail)

/-- What matches the pattern `p` matches all words of `p`. -/
theorem accepts_trans {p q word : List α} (general : accepts wild q p = true)
    (found : accepts wild p word = true) : accepts wild q word = true := by
  induction q generalizing p word with
  | nil =>
    obtain rfl := (accepts_nil p).mp general
    exact found
  | cons g q ih =>
    by_cases any : g = wild
    · subst any
      obtain ⟨front, back, rfl, rest⟩ := accepts_wild.mp general
      -- the letters that the wildcard of `q` takes from `p` are taken one by one
      induction front generalizing word with
      | nil => exact accepts_wild.mpr ⟨[], word, rfl, ih rest found⟩
      | cons x front step =>
        have within (word : List α) (found : accepts g (front ++ back) word = true) :
            accepts g (g :: q) word = true := step (accepts_wild.mpr ⟨front, back, rfl, rest⟩) found
        exact accepts_wild_of_accepts within x found
    · obtain ⟨rest, rfl, tail⟩ := (accepts_letter any).mp general
      obtain ⟨rest', rfl, tail'⟩ := (accepts_letter any).mp found
      exact (accepts_letter any).mpr ⟨rest', rfl, ih tail tail'⟩

section Fill

/-- The pattern with words in place of its wildcards. -/
def fill (wild : α) : List α → List (List α) → List α
  | [], _ => []
  | g :: pattern, words =>
      if g = wild then words.headD [] ++ fill wild pattern words.tail else g :: fill wild pattern words

/-- A pattern matches what results from it with some words in place of its wildcards. -/
theorem accepts_iff_fill {pattern word : List α} : accepts wild pattern word = true ↔
    ∃ words : List (List α), words.length = pattern.count wild ∧ word = fill wild pattern words := by
  induction pattern generalizing word with
  | nil =>
    rw [accepts_nil]
    exact ⟨fun empty => ⟨[], rfl, empty⟩, fun ⟨_, _, empty⟩ => empty⟩
  | cons g pattern ih =>
    by_cases any : g = wild
    · subst any
      simp only [accepts_wild, ih, List.count_cons_self, fill, if_pos]
      constructor
      · rintro ⟨front, back, rfl, words, count, rfl⟩
        exact ⟨front :: words, congrArg (· + 1) count, rfl⟩
      · rintro ⟨words, count, rfl⟩
        cases words with
        | nil => cases count
        | cons front words => exact ⟨front, _, rfl, words, Nat.succ.inj count, rfl⟩
    · simp only [accepts_letter any, ih, List.count_cons_of_ne any, fill, if_neg any]
      constructor
      · rintro ⟨rest, rfl, words, count, rfl⟩
        exact ⟨words, count, rfl⟩
      · rintro ⟨words, count, rfl⟩
        exact ⟨_, rfl, words, count, rfl⟩

/-- Renaming letters of the word that the pattern does not name. -/
theorem accepts_map {pattern : List α} {f : α → α} (word : List α)
    (apart : ∀ g ∈ pattern, g ≠ wild → ∀ x, f x = g ↔ x = g) :
    accepts wild pattern (word.map f) = accepts wild pattern word := by
  induction pattern generalizing word with
  | nil => simp [accepts]
  | cons g pattern ih =>
    have rest := fun word => ih word fun h member => apart h (List.mem_cons_of_mem _ member)
    by_cases any : g = wild
    · subst any
      rw [Bool.eq_iff_iff, accepts_wild, accepts_wild]
      constructor
      · rintro ⟨front, back, cut, matched⟩
        obtain ⟨front, back, rfl, rfl, rfl⟩ := List.map_eq_append_iff.mp cut
        exact ⟨front, back, rfl, rest back ▸ matched⟩
      · rintro ⟨front, back, rfl, matched⟩
        exact ⟨front.map f, back.map f, List.map_append, (rest back).symm ▸ matched⟩
    · have own := apart g List.mem_cons_self any
      rw [accepts, if_neg any]
      cases word with
      | nil => rfl
      | cons x word => simp only [List.map_cons, letter, rest, own]

end Fill

section Code

variable {β : Type*} [DecidableEq β] {wild' : β} {enc : α → List β} {first : β → Prop}

/-- Words for letters: each begins with a mark that stands nowhere else in it, and what follows a word
does not change how it is read. -/
structure Code (enc : α → List β) (first : β → Prop) : Prop where
  starts : ∀ a, ∃ b rest, enc a = b :: rest ∧ first b ∧ ∀ x ∈ rest, ¬ first x
  reads : ∀ a c x y, enc a ++ x = enc c ++ y → a = c

omit [DecidableEq α] [DecidableEq β] in
/-- The end of a coded word is the code of an end, behind the rest of a letter. -/
theorem Code.suffix (code : Code enc first) {word : List α} {front back : List β}
    (cut : word.flatMap enc = front ++ back) :
    ∃ rest word', back = rest ++ word'.flatMap enc ∧ (∃ early, word = early ++ word') ∧ ∀ x ∈ rest, ¬ first x := by
  induction word generalizing front with
  | nil =>
    obtain ⟨-, rfl⟩ := List.append_eq_nil_iff.mp cut.symm
    exact ⟨[], [], rfl, ⟨[], rfl⟩, by simp⟩
  | cons a word ih =>
    rw [List.flatMap_cons] at cut
    rcases List.append_eq_append_iff.mp cut with ⟨more, rfl, later⟩ | ⟨more, here, rfl⟩
    · obtain ⟨rest, word', same, ⟨early, rfl⟩, inner⟩ := ih later
      exact ⟨rest, word', same, ⟨a :: early, rfl⟩, inner⟩
    · cases front with
      | nil =>
        obtain rfl : enc a = more := here
        exact ⟨[], a :: word, rfl, ⟨[], rfl⟩, by simp⟩
      | cons y front =>
        obtain ⟨b, tail, same, -, inner⟩ := code.starts a
        obtain ⟨-, rfl⟩ := List.cons.inj (same.symm.trans here)
        exact ⟨more, word, rfl, ⟨[a], rfl⟩, fun x member => inner x (List.mem_append_right _ member)⟩

omit [DecidableEq α] [DecidableEq β] in
/-- The mark of the wildcard stands in no other letter. -/
theorem Code.plain (code : Code enc first) (single : enc wild = [wild']) {g : α} (other : g ≠ wild) :
    wild' ∉ enc g := by
  intro member
  obtain ⟨b, rest, same, -, inner⟩ := code.starts g
  obtain ⟨c, tail, same', mark, -⟩ := code.starts wild
  obtain ⟨rfl, rfl⟩ := List.cons.inj (single.symm.trans same')
  rw [same] at member
  rcases List.mem_cons.mp member with rfl | inside
  · refine other (code.reads g wild [] rest ?_)
    rw [same, single, List.append_nil, List.singleton_append]
  · exact inner _ inside mark

/-- A word without the wildcard stands for itself. -/
theorem accepts_append {lit pattern word : List α} (plain : wild ∉ lit) :
    accepts wild (lit ++ pattern) word = true ↔ ∃ rest, word = lit ++ rest ∧ accepts wild pattern rest = true := by
  induction lit generalizing word with
  | nil => simp
  | cons g lit ih =>
    rw [List.mem_cons, not_or] at plain
    rw [List.cons_append, accepts_letter (Ne.symm plain.1)]
    simp only [ih plain.2, List.cons_append]
    constructor
    · rintro ⟨_, rfl, rest, rfl, matched⟩
      exact ⟨rest, rfl, matched⟩
    · rintro ⟨rest, rfl, matched⟩
      exact ⟨_, rfl, rest, rfl, matched⟩

omit [DecidableEq α] in
/-- Only a wildcard can match from within a letter, and it can as well begin with the next one. -/
theorem Code.resume (code : Code enc first) (single : enc wild = [wild']) {pattern : List α} {rest word : List β}
    (inner : ∀ x ∈ rest, ¬ first x) (matched : accepts wild' (pattern.flatMap enc) (rest ++ word) = true) :
    accepts wild' (pattern.flatMap enc) word = true := by
  induction pattern generalizing rest with
  | nil =>
    rw [List.flatMap_nil, accepts_nil, List.append_eq_nil_iff] at matched
    exact (accepts_nil word).mpr matched.2
  | cons g pattern ih =>
    cases rest with
    | nil => exact matched
    | cons x rest =>
      by_cases any : g = wild
      · subst any
        rw [List.flatMap_cons, single, List.singleton_append] at matched ⊢
        obtain ⟨front, back, cut, later⟩ := accepts_wild.mp matched
        rcases List.append_eq_append_iff.mp cut with ⟨more, rfl, same⟩ | ⟨more, same, rfl⟩
        · exact accepts_wild.mpr ⟨more, back, same, later⟩
        · -- the wildcard stops within the letter, and the rest of the pattern goes on from there
          refine accepts_wild.mpr ⟨[], word, rfl, ih ?_ later⟩
          exact fun y member => inner y (same ▸ List.mem_append_right _ member)
      · rw [List.flatMap_cons, accepts_append (code.plain single any)] at matched
        obtain ⟨back, cut, -⟩ := matched
        obtain ⟨b, tail, same, mark, -⟩ := code.starts g
        rw [same] at cut
        obtain ⟨rfl, -⟩ := List.cons.inj cut
        exact absurd mark (inner x List.mem_cons_self)

/-- Matching the codes is matching the words. -/
theorem Code.accepts_flatMap (code : Code enc first) (single : enc wild = [wild']) (pattern word : List α) :
    accepts wild' (pattern.flatMap enc) (word.flatMap enc) = accepts wild pattern word := by
  rw [Bool.eq_iff_iff]
  induction pattern generalizing word with
  | nil =>
    rw [List.flatMap_nil, accepts_nil, accepts_nil]
    cases word with
    | nil => simp
    | cons a word =>
      obtain ⟨b, rest, same, -⟩ := code.starts a
      simp [same]
  | cons g pattern ih =>
    by_cases any : g = wild
    · subst any
      rw [List.flatMap_cons, single, List.singleton_append, accepts_wild, accepts_wild]
      constructor
      · rintro ⟨front, back, cut, matched⟩
        obtain ⟨rest, word', rfl, ⟨early, rfl⟩, inner⟩ := code.suffix cut
        exact ⟨early, word', rfl, (ih word').mp (code.resume single inner matched)⟩
      · rintro ⟨front, back, rfl, matched⟩
        exact ⟨front.flatMap enc, back.flatMap enc, List.flatMap_append, (ih back).mpr matched⟩
    · rw [List.flatMap_cons, accepts_append (code.plain single any), accepts_letter any]
      constructor
      · rintro ⟨rest, cut, matched⟩
        cases word with
        | nil =>
          obtain ⟨b, tail, same, -⟩ := code.starts g
          simp [same] at cut
        | cons a word =>
          rw [List.flatMap_cons] at cut
          obtain rfl := code.reads _ _ _ _ cut
          obtain rfl := List.append_cancel_left cut
          exact ⟨word, rfl, (ih word).mp matched⟩
      · rintro ⟨rest, rfl, matched⟩
        exact ⟨rest.flatMap enc, List.flatMap_cons, (ih rest).mpr matched⟩

end Code

end Glob
