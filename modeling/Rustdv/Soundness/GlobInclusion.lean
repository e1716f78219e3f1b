import Rustdv.Soundness.Specificity

/-! # Glob matching and inclusion

Paths and patterns are matched byte by byte. In UTF-8 a byte shows whether a character begins with it,
so matching the bytes is matching the characters. The backtracking over several stars finds every way
to put words in their place; and a pattern read as a path, its stars taken literally, stands for all of
its paths.
-/

namespace Rustdv.Config

/-- The bytes of a text are those of its characters, one after the other. -/
theorem bytes_eq (text : String) : bytes text = text.toList.flatMap String.utf8EncodeChar := by
  have encoded : text.toList.utf8Encode = text.toByteArray := String.utf8Encode_toList
  rw [bytes, String.toUTF8_eq_toByteArray, ← encoded]
  exact List.toList_data_toByteArray

/-- UTF-8 marks where a character begins. -/
theorem utf8_code : Glob.Code String.utf8EncodeChar UInt8.IsUTF8FirstByte where
  starts c := by
    cases same : String.utf8EncodeChar c with
    | nil => exact absurd same String.utf8EncodeChar_ne_nil
    | cons b rest =>
      have begins (i : ℕ) (low : i < (b :: rest).length) : ((b :: rest)[i]).IsUTF8FirstByte ↔ i = 0 := by
        simp only [← same]
        exact UInt8.isUTF8FirstByte_getElem_utf8EncodeChar
      refine ⟨b, rest, rfl, (begins 0 (Nat.succ_pos _)).mpr rfl, ?_⟩
      intro x member mark
      obtain ⟨i, low, rfl⟩ := List.mem_iff_getElem.mp member
      exact Nat.succ_ne_zero i ((begins (i + 1) (Nat.succ_lt_succ low)).mp mark)
  reads a c x y same := by
    have decoded := congrArg (fun l => (List.toByteArray l).utf8DecodeChar? 0) same
    simp only [List.toByteArray_append, ByteArray.utf8DecodeChar?_utf8EncodeChar_append] at decoded
    exact Option.some.inj decoded

/-- Matching is on characters. -/
theorem globMatch_eq (path pattern : String) : globMatch path pattern = Glob.accepts '*' pattern.toList path.toList := by
  rw [globMatch, bytes_eq, bytes_eq]
  exact utf8_code.accepts_flatMap (by decide) pattern.toList path.toList

/-- The recursion of the source decides the match. -/
theorem inner_eq (p g : List UInt8) : globMatch.inner p g = Glob.accepts '*'.toUInt8 g p := by
  fun_induction globMatch.inner p g with
  | case1 p => rfl
  | case2 b g ih =>
    rw [ih, Glob.accepts]
    split_ifs with any <;> simp [any, Glob.star, Glob.letter]
  | case3 a p g rest more =>
    rw [rest, more, Glob.accepts, if_pos rfl]
    rfl
  | case4 a p g other more =>
    rw [more, Glob.accepts, if_neg other]
    simp [Glob.letter]
  | case5 a p b g other apart =>
    rw [Glob.accepts, if_neg other]
    simp [Glob.letter, apart]

theorem globMatch_eq_inner (path pattern : String) :
    globMatch path pattern = globMatch.inner (bytes path) (bytes pattern) := (inner_eq ..).symm

/-- The text that results from a pattern with texts in place of its stars. -/
def fill (pattern : String) (texts : List String) : String :=
  .ofList (Glob.fill '*' pattern.toList (texts.map String.toList))

/-- A path matches the patterns that it results from. -/
theorem globMatch_iff_fill {path pattern : String} : globMatch path pattern = true ↔
    ∃ texts : List String, texts.length = pattern.toList.count '*' ∧ path = fill pattern texts := by
  rw [globMatch_eq, Glob.accepts_iff_fill]
  constructor
  · rintro ⟨words, count, same⟩
    refine ⟨words.map String.ofList, by rw [List.length_map, count], ?_⟩
    have back : (words.map String.ofList).map String.toList = words := by simp
    rw [fill, back, ← same, String.ofList_toList]
  · rintro ⟨texts, count, rfl⟩
    exact ⟨texts.map String.toList, by rw [List.length_map, count], String.toList_ofList⟩

theorem moreSpecific_refl (a : String) : moreSpecific a a = true := moreSpecific_iff.mpr fun _ matched => matched

theorem moreSpecific_trans {a b c : String} (first : moreSpecific a b = true) (second : moreSpecific b c = true) :
    moreSpecific a c = true :=
  moreSpecific_iff.mpr fun path matched => moreSpecific_iff.mp second path (moreSpecific_iff.mp first path matched)

/-- One path over the alphabet decides: the pattern itself with a character in place of its stars that the
other pattern does not name. -/
theorem moreSpecific_of_paths {alphabet : Set Char} {a b : String} {c : Char}
    (letters : ∀ x ∈ a.toList, x = '*' ∨ x ∈ alphabet) (known : c ∈ alphabet) (fresh : c ∉ b.toList)
    (within : ∀ path : String, (∀ x ∈ path.toList, x ∈ alphabet) → globMatch path a = true → globMatch path b = true) :
    moreSpecific a b = true := by
  let plain (x : Char) : Char := if x = '*' then c else x
  have path_over : ∀ x ∈ (String.ofList (a.toList.map plain)).toList, x ∈ alphabet := by
    simp only [String.toList_ofList, List.mem_map, forall_exists_index, and_imp, forall_apply_eq_imp_iff₂, plain]
    intro x member
    split_ifs with any
    · exact known
    · exact (letters x member).resolve_left any
  have own : globMatch (String.ofList (a.toList.map plain)) a = true := by
    rw [globMatch_iff_fill]
    refine ⟨List.replicate (a.toList.count '*') (String.singleton c), List.length_replicate, ?_⟩
    rw [fill, String.ofList_inj, List.map_replicate, String.toList_singleton]
    have filled (l : List Char) : l.map plain = Glob.fill '*' l (List.replicate (l.count '*') [c]) := by
      induction l with
      | nil => rfl
      | cons x l ih =>
        by_cases any : x = '*'
        · subst any
          simp [Glob.fill, List.replicate_succ, ih, plain]
        · simp [Glob.fill, any, ih, plain]
    exact filled a.toList
  have found := within _ path_over own
  rw [globMatch_eq, String.toList_ofList, Glob.accepts_map] at found
  · rw [moreSpecific, globMatch_eq]
    exact found
  · intro g member other x
    simp only [plain]
    split_ifs with any
    · subst any
      exact ⟨fun same => absurd member (same ▸ fresh), fun same => absurd same.symm other⟩
    · exact Iff.rfl

/-- A path matches a pattern exactly when it results from the pattern with some texts in place of its
stars; and one pattern matches the other exactly when each path, over any alphabet with a character that
the other does not name, matches the other if it matches the one. -/
theorem more_specific_decides_inclusion :
    (∀ path pattern : String, globMatch path pattern = globMatch.inner (bytes path) (bytes pattern) ∧
      (globMatch path pattern = true ↔
        ∃ texts : List String, texts.length = pattern.toList.count '*' ∧ path = fill pattern texts)) ∧
    (∀ (alphabet : Set Char) (a b : String) (c : Char), (∀ x ∈ a.toList, x = '*' ∨ x ∈ alphabet) →
      c ∈ alphabet → c ∉ b.toList → (moreSpecific a b = true ↔ ∀ path : String,
        (∀ x ∈ path.toList, x ∈ alphabet) → globMatch path a = true → globMatch path b = true)) ∧
    (∀ a, moreSpecific a a = true) ∧
    ∀ a b c, moreSpecific a b = true → moreSpecific b c = true → moreSpecific a c = true := by
  refine ⟨fun path pattern => ⟨globMatch_eq_inner path pattern, globMatch_iff_fill⟩, ?_, moreSpecific_refl,
    fun a b c => moreSpecific_trans⟩
  intro alphabet a b c letters known fresh
  constructor
  · exact fun general path _ => moreSpecific_iff.mp general path
  · exact moreSpecific_of_paths letters known fresh

end Rustdv.Config
