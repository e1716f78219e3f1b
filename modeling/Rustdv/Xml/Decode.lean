import Mathlib.Data.List.Forall2
import Rustdv.Xml.Parse

/-! # What decoding keeps

Decoding changes the values of attributes and nothing else: elements stay where they are under their names,
and an attribute has the decoded value. Where every value is plain, nothing changes.
-/

namespace Xml

def Element.decode (element : Element) : Option Element :=
  element.tag.decode.bind fun tag => element.children.decode.map (⟨tag, ·⟩)

/-- The value of an attribute. -/
def Tag.attr (tag : Tag) (name : List Char) : Option (List Char) := tag.attrs.lookup name

/-- A tag whose attributes are what they look like. -/
def Tag.Plain (tag : Tag) : Prop := (tag.attrs.map Prod.fst).Nodup ∧ ∀ attr ∈ tag.attrs, ∀ c ∈ attr.2, isPlain c

def Forest.Plain : Forest → Prop
  | .nil => True
  | .char _ rest => rest.Plain
  | .element tag children rest => tag.Plain ∧ children.Plain ∧ rest.Plain

section Decode

variable {tag tag' : Tag} {forest forest' : Forest} {element element' : Element}

theorem mapM_decodeAttr_cons {attr : List Char × List Char} {attrs decoded : List (List Char × List Char)} :
    (attr :: attrs).mapM decodeAttr = some decoded ↔
      ∃ value rest, decodeValue attr.2 = some value ∧ attrs.mapM decodeAttr = some rest ∧
        decoded = (attr.1, value) :: rest := by
  simp only [List.mapM_cons, Option.bind_eq_bind, Option.pure_def, decodeAttr, Option.bind_eq_some_iff,
    Option.map_eq_some_iff, Option.some.injEq]
  constructor
  · rintro ⟨_, ⟨value, read, rfl⟩, rest, mapped, rfl⟩
    exact ⟨value, rest, read, mapped, rfl⟩
  · rintro ⟨value, rest, read, mapped, rfl⟩
    exact ⟨_, ⟨value, read, rfl⟩, rest, mapped, rfl⟩

theorem lookup_of_mapM_decodeAttr {attrs attrs' : List (List Char × List Char)} (name : List Char)
    (decoded : attrs.mapM decodeAttr = some attrs') :
    attrs'.lookup name = (attrs.lookup name).bind decodeValue := by
  induction attrs generalizing attrs' with
  | nil =>
    cases decoded
    rfl
  | cons attr attrs ih =>
    obtain ⟨value, rest, read, mapped, rfl⟩ := mapM_decodeAttr_cons.mp decoded
    rw [List.lookup_cons, List.lookup_cons, ih mapped]
    cases name == attr.1 with
    | true => exact read.symm
    | false => rfl

theorem Tag.decode_attr (decoded : tag.decode = some tag') (name : List Char) :
    tag'.attr name = (tag.attr name).bind decodeValue := by
  unfold Tag.decode at decoded
  split_ifs at decoded
  obtain ⟨attrs, mapped, rfl⟩ := Option.map_eq_some_iff.mp decoded
  exact lookup_of_mapM_decodeAttr name mapped

theorem Element.decode_eq_some_iff :
    element.decode = some element' ↔
      element.tag.decode = some element'.tag ∧ element.children.decode = some element'.children := by
  simp only [Element.decode, Option.bind_eq_some_iff, Option.map_eq_some_iff]
  constructor
  · rintro ⟨tag, tagDecoded, children, childrenDecoded, rfl⟩
    exact ⟨tagDecoded, childrenDecoded⟩
  · rintro ⟨tagDecoded, childrenDecoded⟩
    exact ⟨_, tagDecoded, _, childrenDecoded, rfl⟩

theorem Forest.decode_elements (decoded : forest.decode = some forest') :
    List.Forall₂ (fun raw element => Element.decode raw = some element) forest.elements forest'.elements := by
  induction forest generalizing forest' with
  | nil =>
    cases decoded
    exact .nil
  | char c rest ih =>
    obtain ⟨rest', restDecoded, rfl⟩ := Option.map_eq_some_iff.mp decoded
    exact @ih rest' restDecoded
  | element tag children rest _ ih =>
    simp only [Forest.decode, Option.bind_eq_some_iff, Option.map_eq_some_iff] at decoded
    obtain ⟨tag', tagDecoded, children', childrenDecoded, rest', restDecoded, rfl⟩ := decoded
    exact .cons (Element.decode_eq_some_iff.mpr ⟨tagDecoded, childrenDecoded⟩) (ih restDecoded)

theorem mapM_decodeAttr_of_plain {attrs : List (List Char × List Char)}
    (plain : ∀ attr ∈ attrs, ∀ c ∈ attr.2, isPlain c) : attrs.mapM decodeAttr = some attrs := by
  induction attrs with
  | nil => rfl
  | cons attr attrs ih =>
    obtain ⟨value, rest⟩ := List.forall_mem_cons.mp plain
    exact mapM_decodeAttr_cons.mpr ⟨attr.2, attrs, decodeValue_of_plain value, ih rest, rfl⟩

theorem Tag.decode_of_plain (plain : tag.Plain) : tag.decode = some tag := by
  rw [Tag.decode, if_pos plain.1, mapM_decodeAttr_of_plain plain.2]
  rfl

theorem Forest.decode_of_plain (plain : forest.Plain) : forest.decode = some forest := by
  induction forest with
  | nil => rfl
  | char c rest ih => rw [Forest.decode, ih plain, Option.map_some]
  | element tag children rest childrenIh restIh =>
    obtain ⟨tagPlain, childrenPlain, restPlain⟩ := plain
    simp only [Forest.decode, Tag.decode_of_plain tagPlain, childrenIh childrenPlain, restIh restPlain,
      Option.bind_some, Option.map_some]

theorem Forest.root_eq_some_iff {top : Element} :
    forest.root = some top ↔ forest.elements = [top] ∧ forest.chars.all isSpace = true := by
  unfold Forest.root
  split
  · next only found =>
    rw [found]
    simp [and_comm]
  · next other =>
    simp only [reduceCtorEq, false_iff, not_and]
    intro found
    exact (other top found).elim

end Decode

end Xml
