import TemplHighlight.Proofs.Split.Parts
import TemplHighlight.Proofs.Templ.TagStart

/-!
# The parts of a tag

What follows the name of a tag, part by part, as the grammar of tags says it: the gaps of space, the
names of attributes, their values together with the `=` in front, and these apart according to
whether they are brace groups, the spreads, and the end. Each kind of part has its own shape, and
not every part can follow every other one.
-/

namespace TemplHighlight.Templ

open TagLanguage Split

/-- The roles of the parts behind the name of a tag. -/
inductive TagRole where
  /-- Space. -/
  | gap
  /-- The name of an attribute. -/
  | name
  /-- `=` and a quoted or bare value. -/
  | value
  /-- `=` and a brace group. -/
  | script
  /-- A spread. -/
  | spread
  /-- The end of the tag. -/
  | ending
  deriving DecidableEq

/-- A part of a tag. -/
abbrev TagPart := Portion TagRole

variable {depth : Nat}

/-- The role of a value with the `=` in front of it. -/
def roleOfValue : Value depth → TagRole
  | .group .. => .script
  | .quoted .. | .bare .. => .value

/-- The parts of an attribute or a spread. -/
def attributeParts : Attribute depth → List TagPart
  | .named name none => [⟨.name, name.chars⟩]
  | .named name (some value) => [⟨.name, name.chars⟩, ⟨roleOfValue value, '=' :: value.text⟩]
  | .spread inner => [⟨.spread, inner.text⟩]

/-- The parts of attributes with the space in front of each. -/
def attributesParts : List (SpacedAttribute depth) → List TagPart
  | [] => []
  | spaced :: later =>
    ⟨.gap, spaceText spaced.space⟩ :: (attributeParts spaced.attr ++ attributesParts later)

/-- The part of the space in front of the end of a tag, if there is any. -/
def lastGap : List SpaceUnit → List TagPart
  | [] => []
  | unit :: units => [⟨.gap, spaceText (unit :: units)⟩]

/-- The parts of a tag behind its name. -/
def tagParts (tag : TagDerivation depth) : List TagPart :=
  match tag.named with
  | some part =>
    attributesParts part.attributes ++ (lastGap part.space ++ [⟨.ending, endMark part.slash⟩])
  | none => [⟨.ending, ['>']⟩]

/-- The parts of an attribute have its text. -/
theorem textOf_attribute (attr : Attribute depth) : textOf (attributeParts attr) = attr.text := by
  cases attr with
  | named name value =>
    cases value with
    | none => simp [textOf, attributeParts, Attribute.text]
    | some value => simp [textOf, attributeParts, Attribute.text]
  | spread inner => simp [textOf, attributeParts, Attribute.text]

/-- The parts of attributes have their text. -/
theorem textOf_attributes (attributes : List (SpacedAttribute depth)) :
    textOf (attributesParts attributes) = attributesText attributes := by
  induction attributes with
  | nil => rfl
  | cons spaced later inductionHypothesis =>
    have split : textOf (attributesParts (spaced :: later)) = spaceText spaced.space ++
        textOf (attributeParts spaced.attr ++ attributesParts later) := rfl
    rw [split, textOf_append, textOf_attribute, inductionHypothesis, attributesText,
      List.append_assoc]

/-- The parts of a tag have the text behind its name. -/
theorem textOf_tagParts (tag : TagDerivation depth) : textOf (tagParts tag) = tag.behindName := by
  obtain ⟨closing, named⟩ := tag
  cases named with
  | none => rfl
  | some part =>
    have gap : textOf (lastGap part.space) = spaceText part.space := by
      cases part.space with
      | nil => rfl
      | cons unit units => simp [textOf, lastGap]
    have ends : textOf [(⟨.ending, endMark part.slash⟩ : TagPart)] = endMark part.slash := by
      simp [textOf]
    show textOf (attributesParts part.attributes ++ (lastGap part.space ++ _)) =
      attributesText part.attributes ++ (spaceText part.space ++ endMark part.slash)
    rw [textOf_append, textOf_append, textOf_attributes, gap, ends]

/-! ## How the parts are arranged -/

/-- The shape of a part. A gap is made of blanks. -/
def Formed (depth : Nat) (part : TagPart) : Prop :=
  match part.role with
  | .gap => part.text ≠ [] ∧ ∀ c ∈ part.text, CharClass.isBlank c = true
  | .name => ∃ run : Run Tag.isAttrNameChar, part.text = run.chars
  | .value => ∃ value : Value depth, roleOfValue value = .value ∧ part.text = '=' :: value.text
  | .script => ∃ inner, Braced depth inner ∧ part.text = '=' :: '{' :: (inner ++ ['}'])
  | .spread => ∃ inner : SpreadDerivation depth, part.text = inner.text
  | .ending => ∃ slash, part.text = endMark slash

/-- Whether a part of one role can stand right in front of a part of another. -/
def canPrecede : TagRole → TagRole → Bool
  | .gap, next => next == .name || next == .spread || next == .ending
  | .name, next => next == .value || next == .script || next == .gap || next == .ending
  | .value, next | .script, next | .spread, next => next == .gap || next == .ending
  | .ending, _ => false

/-- A part has its shape, and the part behind it can follow. -/
structure Fits (depth : Nat) (part : TagPart) (later : List TagPart) : Prop where
  formed : Formed depth part
  next : ∀ next ∈ later.head?, Formed depth next ∧ canPrecede part.role next.role = true

/-- Whether a unit of space is a blank. -/
def isBlankUnit : SpaceUnit → Bool
  | .blank .. => true
  | .lineComment .. | .blockComment .. => false

/-- The space in a tag holds no comments, the space inside spreads apart. -/
def BlankSpace (tag : TagDerivation depth) : Prop :=
  ∀ part ∈ tag.named, (∀ unit ∈ part.space, isBlankUnit unit = true) ∧
    ∀ spaced ∈ part.attributes, ∀ unit ∈ spaced.space, isBlankUnit unit = true

/-- Space without comments is made of blanks. -/
theorem spaceText_blank {units : List SpaceUnit}
    (blank : ∀ unit ∈ units, isBlankUnit unit = true) :
    ∀ c ∈ spaceText units, CharClass.isBlank c = true := by
  induction units with
  | nil => nofun
  | cons unit units inductionHypothesis =>
    obtain ⟨first, behind⟩ := List.forall_mem_cons.mp blank
    intro c member
    rw [spaceText, List.mem_append] at member
    rcases member with inUnit | inLater
    · cases unit with
      | blank d isBlank =>
        rw [List.mem_singleton.mp inUnit]
        exact isBlank
      | lineComment => cases first
      | blockComment => cases first
    · exact inductionHypothesis behind c inLater

/-- Space that is there makes a gap. -/
theorem formed_gap {units : List SpaceUnit} (some : units ≠ [])
    (blank : ∀ unit ∈ units, isBlankUnit unit = true) :
    Formed depth ⟨.gap, spaceText units⟩ := by
  refine ⟨?_, spaceText_blank blank⟩
  cases units with
  | nil => exact absurd rfl some
  | cons unit units =>
    obtain ⟨c, later, head, -⟩ := unit_head unit
    simp [spaceText, head]

/-- A value with the `=` in front of it has the shape of its role. -/
theorem formed_value (value : Value depth) :
    Formed depth ⟨roleOfValue value, '=' :: value.text⟩ := by
  cases value with
  | quoted mark isQuote body escaped => exact ⟨.quoted mark isQuote body escaped, rfl, rfl⟩
  | bare run => exact ⟨.bare run, rfl, rfl⟩
  | group inner braced => exact ⟨inner, braced, rfl⟩

/-- Parts that can follow an attribute: they start with a gap or the end of the tag. -/
def Bounded (depth : Nat) (parts : List TagPart) : Prop :=
  ∀ next ∈ parts.head?, Formed depth next ∧ (next.role = .gap ∨ next.role = .ending)

/-- An attribute is arranged in front of a gap or the end of the tag. -/
theorem attribute_arranged (attr : Attribute depth) {later : List TagPart}
    (arranged : Each (Fits depth) later) (bounded : Bounded depth later) :
    Each (Fits depth) (attributeParts attr ++ later) ∧
      ∀ next ∈ (attributeParts attr ++ later).head?,
        Formed depth next ∧ canPrecede .gap next.role = true := by
  have ends {part : TagPart} (formed : Formed depth part)
      (bounds : ∀ role, role = .gap ∨ role = .ending → canPrecede part.role role = true) :
      Fits depth part later :=
    ⟨formed, fun next first => ⟨(bounded next first).1, bounds _ (bounded next first).2⟩⟩
  cases attr with
  | named name value =>
    have formed : Formed depth ⟨.name, name.chars⟩ := ⟨name, rfl⟩
    refine ⟨?_, fun next first => ?_⟩
    · cases value with
      | none =>
        refine ⟨ends formed ?_, arranged⟩
        rintro role (rfl | rfl) <;> rfl
      | some value =>
        have valueFormed : Formed depth ⟨roleOfValue value, '=' :: value.text⟩ := formed_value value
        have valueEnds : Fits depth ⟨roleOfValue value, '=' :: value.text⟩ later := by
          refine ends valueFormed ?_
          cases value <;> rintro role (rfl | rfl) <;> rfl
        refine ⟨⟨formed, ?_⟩, valueEnds, arranged⟩
        rintro next ⟨⟩
        refine ⟨valueFormed, ?_⟩
        cases value <;> rfl
    · cases value <;> (cases first; exact ⟨formed, rfl⟩)
  | spread inner =>
    have formed : Formed depth ⟨.spread, inner.text⟩ := ⟨inner, rfl⟩
    refine ⟨⟨ends formed ?_, arranged⟩, ?_⟩
    · rintro role (rfl | rfl) <;> rfl
    · rintro next ⟨⟩
      exact ⟨formed, rfl⟩

/-- Attributes are arranged in front of a gap or the end of the tag, and start with a gap
themselves. -/
theorem attributes_arranged {attributes : List (SpacedAttribute depth)} {later : List TagPart}
    (blank : ∀ spaced ∈ attributes, ∀ unit ∈ spaced.space, isBlankUnit unit = true)
    (arranged : Each (Fits depth) later) (bounded : Bounded depth later) :
    Each (Fits depth) (attributesParts attributes ++ later) ∧
      Bounded depth (attributesParts attributes ++ later) := by
  induction attributes with
  | nil => exact ⟨arranged, bounded⟩
  | cons spaced attributes inductionHypothesis =>
    obtain ⟨here, behind⟩ := List.forall_mem_cons.mp blank
    obtain ⟨inLater, laterBounded⟩ := inductionHypothesis behind
    obtain ⟨inAttribute, next⟩ := attribute_arranged spaced.attr inLater laterBounded
    have gap : Formed depth ⟨.gap, spaceText spaced.space⟩ := formed_gap spaced.separated here
    have split : attributesParts (spaced :: attributes) ++ later =
        ⟨.gap, spaceText spaced.space⟩ ::
          (attributeParts spaced.attr ++ (attributesParts attributes ++ later)) := by
      simp [attributesParts]
    rw [split]
    refine ⟨⟨⟨gap, next⟩, inAttribute⟩, ?_⟩
    rintro _ ⟨⟩
    exact ⟨gap, .inl rfl⟩

/-- The parts of a tag have their shapes and follow each other as they can, if there are no comments
between them. -/
theorem tagParts_arranged {tag : TagDerivation depth} (blank : BlankSpace tag) :
    Each (Fits depth) (tagParts tag) := by
  have ends (slash : Bool) : Each (Fits depth) [⟨.ending, endMark slash⟩] :=
    ⟨⟨⟨slash, rfl⟩, nofun⟩, trivial⟩
  obtain ⟨closing, named⟩ := tag
  cases named with
  | none => exact ends false
  | some part =>
    obtain ⟨inSpace, inAttributes⟩ := blank part rfl
    have last : Each (Fits depth) (lastGap part.space ++ [⟨.ending, endMark part.slash⟩]) ∧
        Bounded depth (lastGap part.space ++ [⟨.ending, endMark part.slash⟩]) := by
      cases space : part.space with
      | nil =>
        refine ⟨ends part.slash, ?_⟩
        rintro _ ⟨⟩
        exact ⟨⟨part.slash, rfl⟩, .inr rfl⟩
      | cons unit units =>
        have gap : Formed depth ⟨.gap, spaceText (unit :: units)⟩ :=
          formed_gap (List.cons_ne_nil unit units) (space ▸ inSpace)
        refine ⟨⟨⟨gap, ?_⟩, ends part.slash⟩, ?_⟩
        · rintro _ ⟨⟩
          exact ⟨⟨part.slash, rfl⟩, rfl⟩
        · rintro _ ⟨⟩
          exact ⟨gap, .inl rfl⟩
    exact (attributes_arranged inAttributes last.1 last.2).1

end TemplHighlight.Templ
