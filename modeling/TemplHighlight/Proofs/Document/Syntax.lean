import TemplHighlight.Proofs.Pattern.Leftmost
import TemplHighlight.Proofs.TagLanguage.Exact

/-!
# Documents

The documents that a law about plain text can be stated for without regard to any grammar: pieces of
text, groups in braces, and elements between an opening tag and the closing tag of the same name,
nested in each other without bound. A piece holds nothing that opens or closes a group, a tag, a
comment or a quotation. So what a place of a document belongs to can be told from the characters
that follow it.
-/

namespace TemplHighlight.Document

open TagLanguage

/-- The characters that tags and groups start and end with, but for the end of a tag. -/
def marks : Text := ['<', '{', '}']

/-- The characters that quotations start and end with. -/
def quotes : Text := ['\'', '"', '`']

/-- A piece of text. -/
structure Piece where
  text : Text
  filled : text ≠ []
  noMark : ∀ c ∈ text, c ∉ marks
  noQuote : ∀ c ∈ text, c ∉ quotes
  noLineComment : ¬ ['/', '/'] <:+: text
  noBlockComment : ¬ ['/', '*'] <:+: text

/-- A document, or the rest of one behind its first parts. Two pieces do not follow each other. -/
inductive Doc : (behindPiece : Bool) → Type where
  | done {behindPiece : Bool} : Doc behindPiece
  | piece (part : Piece) (later : Doc true) : Doc false
  | group {behindPiece : Bool} (inner later : Doc false) : Doc behindPiece
  | elem {behindPiece : Bool} (name : Run Tag.isNameChar) (inner later : Doc false) :
      Doc behindPiece

/-- The text of a tag that has a name and nothing else. -/
def tagText (closing : Bool) (name : Run Tag.isNameChar) : Text :=
  '<' :: ((if closing then ['/'] else []) ++ (name.chars ++ ['>']))

/-- The text of a document. -/
def Doc.text {behindPiece : Bool} : Doc behindPiece → Text
  | done => []
  | piece part later => part.text ++ later.text
  | group inner later => '{' :: (inner.text ++ '}' :: later.text)
  | elem name inner later =>
    tagText false name ++ (inner.text ++ (tagText true name ++ later.text))

/-- The derivation of such a tag. -/
def bareTag (depth : Nat) (closing : Bool) (name : Run Tag.isNameChar) : TagDerivation depth where
  closing := closing
  named := some { name, attributes := [], space := [], slash := false, fits := trivial }

/-- The derivation has the text of the tag. -/
theorem text_bareTag (depth : Nat) (closing : Bool) (name : Run Tag.isNameChar) :
    (bareTag depth closing name).text = tagText closing name := by
  cases closing <;>
    simp [bareTag, TagDerivation.text, innerText, NamedPart.text, attributesText, spaceText, endMark,
      tagText]

/-! ## What the characters of a document lead to -/

/-- What stands from a place of a document on: where a tag starts, there is one, and comments start
nowhere. -/
structure Harmless (rest : Text) : Prop where
  tag : ∀ later, rest = '<' :: later → ∃ closing name follow, rest = tagText closing name ++ follow
  noLineComment : ¬ ['/', '/'] <+: rest
  noBlockComment : ¬ ['/', '*'] <+: rest

/-- What follows a piece starts with a mark, if anything does. -/
def Bounded (follow : Text) : Prop := ∀ c ∈ follow.head?, c ∈ marks

/-- No name holds a mark or a quote. -/
theorem name_plain {c : Char} (member : Tag.isNameChar c = true) :
    c ∉ marks ∧ c ∉ quotes ∧ c ≠ '/' := by
  have apart {d : Char} (outside : Tag.isNameChar d = false) : c ≠ d := ne_of_member member outside
  simp [marks, quotes, apart (by decide : Tag.isNameChar '<' = false),
    apart (by decide : Tag.isNameChar '{' = false), apart (by decide : Tag.isNameChar '}' = false),
    apart (by decide : Tag.isNameChar '\'' = false), apart (by decide : Tag.isNameChar '"' = false),
    apart (by decide : Tag.isNameChar '`' = false), apart (by decide : Tag.isNameChar '/' = false)]

/-- Nothing starts with a character that starts neither tags nor comments. -/
theorem harmless_other {c : Char} (notOpen : c ≠ '<') (notSlash : c ≠ '/') (follow : Text) :
    Harmless (c :: follow) := by
  refine ⟨?_, ?_, ?_⟩
  · rintro later ⟨⟩
    exact absurd rfl notOpen
  · rintro ⟨rest, ⟨⟩⟩
    exact notSlash rfl
  · rintro ⟨rest, ⟨⟩⟩
    exact notSlash rfl

/-- Nothing starts with a slash in front of a character other than those in comment marks. -/
theorem harmless_slash {c : Char} (notSlash : c ≠ '/') (notStar : c ≠ '*') (follow : Text) :
    Harmless ('/' :: c :: follow) := by
  have noComment {second : Char} (other : c ≠ second) :
      ¬ ['/', second] <+: '/' :: c :: follow := by
    rintro ⟨rest, same⟩
    injection same with _ same
    injection same with same
    exact other same.symm
  refine ⟨?_, noComment notSlash, noComment notStar⟩
  rintro later ⟨⟩

/-- Text is harmless if all its characters start neither tags nor comments. -/
theorem harmless_others {text : Text} (others : ∀ c ∈ text, c ≠ '<' ∧ c ≠ '/') (follow : Text) :
    Throughout Harmless text follow := by
  intro rest ends filled
  cases rest with
  | nil => exact absurd rfl filled
  | cons c later =>
    obtain ⟨notOpen, notSlash⟩ := others c (ends.subset List.mem_cons_self)
    exact harmless_other notOpen notSlash (later ++ follow)

/-- A piece is harmless in front of a mark. -/
theorem harmless_piece (piece : Piece) {follow : Text} (bounded : Bounded follow) :
    Throughout Harmless piece.text follow := by
  intro rest ends filled
  cases rest with
  | nil => exact absurd rfl filled
  | cons c later =>
    have noMark := piece.noMark c (ends.subset List.mem_cons_self)
    -- a comment would start in the piece, since no mark is its second character
    have noComment {second : Char} (notMark : second ∉ marks)
        (absent : ¬ ['/', second] <:+: piece.text) :
        ¬ ['/', second] <+: c :: later ++ follow := by
      rintro ⟨behind, split⟩
      cases later with
      | nil =>
        have first : follow.head? = some second := by
          injection split with _ same
          have front : second :: behind = follow := same
          rw [← front]
          rfl
        exact notMark (bounded second first)
      | cons d later =>
        injection split with same more
        injection more with sameSecond
        refine absent (List.IsInfix.trans ⟨[], later, ?_⟩ ends.isInfix)
        rw [same, sameSecond]
        rfl
    refine ⟨?_, noComment (by decide) piece.noLineComment,
      noComment (by decide) piece.noBlockComment⟩
    rintro _ ⟨⟩
    exact absurd noMark (by decide)

/-- A tag is harmless. -/
theorem harmless_tag (closing : Bool) (name : Run Tag.isNameChar) (follow : Text) :
    Throughout Harmless (tagText closing name) follow := by
  have whole : Harmless (tagText closing name ++ follow) := by
    refine ⟨fun _ _ => ⟨closing, name, follow, rfl⟩, ?_, ?_⟩
    · rintro ⟨rest, ⟨⟩⟩
    · rintro ⟨rest, ⟨⟩⟩
  have ending : Throughout Harmless ['>'] follow :=
    harmless_others (List.forall_mem_singleton.mpr (by decide)) follow
  have named : Throughout Harmless name.chars (['>'] ++ follow) := by
    refine harmless_others (fun c member => ?_) _
    obtain ⟨noMark, -, notSlash⟩ := name_plain (name.members c member)
    refine ⟨?_, notSlash⟩
    rintro rfl
    exact noMark (by decide)
  have marked : Throughout Harmless (if closing then ['/'] else [])
      (name.chars ++ ['>'] ++ follow) := by
    cases closing with
    | false => exact throughout_nil _ _
    | true =>
      intro rest ends filled
      obtain ⟨c, later, split, first⟩ := run_head name
      have isSlash : rest = ['/'] := by
        rcases List.suffix_cons_iff.mp ends with same | none
        · exact same
        · exact absurd (List.suffix_nil.mp none) filled
      obtain ⟨-, -, notSlash⟩ := name_plain first
      have notStar : c ≠ '*' := ne_of_member first (by decide)
      rw [isSlash, split]
      exact harmless_slash notSlash notStar _
  intro rest ends filled
  rcases List.suffix_cons_iff.mp ends with rfl | inside
  · exact whole
  · have behindMark := throughout_append.mpr ⟨marked, throughout_append.mpr ⟨named, ending⟩⟩
    exact behindMark rest inside filled

/-- Behind a piece, a document goes on with a mark. -/
theorem bounded_behind (doc : Doc true) {follow : Text} (bounded : Bounded follow) :
    Bounded (doc.text ++ follow) := by
  cases doc with
  | done => exact bounded
  | group inner later =>
    rintro c ⟨⟩
    decide
  | elem name inner later =>
    rintro c ⟨⟩
    decide

/-- A document is harmless throughout. -/
theorem harmless_doc {behindPiece : Bool} (doc : Doc behindPiece) {follow : Text}
    (bounded : Bounded follow) : Throughout Harmless doc.text follow := by
  have brace {c : Char} (isBrace : c = '{' ∨ c = '}') (follow : Text) :
      Throughout Harmless [c] follow := by
    refine harmless_others (List.forall_mem_singleton.mpr ?_) follow
    rcases isBrace with rfl | rfl <;> decide
  have startsWith {c : Char} (mark : c ∈ marks) (rest : Text) : Bounded (c :: rest) := by
    rintro _ ⟨⟩
    exact mark
  induction doc generalizing follow with
  | done => exact throughout_nil _ _
  | piece part later inLater =>
    exact throughout_append.mpr
      ⟨harmless_piece part (bounded_behind later bounded), inLater bounded⟩
  | group inner later inInner inLater =>
    have closed : Throughout Harmless (['}'] ++ later.text) follow :=
      throughout_append.mpr ⟨brace (.inr rfl) _, inLater bounded⟩
    have both : Throughout Harmless (inner.text ++ (['}'] ++ later.text)) follow :=
      throughout_append.mpr ⟨inInner (startsWith (by decide) _), closed⟩
    exact throughout_append.mpr ⟨brace (.inl rfl) _, both⟩
  | elem name inner later inInner inLater =>
    have closed : Throughout Harmless (tagText true name ++ later.text) follow :=
      throughout_append.mpr ⟨harmless_tag true name _, inLater bounded⟩
    have both : Throughout Harmless (inner.text ++ (tagText true name ++ later.text)) follow :=
      throughout_append.mpr ⟨inInner (startsWith (by decide) _), closed⟩
    exact throughout_append.mpr ⟨harmless_tag false name _, both⟩

/-- There are no quotes in a tag. -/
theorem tag_noQuote (closing : Bool) (name : Run Tag.isNameChar) :
    ∀ c ∈ tagText closing name, c ∉ quotes := by
  have named : ∀ c ∈ name.chars, c ∉ quotes := fun c member =>
    (name_plain (name.members c member)).2.1
  refine List.forall_mem_cons.mpr ⟨by decide, List.forall_mem_append.mpr ⟨?_,
    List.forall_mem_append.mpr ⟨named, List.forall_mem_singleton.mpr (by decide)⟩⟩⟩
  cases closing with
  | false => nofun
  | true => exact List.forall_mem_singleton.mpr (by decide)

/-- There are no quotes in a document. -/
theorem doc_noQuote {behindPiece : Bool} (doc : Doc behindPiece) :
    ∀ c ∈ doc.text, c ∉ quotes := by
  induction doc with
  | done => nofun
  | piece part later inLater => exact List.forall_mem_append.mpr ⟨part.noQuote, inLater⟩
  | group inner later inInner inLater =>
    exact List.forall_mem_cons.mpr ⟨by decide, List.forall_mem_append.mpr
      ⟨inInner, List.forall_mem_cons.mpr ⟨by decide, inLater⟩⟩⟩
  | elem name inner later inInner inLater =>
    exact List.forall_mem_append.mpr ⟨tag_noQuote false name, List.forall_mem_append.mpr
      ⟨inInner, List.forall_mem_append.mpr ⟨tag_noQuote true name, inLater⟩⟩⟩

end TemplHighlight.Document
