import TemplHighlight.Proofs.Templ.TagReading

/-!
# The head of a tag's token

The scan for tags passes an opening mark and then a name. The rules of the grammar find the two
again: by a rule for tags that takes back whatever earlier rules made inside the tag, and then by
regular expressions of their own for the name and for the mark. Here the token of a whole tag is
said with what the scan passed, and no derivation is spoken of.
-/

namespace TemplHighlight.Templ

open TagLanguage

/-! ## What the scan passes -/

/-- What was passed of a text in front of its rest. -/
def passed (text rest : Text) : Text := text.take (text.length - rest.length)

/-- The opening mark that the scan for tags passes: the first character, and a slash behind it. -/
def markRead (text : Text) : Text := passed text (Tag.dropSlash text.tail)

/-- The name that the scan for tags passes behind the opening mark; it is empty where there is
none. -/
def nameRead (text : Text) : Text :=
  match Tag.afterRun? Tag.isNameChar (Tag.dropSlash text.tail) with
  | some rest => passed (Tag.dropSlash text.tail) rest
  | none => []

/-- What stands in front of the rest of a text was passed. -/
theorem passed_append (front rest : Text) : passed (front ++ rest) rest = front := by
  simp [passed]

variable {depth : Nat} (tag : TagDerivation depth)

/-- Behind its opening mark, a tag goes on with its name. -/
theorem dropSlash_tag : Tag.dropSlash tag.text.tail = tag.name ++ tag.behindName := by
  obtain ⟨c, rest, head, isInner⟩ := tag.head_behindMark
  have notSlash : '/' ≠ c := slash_ne isInner
  rw [tag.text_split, head]
  unfold TagDerivation.mark
  cases tag.closing with
  | true => rfl
  | false =>
    show Tag.dropSlash (c :: rest) = c :: rest
    unfold Tag.dropSlash
    split
    · rename_i same
      cases same
      exact absurd rfl notSlash
    · rfl

/-- The scan passes the opening mark of a tag. -/
theorem markRead_tag : markRead tag.text = tag.mark := by
  rw [markRead, dropSlash_tag, tag.text_split]
  exact passed_append _ _

/-- The scan passes the name of a tag. -/
theorem nameRead_tag : nameRead tag.text = tag.name := by
  have ends : EndsPart tag.behindName := tag.behindName_ends
  rw [nameRead, dropSlash_tag]
  obtain ⟨closing, named⟩ := tag
  cases named with
  | none => rfl
  | some part =>
    have taken := afterRun_run part.name (ends.stops nameChar_of_blank rfl rfl)
    simp only [TagDerivation.name, taken]
    exact passed_append _ _

/-- A tag has no name exactly if it ends right behind its opening mark. -/
theorem name_eq_nil : tag.name = [] ↔ tag.text = ['<', '>'] ∨ tag.text = ['<', '/', '>'] := by
  obtain ⟨closing, named⟩ := tag
  cases named with
  | none =>
    refine iff_of_true rfl ?_
    cases closing with
    | true => exact .inr rfl
    | false => exact .inl rfl
  | some part =>
    refine iff_of_false part.name.filled ?_
    obtain ⟨c, later, split, first⟩ := run_head part.name
    have notEnd : c ≠ '>' := ne_of_member first (by decide)
    have notSlash : c ≠ '/' := ne_of_member first (by decide)
    cases closing <;>
      simp [TagDerivation.text, innerText, NamedPart.text, split, notEnd, notSlash]

/-! ## The token -/

/-- Whatever keywords and depth the templ grammar is composed with, and whatever its other rules
find in the text, a text that is one whole tag is split into one token that carries the text. The
first part of the token is a tag-name token; it covers the mark and the name that the scan for tags
passes, it starts with a punctuation token of that mark, and its further parts cover the name. The
mark is `<` or `</`, and the name is empty only in `<>` and `</>`.

Proof: the text has a derivation, and the token of a tag starts with the mark and the name of its
derivation. These are what the scan passes, because the name is followed by a character that cannot
be part of a name. -/
theorem tokenize_whole_tag (keywords : List Text) (depth : Nat) (text : Text)
    (whole : (Pattern.tag depth).matchFrom text 0 = .ok (some ⟨0, text.length, none⟩)) :
    ∃ grammar parts later, composed keywords depth = .ok grammar ∧
      grammar.tokenize text = .ok [
        .token .tag (.list (
          .token .tagName (.list (
            .token .punctuation (.text (markRead text)) [] (some (markRead text)) :: parts))
            [] (some (markRead text ++ nameRead text)) :: later))
          [] (some text)] ∧
      Tree.sources parts = nameRead text ∧
      (markRead text = ['<'] ∨ markRead text = ['<', '/']) ∧
      (nameRead text = [] ↔ text = ['<', '>'] ∨ text = ['<', '/', '>']) := by
  obtain ⟨tag, rfl⟩ := derivation_of_whole whole
  obtain ⟨parts, later, split, named⟩ := tokenize_tag tag keywords
  refine ⟨grammar keywords depth, parts, later, composed_grammar keywords depth, ?_⟩
  rw [markRead_tag, nameRead_tag]
  refine ⟨split, named, ?_, name_eq_nil tag⟩
  unfold TagDerivation.mark
  cases tag.closing with
  | true => exact .inr rfl
  | false => exact .inl rfl

/-- Nothing in this tag gets out of its token. -/
theorem tokenize_whole_tag_crowded :
    (Pattern.tag 1).matchFrom crowdedTag.text 0 = .ok (some ⟨0, crowdedTag.text.length, none⟩) ∧
      crowdedTag.text = "<h1 b=\"// /* <?c?>\" \x7b...<!--*/--><![CDATA[]]>\x7d>".toList ∧
      ∃ grammar parts later, composed [] 1 = .ok grammar ∧
        grammar.tokenize crowdedTag.text = .ok [
          .token .tag (.list (
            .token .tagName (.list (.token .punctuation (.text ['<']) [] (some ['<']) :: parts))
              [] (some ['<', 'h', '1']) :: later))
            [] (some crowdedTag.text)] ∧
        Tree.sources parts = ['h', '1'] := by
  have whole := whole_of_derivation crowdedTag
  obtain ⟨grammar, parts, later, made, split, named, -, -⟩ :=
    tokenize_whole_tag [] 1 crowdedTag.text whole
  exact ⟨whole, rfl, grammar, parts, later, made, split, named⟩

end TemplHighlight.Templ
