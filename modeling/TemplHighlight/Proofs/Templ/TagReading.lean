import TemplHighlight.Proofs.TagBody.Runs
import TemplHighlight.Proofs.Templ.TagToken

/-!
# How the token of a tag is read

The stack of open tags reads three things off the token of a tag: whether it closes, its name, and
whether it closes itself. The first two are what the grammar of tags says, for every tag. The third
is read off the last two characters of the token. These are a slash and the end of the tag also
where a block comment stands last in the tag, without a slash behind it; there, and nowhere else,
an opening tag is taken for one that closes itself.
-/

namespace TemplHighlight.TagLanguage

variable {depth : Nat}

/-- Whether the space in front of the end of a tag ends with a block comment. -/
def NamedPart.endsInComment (part : NamedPart depth) : Bool :=
  match part.space.getLast? with
  | some (.blockComment ..) => true
  | _ => false

namespace TagDerivation

/-- Whether there is a slash right before the end of a tag with a name. -/
def slash (tag : TagDerivation depth) : Bool := tag.named.any (·.slash)

/-- Whether a block comment stands last in a tag, or in front of the slash before its end. -/
def endsInComment (tag : TagDerivation depth) : Bool := tag.named.any (·.endsInComment)

end TagDerivation

/-! ## The last characters of a tag -/

/-- A text has a last character, which is no slash. -/
def EndsOff (text : Text) : Prop := ∃ front c, text = front ++ [c] ∧ c ≠ '/'

/-- The last character of a text is the last one of its end. -/
theorem EndsOff.append {back : Text} (ends : EndsOff back) (front : Text) :
    EndsOff (front ++ back) := by
  obtain ⟨inner, c, rfl, notSlash⟩ := ends
  exact ⟨front ++ inner, c, (List.append_assoc _ _ _).symm, notSlash⟩

/-- A run of a class without slashes does not end with one. -/
theorem run_endsOff {isMember : Char → Bool} (run : Run isMember)
    (noSlash : isMember '/' = false) : EndsOff run.chars := by
  rcases List.eq_nil_or_concat run.chars with empty | ⟨front, c, split⟩
  · exact absurd empty run.filled
  · refine ⟨front, c, by rw [split, List.concat_eq_append], ?_⟩
    rintro rfl
    have member := run.members '/' (by rw [split]; simp)
    rw [noSlash] at member
    cases member

/-- No value ends with a slash. -/
theorem value_endsOff (value : Value depth) : EndsOff value.text := by
  cases value with
  | quoted mark isQuote body escaped =>
    refine ⟨mark :: body, mark, rfl, ?_⟩
    rcases isQuote with rfl | rfl <;> decide
  | bare run => exact run_endsOff run (by decide)
  | group inner braced => exact ⟨'\x7b' :: inner, '\x7d', rfl, by decide⟩

/-- No attribute and no spread ends with a slash. -/
theorem attribute_endsOff (attr : Attribute depth) : EndsOff attr.text := by
  cases attr with
  | named name value =>
    cases value with
    | none => exact run_endsOff name (by decide)
    | some value => exact ((value_endsOff value).append ['=']).append name.chars
  | spread inner =>
    have closed : EndsOff ['\x7d'] := ⟨[], '\x7d', rfl, by decide⟩
    exact (((closed.append inner.expr).append ['.', '.', '.']).append
      (spaceText inner.space)).append ['\x7b']

/-- Attributes, if there are any, do not end with a slash. -/
theorem attributes_endsOff {attributes : List (SpacedAttribute depth)} (some : attributes ≠ []) :
    EndsOff (attributesText attributes) := by
  induction attributes with
  | nil => exact absurd rfl some
  | cons first later inductionHypothesis =>
    cases later with
    | nil =>
      rw [attributesText, attributesText, List.append_nil]
      exact (attribute_endsOff first.attr).append _
    | cons second more => exact (inductionHypothesis (by simp)).append _

/-- The text of space and one more unit. -/
theorem spaceText_concat (units : List SpaceUnit) (last : SpaceUnit) :
    spaceText (units ++ [last]) = spaceText units ++ last.text := by
  induction units with
  | nil => simp [spaceText]
  | cons unit units inductionHypothesis => simp [spaceText, inductionHypothesis]

/-- The last unit of space can stand in front of what follows the space. -/
theorem fits_last {units : List SpaceUnit} {last : SpaceUnit} {follow : Text}
    (fits : SpaceFits (units ++ [last]) follow) : last.Fits follow := by
  induction units with
  | nil => exact fits.1
  | cons unit units inductionHypothesis => exact inductionHypothesis fits.2

/-- What stands in a tag in front of its end, where there is no slash, ends with a slash if and only
if a block comment stands last. -/
theorem front_ends (part : NamedPart depth) (noSlash : part.slash = false) :
    (part.endsInComment = true ∧ ∃ front,
      part.name.chars ++ attributesText part.attributes ++ spaceText part.space =
        front ++ ['/']) ∨
    (part.endsInComment = false ∧
      EndsOff (part.name.chars ++ attributesText part.attributes ++ spaceText part.space)) := by
  obtain ⟨name, attributes, space, slash, fits⟩ := part
  simp only at noSlash
  subst noSlash
  rcases List.eq_nil_or_concat space with rfl | ⟨units, last, rfl⟩
  · right
    refine ⟨rfl, ?_⟩
    rw [spaceText, List.append_nil]
    cases attributes with
    | nil =>
      rw [attributesText, List.append_nil]
      exact run_endsOff name (by decide)
    | cons first later => exact (attributes_endsOff (by simp)).append _
  · rw [List.concat_eq_append] at fits
    simp only [List.concat_eq_append, NamedPart.endsInComment, List.getLast?_concat,
      spaceText_concat]
    cases last with
    | blank c isBlank =>
      right
      have notSlash : c ≠ '/' := ne_of_member isBlank (by decide)
      exact ⟨rfl, EndsOff.append (EndsOff.append ⟨[], c, rfl, notSlash⟩ _) _⟩
    | lineComment body inLine =>
      have stops : isInLine '>' = false := fits_last fits '>' rfl
      exact absurd stops (by decide)
    | blockComment body endsFirst =>
      left
      refine ⟨rfl, name.chars ++ attributesText attributes ++
        (spaceText units ++ '/' :: '*' :: (body ++ ['*'])), ?_⟩
      simp [SpaceUnit.text]

/-- A text that does not end with a slash has none in front of one more character. -/
theorem EndsOff.no_slash {front : Text} (ends : EndsOff front) :
    ¬ ['/', '>'] <:+ front ++ ['>'] := by
  obtain ⟨inner, c, rfl, notSlash⟩ := ends
  rintro ⟨before, split⟩
  have same : before ++ ['/'] = inner ++ [c] := by
    have whole : before ++ ['/'] ++ ['>'] = inner ++ [c] ++ ['>'] := by
      rw [List.append_assoc]
      exact split
    exact List.append_cancel_right whole
  have last := congrArg List.getLast? same
  rw [List.getLast?_concat, List.getLast?_concat] at last
  exact notSlash (Option.some.inj last).symm

/-- An opening tag ends with a slash and its end if and only if the slash stands there by itself or
is the last character of a block comment. -/
theorem ends_with_slash (tag : TagDerivation depth) (opening : tag.closing = false) :
    ['/', '>'] <:+ tag.text ↔ tag.slash = true ∨ tag.endsInComment = true := by
  obtain ⟨closing, named⟩ := tag
  simp only at opening
  subst opening
  cases named with
  | none =>
    have noSlash : ¬ ['/', '>'] <:+ ['<', '>'] := by decide
    exact iff_of_false noSlash (not_or_intro Bool.false_ne_true Bool.false_ne_true)
  | some part =>
    have split : TagDerivation.text ⟨false, some part⟩ =
        ['<'] ++ (part.name.chars ++ attributesText part.attributes ++ spaceText part.space) ++
          endMark part.slash := by
      simp [TagDerivation.text, innerText, NamedPart.text]
    rw [split]
    simp only [TagDerivation.slash, TagDerivation.endsInComment, Option.any_some]
    cases slash : part.slash with
    | true => exact iff_of_true (List.suffix_append _ _) (.inl rfl)
    | false =>
      rcases front_ends part slash with ⟨comment, front, ends⟩ | ⟨noComment, ends⟩
      · refine iff_of_true ⟨['<'] ++ front, ?_⟩ (.inr comment)
        rw [ends]
        simp [endMark]
      · rw [noComment]
        exact iff_of_false (ends.append ['<']).no_slash
          (not_or_intro Bool.false_ne_true Bool.false_ne_true)

end TemplHighlight.TagLanguage

namespace TemplHighlight.Templ

open TagBody TagLanguage

variable {depth : Nat}

/-- Whether an opening tag is taken for one that closes itself: there is a slash before its end, or
a block comment stands last in it. -/
def closesItself (tag : TagDerivation depth) : Bool := tag.slash || tag.endsInComment

/-- The stack of open tags behind a tag. -/
def stackBehind (tag : TagDerivation depth) (stack : List OpenTag) : List OpenTag :=
  if tag.closing then
    match stack with
    | top :: below => if top.name = tag.name then below else stack
    | [] => []
  else if closesItself tag then stack
  else ⟨tag.name, 0⟩ :: stack

/-- A token is read as a tag is derived. It closes if and only if it starts with the mark of closing
tags, and has the name of the derivation. Wherever it is come to, the stack goes on as it does
behind the tag; in particular raw text behind it is body text if the tag stays open, and raw text
behind an opening tag is left alone otherwise. -/
structure ReadsTag (tag : TagDerivation depth) (token : Tree) : Prop where
  source : token.source = tag.text
  head : ∃ head, head? token = some head ∧ isClosing head = tag.closing ∧ nameOf head = tag.name
  closing : tag.closing = true ↔ ['<', '/'] <+: tag.text
  selfClosing : tag.closing = false → isSelfClosing token = closesItself tag
  goesOn : ∀ stack done items, markFrom stack done (token :: items) =
    markFrom (stackBehind tag stack) (kept token :: done) items
  text : tag.closing = false → closesItself tag = false → ∀ stack done text items,
    markFrom stack done (token :: .text text :: items) =
      markFrom (⟨tag.name, 0⟩ :: stack) (plainText text :: kept token :: done) items
  alone : tag.closing = false → ∀ text, mark [token, .text text] =
    [kept token, if closesItself tag then .text text else plainText text]

/-- A tag closes if and only if it starts with the mark of closing tags. -/
theorem closing_iff (tag : TagDerivation depth) : tag.closing = true ↔ ['<', '/'] <+: tag.text := by
  cases closing : tag.closing with
  | true => exact iff_of_true rfl ⟨innerText tag.named, by simp [TagDerivation.text, closing]⟩
  | false =>
    refine iff_of_false Bool.false_ne_true ?_
    rintro ⟨rest, split⟩
    obtain ⟨c, behind, head, isInner⟩ := tag.head_behindMark
    rw [tag.text_split, head, TagDerivation.mark, closing] at split
    cases split
    exact slash_ne isInner rfl

/-- The token of the opening mark says whether the tag closes. -/
theorem isClosing_markToken (tag : TagDerivation depth) (parts : List Tree) :
    isClosing (markToken tag :: parts) = tag.closing := by
  unfold isClosing markToken TagDerivation.mark
  cases tag.closing <;> rfl

/-- The last two characters of the token of an opening tag say whether it closes itself. -/
theorem isSelfClosing_tagToken (tag : TagDerivation depth) (opening : tag.closing = false)
    (parts later : List Tree) : isSelfClosing (tagToken tag parts later) = closesItself tag := by
  have ends := ends_with_slash tag opening
  rw [Bool.eq_iff_iff, closesItself, Bool.or_eq_true, ← ends]
  exact List.isSuffixOf_iff_suffix

/-- The stack goes on from the token of a tag as it does behind the tag. -/
theorem stackAfter?_tagToken (tag : TagDerivation depth) {parts : List Tree}
    (named : Tree.sources parts = tag.name) (later : List Tree) (stack : List OpenTag) :
    stackAfter? stack (tagToken tag parts later) = some (stackBehind tag stack) := by
  have head : head? (tagToken tag parts later) = some (markToken tag :: parts) := rfl
  have name : nameOf (markToken tag :: parts) = tag.name := named
  have closes : isClosing (markToken tag :: parts) = tag.closing := isClosing_markToken tag parts
  simp only [stackAfter?, head, afterTag, closes, name, stackBehind]
  cases closing : tag.closing with
  | true => rfl
  | false => simp only [isSelfClosing_tagToken tag closing, Bool.false_eq_true, if_false]

/-- The token of a tag is read as the tag. -/
theorem reads_tagToken (tag : TagDerivation depth) {parts : List Tree}
    (named : Tree.sources parts = tag.name) (later : List Tree) :
    ReadsTag tag (tagToken tag parts later) := by
  have goesOn (stack : List OpenTag) (done items : List Tree) :
      markFrom stack done (tagToken tag parts later :: items) =
        markFrom (stackBehind tag stack) (kept (tagToken tag parts later) :: done) items := by
    rw [markFrom_cons, stackAfter?_tagToken tag named]
  have opens (opening : tag.closing = false) (stays : closesItself tag = false)
      (stack : List OpenTag) (done : List Tree) (text : Text) (items : List Tree) :
      markFrom stack done (tagToken tag parts later :: .text text :: items) =
        markFrom (⟨tag.name, 0⟩ :: stack)
          (plainText text :: kept (tagToken tag parts later) :: done) items := by
    have pushed : stackBehind tag stack = ⟨tag.name, 0⟩ :: stack := by
      unfold stackBehind
      rw [opening, stays]
      rfl
    have notText : isText (kept (tagToken tag parts later)) = false := isText_kept _
    rw [goesOn, pushed, markFrom_cons]
    show markFrom _ (addText text (kept (tagToken tag parts later) :: done)) items = _
    rw [addText, if_neg (by simp [notText])]
  refine ⟨rfl, ⟨_, rfl, isClosing_markToken tag parts, named⟩, closing_iff tag,
    fun opening => isSelfClosing_tagToken tag opening parts later, goesOn, opens, ?_⟩
  intro opening text
  cases closes : closesItself tag with
  | true =>
    have stays : stackBehind tag [] = [] := by
      unfold stackBehind
      rw [opening, closes]
      rfl
    rw [mark, goesOn, stays]
    rfl
  | false =>
    rw [mark, opens opening closes]
    rfl

/-- A text that is matched as one whole tag has a derivation. -/
theorem derivation_of_whole {text : Text}
    (whole : (Pattern.tag depth).matchFrom text 0 = .ok (some ⟨0, text.length, none⟩)) :
    ∃ tag : TagDerivation depth, tag.text = text := by
  have scanned : (Tag.after? depth text).map
      (fun rest => (⟨0, 0 + (text.length - rest.length), none⟩ : Found)) =
        some ⟨0, text.length, none⟩ := Except.ok.inj whole
  obtain ⟨rest, after, same⟩ := Option.map_eq_some_iff.mp scanned
  obtain ⟨tag, split⟩ := (tag_exact depth text rest).mp after
  have lengths : text.length = tag.text.length + rest.length := by
    rw [split, List.length_append]
  have filled : 0 < tag.text.length := Nat.succ_pos _
  injection same with _ stop
  have none : rest = [] := List.eq_nil_of_length_eq_zero (by omega)
  refine ⟨tag, ?_⟩
  rw [split, none, List.append_nil]

/-- The text of a derivation is matched as one whole tag. -/
theorem whole_of_derivation (tag : TagDerivation depth) :
    (Pattern.tag depth).matchFrom tag.text 0 = .ok (some ⟨0, tag.text.length, none⟩) := by
  have after : Tag.after? depth tag.text = some [] :=
    (tag_exact depth tag.text []).mpr ⟨tag, (List.append_nil _).symm⟩
  show Except.ok ((Tag.after? depth tag.text).map _) = _
  rw [after]
  simp

/-- Whatever keywords and depth the templ grammar is composed with, a text that is one whole tag is
split into one token, and every derivation of the text as a tag says how that token is read. It does
so exactly, with one exception: an opening tag without a slash before its end is nevertheless taken
for one that closes itself if a block comment stands last in it, and then the text behind the tag is
left as it is.

Proof: the token starts with its mark and name, so the head is read off them. An opening tag ends
with the characters of an end that has a slash if it has one, or if the last character in front of
the end is a slash. Names, values and spreads do not end with slashes, and neither do blanks; a line
comment cannot stand last. -/
theorem tag_reading (keywords : List Text) (depth : Nat) (text : Text)
    (whole : (Pattern.tag depth).matchFrom text 0 = .ok (some ⟨0, text.length, none⟩)) :
    ∃ grammar token, composed keywords depth = .ok grammar ∧
      grammar.tokenize text = .ok [token] ∧
      (∃ tag : TagDerivation depth, tag.text = text) ∧
      ∀ tag : TagDerivation depth, tag.text = text → ReadsTag tag token := by
  obtain ⟨derived, rfl⟩ := derivation_of_whole whole
  obtain ⟨parts, later, split, -⟩ := tokenize_tag derived keywords
  refine ⟨grammar keywords depth, tagToken derived parts later, composed_grammar keywords depth,
    split, ⟨derived, rfl⟩, ?_⟩
  intro tag same
  obtain ⟨otherParts, otherLater, otherSplit, named⟩ := tokenize_tag tag keywords
  rw [same, split] at otherSplit
  have token : tagToken derived parts later = tagToken tag otherParts otherLater := by
    injection otherSplit with items
    injection items
  rw [token]
  exact reads_tagToken tag named otherLater

/-- A name of one letter. -/
def letterName : Run Tag.isNameChar where
  chars := ['a']
  filled := List.cons_ne_nil _ _
  members := by
    intro c member
    rw [List.mem_singleton.mp member]
    rfl

/-- An opening tag without a slash before its end, in which a block comment stands last. -/
def commentTag : TagDerivation 2 where
  closing := false
  named := some {
    name := letterName
    attributes := []
    space := [.blank ' ' (by decide), .blockComment [] (by decide)]
    slash := false
    fits := ⟨trivial, trivial, trivial⟩ }

/-- This tag stays open by its derivation, and yet the text behind it is left as it is. -/
theorem tag_reading_comment :
    (Pattern.tag 2).matchFrom "<a /**/>".toList 0 =
        .ok (some ⟨0, "<a /**/>".toList.length, none⟩) ∧
      commentTag.text = "<a /**/>".toList ∧
      commentTag.closing = false ∧ commentTag.slash = false ∧
      ∃ grammar token, composed [] 2 = .ok grammar ∧
        grammar.tokenize "<a /**/>".toList = .ok [token] ∧
        mark [token, .text ['x']] = [kept token, .text ['x']] := by
  have whole : (Pattern.tag 2).matchFrom "<a /**/>".toList 0 =
      .ok (some ⟨0, "<a /**/>".toList.length, none⟩) :=
    whole_of_derivation commentTag
  obtain ⟨grammar, token, made, split, -, reads⟩ := tag_reading [] 2 "<a /**/>".toList whole
  have alone := (reads commentTag rfl).alone rfl ['x']
  exact ⟨whole, rfl, rfl, rfl, grammar, token, made, split, alone⟩

/-! ## Tags with quoted values -/

/-- An opening tag with one quoted value. -/
def quotedTag (body : Text) (escaped : Escaped '"' body) : TagDerivation 2 where
  closing := false
  named := some {
    name := letterName
    attributes := [
      { space := [.blank ' ' (by decide)]
        separated := List.cons_ne_nil _ _
        attr := .named (.ofText ['b'] (by decide) (by decide)) (some
          (.quoted '"' (.inl rfl) body escaped))
        fits := ⟨trivial, trivial⟩ }]
    space := []
    slash := false
    fits := trivial }

/-- A tag with a comment and an instruction in a quoted value, and further marks in a spread. -/
def crowdedTag : TagDerivation 1 where
  closing := false
  named := some {
    name := .ofText ['h', '1'] (by decide) (by decide)
    attributes := [
      { space := [.blank ' ' (by decide)]
        separated := List.cons_ne_nil _ _
        attr := .named (.ofText ['b'] (by decide) (by decide)) (some
          (.quoted '"' (.inl rfl) "// /* <?c?>".toList (escaped_of_plain (by simp))))
        fits := ⟨trivial, trivial⟩ },
      { space := [.blank ' ' (by decide)]
        separated := List.cons_ne_nil _ _
        attr := .spread {
          space := []
          expr := "<!--*/--><![CDATA[]]>".toList
          braced := braced_of_plain (by simp)
          fits := trivial }
        fits := ⟨trivial, trivial⟩ }]
    space := []
    slash := false
    fits := trivial }

end TemplHighlight.Templ
