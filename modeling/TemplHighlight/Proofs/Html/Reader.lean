import TemplHighlight.Proofs.Split.Origins
import TemplHighlight.Proofs.Text.Leads
import TemplHighlight.Token.Html

/-!
# Reading HTML back

`read` reads a text that is made of `span` elements and characters, from left to right and without
going back: the tag of an element, its end, one of three entities, or another character. Anything
else that looks like markup is refused, so a text that can be read has one reading.

The main statements say what becomes of the trees that are rendered: the reading goes along the tree,
with one element for each token, whatever characters stand in the source; its elements are well
nested; and what is left without the tags is the source of the tree.
-/

namespace TemplHighlight.Html

/-- What an HTML text is made of. -/
inductive Sign where
  /-- The tag that opens an element, with what it says about classes. -/
  | opening (classes : Text)
  | closing
  | char (c : Char)
  deriving DecidableEq

/-- The signs that are always written in the same way, apart from most characters. -/
def marks : List (Text × Sign) :=
  [("</span>".toList, .closing), ("&lt;".toList, .char '<'), ("&gt;".toList, .char '>'),
    ("&amp;".toList, .char '&')]

/-- The sign that a text starts with, and what follows it. A character that means something in HTML
is no sign by itself. -/
def sign? (html : Text) : Option (Sign × Text) :=
  match marks.findSome? fun (mark, sign) => (Text.after? mark html).map (sign, ·) with
  | some first => some first
  | none =>
    match Text.after? "<span class=\"".toList html with
    | some behind =>
      match behind.dropWhile (· != '"') with
      | '"' :: '>' :: rest => some (.opening (behind.takeWhile (· != '"')), rest)
      | _ => none
    | none =>
      match html with
      | [] => none
      | c :: rest => if c = '<' ∨ c = '>' ∨ c = '&' then none else some (.char c, rest)

/-- There is less behind a lead than in the text that starts with it. -/
theorem shorter_of_after? {lead html rest : Text} (filled : 0 < lead.length)
    (behind : Text.after? lead html = some rest) : rest.length < html.length := by
  rw [Text.eq_append_of_after? behind, List.length_append]
  omega

/-- A sign has characters. -/
theorem shorter_of_sign? {html rest : Text} {sign : Sign} (first : sign? html = some (sign, rest)) :
    rest.length < html.length := by
  unfold sign? at first
  split at first
  · rename_i marked
    cases first
    obtain ⟨⟨mark, _⟩, listed, found⟩ := List.exists_of_findSome?_eq_some marked
    obtain ⟨behind, led, same⟩ := Option.map_eq_some_iff.mp found
    cases same
    have filled : ∀ entry ∈ marks, 0 < entry.1.length := by decide
    exact shorter_of_after? (filled _ listed) led
  split at first
  · rename_i behind led
    split at first
    · rename_i tail dropped
      cases first
      have inside := shorter_of_after? (by decide) led
      have kept := (List.dropWhile_sublist (· != '"') (l := behind)).length_le
      rw [dropped] at kept
      simp only [List.length_cons] at kept
      omega
    · cases first
  split at first
  · cases first
  split at first
  · cases first
  · cases first
    exact Nat.lt_succ_self _

/-- The signs of a text, if it can be read up to its end. -/
def read (html : Text) : Option (List Sign) :=
  if html.isEmpty then some []
  else
    match _first : sign? html with
    | some (sign, rest) => (read rest).map (sign :: ·)
    | none => none
termination_by html.length
decreasing_by exact shorter_of_sign? _first

/-- The elements of a text are well nested: each opening tag has a closing one behind it, and what
is between them is well nested itself. -/
inductive WellNested : List Sign → Prop where
  | done : WellNested []
  | char {c : Char} {later : List Sign} (behind : WellNested later) :
      WellNested (.char c :: later)
  | element {classes : Text} {inner later : List Sign} (inside : WellNested inner)
      (behind : WellNested later) : WellNested (.opening classes :: (inner ++ .closing :: later))

/-- The characters of a text without its tags. -/
def textOf (signs : List Sign) : Text :=
  signs.filterMap fun
    | .char c => some c
    | _ => none

mutual

/-- The signs of a tree: its characters, with an element around those of each token. -/
def signsOf : Tree → List Sign
  | .text chars => chars.map .char
  | .token kind content aliases _ =>
    .opening (classes kind aliases) :: (signsOf content ++ [.closing])
  | .list items => signsOfAll items

/-- The signs of the items of a list, one after the other. -/
def signsOfAll : List Tree → List Sign
  | [] => []
  | item :: items => signsOf item ++ signsOfAll items

end

/-! ## Signs that are read -/

/-- A text is read by its first sign and what follows. -/
theorem read_of_sign? {html rest : Text} {sign : Sign} (first : sign? html = some (sign, rest)) :
    read html = (read rest).map (sign :: ·) := by
  have filled : html.isEmpty = false := by
    cases html with
    | nil => cases first
    | cons c later => rfl
  rw [read, filled]
  simp only [Bool.false_eq_true, if_false]
  split
  · rename_i found
    rw [first] at found
    cases found
    rfl
  · rename_i found
    rw [first] at found
    cases found

/-- A character between tags is read as that character. -/
theorem read_escapedChar (c : Char) (rest : Text) :
    read (escapedChar c ++ rest) = (read rest).map (.char c :: ·) := by
  apply read_of_sign?
  unfold escapedChar
  split
  · rename_i same
    rw [same]
    rfl
  split
  · rename_i same
    rw [same]
    rfl
  split
  · rename_i same
    rw [same]
    rfl
  · rename_i notAmp notLess notGreater
    simp [sign?, marks, Text.after?, notLess, notGreater, notAmp, Ne.symm notLess,
      Ne.symm notAmp]

/-- A text between tags is read as its characters. -/
theorem read_escaped (text rest : Text) :
    read (escaped text ++ rest) = (read rest).map (text.map .char ++ ·) := by
  induction text with
  | nil => simp [escaped]
  | cons c text inductionHypothesis =>
    have split : escaped (c :: text) ++ rest = escapedChar c ++ (escaped text ++ rest) := by
      simp [escaped]
    rw [split, read_escapedChar, inductionHypothesis, Option.map_map]
    rfl

/-- The end of an element is read as such. -/
theorem read_closing (rest : Text) :
    read ("</span>".toList ++ rest) = (read rest).map (.closing :: ·) :=
  read_of_sign? rfl

/-- The tag of an element is read as such, with all its classes, if there is no quote in these. -/
theorem read_opening {classes : Text} (plain : '"' ∉ classes) (rest : Text) :
    read ("<span class=\"".toList ++ classes ++ "\">".toList ++ rest) =
      (read rest).map (.opening classes :: ·) := by
  apply read_of_sign?
  have others : ∀ c ∈ classes, (c != '"') = true := by
    intro c member
    rw [bne_iff_ne]
    rintro rfl
    exact plain member
  have taken : (classes ++ ('"' :: '>' :: rest)).takeWhile (· != '"') = classes := by
    rw [List.takeWhile_append_of_pos others]
    simp
  have dropped : (classes ++ ('"' :: '>' :: rest)).dropWhile (· != '"') = '"' :: '>' :: rest := by
    rw [List.dropWhile_append_of_pos others]
    rfl
  simp [sign?, marks, Text.after?, taken, dropped]

/-! ## Trees that are read -/

/-- Classes that names were added to have a property if the classes and the names have it. -/
theorem addClasses_forall {property : String → Prop} {before names : List String}
    (hasBefore : ∀ name ∈ before, property name) (hasNames : ∀ name ∈ names, property name) :
    ∀ name ∈ addClasses before names, property name := by
  induction names generalizing before with
  | nil => exact hasBefore
  | cons name names inductionHypothesis =>
    obtain ⟨first, later⟩ := List.forall_mem_cons.mp hasNames
    rw [addClasses]
    apply inductionHypothesis _ later
    split
    · exact hasBefore
    · exact List.forall_mem_append.mpr ⟨hasBefore, List.forall_mem_singleton.mpr first⟩

/-- A character that separates no classes is free of the classes of a token if it stands neither in
the names that every token of its kind has nor in its aliases. -/
theorem classes_free {c : Char} {kind : TokenKind} {aliases : List String} (between : c ≠ ' ')
    (ofKind : ∀ name ∈ ["token", kind.name], c ∉ name.toList)
    (free : ∀ name ∈ aliases, c ∉ name.toList) : c ∉ classes kind aliases := by
  intro inClasses
  rcases Text.mem_join inClasses with separates | ⟨text, listed, inText⟩
  · exact between (List.mem_singleton.mp separates)
  · obtain ⟨name, isClass, rfl⟩ := List.mem_map.mp listed
    exact addClasses_forall ofKind free name isClass inText

/-- There is no quote in the classes of a token if there is none in its aliases. -/
theorem classes_plain (kind : TokenKind) {aliases : List String}
    (plain : ∀ name ∈ aliases, '"' ∉ name.toList) : '"' ∉ classes kind aliases :=
  classes_free (by decide) (by cases kind <;> decide) plain

/-- The aliases of all tokens in a tree are free of quotes. -/
def PlainAliases (tree : Tree) : Prop :=
  ∀ kind content aliases cached, (Tree.token kind content aliases cached).Inside tree →
    ∀ name ∈ aliases, '"' ∉ name.toList

/-- A token is an element around what its content is rendered as. -/
theorem render_token (kind : TokenKind) (content : Tree) (aliases : List String)
    (cached : Option Text) (rest : Text) :
    render (.token kind content aliases cached) ++ rest =
      "<span class=\"".toList ++ classes kind aliases ++ "\">".toList ++
        (render content ++ ("</span>".toList ++ rest)) := by
  have element : render (.token kind content aliases cached) =
      "<span class=\"".toList ++ classes kind aliases ++ "\">".toList ++ render content ++
        "</span>".toList := rfl
  rw [element]
  simp only [List.append_assoc]

mutual

/-- What a tree is rendered as is read as its signs, and then what follows is read. -/
theorem read_render : (tree : Tree) → PlainAliases tree → (rest : Text) →
    read (render tree ++ rest) = (read rest).map (signsOf tree ++ ·)
  | .text chars, _, rest => by
    rw [signsOf]
    exact read_escaped chars rest
  | .token kind content aliases cached, plain, rest => by
    have quoteFree := classes_plain kind (plain kind content aliases cached .here)
    have inner (behind : Text) : read (render content ++ behind) =
        (read behind).map (signsOf content ++ ·) := by
      apply read_render
      intro kind' content' aliases' cached' inside
      exact plain kind' content' aliases' cached' (.content inside)
    rw [render_token, read_opening quoteFree, inner, read_closing, signsOf]
    simp [Function.comp_def]
  | .list items, plain, rest => by
    rw [signsOf]
    apply read_renderAll items
    intro item listed kind content aliases cached inside
    exact plain kind content aliases cached (.item listed inside)

/-- The same of the items of a list. -/
theorem read_renderAll : (items : List Tree) → (∀ item ∈ items, PlainAliases item) →
    (rest : Text) → read (renderAll items ++ rest) = (read rest).map (signsOfAll items ++ ·)
  | [], _, rest => by
    have none : renderAll [] = [] := rfl
    simp [none, signsOfAll]
  | item :: items, plain, rest => by
    obtain ⟨first, later⟩ := List.forall_mem_cons.mp plain
    have split : renderAll (item :: items) = render item ++ renderAll items := rfl
    rw [split, signsOfAll, List.append_assoc, read_render item first, read_renderAll items later]
    simp [Function.comp_def]

end

/-- What is well nested is so together with what is well nested behind it. -/
theorem WellNested.append {front back : List Sign} (first : WellNested front)
    (second : WellNested back) : WellNested (front ++ back) := by
  induction first with
  | done => exact second
  | char behind inductionHypothesis => exact .char inductionHypothesis
  | @element classes inner later inside behind _ inductionHypothesis =>
    have split : .opening classes :: (inner ++ .closing :: later) ++ back =
        .opening classes :: (inner ++ .closing :: (later ++ back)) := by simp
    rw [split]
    exact .element inside inductionHypothesis

mutual

/-- The elements of a tree are well nested. -/
theorem wellNested_signsOf : (tree : Tree) → WellNested (signsOf tree)
  | .text chars => by
    rw [signsOf]
    induction chars with
    | nil => exact .done
    | cons c chars inductionHypothesis => exact .char inductionHypothesis
  | .token kind content aliases cached => by
    rw [signsOf]
    exact .element (wellNested_signsOf content) .done
  | .list items => by
    rw [signsOf]
    exact wellNested_signsOfAll items

/-- The same of the items of a list. -/
theorem wellNested_signsOfAll : (items : List Tree) → WellNested (signsOfAll items)
  | [] => .done
  | item :: items => (wellNested_signsOf item).append (wellNested_signsOfAll items)

end

/-- The text of signs one after the other. -/
theorem textOf_append (front back : List Sign) :
    textOf (front ++ back) = textOf front ++ textOf back :=
  List.filterMap_append

/-- The text of an element is the text of what is in it. -/
theorem textOf_element (classes : Text) (inner : List Sign) :
    textOf (.opening classes :: (inner ++ [.closing])) = textOf inner := by
  simp [textOf]

/-- Characters are their own text. -/
theorem textOf_chars (text : Text) : textOf (text.map .char) = text := by
  induction text with
  | nil => rfl
  | cons c text inductionHypothesis => exact congrArg (c :: ·) inductionHypothesis

/-- The text of the signs of items is the source of the items, if that holds of each. -/
theorem textOf_signsOfAll {items : List Tree}
    (each : ∀ item ∈ items, textOf (signsOf item) = item.source) :
    textOf (signsOfAll items) = Tree.sources items := by
  induction items with
  | nil => rfl
  | cons item items inductionHypothesis =>
    obtain ⟨first, later⟩ := List.forall_mem_cons.mp each
    rw [signsOfAll, textOf_append, first, inductionHypothesis later, Tree.sources]

/-- The text of the signs of a tree without loss is its source. The signs show the content, not the
source that a token carries; without loss these are the same. -/
theorem textOf_signsOf {tree : Tree} (lossless : tree.Lossless) :
    textOf (signsOf tree) = tree.source := by
  induction lossless with
  | raw filled =>
    rw [signsOf]
    exact textOf_chars _
  | leaf filled =>
    rw [signsOf, textOf_element, signsOf]
    exact textOf_chars _
  | nested filled covers parts each inductionHypothesis =>
    rw [signsOf, textOf_element, signsOf, textOf_signsOfAll inductionHypothesis]
    exact covers

/-- Items that cover a text are rendered as HTML that can be read, as the signs of the items, and
the characters of these are the text. -/
theorem read_of_covers {text : Text} {items : List Tree} (covers : Split.Covers text items)
    (plain : ∀ item ∈ items, PlainAliases item) :
    read (renderAll items) = some (signsOfAll items) ∧ WellNested (signsOfAll items) ∧
      textOf (signsOfAll items) = text := by
  refine ⟨?_, wellNested_signsOfAll items, ?_⟩
  · have whole := read_renderAll items plain []
    rw [List.append_nil] at whole
    rw [whole, read]
    simp
  · rw [textOf_signsOfAll fun item listed => textOf_signsOf (covers.lossless item listed)]
    exact covers.sources

end TemplHighlight.Html
