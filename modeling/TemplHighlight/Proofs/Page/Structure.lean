import TemplHighlight.Proofs.Page.Reader

/-!
# The structure of a page

A page is read as its elements, one inside of the other: the head with the title, and the body with
the signs of the tree. That holds for every tree, title and language, with one condition on the
language. The title is escaped, so the language may stand there as it likes; but in the values of
two attributes it is written as it is, and there a quote ends the value and an ampersand starts a
reference. So the page is read as it is meant if and only if there is neither in the language.
-/

namespace TemplHighlight.Page

/-! ## Values that are cut short -/

section

variable {signs : List Sign} {tag : Tag} {name : Text}

/-- A value is read up to its quote: no more characters than there are, and less if one of them
starts a reference. -/
def ClosesValue (signs : List Sign) (tag : Tag) (name before text : Text) (state : State) : Prop :=
  ∃ value, state = ⟨signs, .valueEnd
      { tag with attributes := tag.attributes ++ [(name, before ++ value)] }⟩ ∧
    value.length ≤ text.length ∧ ('&' ∈ text → value.length < text.length)

/-- What is read in a value up to the first quote closes the value, with no more characters than
there are. The induction is on the text, for both places at once: a reference is left for the value
again, with one character for all that stand in it. -/
theorem value_closes {text : Text} (noQuote : '"' ∉ text) :
    (∀ before state, run ⟨signs, .value tag name before⟩ (text ++ ['"']) = some state →
      ClosesValue signs tag name before text state) ∧
    ∀ before read state,
      run ⟨signs, .valueReference tag name before read⟩ (text ++ ['"']) = some state →
      ClosesValue signs tag name before ('&' :: text) state := by
  induction text with
  | nil =>
    constructor
    · intro before state ran
      simp only [List.nil_append, run_cons, step, if_pos, Option.bind_some] at ran
      cases ran
      exact ⟨[], by rw [List.append_nil], Nat.le_refl 0, fun referred => absurd referred List.not_mem_nil⟩
    · intro before read state ran
      cases ran
  | cons c text inductionHypothesis =>
    obtain ⟨inValue, inReference⟩ :=
      inductionHypothesis fun quoted => noQuote (List.mem_cons_of_mem c quoted)
    have notQuote : c ≠ '"' := fun same => noQuote (same ▸ List.mem_cons_self)
    constructor
    · intro before state ran
      rw [List.cons_append, run_cons] at ran
      by_cases reference : c = '&'
      · subst reference
        exact inReference before [] state ran
      · simp only [step, if_neg notQuote, if_neg reference, Option.bind_some] at ran
        obtain ⟨value, rfl, bounded, less⟩ := inValue (before ++ [c]) state ran
        refine ⟨c :: value, by simp, by simpa using bounded, fun referred => ?_⟩
        rcases List.mem_cons.mp referred with same | behind
        · exact absurd same.symm reference
        · simpa using less behind
    · intro before read state ran
      rw [List.cons_append, run_cons] at ran
      by_cases ends : c = ';'
      · subst ends
        simp only [step, if_pos] at ran
        cases known : referred? read with
        | none =>
          rw [known] at ran
          cases ran
        | some d =>
          rw [known] at ran
          obtain ⟨value, rfl, bounded, -⟩ := inValue (before ++ [d]) state ran
          refine ⟨d :: value, by simp, ?_, fun _ => ?_⟩ <;> simp only [List.length_cons] <;> omega
      · simp only [step, if_neg ends] at ran
        split at ran
        · obtain ⟨value, rfl, bounded, less⟩ := inReference before _ state ran
          have shorter := less List.mem_cons_self
          simp only [List.length_cons] at shorter
          refine ⟨value, rfl, ?_, fun _ => ?_⟩ <;> simp only [List.length_cons] <;> omega
        · cases ran

/-! ## Attributes that stay -/

/-- The tag that the reader is in, if its attributes were begun. -/
def Mode.tag? : Mode → Option Tag
  | .attributeName tag _ | .valueStart tag _ | .value tag _ _ | .valueEnd tag
  | .valueReference tag _ _ _ => some tag
  | _ => none

/-- Behind some signs, a tag has a given first attribute: the tag that the reader is in, or one that
it has read. -/
inductive Begins (signs : List Sign) (first : Text × Text) : State → Prop where
  | inside {mode : Mode} {name : Text} {more : List (Text × Text)}
      (inTag : mode.tag? = some ⟨name, first :: more⟩) : Begins signs first ⟨signs, mode⟩
  | behind {mode : Mode} {name : Text} {more : List (Text × Text)} {later : List Sign} :
      Begins signs first ⟨signs ++ .opening name (first :: more) :: later, mode⟩

/-- In a tag, a character leaves the attributes and may add one, or it ends the tag. -/
theorem tag_step {mode : Mode} {next : State} {c : Char} (inTag : mode.tag? = some tag)
    (stepped : step ⟨signs, mode⟩ c = some next) :
    (∃ mode' more, next = ⟨signs, mode'⟩ ∧
      mode'.tag? = some { tag with attributes := tag.attributes ++ more }) ∨
    next = ⟨signs ++ [.opening tag.name tag.attributes], .text⟩ := by
  have stays (mode' : Mode) (same : some (⟨signs, mode'⟩ : State) = some next)
      (inTag' : mode'.tag? = some tag) : ∃ mode' more, next = ⟨signs, mode'⟩ ∧
        mode'.tag? = some { tag with attributes := tag.attributes ++ more } := by
    cases same
    exact ⟨mode', [], rfl, by rw [List.append_nil, inTag']⟩
  cases mode with
  | value tag' name read =>
    cases inTag
    simp only [step] at stepped
    split at stepped
    · cases stepped
      exact .inl ⟨_, [(name, read)], rfl, rfl⟩
    split at stepped
    · exact .inl (stays _ stepped rfl)
    · exact .inl (stays _ stepped rfl)
  | valueEnd tag' =>
    cases inTag
    simp only [step] at stepped
    split at stepped
    · exact .inl (stays _ stepped rfl)
    split at stepped
    · cases stepped
      exact .inr rfl
    · cases stepped
  | attributeName tag' name | valueStart tag' name =>
    cases inTag
    simp only [step] at stepped
    left
    split at stepped
    · exact stays _ stepped rfl
    · grind [Mode.tag?]
  | valueReference tag' name value read =>
    cases inTag
    left
    cases known : referred? read <;>
      simp only [step, known, Option.bind_none, Option.bind_some] at stepped <;> grind [Mode.tag?]
  | _ => cases inTag

/-- A first attribute of a tag stays when a character is read. -/
theorem step_begins {first : Text × Text} {state next : State} {c : Char}
    (begins : Begins signs first state) (stepped : step state c = some next) :
    Begins signs first next := by
  cases begins with
  | inside inTag =>
    rcases tag_step inTag stepped with ⟨mode', more', rfl, inTag'⟩ | rfl
    · exact .inside inTag'
    · exact .behind
  | @behind mode name more later =>
    rw [step_behind, Option.map_eq_some_iff] at stepped
    obtain ⟨⟨later', mode'⟩, -, rfl⟩ := stepped
    rw [State.behind, List.append_assoc, List.cons_append]
    exact .behind

/-- So it stays when a text is read. -/
theorem run_begins {first : Text × Text} {html : Text} {state final : State}
    (begins : Begins signs first state) (ran : run state html = some final) :
    Begins signs first final := by
  induction html generalizing state with
  | nil =>
    cases ran
    exact begins
  | cons c html inductionHypothesis =>
    rw [run_cons, Option.bind_eq_some_iff] at ran
    obtain ⟨next, stepped, ran⟩ := ran
    exact inductionHypothesis (step_begins begins stepped) ran

/-- Behind the signs, the tag is the next one that was read. -/
theorem Begins.first_eq {first : Text × Text} {name : Text} {attributes : List (Text × Text)}
    {later : List Sign}
    (begins : Begins signs first ⟨signs ++ .opening name attributes :: later, .text⟩) :
    ∃ more, attributes = first :: more := by
  generalize whole : (⟨signs ++ .opening name attributes :: later, .text⟩ : State) = state at begins
  cases begins with
  | inside inTag =>
    injection whole with _ isText
    subst isText
    cases inTag
  | @behind _ _ more _ =>
    simp only [State.mk.injEq, List.append_cancel_left_eq, List.cons.injEq, Sign.opening.injEq]
      at whole
    exact ⟨more, whole.1.1.2⟩

end

/-! ## The page -/

/-- An element around some signs. -/
def element (name : String) (attributes : List (Text × Text)) (inner : List Sign) : List Sign :=
  .opening name.toList attributes :: (inner ++ [.closing name.toList])

/-- The class of the elements around the code. -/
def languageClass (language : Text) : Text × Text :=
  ("class".toList, "language-".toList ++ language)

/-- The signs of a page with some heading around a body. -/
def signsOfPage (language heading : Text) (body : List Sign) : List Sign :=
  let line := [.char '\n']
  .declaration "DOCTYPE html".toList :: (line ++
    element "html" [] (line ++
      element "head" [] (.opening "meta".toList [("charset".toList, "utf-8".toList)] ::
        element "title" [] (heading.map .char)) ++ line ++
      element "body" [] (line ++
        element "pre" [languageClass language]
          (element "code" [languageClass language] body) ++ line) ++ line) ++ line)

/-- What a page is titled with: its title, or the language if there is none or an empty one. -/
def heading (language : Text) : Option Text → Text
  | some (c :: rest) => c :: rest
  | _ => language

/-- The signs of a page before the code. -/
def signsBefore (heading : Text) : List Sign :=
  [.declaration "DOCTYPE html".toList, .char '\n', .opening "html".toList [], .char '\n',
    .opening "head".toList [], .opening "meta".toList [("charset".toList, "utf-8".toList)],
    .opening "title".toList []] ++ heading.map .char ++
  [.closing "title".toList, .closing "head".toList, .char '\n', .opening "body".toList [],
    .char '\n']

/-- The signs of a page behind the code. -/
def signsBehind : List Sign :=
  [.closing "code".toList, .closing "pre".toList, .char '\n', .closing "body".toList, .char '\n',
    .closing "html".toList, .char '\n']

/-- The signs of a page in a row. -/
theorem signsOfPage_eq (language heading : Text) (body : List Sign) :
    signsOfPage language heading body = signsBefore heading ++
      .opening "pre".toList [languageClass language] ::
        .opening "code".toList [languageClass language] :: (body ++ signsBehind) := by
  simp [signsOfPage, element, signsBefore, signsBehind]

/-- What stands on a page behind the class of the `pre` element. -/
def documentBehind (tree : Tree) (language : Text) : Text :=
  "\"><code class=\"language-".toList ++ language ++ "\">".toList ++ Html.render tree ++
    "</code></pre>\n</body>\n</html>\n".toList

set_option maxRecDepth 1024 in
/-- A page is read up to the class of the `pre` element, whatever its title is. -/
theorem run_document (tree : Tree) (language : Text) (title : Option Text) :
    run ⟨[], .text⟩ (Html.document tree language title) =
      run ⟨signsBefore (heading language title), .value ⟨"pre".toList, []⟩ "class".toList
        "language-".toList⟩ (language ++ documentBehind tree language) := by
  have pieces : Html.document tree language title =
      "<!DOCTYPE html>\n<html>\n<head><meta charset=\"utf-8\"><title>".toList ++
        (Html.escapedQuotes (heading language title) ++
          ("</title></head>\n<body>\n<pre class=\"language-".toList ++
            (language ++ documentBehind tree language))) := by
    have titled : Html.document tree language title =
        "<!DOCTYPE html>\n<html>\n<head><meta charset=\"utf-8\"><title>".toList ++
          Html.escapedQuotes (heading language title) ++
          "</title></head>\n<body>\n<pre class=\"language-".toList ++ language ++
          "\"><code class=\"language-".toList ++ language ++ "\">".toList ++ Html.render tree ++
          "</code></pre>\n</body>\n</html>\n".toList := by
      rcases title with _ | _ | ⟨c, rest⟩ <;> rfl
    rw [titled]
    unfold documentBehind
    simp only [List.append_assoc]
  have front : run ⟨[], .text⟩
      "<!DOCTYPE html>\n<html>\n<head><meta charset=\"utf-8\"><title>".toList =
        some ⟨[.declaration "DOCTYPE html".toList, .char '\n', .opening "html".toList [], .char '\n',
          .opening "head".toList [], .opening "meta".toList [("charset".toList, "utf-8".toList)],
          .opening "title".toList []], .text⟩ := rfl
  have back : run ⟨[], .text⟩ "</title></head>\n<body>\n<pre class=\"language-".toList =
      some ⟨[.closing "title".toList, .closing "head".toList, .char '\n',
        .opening "body".toList [], .char '\n'],
        .value ⟨"pre".toList, []⟩ "class".toList "language-".toList⟩ := rfl
  rw [pieces, run_through front, run_append, run_escapedQuotes, Option.bind_some, run_through back]
  rfl

/-- Behind a clean class of the `pre` element, the class of the `code` element is read as it is
written if it is clean too, and then the tree. -/
theorem run_documentBehind {tree : Tree} {language : Text} (aliases : CleanAliases tree)
    (clean : Clean language) (signs : List Sign) :
    run ⟨signs, .value ⟨"pre".toList, []⟩ "class".toList ("language-".toList ++ language)⟩
        (documentBehind tree language) =
      some ⟨signs ++ .opening "pre".toList [languageClass language] ::
        .opening "code".toList [languageClass language] :: (signsOf tree ++ signsBehind), .text⟩ := by
  have front : run ⟨[], .value ⟨"pre".toList, []⟩ "class".toList ("language-".toList ++ language)⟩
      "\"><code class=\"language-".toList =
        some ⟨[.opening "pre".toList [languageClass language]],
          .value ⟨"code".toList, []⟩ "class".toList "language-".toList⟩ := rfl
  have between : run ⟨[], .value ⟨"code".toList, []⟩ "class".toList ("language-".toList ++ language)⟩
      "\">".toList = some ⟨[.opening "code".toList [languageClass language]], .text⟩ := rfl
  have back : run ⟨[], .text⟩ "</code></pre>\n</body>\n</html>\n".toList =
      some ⟨signsBehind, .text⟩ := rfl
  have pieces : documentBehind tree language = "\"><code class=\"language-".toList ++
      (language ++ ("\">".toList ++ (Html.render tree ++
        ("</code></pre>\n</body>\n</html>\n".toList ++ [])))) := by
    unfold documentBehind
    simp only [List.append_assoc, List.append_nil]
  rw [pieces, run_through front, run_append, run_value _ clean, Option.bind_some,
    run_through between, run_append, run_render tree aliases, Option.bind_some, run_through back]
  simp [run]

/-- A page with a clean language is read as it is meant. -/
theorem read_document {tree : Tree} {language : Text} (aliases : CleanAliases tree)
    (clean : Clean language) (title : Option Text) :
    read (Html.document tree language title) =
      some (signsOfPage language (heading language title) (signsOf tree)) := by
  rw [read, run_document, run_append, run_value _ clean, Option.bind_some,
    run_documentBehind aliases clean, signsOfPage_eq]

/-- Up to its first quote, a text that is not clean is read as a shorter value. -/
theorem shorter_of_unclean {language : Text} (unclean : ¬ Clean language) (rest : Text) :
    ∃ text back, language ++ '"' :: rest = text ++ ['"'] ++ back ∧ '"' ∉ text ∧
      (text.length < language.length ∨ text.length = language.length ∧ '&' ∈ text) := by
  by_cases quoted : '"' ∈ language
  · obtain ⟨text, back, rfl, noQuote⟩ := List.eq_append_cons_of_mem quoted
    exact ⟨text, back ++ '"' :: rest, by simp, noQuote, .inl (by simp)⟩
  · have referred : '&' ∈ language := by
      by_contra free
      exact unclean ⟨quoted, free⟩
    exact ⟨language, rest, by simp, quoted, .inr ⟨rfl, referred⟩⟩

/-- A page with a language that is not clean is not read as it is meant: the class of the `pre`
element has fewer characters. -/
theorem clean_of_read {tree : Tree} {language : Text} {title : Option Text}
    (reads : read (Html.document tree language title) =
      some (signsOfPage language (heading language title) (signsOf tree))) : Clean language := by
  by_contra unclean
  have ran := run_of_read reads
  rw [run_document] at ran
  obtain ⟨rest, quote⟩ : ∃ rest, documentBehind tree language = '"' :: rest := ⟨_, rfl⟩
  obtain ⟨text, back, split, noQuote, shorter⟩ := shorter_of_unclean unclean rest
  rw [quote, split, run_append, Option.bind_eq_some_iff] at ran
  obtain ⟨state, closed, ran⟩ := ran
  obtain ⟨value, rfl, bounded, less⟩ := (value_closes noQuote).1 _ _ closed
  have begins : Begins (signsBefore (heading language title))
      ("class".toList, "language-".toList ++ value)
      ⟨signsBefore (heading language title), .valueEnd ⟨"pre".toList,
        [("class".toList, "language-".toList ++ value)]⟩⟩ := .inside rfl
  have stays := run_begins begins ran
  rw [signsOfPage_eq] at stays
  obtain ⟨more, same⟩ := stays.first_eq
  have cut : language = value := by simpa [languageClass] using (List.cons.inj same).1
  subst cut
  rcases shorter with fewer | ⟨equal, referred⟩
  · omega
  · have := less referred
    omega

/-! ## Nesting and text -/

/-- The elements of a page are well nested: each opening tag has a closing one of the same name
behind it, and what is between them is well nested itself. A `meta` element has no closing tag. -/
inductive WellNested : List Sign → Prop where
  | done : WellNested []
  | char {c : Char} {later : List Sign} (behind : WellNested later) : WellNested (.char c :: later)
  | declaration {text : Text} {later : List Sign} (behind : WellNested later) :
      WellNested (.declaration text :: later)
  | void {attributes : List (Text × Text)} {later : List Sign} (behind : WellNested later) :
      WellNested (.opening "meta".toList attributes :: later)
  | element {name : Text} {attributes : List (Text × Text)} {inner later : List Sign}
      (inside : WellNested inner) (behind : WellNested later) :
      WellNested (.opening name attributes :: (inner ++ .closing name :: later))

/-- What is well nested is so together with what is well nested behind it. -/
theorem WellNested.append {front back : List Sign} (first : WellNested front)
    (second : WellNested back) : WellNested (front ++ back) := by
  induction first with
  | done => exact second
  | char behind inductionHypothesis => exact .char inductionHypothesis
  | declaration behind inductionHypothesis => exact .declaration inductionHypothesis
  | void behind inductionHypothesis => exact .void inductionHypothesis
  | element inside behind _ inductionHypothesis =>
    rw [List.cons_append, List.append_assoc, List.cons_append]
    exact .element inside inductionHypothesis

/-- An element around well nested signs is well nested. -/
theorem WellNested.around {inner : List Sign} (name : String) (attributes : List (Text × Text))
    (inside : WellNested inner) : WellNested (Page.element name attributes inner) :=
  .element inside .done

/-- The signs of a tree are well nested on a page too. -/
theorem WellNested.ofSpans {signs : List Html.Sign} (nested : Html.WellNested signs) :
    WellNested (signs.map ofSpan) := by
  induction nested with
  | done => exact .done
  | char behind inductionHypothesis => exact .char inductionHypothesis
  | element inside behind inHypothesis behindHypothesis =>
    rw [List.map_cons, List.map_append, List.map_cons]
    exact .element inHypothesis behindHypothesis

/-- A page around well nested signs is well nested. -/
theorem wellNested_signsOfPage (language heading : Text) {body : List Sign}
    (inside : WellNested body) : WellNested (signsOfPage language heading body) := by
  have line : WellNested [.char '\n'] := .char .done
  have title : WellNested (element "title" [] (heading.map .char)) := by
    have characters := WellNested.ofSpans (Html.wellNested_signsOf (.text heading))
    rw [Html.signsOf, List.map_map] at characters
    exact characters.around "title" []
  have head : WellNested (element "head" []
      (.opening "meta".toList [("charset".toList, "utf-8".toList)] ::
        element "title" [] (heading.map .char))) := (WellNested.void title).around "head" []
  have code := (inside.around "code" [languageClass language]).around "pre" [languageClass language]
  have shown := ((line.append code).append line).around "body" []
  have whole := ((((line.append head).append line).append shown).append line).around "html" []
  exact .declaration ((line.append whole).append line)

/-- The characters of signs without the tags. -/
def textOf (signs : List Sign) : Text :=
  signs.filterMap fun
    | .char c => some c
    | _ => none

/-- The text of signs is the same on a page. -/
theorem textOf_ofSpan (signs : List Html.Sign) : textOf (signs.map ofSpan) = Html.textOf signs := by
  rw [textOf, Html.textOf, List.filterMap_map]
  congr 1
  funext sign
  cases sign <;> rfl

mutual

/-- The text of the signs of a tree is the text of its leaves. -/
theorem textOf_signsOf : (tree : Tree) → Html.textOf (Html.signsOf tree) = tree.leafText
  | .text chars => by
    rw [Html.signsOf, Html.textOf_chars, Tree.leafText]
  | .token kind content aliases cached => by
    rw [Html.signsOf, Html.textOf_element, textOf_signsOf content, Tree.leafText]
  | .list items => textOf_signsOfAll items

/-- The same of the items of a list. -/
theorem textOf_signsOfAll : (items : List Tree) →
    Html.textOf (Html.signsOfAll items) = Tree.leafTexts items
  | [] => rfl
  | item :: items => by
    rw [Html.signsOfAll, Html.textOf_append, textOf_signsOf item, textOf_signsOfAll items,
      Tree.leafTexts]

end

/-- A page keeps its structure: for every tree, title and language, it is read as the elements of a
page with the tokens of the tree as `span` elements, each attribute and each character as it was
meant, if and only if there is neither a quote nor an ampersand in the language. These elements are
well nested, and the characters of the code are those of the leaves of the tree. Whatever the
language is, a page that can be read has the title that was meant.

Proof: the reader takes every piece of the page for what it is, since the title and the leaves are
escaped and the aliases have no character that means something in a value. Only the language is
written as it is. If it has a quote or an ampersand, then the class of the `pre` element is read as a
shorter value; and since an attribute that was read stays, no reading of what follows puts that
right. -/
theorem document_structure {tree : Tree} (aliases : CleanAliases tree) (language : Text)
    (title : Option Text) :
    (read (Html.document tree language title) =
        some (signsOfPage language (heading language title) (signsOf tree)) ↔ Clean language) ∧
      WellNested (signsOfPage language (heading language title) (signsOf tree)) ∧
      textOf (signsOf tree) = tree.leafText ∧
      ∀ signs, read (Html.document tree language title) = some signs →
        signsBefore (heading language title) <+: signs := by
  refine ⟨⟨clean_of_read, fun clean => read_document aliases clean title⟩,
    wellNested_signsOfPage language _ (.ofSpans (Html.wellNested_signsOf tree)),
    (textOf_ofSpan _).trans (textOf_signsOf tree), fun signs reads => ?_⟩
  have ran := run_of_read reads
  rw [run_document] at ran
  have moved := run_behind (signsBefore (heading language title))
    ⟨[], .value ⟨"pre".toList, []⟩ "class".toList "language-".toList⟩
    (language ++ documentBehind tree language)
  simp only [State.behind, List.append_nil] at moved
  rw [moved, Option.map_eq_some_iff] at ran
  obtain ⟨state, -, same⟩ := ran
  exact ⟨state.signs, congrArg State.signs same⟩

/-- A page with markup in its title, its leaves and nowhere else. -/
theorem document_structure_escaped :
    let tree := Tree.token .keyword (.list [.text "a<b&".toList, .text "\"c".toList]) ["go"] none
    read (Html.document tree "templ".toList (some "</title>\"".toList)) =
        some (signsOfPage "templ".toList "</title>\"".toList (signsOf tree)) ∧
      textOf (signsOf tree) = "a<b&\"c".toList := by
  intro tree
  have aliases : CleanAliases
      (.token .keyword (.list [.text "a<b&".toList, .text "\"c".toList]) ["go"] none) := by
    intro kind content aliases cached inside
    cases inside with
    | here => unfold Clean; decide
    | content within =>
      cases within with
      | item listed deeper =>
        simp only [List.mem_cons, List.not_mem_nil, or_false] at listed
        rcases listed with rfl | rfl <;> cases deeper
  have structured := document_structure aliases "templ".toList (some "</title>\"".toList)
  exact ⟨structured.1.mpr (by unfold Clean; decide), structured.2.2.1⟩

end TemplHighlight.Page
