import TemplHighlight.Proofs.Html.Reader
import TemplHighlight.Proofs.Token.Bare

/-!
# Reading a page

`Page.read` goes through an HTML text character by character and keeps in mind where it is: between
tags, in the name of a tag, in the name or the value of an attribute, or in a reference to a
character. Which characters mean something depends on that, as it does in HTML: `<` opens a tag
between tags but is a plain character in a value, a quote closes a value but is a plain character
between tags, and `&` starts a reference in both places. Anything that is not written in full is
refused: a tag that does not end, a value without quotes, a reference to an unknown character.

Since the reader only looks at one character after the other, a text is read piece by piece. The
main statements of this module say what is read in which place: the HTML of a tree as its signs, an
escaped text as its characters, and a value without quotes and references as itself.
-/

namespace TemplHighlight.Page

/-- What a page is made of. -/
inductive Sign where
  | declaration (text : Text)
  | opening (name : Text) (attributes : List (Text × Text))
  | closing (name : Text)
  | char (c : Char)
  deriving DecidableEq

/-- A tag as far as it was read. -/
structure Tag where
  name : Text
  attributes : List (Text × Text)

/-- Where the reader is. -/
inductive Mode where
  | text
  /-- Behind the `<` of a tag. -/
  | tagStart
  | declaration (read : Text)
  | closing (name : Text)
  | tagName (name : Text)
  | attributeName (tag : Tag) (name : Text)
  /-- Behind the `=` of an attribute. -/
  | valueStart (tag : Tag) (name : Text)
  | value (tag : Tag) (name read : Text)
  /-- Behind the value of an attribute. -/
  | valueEnd (tag : Tag)
  | reference (read : Text)
  /-- In a reference that is part of a value. -/
  | valueReference (tag : Tag) (name value read : Text)

/-- What was read, and where the reader is. -/
structure State where
  signs : List Sign
  mode : Mode

/-- The character that a reference stands for. -/
def referred? (name : Text) : Option Char :=
  if name = "amp".toList then some '&'
  else if name = "lt".toList then some '<'
  else if name = "gt".toList then some '>'
  else if name = "quot".toList then some '"'
  else if name = "#x27".toList then some '\''
  else none

/-- Whether a character may stand in the name of a reference. -/
def isReferenceChar (c : Char) : Bool := c.isAlphanum || c == '#'

/-- Reads one character. -/
def step (state : State) (c : Char) : Option State :=
  let go (mode : Mode) : Option State := some { state with mode }
  let made (sign : Sign) : Option State := some ⟨state.signs ++ [sign], .text⟩
  match state.mode with
  | .text =>
    if c = '<' then go .tagStart
    else if c = '&' then go (.reference [])
    else if c = '>' then none
    else made (.char c)
  | .tagStart =>
    if c = '/' then go (.closing [])
    else if c = '!' then go (.declaration [])
    else if c.isAlpha then go (.tagName [c])
    else none
  | .declaration read => if c = '>' then made (.declaration read) else go (.declaration (read ++ [c]))
  | .closing name =>
    if c.isAlpha then go (.closing (name ++ [c]))
    else if c = '>' then made (.closing name)
    else none
  | .tagName name =>
    if c.isAlpha then go (.tagName (name ++ [c]))
    else if c = ' ' then go (.attributeName ⟨name, []⟩ [])
    else if c = '>' then made (.opening name [])
    else none
  | .attributeName tag name =>
    if c.isAlpha then go (.attributeName tag (name ++ [c]))
    else if c = '=' then go (.valueStart tag name)
    else none
  | .valueStart tag name => if c = '"' then go (.value tag name []) else none
  | .value tag name read =>
    if c = '"' then go (.valueEnd { tag with attributes := tag.attributes ++ [(name, read)] })
    else if c = '&' then go (.valueReference tag name read [])
    else go (.value tag name (read ++ [c]))
  | .valueEnd tag =>
    if c = ' ' then go (.attributeName tag [])
    else if c = '>' then made (.opening tag.name tag.attributes)
    else none
  | .reference read =>
    if c = ';' then (referred? read).bind fun d => made (.char d)
    else if isReferenceChar c then go (.reference (read ++ [c]))
    else none
  | .valueReference tag name value read =>
    if c = ';' then (referred? read).bind fun d => go (.value tag name (value ++ [d]))
    else if isReferenceChar c then go (.valueReference tag name value (read ++ [c]))
    else none

/-- Reads a text from a state on. -/
def run (state : State) (html : Text) : Option State := html.foldlM step state

/-- The signs of a text, if it can be read and ends between tags. -/
def read (html : Text) : Option (List Sign) :=
  match run ⟨[], .text⟩ html with
  | some ⟨signs, .text⟩ => some signs
  | _ => none

/-- What can be read was gone through, up to a place between tags. -/
theorem run_of_read {html : Text} {signs : List Sign} (reads : read html = some signs) :
    run ⟨[], .text⟩ html = some ⟨signs, .text⟩ := by
  unfold read at reads
  split at reads
  · rename_i ran
    cases reads
    exact ran
  · cases reads

/-- Two texts are read one after the other. -/
theorem run_append (state : State) (front back : Text) :
    run state (front ++ back) = (run state front).bind (run · back) :=
  List.foldlM_append

/-- A text is read character by character. -/
theorem run_cons (state : State) (c : Char) (html : Text) :
    run state (c :: html) = (step state c).bind (run · html) :=
  List.foldlM_cons

/-- A state behind some signs. -/
def State.behind (signs : List Sign) (state : State) : State :=
  { state with signs := signs ++ state.signs }

/-- What a character does depends on where the reader is, not on what was read. -/
theorem step_behind (signs : List Sign) (mode : Mode) (c : Char) :
    step ⟨signs, mode⟩ c = (step ⟨[], mode⟩ c).map (·.behind signs) := by
  cases mode with
  | reference read | valueReference tag name value read =>
    cases known : referred? read <;>
      simp only [step, known, Option.bind_none, Option.bind_some] <;> split_ifs <;>
        simp [State.behind]
  | _ =>
    simp only [step]
    split_ifs <;> simp [State.behind]

/-- So it is with a text. -/
theorem run_behind (signs : List Sign) (state : State) (html : Text) :
    run (state.behind signs) html = (run state html).map (·.behind signs) := by
  induction html generalizing state with
  | nil => rfl
  | cons c html inductionHypothesis =>
    obtain ⟨earlier, mode⟩ := state
    have first : step (State.behind signs ⟨earlier, mode⟩) c =
        (step ⟨earlier, mode⟩ c).map (·.behind signs) := by
      rw [State.behind, step_behind, step_behind earlier, Option.map_map]
      simp [Function.comp_def, State.behind]
    rw [run_cons, run_cons, first]
    cases step ⟨earlier, mode⟩ c with
    | none => rfl
    | some next => exact inductionHypothesis next

/-- A text that is read in the same way everywhere is done with before what follows is read. -/
theorem run_through {mode mode' : Mode} {front : Text} {later : List Sign}
    (reads : run ⟨[], mode⟩ front = some ⟨later, mode'⟩) (signs : List Sign) (back : Text) :
    run ⟨signs, mode⟩ (front ++ back) = run ⟨signs ++ later, mode'⟩ back := by
  have moved := run_behind signs ⟨[], mode⟩ front
  simp only [State.behind, List.append_nil, reads, Option.map_some] at moved
  rw [run_append, moved, Option.bind_some]

variable (signs : List Sign)

/-! ## Text -/

/-- A character between tags is read as that character. -/
theorem run_escapedChar (c : Char) :
    run ⟨signs, .text⟩ (Html.escapedChar c) = some ⟨signs ++ [.char c], .text⟩ := by
  unfold Html.escapedChar
  split
  · rename_i same
    rw [same]
    rfl
  split
  · rename_i same
    rw [same]
    rfl
  split
  · rename_i same
    rw [same]
    rfl
  · rename_i notAmp notLess notGreater
    simp [step, notAmp, notLess, notGreater, run]

/-- So is one that is written as an entity if it is a quote. -/
theorem run_escapedQuote (c : Char) :
    run ⟨signs, .text⟩ (if c = '"' then "&quot;".toList else if c = '\'' then "&#x27;".toList
      else Html.escapedChar c) = some ⟨signs ++ [.char c], .text⟩ := by
  split
  · rename_i same
    rw [same]
    rfl
  split
  · rename_i same
    rw [same]
    rfl
  · exact run_escapedChar signs c

/-- A text is read as its characters if each of them is. -/
theorem run_flatMap {written : Char → Text}
    (each : ∀ signs c, run ⟨signs, .text⟩ (written c) = some ⟨signs ++ [.char c], .text⟩)
    (text : Text) :
    run ⟨signs, .text⟩ (text.flatMap written) = some ⟨signs ++ text.map .char, .text⟩ := by
  induction text generalizing signs with
  | nil => simp [run]
  | cons c text inductionHypothesis =>
    rw [List.flatMap_cons, run_append, each, Option.bind_some, inductionHypothesis,
      List.append_assoc, List.map_cons, List.singleton_append]

/-- A text between tags is read as its characters. -/
theorem run_escaped (text : Text) :
    run ⟨signs, .text⟩ (Html.escaped text) = some ⟨signs ++ text.map .char, .text⟩ :=
  run_flatMap signs run_escapedChar text

/-- So is a text in which quotes are escaped too. -/
theorem run_escapedQuotes (text : Text) :
    run ⟨signs, .text⟩ (Html.escapedQuotes text) = some ⟨signs ++ text.map .char, .text⟩ :=
  run_flatMap signs run_escapedQuote text

/-! ## Values -/

/-- A text is free of the characters that mean something in a value. -/
def Clean (text : Text) : Prop := '"' ∉ text ∧ '&' ∉ text

/-- A text is free of them if its first character is none of them and the rest is free. -/
theorem clean_cons {c : Char} {text : Text} :
    Clean (c :: text) ↔ (c ≠ '"' ∧ c ≠ '&') ∧ Clean text := by
  simp only [Clean, List.mem_cons, not_or, ne_comm, ne_eq]
  tauto

/-- A value that is free of such characters is read as itself. -/
theorem run_value {text : Text} (clean : Clean text) (tag : Tag) (name before : Text) :
    run ⟨signs, .value tag name before⟩ text =
      some ⟨signs, .value tag name (before ++ text)⟩ := by
  induction text generalizing before with
  | nil => simp [run]
  | cons c text inductionHypothesis =>
    obtain ⟨⟨notQuote, notReference⟩, behind⟩ := clean_cons.mp clean
    have first : step ⟨signs, .value tag name before⟩ c =
        some ⟨signs, .value tag name (before ++ [c])⟩ := by
      simp only [step, if_neg notQuote, if_neg notReference]
    rw [run_cons, first, Option.bind_some, inductionHypothesis behind, List.append_assoc,
      List.singleton_append]

/-! ## Trees -/

/-- A sign of a tree as one of a page: the elements are all `span` elements, with one attribute. -/
def ofSpan : Html.Sign → Sign
  | .opening classes => .opening "span".toList [("class".toList, classes)]
  | .closing => .closing "span".toList
  | .char c => .char c

/-- The signs of a tree. -/
def signsOf (tree : Tree) : List Sign := (Html.signsOf tree).map ofSpan

/-- The signs of the items of a list. -/
def signsOfAll (items : List Tree) : List Sign := (Html.signsOfAll items).map ofSpan

/-- The aliases of all tokens in a tree are free of the characters that mean something in a value. -/
def CleanAliases (tree : Tree) : Prop :=
  ∀ kind content aliases cached, (Tree.token kind content aliases cached).Inside tree →
    ∀ name ∈ aliases, Clean name.toList

/-- The classes of a token are free of such characters if its aliases are. -/
theorem classes_clean (kind : TokenKind) {aliases : List String}
    (clean : ∀ name ∈ aliases, Clean name.toList) : Clean (Html.classes kind aliases) := by
  constructor
  · exact Html.classes_plain kind fun name listed => (clean name listed).1
  · apply Html.classes_free (by decide) (by cases kind <;> decide)
    exact fun name listed => (clean name listed).2

/-- The tag of an element with classes is read as such. -/
theorem run_opening {classes : Text} (clean : Clean classes) :
    run ⟨signs, .text⟩ ("<span class=\"".toList ++ classes ++ "\">".toList) =
      some ⟨signs ++ [ofSpan (.opening classes)], .text⟩ := by
  have front : run ⟨signs, .text⟩ "<span class=\"".toList =
      some ⟨signs, .value ⟨"span".toList, []⟩ "class".toList []⟩ := rfl
  have back : run ⟨signs, .value ⟨"span".toList, []⟩ "class".toList classes⟩ "\">".toList =
      some ⟨signs ++ [ofSpan (.opening classes)], .text⟩ := rfl
  rw [run_append, run_append, front, Option.bind_some, run_value signs clean, Option.bind_some,
    List.nil_append, back]

/-- An element around a text is read as its tags with the signs of the text between them. -/
theorem run_element {classes html : Text} {inner : List Sign} (clean : Clean classes)
    (reads : ∀ signs, run ⟨signs, .text⟩ html = some ⟨signs ++ inner, .text⟩) :
    run ⟨signs, .text⟩ ("<span class=\"".toList ++ classes ++ "\">".toList ++ html ++
      "</span>".toList) =
        some ⟨signs ++ ofSpan (.opening classes) :: (inner ++ [ofSpan .closing]), .text⟩ := by
  have closing (signs : List Sign) : run ⟨signs, .text⟩ "</span>".toList =
      some ⟨signs ++ [ofSpan .closing], .text⟩ := rfl
  rw [run_append, run_append, run_opening signs clean, Option.bind_some, reads, Option.bind_some,
    closing]
  simp

mutual

/-- The HTML of a tree is read as the signs of the tree. -/
theorem run_render : (tree : Tree) → CleanAliases tree → (signs : List Sign) →
    run ⟨signs, .text⟩ (Html.render tree) = some ⟨signs ++ signsOf tree, .text⟩
  | .text chars, _, signs => by
    have characters : signsOf (.text chars) = chars.map .char := by
      simp [signsOf, Html.signsOf, ofSpan]
    rw [characters]
    exact run_escaped signs chars
  | .token kind content aliases cached, clean, signs => by
    have inner : CleanAliases content := fun kind' content' aliases' cached' inside =>
      clean kind' content' aliases' cached' (.content inside)
    have split : signsOf (.token kind content aliases cached) =
        ofSpan (.opening (Html.classes kind aliases)) :: (signsOf content ++ [ofSpan .closing]) := by
      simp [signsOf, Html.signsOf]
    rw [split]
    exact run_element signs (classes_clean kind (clean kind content aliases cached .here))
      (run_render content inner)
  | .list items, clean, signs =>
    run_renderAll items (fun item listed kind content aliases cached inside =>
      clean kind content aliases cached (.item listed inside)) signs

/-- The same of the items of a list. -/
theorem run_renderAll : (items : List Tree) → (∀ item ∈ items, CleanAliases item) →
    (signs : List Sign) →
    run ⟨signs, .text⟩ (Html.renderAll items) = some ⟨signs ++ signsOfAll items, .text⟩
  | [], _, signs => by simp [Html.renderAll, run, signsOfAll, Html.signsOfAll]
  | item :: items, clean, signs => by
    obtain ⟨first, later⟩ := List.forall_mem_cons.mp clean
    rw [Html.renderAll, run_append, run_render item first, Option.bind_some,
      run_renderAll items later]
    simp [signsOfAll, signsOf, Html.signsOfAll]

end

end TemplHighlight.Page
