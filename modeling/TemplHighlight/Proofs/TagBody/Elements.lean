import TemplHighlight.Proofs.TagBody.Blocks

/-!
# Elements are marked apart

An element is an opening tag and the closing tag of its name, with anything between them that does
not close it: items that are no tags, braces that are not matched, closing tags of other names, tags
that close themselves and further elements. Inside, the innermost open tag is always its own one,
so the closing tag finds it on top and takes the stack back to what it was, braces and all. Since
merging does not go beyond a tag either, what follows an element is marked as if a single tag stood
in its place.
-/

namespace TemplHighlight.TagBody

/-- An item is an opening tag of a name. -/
def Opens (name : Text) (item : Tree) : Prop :=
  ∃ head, head? item = some head ∧ isClosing head = false ∧ isSelfClosing item = false ∧
    nameOf head = name

/-- An item is a closing tag of a name. -/
def Closes (name : Text) (item : Tree) : Prop :=
  ∃ head, head? item = some head ∧ isClosing head = true ∧ nameOf head = name

/-- An item is a tag that closes itself. -/
def ClosesItself (item : Tree) : Prop :=
  ∃ head, head? item = some head ∧ isClosing head = false ∧ isSelfClosing item = true

/-- Items that may stand in an element of a name. -/
inductive Within : (name : Text) → List Tree → Prop where
  | done {name : Text} : Within name []
  /-- An item that is no tag, which may also be a brace. -/
  | loose {name : Text} {item : Tree} {later : List Tree} (noTag : head? item = none)
      (behind : Within name later) : Within name (item :: later)
  | selfClosing {name : Text} {item : Tree} {later : List Tree} (closesItself : ClosesItself item)
      (behind : Within name later) : Within name (item :: later)
  /-- A closing tag of another name, which closes nothing. -/
  | stray {name other : Text} {item : Tree} {later : List Tree} (closes : Closes other item)
      (differs : other ≠ name) (behind : Within name later) : Within name (item :: later)
  | element {name innerName : Text} {opening closing : Tree} {inner later : List Tree}
      (opens : Opens innerName opening) (within : Within innerName inner)
      (closes : Closes innerName closing) (behind : Within name later) :
      Within name (opening :: inner ++ closing :: later)

/-- A well-nested element. -/
inductive Element : List Tree → Prop where
  | tags {name : Text} {opening closing : Tree} {inner : List Tree} (opens : Opens name opening)
      (within : Within name inner) (closes : Closes name closing) :
      Element (opening :: inner ++ [closing])

/-! ## The stack along an element -/

/-- The stack behind two lists is the stack behind the second one, from that behind the first. -/
theorem stackAlong_append (stack : List OpenTag) (front back : List Tree) :
    stackAlong stack (front ++ back) = stackAlong (stackAlong stack front) back :=
  List.foldl_append

/-- The stack goes on behind the first item. -/
theorem stackAlong_cons (stack : List OpenTag) (item : Tree) (later : List Tree) :
    stackAlong stack (item :: later) = stackAlong (stackPast stack item) later :=
  rfl

/-- Behind a tag stands the stack that the tag leaves. -/
theorem stackPast_tag {item : Tree} {head : List Tree} (tag : head? item = some head)
    (stack : List OpenTag) : stackPast stack item = afterTag item head stack := by
  unfold stackPast
  rw [tag]

/-- An opening tag is put on top. -/
theorem stackPast_opens {name : Text} {item : Tree} (opens : Opens name item)
    (stack : List OpenTag) : stackPast stack item = ⟨name, 0⟩ :: stack := by
  obtain ⟨head, tag, notClosing, notSelfClosing, rfl⟩ := opens
  simp [stackPast_tag tag, afterTag, notClosing, notSelfClosing]

/-- A closing tag takes the tag of its name away from the top. -/
theorem stackPast_closes {name : Text} {item : Tree} (closes : Closes name item) (braces : Nat)
    (below : List OpenTag) : stackPast (⟨name, braces⟩ :: below) item = below := by
  obtain ⟨head, tag, closing, rfl⟩ := closes
  simp [stackPast_tag tag, afterTag, closing]

/-- A closing tag leaves a tag of another name on top. -/
theorem stackPast_stray {name other : Text} {item : Tree} (closes : Closes other item)
    (differs : other ≠ name) (braces : Nat) (below : List OpenTag) :
    stackPast (⟨name, braces⟩ :: below) item = ⟨name, braces⟩ :: below := by
  obtain ⟨head, tag, closing, rfl⟩ := closes
  simp [stackPast_tag tag, afterTag, closing, differs.symm]

/-- A tag that closes itself leaves the stack as it is. -/
theorem stackPast_selfClosing {item : Tree} (closesItself : ClosesItself item)
    (stack : List OpenTag) : stackPast stack item = stack := by
  obtain ⟨head, tag, notClosing, selfClosing⟩ := closesItself
  simp [stackPast_tag tag, afterTag, notClosing, selfClosing]

/-- An item that is no tag changes at most the number of braces on top. -/
theorem stackPast_loose {item : Tree} (noTag : head? item = none) (name : Text) (braces : Nat)
    (below : List OpenTag) :
    ∃ counted, stackPast (⟨name, braces⟩ :: below) item = ⟨name, counted⟩ :: below := by
  unfold stackPast
  rw [noTag]
  by_cases opening : isPunctuation ['\x7b'] item = true
  · exact ⟨braces + 1, if_pos opening⟩
  · by_cases closing : isPunctuation ['\x7d'] item = true
    · exact ⟨braces - 1, by simp [opening, closing]⟩
    · exact ⟨braces, by simp [opening, closing]⟩

/-- Whatever stands in an element, its own tag remains on top of the stack, and nothing below it
changes. -/
theorem stackAlong_within {name : Text} {inner : List Tree} (within : Within name inner)
    (braces : Nat) (below : List OpenTag) :
    ∃ counted, stackAlong (⟨name, braces⟩ :: below) inner = ⟨name, counted⟩ :: below := by
  induction within generalizing braces below with
  | done => exact ⟨braces, rfl⟩
  | @loose name item later noTag behind inductionHypothesis =>
    obtain ⟨counted, past⟩ := stackPast_loose noTag name braces below
    rw [stackAlong_cons, past]
    exact inductionHypothesis counted below
  | selfClosing closesItself behind inductionHypothesis =>
    rw [stackAlong_cons, stackPast_selfClosing closesItself]
    exact inductionHypothesis braces below
  | stray closes differs behind inductionHypothesis =>
    rw [stackAlong_cons, stackPast_stray closes differs]
    exact inductionHypothesis braces below
  | @element name innerName opening closing inner later opens within closes behind inInner inBehind =>
    obtain ⟨counted, along⟩ := inInner 0 (⟨name, braces⟩ :: below)
    rw [List.cons_append, stackAlong_cons, stackPast_opens opens, stackAlong_append, along,
      stackAlong_cons, stackPast_closes closes]
    exact inBehind braces below

/-- An element leaves the stack as it found it. -/
theorem stackAlong_element {element : List Tree} (isElement : Element element)
    (stack : List OpenTag) : stackAlong stack element = stack := by
  cases isElement with
  | @tags name opening closing inner opens within closes =>
    obtain ⟨counted, along⟩ := stackAlong_within within 0 stack
    rw [List.cons_append, stackAlong_cons, stackPast_opens opens, stackAlong_append, along]
    exact stackPast_closes closes counted stack

/-! ## What is marked behind an element -/

/-- A list that starts with a tag starts with an item that is kept. -/
theorem startsKept_tag {item : Tree} {head : List Tree} (tag : head? item = some head)
    (stack : List OpenTag) (later : List Tree) : StartsKept stack (item :: later) :=
  ⟨item, rfl, by simp [stackAfter?, tag]⟩

/-- A tag is kept, and behind it goes on what is marked from the stack that it leaves. -/
theorem runs_tag {item : Tree} {head : List Tree} (tag : head? item = some head)
    (stack : List OpenTag) (later : List Tree) :
    runs stack none (item :: later) = kept item :: runs (stackPast stack item) none later := by
  rw [stackPast_tag tag]
  simp [runs, stackAfter?, tag, closeRun]

/-- An element is marked by itself, and what follows it as if it were not there. -/
theorem runs_element {element : List Tree} (isElement : Element element) (stack : List OpenTag)
    (later : List Tree) :
    runs stack none (element ++ later) = runs stack none element ++ runs stack none later := by
  have unchanged := stackAlong_element isElement stack
  cases isElement with
  | @tags name opening closing inner opens within closes =>
    obtain ⟨head, tag, -⟩ := closes
    rw [stackAlong_append] at unchanged
    have pop : stackPast (stackAlong stack (opening :: inner)) closing = stack := unchanged
    rw [List.append_assoc, List.singleton_append, runs_append (startsKept_tag tag _ later),
      runs_append (startsKept_tag tag _ []), runs_tag tag, runs_tag tag, pop]
    simp [runs, closeRun]

/-- Elements are marked apart. Whatever a well-nested element holds, it leaves the stack of open
tags, with all their braces, as it found it. In the result it stands for some items that depend only
on it and on what is in front of it, and what follows it is marked as it is behind a tag that closes
itself, whichever items these are.

Proof: by induction over what stands in the element, its own tag stays on top until it is closed. A
list is marked in parts where the second part starts with a tag, so merging reaches neither out of
the element nor back into it. -/
theorem mark_element (front element : List Tree) (isElement : Element element) :
    (∀ stack, stackAlong stack element = stack) ∧
      ∃ shown, ∀ back tag, ClosesItself tag →
        ∃ result behind,
          mark (front ++ [tag] ++ back) = mark front ++ [result] ++ behind ∧
            mark (front ++ element ++ back) = mark front ++ shown ++ behind := by
  refine ⟨stackAlong_element isElement, runs (stackAlong [] front) none element, ?_⟩
  intro back tag closesItself
  refine ⟨kept tag, runs (stackAlong [] front) none back, ?_, ?_⟩
  · obtain ⟨head, isTag, -⟩ := id closesItself
    have starts := startsKept_tag isTag (stackAlong [] front) back
    rw [List.append_assoc, List.singleton_append, mark_runs, mark_runs, runs_append starts,
      runs_tag isTag, stackPast_selfClosing closesItself, List.append_assoc, List.singleton_append]
  · have starts : StartsKept (stackAlong [] front) (element ++ back) := by
      cases isElement with
      | tags opens within closes =>
        obtain ⟨head, isTag, -⟩ := opens
        exact startsKept_tag isTag _ _
    rw [List.append_assoc, mark_runs, mark_runs, runs_append starts, runs_element isElement,
      List.append_assoc]

/-- A tag token with its marks and its name. -/
def tagNamed (opening name ending : Text) : Tree :=
  .token .tag (.list [
    .token .tagName (.list [.token .punctuation (.text opening) [] none, .text name]) [] none,
    .token .punctuation (.text ending) [] none]) [] none

/-- An element with a brace that is not matched, a closing tag that fits nothing, and an element
inside, in which a closing tag of the outer name stands. -/
def crowdedElement : List Tree :=
  tagNamed ['<'] ['p'] ['>'] :: [
    .token .punctuation (.text ['{']) [] none, tagNamed ['<', '/'] ['q'] ['>'],
    tagNamed ['<'] ['b'] ['>'], tagNamed ['<', '/'] ['p'] ['>'], .text ['x'],
    tagNamed ['<', '/'] ['b'] ['>']] ++ [tagNamed ['<', '/'] ['p'] ['>']]

/-- Such an element is left out of the marking of a word behind it. -/
theorem mark_element_crowded :
    Element crowdedElement ∧ ClosesItself (tagNamed ['<'] ['i'] ['/', '>']) ∧
      ∃ shown result behind,
        mark ([tagNamed ['<'] ['p'] ['>']] ++ [tagNamed ['<'] ['i'] ['/', '>']] ++ [.text ['y']]) =
            mark [tagNamed ['<'] ['p'] ['>']] ++ [result] ++ behind ∧
          mark ([tagNamed ['<'] ['p'] ['>']] ++ crowdedElement ++ [.text ['y']]) =
            mark [tagNamed ['<'] ['p'] ['>']] ++ shown ++ behind := by
  have opens : Opens ['p'] (tagNamed ['<'] ['p'] ['>']) := ⟨_, rfl, rfl, rfl, rfl⟩
  have opensInner : Opens ['b'] (tagNamed ['<'] ['b'] ['>']) := ⟨_, rfl, rfl, rfl, rfl⟩
  have closes (name : Text) : Closes name (tagNamed ['<', '/'] name ['>']) :=
    ⟨_, rfl, rfl, List.append_nil name⟩
  have withinInner : Within ['b'] [tagNamed ['<', '/'] ['p'] ['>'], .text ['x']] :=
    .stray (closes ['p']) (by decide) (.loose rfl .done)
  have inner : Within ['p'] (tagNamed ['<'] ['b'] ['>'] ::
      [tagNamed ['<', '/'] ['p'] ['>'], .text ['x']] ++ [tagNamed ['<', '/'] ['b'] ['>']]) :=
    .element opensInner withinInner (closes ['b']) .done
  have isElement : Element crowdedElement :=
    .tags opens (.loose rfl (.stray (closes ['q']) (by decide) inner)) (closes ['p'])
  have closesItself : ClosesItself (tagNamed ['<'] ['i'] ['/', '>']) :=
    ⟨_, rfl, rfl, rfl⟩
  obtain ⟨-, shown, isolated⟩ := mark_element [tagNamed ['<'] ['p'] ['>']] crowdedElement isElement
  obtain ⟨result, behind, same⟩ := isolated [.text ['y']] _ closesItself
  exact ⟨isElement, closesItself, shown, result, behind, same⟩

end TemplHighlight.TagBody
