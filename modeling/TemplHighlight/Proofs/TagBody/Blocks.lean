import Mathlib.Data.List.SplitBy
import TemplHighlight.Proofs.TagBody.Idempotent

/-!
# Body text, block by block

What marking comes to, said without a list of done items. The stack of open tags goes over the items
once and says of each whether it is body text. The items then fall into blocks: body text stands in
one block with the body text next to it, and every other item is a block of its own. Marking puts
one plain-text token in place of each block of body text, and keeps everything else.

From this it follows that the result holds no two neighbours that are body text, and that nothing
changes where no tag is opened.
-/

namespace TemplHighlight.TagBody

/-! ## The blocks of a list -/

/-- Whether an item is body text: a tag is open, no brace is open in its body, and the item is
neither a tag nor an opening brace. -/
def isBodyText (stack : List OpenTag) (item : Tree) : Bool :=
  inBody stack && (head? item).isNone && !isPunctuation ['{'] item

/-- The stack behind an item. Tags open and close, braces are counted for the innermost open tag,
down to none, and every other item leaves the stack as it is. -/
def stackPast (stack : List OpenTag) (item : Tree) : List OpenTag :=
  match head? item, stack with
  | some head, stack => afterTag item head stack
  | none, [] => []
  | none, top :: below =>
    if isPunctuation ['{'] item then { top with openBraces := top.openBraces + 1 } :: below
    else if isPunctuation ['}'] item then { top with openBraces := top.openBraces - 1 } :: below
    else top :: below

/-- Every item together with whether it is body text. -/
def labelled (stack : List OpenTag) : List Tree → List (Bool × Tree)
  | [] => []
  | item :: items => (isBodyText stack item, item) :: labelled (stackPast stack item) items

/-- Whether two items are both body text. -/
def bothBody (first second : Bool × Tree) : Bool := first.1 && second.1

/-- The items in blocks, as long as they can be: neighbours are in one block if and only if both are
body text. -/
def blocks (items : List Tree) : List (List (Bool × Tree)) := (labelled [] items).splitBy bothBody

/-- An item is kept: its kind, its aliases and its source stay, and the list inside it is marked by
itself, no tag being open at its start. -/
inductive Keeps : (item result : Tree) → Prop where
  | flat {item : Tree} (flat : item.isNested = false) : Keeps item item
  | nested {kind : TokenKind} {items : List Tree} {aliases : List String}
      {cached carried : Option Text}
      (source : (Tree.token kind (.list (mark items)) aliases carried).source =
        (Tree.token kind (.list items) aliases cached).source) :
      Keeps (.token kind (.list items) aliases cached)
        (.token kind (.list (mark items)) aliases carried)

/-- What becomes of a block. -/
inductive Becomes : (block : List (Bool × Tree)) → (result : Tree) → Prop where
  | kept {item result : Tree} (keeps : Keeps item result) : Becomes [(false, item)] result
  | body {items : List Tree} (some : items ≠ []) :
      Becomes (items.map (true, ·)) (plainText (Tree.sources items))

/-- The stack takes the same way as in marking, where it says nothing of body text. -/
theorem stackAfter?_eq (stack : List OpenTag) (item : Tree) :
    stackAfter? stack item =
      if isBodyText stack item then none else some (stackPast stack item) := by
  unfold stackAfter? isBodyText stackPast
  cases head? item with
  | some head => simp
  | none =>
    cases stack with
    | nil => rfl
    | cons top below =>
      by_cases opening : isPunctuation ['\x7b'] item = true
      · simp [afterBrace?, opening]
      · by_cases closing : isPunctuation ['\x7d'] item = true
        · by_cases counted : top.openBraces = 0 <;>
            simp [afterBrace?, inBody, opening, closing, counted]
        · by_cases counted : top.openBraces = 0 <;>
            simp [afterBrace?, inBody, opening, closing, counted]

/-- Body text leaves the stack as it is. -/
theorem stackPast_body {stack : List OpenTag} {item : Tree}
    (body : isBodyText stack item = true) : stackPast stack item = stack := by
  simp only [isBodyText, Bool.and_eq_true, Option.isNone_iff_eq_none, Bool.not_eq_true'] at body
  obtain ⟨⟨inside, noTag⟩, noBrace⟩ := body
  cases stack with
  | nil => cases inside
  | cons top below =>
    have none : top.openBraces = 0 := beq_iff_eq.mp inside
    have same : ({ top with openBraces := top.openBraces - 1 } : OpenTag) = top := by
      cases top
      simp_all
    simp [stackPast, noTag, noBrace, same]

/-- An item that marking keeps is no body text, and the stack goes on from it in the same way. -/
theorem label_of_some {stack stack' : List OpenTag} {item : Tree}
    (keeps : stackAfter? stack item = some stack') :
    isBodyText stack item = false ∧ stackPast stack item = stack' := by
  rw [stackAfter?_eq] at keeps
  split at keeps
  · cases keeps
  · rename_i other
    exact ⟨Bool.eq_false_iff.mpr other, Option.some.inj keeps⟩

/-- An item that marking does not keep is body text. -/
theorem label_of_none {stack : List OpenTag} {item : Tree}
    (merges : stackAfter? stack item = none) :
    isBodyText stack item = true ∧ stackPast stack item = stack := by
  rw [stackAfter?_eq] at merges
  split at merges
  · rename_i body
    exact ⟨body, stackPast_body body⟩
  · cases merges

/-! ## Lists in two parts -/

/-- The stack behind some items. -/
def stackAlong (stack : List OpenTag) (items : List Tree) : List OpenTag :=
  items.foldl stackPast stack

/-- The items start with one that is kept. -/
def StartsKept (stack : List OpenTag) (items : List Tree) : Prop :=
  ∃ first ∈ items.head?, (stackAfter? stack first).isSome = true

/-- An item that is kept ends the run in front of it. -/
theorem runs_startsKept {stack : List OpenTag} {more : List Tree}
    (starts : StartsKept stack more) (run : Option Text) :
    runs stack run more = closeRun run ++ runs stack none more := by
  obtain ⟨first, isFirst, keeps⟩ := starts
  obtain ⟨next, after⟩ := Option.isSome_iff_exists.mp keeps
  cases more with
  | nil => cases isFirst
  | cons item later =>
    cases isFirst
    simp only [runs, after, closeRun, List.nil_append]

/-- Where the second part of a list starts with an item that is kept, the parts are marked one after
the other. -/
theorem runs_append {stack : List OpenTag} {run : Option Text} {front back : List Tree}
    (starts : StartsKept (stackAlong stack front) back) :
    runs stack run (front ++ back) =
      runs stack run front ++ runs (stackAlong stack front) none back := by
  induction front generalizing stack run with
  | nil => exact runs_startsKept starts run
  | cons item front inductionHypothesis =>
    rw [stackAlong, List.foldl_cons] at starts ⊢
    simp only [List.cons_append, runs]
    cases after : stackAfter? stack item with
    | some stack' =>
      rw [(label_of_some after).2] at starts ⊢
      have behind : runs stack' none (front ++ back) =
          runs stack' none front ++ runs (stackAlong stack' front) none back :=
        inductionHypothesis starts
      simp only [behind, List.append_assoc, List.cons_append]
      rfl
    | none =>
      rw [(label_of_none after).2] at starts ⊢
      exact inductionHypothesis starts

/-! ## Blocks become items -/

/-- What is kept by marking is kept. -/
theorem keeps_kept (item : Tree) : Keeps item (kept item) := by
  have source := source_kept item
  rcases flat_or_nested item with flat | ⟨kind, items, aliases, cached, rfl⟩
  · rw [kept_flat flat]
    exact .flat flat
  · rw [kept_nested] at source ⊢
    exact .nested source

/-- The open run of some body text. -/
def runOf : List Tree → Option Text
  | [] => none
  | items => some (Tree.sources items)

/-- One more item goes on with the run. -/
theorem runOf_concat (items : List Tree) (item : Tree) :
    runOf (items ++ [item]) = some ((runOf items).getD [] ++ item.source) := by
  cases items with
  | nil => simp [runOf, Tree.sources]
  | cons first later => simp [runOf, Tree.sources, Tree.sources_append]

/-- Items that are all body text are one block. -/
theorem splitBy_body {items : List Tree} (some : items ≠ []) :
    (items.map (true, ·)).splitBy bothBody = [items.map (true, ·)] := by
  refine List.splitBy_of_isChain (by simpa using some) ?_
  rw [List.isChain_map]
  exact (List.pairwise_of_forall fun _ _ => rfl).isChain

/-- An item that is kept ends the block in front of it and is a block of its own. -/
theorem splitBy_kept (front : List (Bool × Tree)) (item : Tree) (back : List (Bool × Tree)) :
    (front ++ (false, item) :: back).splitBy bothBody =
      front.splitBy bothBody ++ [(false, item)] :: back.splitBy bothBody := by
  have alone : ([(false, item)] ++ back).splitBy bothBody =
      [(false, item)].splitBy bothBody ++ back.splitBy bothBody := by
    refine List.splitBy_append ?_
    rintro _ ⟨⟩ _ _
    rfl
  rw [List.splitBy_append_cons back fun last _ => Bool.and_false last.1]
  exact congrArg (front.splitBy bothBody ++ ·) alone

section

variable {relates : List (Bool × Tree) → Tree → Prop}

/-- The block of some body text is related to the token of its run, if the text of such a block
is. -/
theorem blocks_closeRun
    (ofBody : ∀ items, items ≠ [] → relates (items.map (true, ·)) (plainText (Tree.sources items)))
    (items : List Tree) :
    List.Forall₂ relates ((items.map (true, ·)).splitBy bothBody) (closeRun (runOf items)) := by
  cases items with
  | nil => exact .nil
  | cons first later =>
    rw [splitBy_body (List.cons_ne_nil first later)]
    exact .cons (ofBody (first :: later) (List.cons_ne_nil first later)) .nil

/-- The blocks of a list are related to the merged runs, one by one, if an item that is kept is
related to what is kept of it, and the text of body text to a block of it. The run that is open
stands for the body text that was passed since the last item that was kept. -/
theorem blocks_runs
    (ofBody : ∀ items, items ≠ [] → relates (items.map (true, ·)) (plainText (Tree.sources items)))
    {items : List Tree} (ofKept : ∀ item ∈ items, relates [(false, item)] (kept item))
    (passed : List Tree) (stack : List OpenTag) :
    List.Forall₂ relates ((passed.map (true, ·) ++ labelled stack items).splitBy bothBody)
      (runs stack (runOf passed) items) := by
  induction items generalizing passed stack with
  | nil =>
    rw [labelled, List.append_nil]
    exact blocks_closeRun ofBody passed
  | cons item items inductionHypothesis =>
    obtain ⟨here, later⟩ := List.forall_mem_cons.mp ofKept
    rw [labelled, runs]
    cases after : stackAfter? stack item with
    | none =>
      obtain ⟨body, same⟩ := label_of_none after
      have longer : passed.map (true, ·) ++ (true, item) :: labelled stack items =
          (passed ++ [item]).map (true, ·) ++ labelled stack items := by
        simp
      rw [body, same, longer]
      simp only [← runOf_concat]
      exact inductionHypothesis later (passed ++ [item]) stack
    | some stack' =>
      obtain ⟨other, next⟩ := label_of_some after
      rw [other, next, splitBy_kept]
      exact List.rel_append (blocks_closeRun ofBody passed)
        (.cons here (inductionHypothesis later [] stack'))

end

/-- Merging runs does with each block what is said. -/
theorem becomes_runs (passed : List Tree) (stack : List OpenTag) (items : List Tree) :
    List.Forall₂ Becomes ((passed.map (true, ·) ++ labelled stack items).splitBy bothBody)
      (runs stack (runOf passed) items) :=
  blocks_runs (fun _ filled => .body filled) (fun item _ => .kept (keeps_kept item)) passed stack

/-! ## What the stack says of the result -/

/-- Of two neighbours at most one is body text, and all body text is made of plain-text tokens
without aliases. -/
structure Merged (labels : List (Bool × Tree)) : Prop where
  apart : labels.IsChain fun first second => bothBody first second = false
  plain : ∀ item, (true, item) ∈ labels → ∃ text, item = plainText text

/-- Merged items stay merged with an item that is kept in front of them. -/
theorem Merged.cons_kept {labels : List (Bool × Tree)} (merged : Merged labels) (item : Tree) :
    Merged ((false, item) :: labels) := by
  refine ⟨List.isChain_cons.mpr ⟨fun _ _ => rfl, merged.apart⟩, ?_⟩
  intro other member
  rcases List.mem_cons.mp member with same | behind
  · cases same
  · exact merged.plain other behind

/-- The label of the token of a run in front of labels. -/
def labelRun (run : Option Text) (labels : List (Bool × Tree)) : List (Bool × Tree) :=
  (closeRun run).map (true, ·) ++ labels

/-- Merged items stay merged with the token of a run in front of them, if they do not start with
body text. -/
theorem Merged.labelRun {labels : List (Bool × Tree)} (merged : Merged labels)
    (fresh : ∀ first ∈ labels.head?, first.1 = false) (run : Option Text) :
    Merged (labelRun run labels) := by
  cases run with
  | none => exact merged
  | some text =>
    refine ⟨List.isChain_cons.mpr ⟨?_, merged.apart⟩, ?_⟩
    · intro first isFirst
      rw [bothBody, fresh first isFirst, Bool.and_false]
    · intro other member
      rcases List.mem_cons.mp member with same | behind
      · cases same
        exact ⟨text, rfl⟩
      · exact merged.plain other behind

/-- The token of a run is labelled as body text, and the stack stays. -/
theorem labelled_closeRun {stack : List OpenTag} {run : Option Text}
    (inside : run.isSome = true → inBody stack = true) (items : List Tree) :
    labelled stack (closeRun run ++ items) = labelRun run (labelled stack items) := by
  cases run with
  | none => rfl
  | some text =>
    obtain ⟨body, same⟩ := label_of_none (stackAfter?_plainText (inside rfl) text)
    simp only [closeRun, List.singleton_append, labelled, body, same]
    rfl

/-- Where runs were merged, the stack finds merged items. -/
theorem merged_runs {stack : List OpenTag} {run : Option Text}
    (inside : run.isSome = true → inBody stack = true) (items : List Tree) :
    Merged (labelled stack (runs stack run items)) := by
  induction items generalizing stack run with
  | nil =>
    have nothing : Merged [] := by
      refine ⟨.nil, ?_⟩
      intro item member
      cases member
    have ended := labelled_closeRun inside []
    rw [List.append_nil] at ended
    rw [runs, ended]
    apply nothing.labelRun
    intro first isFirst
    cases isFirst
  | cons item items inductionHypothesis =>
    rw [runs]
    cases after : stackAfter? stack item with
    | none => exact inductionHypothesis fun _ => inBody_of_stackAfter? after
    | some stack' =>
      obtain ⟨other, next⟩ := label_of_some ((stackAfter?_kept stack item).trans after)
      have behind : Merged (labelled stack' (runs stack' none items)) :=
        inductionHypothesis inside_none
      simp only [labelled_closeRun inside, labelled, other, next]
      refine (behind.cons_kept (kept item)).labelRun ?_ run
      rintro _ ⟨⟩
      rfl

/-! ## Lists in which no tag is opened -/

/-- Whether an item is an opening tag. -/
def isOpening (item : Tree) : Bool :=
  (head? item).any fun head => !isClosing head && !isSelfClosing item

mutual

/-- Whether an item is an opening tag, or one stands inside it at any depth. -/
def opens : Tree → Bool
  | .token kind (.list items) aliases cached =>
    isOpening (.token kind (.list items) aliases cached) || anyOpens items
  | _ => false

/-- Whether there is an opening tag among some items, at any depth. -/
def anyOpens : List Tree → Bool
  | [] => false
  | item :: items => opens item || anyOpens items

end

/-- Where no tag is open, one is open behind an item only if the item is an opening tag. -/
theorem stackAfter?_closed {item : Tree} (closed : isOpening item = false) :
    stackAfter? [] item = some [] := by
  unfold stackAfter?
  cases tag : head? item with
  | none => rfl
  | some head =>
    rw [isOpening, tag] at closed
    simp only [afterTag]
    cases closes : isClosing head with
    | true => rfl
    | false =>
      have selfClosing : isSelfClosing item = true := by
        simpa [closes] using closed
      simp [selfClosing]

/-- An item without opening tags is none itself. -/
theorem isOpening_of_opens {item : Tree} (none : opens item = false) : isOpening item = false := by
  rcases flat_or_nested item with flat | ⟨kind, items, aliases, cached, rfl⟩
  · have noHead : head? item = Option.none := by
      unfold head?
      split
      · cases flat
      · rfl
    rw [isOpening, noHead]
    rfl
  · rw [opens, Bool.or_eq_false_iff] at none
    exact none.1

/-- Marking keeps all items of a list without opening tags, and changes none of them if keeping
does not. -/
theorem mark_same {items : List Tree} (none : anyOpens items = false)
    (each : ∀ item ∈ items, opens item = false → (kept item).same item = true) :
    Tree.allSame (mark items) items = true := by
  rw [mark_runs]
  induction items with
  | nil => rfl
  | cons item items inductionHypothesis =>
    rw [anyOpens, Bool.or_eq_false_iff] at none
    have here : (kept item).same item = true := each item List.mem_cons_self none.1
    have behind : Tree.allSame (runs [] Option.none items) items = true :=
      inductionHypothesis none.2 fun other member =>
        each other (List.mem_cons_of_mem item member)
    simp [runs, stackAfter?_closed (isOpening_of_opens none.1), closeRun, Tree.allSame, here, behind]

/-- An item without opening tags is the same when it was kept. -/
theorem kept_same (item : Tree) (none : opens item = false) : (kept item).same item = true := by
  induction item using Tree.nested_induction with
  | flat item flat =>
    rw [kept_flat flat]
    exact item.same_self
  | nested kind items aliases cached inductionHypothesis =>
    rw [opens, Bool.or_eq_false_iff] at none
    have inside := mark_same none.2 inductionHypothesis
    rw [kept_nested]
    simp [Tree.same, inside]

/-! ## Marking by blocks -/

/-- Marking a list puts one plain-text token without aliases, with their whole text, in place of
each longest block of neighbours that are body text. All other items are kept, each once and in
order, with their kind, aliases and source, and with the list inside them marked by itself. When the
stack goes over the result in the same way, it finds no two neighbours that are body text, and no
body text but such plain-text tokens. A list in which no tag is opened, at any depth, stays equal.

Proof: marking merges runs, and a run that is open holds the text of the body text passed since the
last item that was kept; so it is closed exactly where a block ends. The stack goes the same way
over the result, because it reads the same off what was kept and passes over the token of a run. -/
theorem mark_blocks (items : List Tree) :
    List.Forall₂ Becomes (blocks items) (mark items) ∧
      Merged (labelled [] (mark items)) ∧
      (anyOpens items = false → Tree.allSame (mark items) items = true) := by
  refine ⟨?_, ?_, fun none => mark_same none fun item _ => kept_same item⟩
  · rw [mark_runs]
    exact becomes_runs [] [] items
  · rw [mark_runs]
    exact merged_runs inside_none items

/-- A closing tag that fits no open tag, with a list that holds a word. -/
def strayTag : Tree :=
  .token .tag (.list [
    .token .tagName (.list [.token .punctuation (.text ['<', '/']) [] none, .text ['p']]) [] none,
    .text ['>']]) [] none

/-- Words around a stray closing tag and braces stay as they are. -/
theorem mark_blocks_stray :
    anyOpens [.text ['x'], strayTag, .token .punctuation (.text ['{']) [] none, .text ['y']] =
        false ∧
      Tree.allSame
        (mark [.text ['x'], strayTag, .token .punctuation (.text ['{']) [] none, .text ['y']])
        [.text ['x'], strayTag, .token .punctuation (.text ['{']) [] none, .text ['y']] = true :=
  ⟨by decide, (mark_blocks _).2.2 (by decide)⟩

end TemplHighlight.TagBody
