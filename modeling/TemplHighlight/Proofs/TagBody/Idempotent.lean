import TemplHighlight.Proofs.TagBody.Runs

/-!
# Marking twice

Marking a list that was marked changes nothing. What the stack looks at in an item is the name and
the marks of a tag, its source, and single marks; all of these are the same after the list inside
the item was marked. So the second pass sees the same tags and braces, and the runs that it finds
are the single tokens that the first pass has made of them.
-/

namespace TemplHighlight

mutual

/-- Every tree is the same as itself. -/
theorem Tree.same_self : (tree : Tree) → tree.same tree = true
  | .text chars => by simp [Tree.same]
  | .token kind content aliases cached => by simp [Tree.same, Tree.same_self content]
  | .list items => by rw [Tree.same, Tree.allSame_self items]

/-- So is every list of items. -/
theorem Tree.allSame_self : (items : List Tree) → Tree.allSame items items = true
  | [] => by simp [Tree.allSame]
  | item :: items => by simp [Tree.allSame, Tree.same_self item, Tree.allSame_self items]

end

namespace TagBody

/-! ## Sources -/

/-- Merging runs keeps the text, if keeping the items does. -/
theorem sources_runs {items : List Tree} (each : ∀ item ∈ items, (kept item).source = item.source)
    (stack : List OpenTag) (run : Option Text) :
    Tree.sources (runs stack run items) = run.getD [] ++ Tree.sources items := by
  induction items generalizing stack run with
  | nil => cases run <;> simp [runs, closeRun, plainText, Tree.sources, Tree.source]
  | cons item items inductionHypothesis =>
    have here : (kept item).source = item.source := each item List.mem_cons_self
    have behind := inductionHypothesis fun other member =>
      each other (List.mem_cons_of_mem item member)
    rw [runs]
    cases stackAfter? stack item with
    | some stack' =>
      cases run <;>
        simp [closeRun, plainText, Tree.sources, Tree.source, here, behind]
    | none => simp [behind, Tree.sources]

/-- Keeping an item keeps its source. -/
theorem source_kept (item : Tree) : (kept item).source = item.source := by
  induction item using Tree.nested_induction with
  | flat item flat => rw [kept_flat flat]
  | nested kind items aliases cached inductionHypothesis =>
    rw [kept_nested, mark_runs, carriedBy]
    have inside : Tree.sources (runs [] none items) = Tree.sources items :=
      sources_runs inductionHypothesis [] none
    split
    · split
      · cases cached <;> simp [Tree.source, inside]
      · simp only [Tree.source]
    · cases cached <;> simp [Tree.source, inside]

/-- Marking keeps the text. -/
theorem sources_mark (items : List Tree) : Tree.sources (mark items) = Tree.sources items := by
  rw [mark_runs]
  exact sources_runs (fun item _ => source_kept item) [] none

/-! ## What the stack looks at -/

/-- The first item of a list is kept, since no tag is open in front of it. -/
theorem mark_cons (item : Tree) (items : List Tree) :
    ∃ stack, mark (item :: items) = kept item :: runs stack none items := by
  have outside : stackAfter? [] item ≠ none := by
    intro body
    cases inBody_of_stackAfter? body
  obtain ⟨stack, after⟩ := Option.ne_none_iff_exists'.mp outside
  refine ⟨stack, ?_⟩
  rw [mark_runs, runs, after]
  rfl

/-- An item has a head if it is a tag token whose list starts with a tag-name token with a list. -/
theorem head?_eq_some {item : Tree} {head : List Tree} :
    head? item = some head ↔ ∃ nameAliases nameCached later aliases cached,
      item = .token .tag (.list (.token .tagName (.list head) nameAliases nameCached :: later))
        aliases cached := by
  constructor
  · intro tag
    unfold head? at tag
    split at tag
    · cases tag
      exact ⟨_, _, _, _, _, rfl⟩
    · cases tag
  · rintro ⟨nameAliases, nameCached, later, aliases, cached, rfl⟩
    rfl

/-- The head of an item that is kept is marked. -/
theorem head?_kept_of_some {item : Tree} {head : List Tree} (tag : head? item = some head) :
    head? (kept item) = some (mark head) := by
  obtain ⟨nameAliases, nameCached, later, aliases, cached, rfl⟩ := head?_eq_some.mp tag
  obtain ⟨stack, marked⟩ := mark_cons (.token .tagName (.list head) nameAliases nameCached) later
  rw [kept_nested, marked, kept_nested]
  rfl

/-- An item without a head has none when it is kept. -/
theorem head?_kept_of_none {item : Tree} (noTag : head? item = none) :
    head? (kept item) = none := by
  rcases flat_or_nested item with flat | ⟨kind, items, aliases, cached, rfl⟩
  · rw [kept_flat flat]
    exact noTag
  · cases tag : head? (kept (.token kind (.list items) aliases cached)) with
    | none => rfl
    | some head =>
      obtain ⟨nameAliases, nameCached, later, _, _, same⟩ := head?_eq_some.mp tag
      rw [kept_nested] at same
      injection same with isTag content
      injection content with content
      cases items with
      | nil => cases content
      | cons first rest =>
        obtain ⟨stack, marked⟩ := mark_cons first rest
        rw [marked] at content
        injection content with name
        rcases flat_or_nested first with flat | ⟨nameKind, parts, _, _, rfl⟩
        · rw [kept_flat flat] at name
          subst name
          cases flat
        · rw [kept_nested] at name
          injection name with isName
          subst isTag isName
          cases noTag

/-- The head of an item that is kept is its head, marked, if it has one. -/
theorem head?_kept (item : Tree) : head? (kept item) = (head? item).map mark := by
  cases tag : head? item with
  | none => exact head?_kept_of_none tag
  | some head => exact head?_kept_of_some tag

/-- Marking a head keeps the name. -/
theorem nameOf_mark (head : List Tree) : nameOf (mark head) = nameOf head := by
  cases head with
  | nil => rfl
  | cons first later =>
    obtain ⟨stack, marked⟩ := mark_cons first later
    rw [marked]
    exact sources_runs (fun item _ => source_kept item) stack none

/-- Marking a head does not make it the head of a closing tag, or of one that is none. -/
theorem isClosing_mark (head : List Tree) : isClosing (mark head) = isClosing head := by
  cases head with
  | nil => rfl
  | cons first later =>
    obtain ⟨stack, marked⟩ := mark_cons first later
    rw [marked]
    rcases flat_or_nested first with flat | ⟨kind, items, aliases, cached, rfl⟩
    · rw [kept_flat flat]
      cases first with
      | token kind content aliases cached => cases content <;> rfl
      | text | list => rfl
    · rw [kept_nested]
      rfl

/-- An item is the same mark before and after it is kept. -/
theorem isPunctuation_kept (mark : Text) (item : Tree) :
    isPunctuation mark (kept item) = isPunctuation mark item := by
  rcases flat_or_nested item with flat | ⟨kind, items, aliases, cached, rfl⟩
  · rw [kept_flat flat]
  · rw [kept_nested]
    cases kind <;> rfl

/-- The stack goes on from an item in the same way after it was kept. -/
theorem stackAfter?_kept (stack : List OpenTag) (item : Tree) :
    stackAfter? stack (kept item) = stackAfter? stack item := by
  have brace : afterBrace? (kept item) stack = afterBrace? item stack := by
    cases stack with
    | nil => rfl
    | cons top below => simp only [afterBrace?, isPunctuation_kept]
  rw [stackAfter?, stackAfter?, head?_kept, brace]
  cases head? item with
  | none => rfl
  | some head =>
    simp only [Option.map_some, afterTag, isClosing_mark, nameOf_mark, isSelfClosing, source_kept]
    rfl

/-! ## The second pass -/

/-- An item that is kept carries the same source when it is kept again. -/
theorem carriedBy_kept (item : Tree) (cached : Option Text) :
    carriedBy (kept item) (carriedBy item cached) = carriedBy item cached := by
  unfold carriedBy
  rw [head?_kept, source_kept]
  cases head? item with
  | none => rfl
  | some head =>
    simp only [Option.map_some, isClosing_mark]
    cases isClosing head <;> rfl

/-- The token of a run is body text wherever the run was. -/
theorem stackAfter?_plainText {stack : List OpenTag} (body : inBody stack = true) (text : Text) :
    stackAfter? stack (plainText text) = none := by
  have noBrace : afterBrace? (plainText text) stack = none := by
    cases stack with
    | nil => rfl
    | cons top below => rfl
  have noHead : head? (plainText text) = none := rfl
  simp only [stackAfter?, noHead, noBrace, body, if_true]

/-- The token of an open run opens the run again. -/
theorem runs_closeRun {stack : List OpenTag} {run : Option Text}
    (inside : run.isSome = true → inBody stack = true) (items : List Tree) :
    runs stack none (closeRun run ++ items) = runs stack run items := by
  cases run with
  | none => rfl
  | some text =>
    have body : stackAfter? stack (plainText text) = none := stackAfter?_plainText (inside rfl) text
    simp only [closeRun, List.singleton_append]
    rw [runs, body]
    rfl

/-- Where no run is open, it does not matter whether the stack is in a body. -/
theorem inside_none {stack : List OpenTag} :
    (none : Option Text).isSome = true → inBody stack = true :=
  fun isOpen => absurd isOpen Bool.false_ne_true

/-- A second pass keeps the tokens of the runs, and every item that was kept, if keeping those again
changes nothing. The first token of the rest belongs to the run that is open. -/
theorem runs_again {items : List Tree} (each : ∀ item ∈ items, kept (kept item) = kept item)
    {stack : List OpenTag} {run : Option Text} (inside : run.isSome = true → inBody stack = true) :
    runs stack none (runs stack run items) = runs stack run items := by
  induction items generalizing stack run with
  | nil =>
    have again := runs_closeRun inside []
    rw [List.append_nil] at again
    exact again
  | cons item items inductionHypothesis =>
    have here : kept (kept item) = kept item := each item List.mem_cons_self
    have behind {stack : List OpenTag} {run : Option Text}
        (inside : run.isSome = true → inBody stack = true) :
        runs stack none (runs stack run items) = runs stack run items :=
      inductionHypothesis
        (fun other member => each other (List.mem_cons_of_mem item member)) inside
    simp only [runs]
    cases after : stackAfter? stack item with
    | none => exact behind fun _ => inBody_of_stackAfter? after
    | some stack' =>
      have next : runs stack' none (runs stack' none items) = runs stack' none items :=
        behind inside_none
      rw [runs_closeRun inside, runs, stackAfter?_kept, after]
      simp only [here, next]

/-- Marking changes nothing in what was marked. -/
theorem kept_again (item : Tree) : kept (kept item) = kept item := by
  induction item using Tree.nested_induction with
  | flat item flat => rw [kept_flat flat, kept_flat flat]
  | nested kind items aliases cached inductionHypothesis =>
    have inside : mark (mark items) = mark items := by
      simp only [mark_runs]
      exact runs_again inductionHypothesis inside_none
    have carried := carriedBy_kept (.token kind (.list items) aliases cached) cached
    rw [kept_nested] at carried ⊢
    rw [kept_nested, inside, carried]

/-- Marking what was marked changes nothing, at any depth, neither the items nor the source text
that they carry. In particular both results are equal as items are.

Proof: the second pass keeps what the first one kept, by induction over the depth of the items. The
stack sees no difference between an item and the item as it was kept, so it says of each what it
said before; and between two runs stands something that was kept, so no two of them merge. -/
theorem mark_idempotent (items : List Tree) :
    mark (mark items) = mark items ∧
      Tree.allSame (mark (mark items)) (mark items) = true := by
  have again : mark (mark items) = mark items := by
    simp only [mark_runs]
    exact runs_again (fun item _ => kept_again item) inside_none
  rw [again]
  exact ⟨rfl, Tree.allSame_self (mark items)⟩

end TagBody

end TemplHighlight
