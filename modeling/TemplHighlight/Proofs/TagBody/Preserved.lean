import Mathlib.Logic.Relation
import TemplHighlight.Proofs.TagBody.Kept

/-!
# Marking preserves text

A token may carry a source text that is not the text of its content, and it writes its source into
itself whenever it is asked for it. Neither matters to marking. The text of a list stays, and so
does the source of every token that is not merged into plain text, at every depth. What is marked
after some tokens were asked for their sources is marked in the same way; this is shown by asking
all of them, before marking and behind it. And where all tokens cover the text of their content,
they do so when they are marked.
-/

namespace TemplHighlight

/-! ## Asking for sources -/

namespace Tree

mutual

/-- The tree with its source text written into every token. -/
def rememberAll : Tree → Tree
  | text chars => text chars
  | token kind content aliases cached =>
    token kind content.rememberAll aliases (some (token kind content aliases cached).source)
  | list items => list (rememberEach items)

/-- The items with their source texts written into every token. -/
def rememberEach : List Tree → List Tree
  | [] => []
  | item :: items => item.rememberAll :: rememberEach items

end

/-- One token of a tree, at any depth, was asked for its source. -/
inductive Asked : Tree → Tree → Prop where
  | here (kind : TokenKind) (content : Tree) (aliases : List String) (cached : Option Text) :
      Asked (token kind content aliases cached) (token kind content aliases cached).remember
  | content {content asked : Tree} (kind : TokenKind) (aliases : List String)
      (cached : Option Text) (inside : Asked content asked) :
      Asked (token kind content aliases cached) (token kind asked aliases cached)
  | item {item asked : Tree} (front back : List Tree) (inside : Asked item asked) :
      Asked (list (front ++ item :: back)) (list (front ++ asked :: back))

mutual

/-- A tree covers the same text when its tokens remember their sources. -/
theorem source_rememberAll : (tree : Tree) → tree.rememberAll.source = tree.source
  | text _ => rfl
  | token .. => rfl
  | list items => sources_rememberEach items

/-- So do the items of a list. -/
theorem sources_rememberEach : (items : List Tree) → sources (rememberEach items) = sources items
  | [] => rfl
  | item :: items => by
    rw [rememberEach, sources, sources, source_rememberAll item, sources_rememberEach items]

end

mutual

/-- Asking all tokens a second time changes nothing. -/
theorem rememberAll_again : (tree : Tree) → tree.rememberAll.rememberAll = tree.rememberAll
  | text _ => rfl
  | token kind content aliases cached => by
    simp only [rememberAll, rememberAll_again content, source]
  | list items => by simp only [rememberAll, rememberEach_again items]

/-- The same of the items of a list. -/
theorem rememberEach_again : (items : List Tree) →
    rememberEach (rememberEach items) = rememberEach items
  | [] => rfl
  | item :: items => by
    simp only [rememberEach, rememberAll_again item, rememberEach_again items]

end

mutual

/-- Equality of trees does not depend on what their tokens remember. -/
theorem same_rememberAll : (a b : Tree) → a.rememberAll.same b.rememberAll = a.same b
  | text _, text _ | text _, token .. | text _, list _ => rfl
  | token .., text _ | token .., list _ => rfl
  | list _, text _ | list _, token .. => rfl
  | token _ content _ _, token _ content' _ _ => by
    simp only [rememberAll, same, same_rememberAll content content']
  | list items, list items' => by simp only [rememberAll, same, allSame_rememberEach items items']

/-- Nor does equality of lists. -/
theorem allSame_rememberEach : (as bs : List Tree) →
    allSame (rememberEach as) (rememberEach bs) = allSame as bs
  | [], [] | [], _ :: _ | _ :: _, [] => rfl
  | a :: as, b :: bs => by
    simp only [rememberEach, allSame, same_rememberAll a b, allSame_rememberEach as bs]

end

/-- Items are equal if they are when all their tokens remember their sources. -/
theorem allSame_of_rememberEach {items others : List Tree}
    (equal : rememberEach items = rememberEach others) : allSame items others = true := by
  rw [← allSame_rememberEach, equal]
  exact allSame_self (rememberEach others)

/-- Two lists are asked one after the other. -/
theorem rememberEach_append (front back : List Tree) :
    rememberEach (front ++ back) = rememberEach front ++ rememberEach back := by
  induction front with
  | nil => rfl
  | cons item front inductionHypothesis => simp [rememberEach, inductionHypothesis]

/-- A tree that was asked covers what it covered before, and asking all its tokens shows no
difference. -/
theorem Asked.unchanged {tree asked : Tree} (wasAsked : Asked tree asked) :
    asked.source = tree.source ∧ asked.rememberAll = tree.rememberAll := by
  induction wasAsked with
  | here kind content aliases cached => exact ⟨rfl, rfl⟩
  | content kind aliases cached inside inductionHypothesis =>
    obtain ⟨source, remembered⟩ := inductionHypothesis
    cases cached <;> simp [Tree.source, rememberAll, source, remembered]
  | item front back inside inductionHypothesis =>
    obtain ⟨source, remembered⟩ := inductionHypothesis
    simp [Tree.source, sources_append, sources, rememberAll, rememberEach_append, rememberEach,
      source, remembered]

/-- However often its tokens were asked, asking all of them shows no difference. -/
theorem rememberAll_of_asked {tree asked : Tree}
    (wasAsked : Relation.ReflTransGen Asked tree asked) : asked.rememberAll = tree.rememberAll := by
  induction wasAsked with
  | refl => rfl
  | tail before last inductionHypothesis => exact last.unchanged.2.trans inductionHypothesis

/-! ## Tokens that cover their content -/

mutual

/-- Whether every token of a tree covers the text of its content. -/
def agrees : Tree → Bool
  | text _ => true
  | token kind content aliases cached =>
    (token kind content aliases cached).source == content.source && content.agrees
  | list items => allAgree items

/-- Whether every token of some items covers the text of its content. -/
def allAgree : List Tree → Bool
  | [] => true
  | item :: items => item.agrees && allAgree items

end

/-- Items agree if and only if each of them does. -/
theorem allAgree_iff {items : List Tree} :
    allAgree items = true ↔ ∀ item ∈ items, item.agrees = true := by
  induction items with
  | nil => simp [allAgree]
  | cons item items inductionHypothesis => simp [allAgree, inductionHypothesis]

/-- A token with a list agrees if it covers the text of its items and all of these agree. -/
theorem agrees_nested {kind : TokenKind} {items : List Tree} {aliases : List String}
    {cached : Option Text} :
    (token kind (list items) aliases cached).agrees = true ↔
      (token kind (list items) aliases cached).source = sources items ∧
        ∀ item ∈ items, item.agrees = true := by
  rw [agrees, agrees, Bool.and_eq_true, beq_iff_eq, allAgree_iff]
  rfl

end Tree

namespace TagBody

open TemplHighlight.Tree (rememberEach sources_rememberEach)

/-! ## Marking what was asked -/

/-- An item whose list starts with a token with a list has a head if it is a tag and this token is
its name. -/
theorem head?_named (kind nameKind : TokenKind) (parts later : List Tree)
    (nameAliases aliases : List String) (nameCached cached : Option Text) :
    head? (.token kind (.list (.token nameKind (.list parts) nameAliases nameCached :: later))
      aliases cached) = if kind = .tag ∧ nameKind = .tagName then some parts else none := by
  cases kind with
  | tag => cases nameKind <;> rfl
  | _ => rfl

/-- The head of a tag is asked together with the tag. -/
theorem head?_rememberAll (item : Tree) : head? item.rememberAll = (head? item).map rememberEach := by
  cases item with
  | text | list => rfl
  | token kind content aliases cached =>
    cases content with
    | text | token => cases kind <;> rfl
    | list items =>
      cases items with
      | nil => cases kind <;> rfl
      | cons first later =>
        cases first with
        | text | list => cases kind <;> rfl
        | token nameKind nameContent nameAliases nameCached =>
          cases nameContent with
          | text | token =>
            cases kind with
            | tag => cases nameKind <;> rfl
            | _ => rfl
          | list parts =>
            simp only [Tree.rememberAll, Tree.rememberEach, head?_named]
            split <;> rfl

/-- Asking a head keeps the name. -/
theorem nameOf_rememberEach (head : List Tree) : nameOf (rememberEach head) = nameOf head := by
  cases head with
  | nil => rfl
  | cons first later => exact sources_rememberEach later

/-- Asking a head does not make it the head of a closing tag, or of one that is none. -/
theorem isClosing_rememberEach (head : List Tree) :
    isClosing (rememberEach head) = isClosing head := by
  cases head with
  | nil => rfl
  | cons first later =>
    cases first with
    | text | list => rfl
    | token kind content aliases cached => cases content <;> rfl

/-- An item is the same mark before and after it was asked. -/
theorem isPunctuation_rememberAll (mark : Text) (item : Tree) :
    isPunctuation mark item.rememberAll = isPunctuation mark item := by
  cases item with
  | text | list => rfl
  | token kind content aliases cached => cases content <;> cases kind <;> rfl

/-- The stack goes on from an item in the same way after it was asked. -/
theorem stackAfter?_rememberAll (stack : List OpenTag) (item : Tree) :
    stackAfter? stack item.rememberAll = stackAfter? stack item := by
  have brace : afterBrace? item.rememberAll stack = afterBrace? item stack := by
    cases stack with
    | nil => rfl
    | cons top below => simp only [afterBrace?, isPunctuation_rememberAll]
  rw [stackAfter?, stackAfter?, head?_rememberAll, brace]
  cases head? item with
  | none => rfl
  | some head =>
    simp only [Option.map_some, afterTag, isClosing_rememberEach, nameOf_rememberEach,
      isSelfClosing, Tree.source_rememberAll]
    rfl

/-- Merging runs gives the same after all items were asked, up to asking, if keeping them does. -/
theorem runs_rememberEach {items : List Tree}
    (each : ∀ item ∈ items, (kept item.rememberAll).rememberAll = (kept item).rememberAll)
    (stack : List OpenTag) (run : Option Text) :
    rememberEach (runs stack run (rememberEach items)) = rememberEach (runs stack run items) := by
  induction items generalizing stack run with
  | nil => rfl
  | cons item items inductionHypothesis =>
    obtain ⟨here, later⟩ := List.forall_mem_cons.mp each
    have behind := inductionHypothesis later
    simp only [rememberEach, runs, stackAfter?_rememberAll, Tree.source_rememberAll]
    cases stackAfter? stack item with
    | some stack' => simp only [Tree.rememberEach_append, rememberEach, here, behind]
    | none => exact behind stack _

/-- An item is kept in the same way after it was asked, up to asking. -/
theorem kept_rememberAll (item : Tree) :
    (kept item.rememberAll).rememberAll = (kept item).rememberAll := by
  induction item using Tree.nested_induction with
  | flat item flat =>
    have stillFlat : item.rememberAll.isNested = false := by
      cases item with
      | text | list => rfl
      | token kind content aliases cached => cases content <;> first | rfl | cases flat
    rw [kept_flat flat, kept_flat stillFlat, Tree.rememberAll_again]
  | nested kind items aliases cached inductionHypothesis =>
    have inside : rememberEach (mark (rememberEach items)) = rememberEach (mark items) := by
      rw [mark_runs, mark_runs]
      exact runs_rememberEach inductionHypothesis [] none
    have source := source_kept (.token kind (.list items) aliases cached)
    have sourceAsked := source_kept (Tree.token kind (.list items) aliases cached).rememberAll
    rw [Tree.source_rememberAll] at sourceAsked
    simp only [Tree.rememberAll, kept_nested] at source sourceAsked ⊢
    rw [source, sourceAsked, inside]

/-- A list is marked in the same way after all its items were asked, up to asking. -/
theorem mark_rememberEach (items : List Tree) :
    rememberEach (mark (rememberEach items)) = rememberEach (mark items) := by
  rw [mark_runs, mark_runs]
  exact runs_rememberEach (fun item _ => kept_rememberAll item) [] none

/-- Lists that differ in what their tokens remember are marked in the same way, up to that. -/
theorem mark_of_remembered {items others : List Tree}
    (equal : rememberEach items = rememberEach others) :
    rememberEach (mark items) = rememberEach (mark others) := by
  rw [← mark_rememberEach items, equal, mark_rememberEach]

/-! ## Tokens that agree with their content -/

/-- A plain-text token agrees with its content. -/
theorem agrees_plainText (text : Text) : (plainText text).agrees = true := by
  simp [plainText, Tree.agrees, Tree.source]

/-- An item that agrees with its content does so when it is kept. -/
theorem agrees_kept {item : Tree} (agrees : item.agrees = true) : (kept item).agrees = true := by
  induction item using Tree.nested_induction with
  | flat item flat => rwa [kept_flat flat]
  | nested kind items aliases cached inductionHypothesis =>
    obtain ⟨covers, each⟩ := Tree.agrees_nested.mp agrees
    have source := source_kept (.token kind (.list items) aliases cached)
    rw [kept_nested] at source ⊢
    refine Tree.agrees_nested.mpr ⟨?_, ?_⟩
    · rw [source, covers, sources_mark]
    · refine mark_forall (fun _ => True) (fun _ _ _ _ => trivial)
        (fun text _ => agrees_plainText text) ?_
      exact fun item listed => ⟨trivial, inductionHypothesis item listed (each item listed)⟩

/-- Items that agree with their contents do so when they are marked. -/
theorem allAgree_mark {items : List Tree} (agree : Tree.allAgree items = true) :
    Tree.allAgree (mark items) = true := by
  refine Tree.allAgree_iff.mpr ?_
  refine mark_forall (fun _ => True) (fun _ _ _ _ => trivial)
    (fun text _ => agrees_plainText text) ?_
  exact fun item listed => ⟨trivial, agrees_kept (Tree.allAgree_iff.mp agree item listed)⟩

/-! ## Tokens that survive -/

mutual

/-- A token survives: its kind, its aliases and its source stay. If it has a list, the list is taken
apart into blocks, and this holds of every token that survives there. -/
inductive Survives : (item result : Tree) → Prop where
  | flat {item : Tree} (flat : item.isNested = false) : Survives item item
  | nested {kind : TokenKind} {items results : List Tree} {aliases : List String}
      {cached carried : Option Text}
      (source : (Tree.token kind (.list results) aliases carried).source =
        (Tree.token kind (.list items) aliases cached).source)
      (inside : List.Forall₂ Turns (blocks items) results) :
      Survives (.token kind (.list items) aliases cached) (.token kind (.list results) aliases carried)

/-- What a block of a list turns into: an item that is no body text survives, and body text is
merged into one token with its text. -/
inductive Turns : (block : List (Bool × Tree)) → (result : Tree) → Prop where
  | kept {item result : Tree} (survives : Survives item result) : Turns [(false, item)] result
  | body {items : List Tree} (some : items ≠ []) :
      Turns (items.map (true, ·)) (plainText (Tree.sources items))

end

/-- Marking turns the blocks of a list into its result if its items survive when they are kept. -/
theorem turns_of_survives {items : List Tree} (each : ∀ item ∈ items, Survives item (kept item)) :
    List.Forall₂ Turns (blocks items) (mark items) := by
  rw [mark_runs]
  exact blocks_runs (fun _ filled => .body filled) (fun item listed => .kept (each item listed)) [] []

/-- An item that is kept survives, at every depth. -/
theorem survives_kept (item : Tree) : Survives item (kept item) := by
  induction item using Tree.nested_induction with
  | flat item flat =>
    rw [kept_flat flat]
    exact .flat flat
  | nested kind items aliases cached inductionHypothesis =>
    have source := source_kept (.token kind (.list items) aliases cached)
    rw [kept_nested] at source ⊢
    exact .nested source (turns_of_survives inductionHypothesis)

/-! ## Marking -/

/-- Marking preserves text, whatever source texts the tokens carry. The text of the whole list stays.
At every depth, each block of body text turns into a plain-text token with its text, and every other
token survives with its kind, its aliases and its source. It makes no difference whether any tokens
were asked for their sources before: the result is equal, also in the sources of all its tokens. And
if every token covers the text of its content, then so does every token of the result.

Proof: by induction over the depth of the items. The stack looks at sources, which asking does not
change and keeping does not either; so it says the same of items that were asked, and the text of
what is kept or merged is the text that was there. -/
theorem mark_preserves_text (items : List Tree) :
    Tree.sources (mark items) = Tree.sources items ∧
      List.Forall₂ Turns (blocks items) (mark items) ∧
      (∀ asked, Relation.ReflTransGen Tree.Asked (.list items) (.list asked) →
        Tree.allSame (mark asked) (mark items) = true ∧
          rememberEach (mark asked) = rememberEach (mark items)) ∧
      (Tree.allAgree items = true → Tree.allAgree (mark items) = true) := by
  refine ⟨sources_mark items, turns_of_survives fun item _ => survives_kept item, ?_, allAgree_mark⟩
  intro asked wasAsked
  have equal : rememberEach asked = rememberEach items := by
    have remembered := Tree.rememberAll_of_asked wasAsked
    rw [Tree.rememberAll, Tree.rememberAll] at remembered
    exact Tree.list.inj remembered
  have marked := mark_of_remembered equal
  exact ⟨Tree.allSame_of_rememberEach marked, marked⟩

/-- An opening tag with a head, none of whose tokens carries its source. -/
def unreadTag : Tree :=
  .token .tag (.list [
    .token .tagName (.list [.token .punctuation (.text ['<']) [] none, .text ['p']]) [] none,
    .token .punctuation (.text ['>']) [] none]) [] none

/-- A keyword behind such a tag is merged in the same way if the tag was asked for its source. -/
theorem mark_preserves_text_unread :
    Relation.ReflTransGen Tree.Asked
        (.list [unreadTag, .token .keyword (.text ['i', 'f']) [] none])
        (.list [unreadTag.remember, .token .keyword (.text ['i', 'f']) [] none]) ∧
      Tree.allAgree [unreadTag, .token .keyword (.text ['i', 'f']) [] none] = true ∧
      Tree.allSame
        (mark [unreadTag.remember, .token .keyword (.text ['i', 'f']) [] none])
        (mark [unreadTag, .token .keyword (.text ['i', 'f']) [] none]) = true ∧
      Tree.allAgree (mark [unreadTag, .token .keyword (.text ['i', 'f']) [] none]) = true := by
  have asked : Relation.ReflTransGen Tree.Asked
      (.list [unreadTag, .token .keyword (.text ['i', 'f']) [] none])
      (.list [unreadTag.remember, .token .keyword (.text ['i', 'f']) [] none]) :=
    .single (.item [] _ (.here ..))
  obtain ⟨-, -, unchanged, agrees⟩ :=
    mark_preserves_text [unreadTag, .token .keyword (.text ['i', 'f']) [] none]
  exact ⟨asked, by decide, (unchanged _ asked).1, agrees (by decide)⟩

end TagBody

end TemplHighlight
