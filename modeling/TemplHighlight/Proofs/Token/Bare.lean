import TemplHighlight.Proofs.TagBody.Preserved

/-!
# Bare trees

A tree without the texts that its tokens carry. Equality of trees is equality of bare trees, so all
that depends on the bare tree only is the same for equal trees. The text of the leaves does; the
source of a tree, by which a token is hashed, does not, unless it is the text of the leaves.
-/

namespace TemplHighlight.Tree

mutual

/-- The tree without the texts that its tokens carry. -/
def bare : Tree → Tree
  | text chars => text chars
  | token kind content aliases _ => token kind content.bare aliases none
  | list items => list (bareAll items)

/-- The items without the texts that their tokens carry. -/
def bareAll : List Tree → List Tree
  | [] => []
  | item :: items => item.bare :: bareAll items

end

mutual

/-- The text that the leaves of a tree show, whatever its tokens carry. -/
def leafText : Tree → Text
  | text chars => chars
  | token _ content _ _ => content.leafText
  | list items => leafTexts items

/-- The text that the leaves of some items show, one after the other. -/
def leafTexts : List Tree → Text
  | [] => []
  | item :: items => item.leafText ++ leafTexts items

end

/-! ## Equality -/

mutual

/-- Two trees are the same if and only if they are equal as bare trees. -/
theorem same_iff : (a b : Tree) → (a.same b = true ↔ a.bare = b.bare)
  | text chars, text chars' => by simp [same, bare]
  | token kind content aliases _, token kind' content' aliases' _ => by
    simp only [same, bare, Bool.and_eq_true, beq_iff_eq, same_iff content content', token.injEq,
      and_true, and_assoc]
  | list items, list items' => by simp only [same, bare, list.injEq, allSame_iff items items']
  | text _, token .. | text _, list _ => by simp [same, bare]
  | token .., text _ | token .., list _ => by simp [same, bare]
  | list _, text _ | list _, token .. => by simp [same, bare]

/-- Two lists are the same item by item if and only if they are equal as bare items. -/
theorem allSame_iff : (as bs : List Tree) → (allSame as bs = true ↔ bareAll as = bareAll bs)
  | [], [] => by simp [allSame, bareAll]
  | [], _ :: _ | _ :: _, [] => by simp [allSame, bareAll]
  | a :: as, b :: bs => by
    simp only [allSame, bareAll, Bool.and_eq_true, same_iff a b, allSame_iff as bs,
      List.cons.injEq]

end

mutual

/-- A bare tree has nothing more to lose. -/
theorem bare_bare : (tree : Tree) → tree.bare.bare = tree.bare
  | text _ => rfl
  | token _ content _ _ => by simp only [bare, bare_bare content]
  | list items => by simp only [bare, bareAll_bareAll items]

/-- Nor have the items of a list. -/
theorem bareAll_bareAll : (items : List Tree) → bareAll (bareAll items) = bareAll items
  | [] => rfl
  | item :: items => by simp only [bareAll, bare_bare item, bareAll_bareAll items]

end

/-- A tree is the same as the bare one. -/
theorem bare_same (tree : Tree) : tree.bare.same tree = true :=
  (same_iff _ _).mpr tree.bare_bare

/-! ## Texts -/

mutual

/-- What tokens carry is not seen at the leaves. -/
theorem leafText_bare : (tree : Tree) → tree.bare.leafText = tree.leafText
  | text _ => rfl
  | token _ content _ _ => leafText_bare content
  | list items => leafTexts_bareAll items

/-- The same of the leaves of some items. -/
theorem leafTexts_bareAll : (items : List Tree) → leafTexts (bareAll items) = leafTexts items
  | [] => rfl
  | item :: items => by
    simp only [bareAll, leafTexts, leafText_bare item, leafTexts_bareAll items]

end

/-- Equal trees show the same text at their leaves. -/
theorem leafText_of_same {a b : Tree} (equal : a.same b = true) : a.leafText = b.leafText := by
  rw [← leafText_bare a, (same_iff a b).mp equal, leafText_bare b]

/-! ## Carried texts -/

/-- Trees that cover the same at every depth are equal as bare trees. -/
theorem bare_of_rememberAll {a b : Tree} (remembered : a.rememberAll = b.rememberAll) :
    a.bare = b.bare := by
  rw [← same_iff, ← same_rememberAll, remembered]
  exact same_self b.rememberAll

/-- A token covers the same at every depth with another content that does. -/
theorem rememberAll_token (kind : TokenKind) (aliases : List String) (cached : Option Text)
    {content content' : Tree} (remembered : content.rememberAll = content'.rememberAll) :
    (token kind content aliases cached).rememberAll =
      (token kind content' aliases cached).rememberAll := by
  have covered : (token kind content aliases cached).source =
      (token kind content' aliases cached).source := by
    cases cached with
    | some raw => rfl
    | none =>
      rw [source, source, ← source_rememberAll content, remembered, source_rememberAll]
  rw [rememberAll, rememberAll, remembered, covered]

/-- A token is hashed in the same way when all tokens remember their sources. -/
theorem hashKey?_rememberAll (tree : Tree) : tree.rememberAll.hashKey? = tree.hashKey? := by
  cases tree <;> rfl

/-- Equal trees that cover the texts of their leaves are hashed alike. -/
theorem hashKey?_of_same {a b : Tree} (equal : a.same b = true) (covers : a.source = a.leafText)
    (covers' : b.source = b.leafText) : a.hashKey? = b.hashKey? := by
  have texts : a.source = b.source := by rw [covers, covers', leafText_of_same equal]
  cases a <;> cases b <;> simp only [same, Bool.and_eq_true, beq_iff_eq, Bool.false_eq_true] at equal
  · rfl
  · obtain ⟨⟨rfl, -⟩, rfl⟩ := equal
    rw [hashKey?, hashKey?, texts]
  · rfl

/-! ## Item by item -/

variable (items : List Tree)

/-- The bare items of a list. -/
theorem bareAll_eq_map : bareAll items = items.map bare := by
  induction items with
  | nil => rfl
  | cons item items inductionHypothesis => rw [bareAll, inductionHypothesis, List.map_cons]

/-- The items of a list, with their source texts written into every token. -/
theorem rememberEach_eq_map : rememberEach items = items.map rememberAll := by
  induction items with
  | nil => rfl
  | cons item items inductionHypothesis => rw [rememberEach, inductionHypothesis, List.map_cons]

/-- The source texts of the items of a list, one after the other. -/
theorem sources_eq_flatten : sources items = (items.map source).flatten := by
  induction items with
  | nil => rfl
  | cons item items inductionHypothesis =>
    rw [sources, inductionHypothesis, List.map_cons, List.flatten_cons]

/-- The texts of the leaves of the items of a list, one after the other. -/
theorem leafTexts_eq_flatten : leafTexts items = (items.map leafText).flatten := by
  induction items with
  | nil => rfl
  | cons item items inductionHypothesis =>
    rw [leafTexts, inductionHypothesis, List.map_cons, List.flatten_cons]

end TemplHighlight.Tree
