import TemplHighlight.Proofs.Pattern.Reach
import TemplHighlight.Proofs.Split.Rules
import TemplHighlight.Proofs.Split.Steps

/-!
# Splitting loses nothing

Items cover a text if they have it as their source, one after the other, and every item is lossless:
nothing is empty, and each token has the source of its content, at every depth. A rule that makes
tokens of parts of the text turns items that cover a text into items that cover the same text. For a
plain rule this is seen item by item. A greedy rule takes its match out of the joined text of
several items, so there the places at which items are cut have to agree with the places of the match.

The main statement is that whatever `tokenize` returns covers the text that was split.
-/

namespace TemplHighlight

namespace Tree

/-- An item without loss. Raw text is not empty. A token carries the source text it was made from,
which is not empty either: it is the text of the content, or the text of its parts, of which there
are some and which are without loss themselves. -/
inductive Lossless : Tree → Prop where
  | raw {chars : Text} (filled : chars ≠ []) : Lossless (.text chars)
  | leaf {kind : TokenKind} {text : Text} {aliases : List String} (filled : text ≠ []) :
      Lossless (.token kind (.text text) aliases (some text))
  | nested {kind : TokenKind} {items : List Tree} {aliases : List String} {text : Text}
      (filled : text ≠ []) (covers : sources items = text) (parts : items ≠ [])
      (each : ∀ item ∈ items, Lossless item) :
      Lossless (.token kind (.list items) aliases (some text))

/-- An item without loss covers some text. -/
theorem Lossless.source_filled {item : Tree} (lossless : Lossless item) : item.source ≠ [] := by
  cases lossless with
  | raw filled => exact filled
  | leaf filled => exact filled
  | nested filled => exact filled

end Tree

namespace Split

/-- Items cover a text: they are without loss, and it is the text of all of them. -/
structure Covers (text : Text) (items : List Tree) : Prop where
  sources : Tree.sources items = text
  lossless : ∀ item ∈ items, item.Lossless

/-- No items cover no text. -/
theorem covers_nil : Covers [] [] := ⟨rfl, nofun⟩

/-- A text with characters is one raw item. -/
theorem raw_of_filled {text : Text} (filled : text ≠ []) : raw text = [.text text] := by
  cases text with
  | nil => exact absurd rfl filled
  | cons c rest => rfl

/-- Raw items cover their text. -/
theorem covers_raw (text : Text) : Covers text (raw text) := by
  cases text with
  | nil => exact covers_nil
  | cons c later =>
    refine ⟨by simp [raw, Tree.sources, Tree.source], ?_⟩
    intro item member
    simp only [raw, List.mem_singleton] at member
    exact member ▸ .raw (by simp)

/-- What covers two texts covers them one after the other. -/
theorem Covers.append {front back : Text} {items more : List Tree} (first : Covers front items)
    (second : Covers back more) : Covers (front ++ back) (items ++ more) := by
  refine ⟨by rw [Tree.sources_append, first.sources, second.sources], ?_⟩
  intro item member
  rcases List.mem_append.mp member with inFront | inBack
  · exact first.lossless item inFront
  · exact second.lossless item inBack

/-- One more item covers its own text in addition. -/
theorem Covers.cons {item : Tree} {text : Text} {items : List Tree} (lossless : item.Lossless)
    (later : Covers text items) : Covers (item.source ++ text) (item :: items) := by
  refine ⟨by simp [Tree.sources, later.sources], ?_⟩
  intro other member
  rcases List.mem_cons.mp member with rfl | behind
  · exact lossless
  · exact later.lossless other behind

/-- Items without loss cover a text that is not empty only if there are some. -/
theorem Covers.filled {text : Text} {items : List Tree} (covers : Covers text items)
    (filled : text ≠ []) : items ≠ [] := by
  rintro rfl
  exact filled covers.sources.symm

/-- A finder stays inside the text in which it looks. -/
def StaysInside (find : Finder) : Prop :=
  ∀ text start stop, find text = .ok (some (start, stop)) → stop ≤ text.length

/-- A maker makes tokens without loss of texts that are not empty. -/
def MakesLossless (make : Maker) : Prop :=
  ∀ text item, text ≠ [] → make text = .ok item → item.Lossless ∧ item.source = text

/-- A match with characters in a text has a text that is not empty. -/
theorem matched_filled {text : Text} {start stop : Nat} (ordered : start < stop)
    (inside : stop ≤ text.length) : (text.take stop).drop start ≠ [] := by
  intro empty
  have length := congrArg List.length empty
  simp only [List.length_drop, List.length_take, List.length_nil] at length
  omega

/-- What stands before a match, the match, and what stands behind it are the whole text. -/
theorem cut_text (text : Text) {start stop : Nat} (ordered : start < stop) :
    text.take start ++ ((text.take stop).drop start ++ text.drop stop) = text := by
  have front : (text.take stop).take start = text.take start := by
    rw [List.take_take, Nat.min_eq_left (Nat.le_of_lt ordered)]
  rw [← List.append_assoc, ← front, List.take_append_drop, List.take_append_drop]

/-- Splitting a raw text covers it. -/
theorem TextSteps.covers {find : Finder} {make : Maker} (stays : StaysInside find)
    (makes : MakesLossless make) {text : Text} {result : List Tree}
    (steps : TextSteps find make text result) : Covers text result := by
  induction steps with
  | empty => exact covers_nil
  | @whole text filled missed =>
    refine ⟨by simp [Tree.sources, Tree.source], ?_⟩
    intro item member
    exact List.mem_singleton.mp member ▸ .raw filled
  | @cut text start stop token later found ordered made behind inductionHypothesis =>
    have inside : stop ≤ text.length := stays text start stop found
    obtain ⟨lossless, source⟩ := makes _ token (matched_filled ordered inside) made
    have covers := (covers_raw (text.take start)).append (inductionHypothesis.cons lossless)
    rw [source, cut_text text ordered] at covers
    exact covers

/-- What covers a text starts with an item and goes on with what covers the rest of the text. -/
theorem Covers.uncons {text : Text} {item : Tree} {items : List Tree}
    (covers : Covers text (item :: items)) :
    item.Lossless ∧ text = item.source ++ Tree.sources items ∧ Covers (Tree.sources items) items :=
  ⟨covers.lossless item List.mem_cons_self, covers.sources.symm, rfl,
    fun other member => covers.lossless other (List.mem_cons_of_mem item member)⟩

/-- A plain rule turns items that cover a text into items that cover it. -/
theorem EachSteps.covers {find : Finder} {make : Maker} (stays : StaysInside find)
    (makes : MakesLossless make) {text : Text} {items result : List Tree}
    (steps : EachSteps find make items result) (covers : Covers text items) :
    Covers text result := by
  induction steps generalizing text with
  | done => exact covers
  | token isToken behind inductionHypothesis =>
    obtain ⟨lossless, rfl, later⟩ := covers.uncons
    exact (inductionHypothesis later).cons lossless
  | raw isRaw split behind inductionHypothesis =>
    obtain ⟨lossless, rfl, later⟩ := covers.uncons
    exact (split.covers stays makes).append (inductionHypothesis later)

/-- The items before a place and those from there on are all the items. -/
theorem spanBefore_append (start : Nat) (items : List Tree) :
    (spanBefore start items).1 ++ (spanBefore start items).2 = items := by
  induction items generalizing start with
  | nil => rfl
  | cons item later inductionHypothesis =>
    unfold spanBefore
    split
    · exact congrArg (item :: ·) (inductionHypothesis _)
    · rfl

/-- The text that is left behind the first characters, whatever becomes of the item that is cut. -/
theorem sources_dropSource (count : Nat) (items : List Tree) :
    Tree.sources (dropSource count items) = (Tree.sources items).drop count := by
  fun_induction dropSource count items with
  | case1 items => rfl
  | case2 count => rfl
  | case3 count item later short inductionHypothesis =>
    rw [inductionHypothesis, Tree.sources, List.drop_append, List.drop_eq_nil_of_le short,
      List.nil_append]
  | case4 count item later long =>
    have within : count + 1 - item.source.length = 0 := by omega
    rw [Tree.sources, Tree.sources, Tree.source, List.drop_append, within]
    rfl

/-- Items from which characters are dropped cover what is left of the text. An item that is cut
leaves some characters, since it is longer than what is dropped of it. -/
theorem dropSource_covers (count : Nat) {text : Text} {items : List Tree}
    (covers : Covers text items) : Covers (text.drop count) (dropSource count items) := by
  refine ⟨by rw [sources_dropSource, covers.sources], ?_⟩
  fun_induction dropSource count items generalizing text with
  | case1 items => exact covers.lossless
  | case2 count => exact covers.lossless
  | case3 count item later short inductionHypothesis =>
    exact inductionHypothesis covers.uncons.2.2
  | case4 count item later long =>
    have left : item.source.drop (count + 1) ≠ [] := fun empty =>
      long (List.drop_eq_nil_iff.mp empty)
    exact (covers.uncons.2.2.cons (.raw left)).lossless

/-- A greedy rule turns items that cover a text into items that cover it. A match that starts in
the first item is cut out of the joined text, and the items go on where it stops. -/
theorem GreedySteps.covers {find : Finder} {make : Maker} (stays : StaysInside find)
    (makes : MakesLossless make) {text : Text} {items result : List Tree}
    (steps : GreedySteps find make items result) (covers : Covers text items) :
    Covers text result := by
  induction steps generalizing text with
  | done => exact covers
  | token isToken behind inductionHypothesis =>
    obtain ⟨lossless, rfl, later⟩ := covers.uncons
    exact (inductionHypothesis later).cons lossless
  | none isRaw missed => exact covers
  | pass isRaw found empty behind inductionHypothesis =>
    obtain ⟨lossless, rfl, later⟩ := covers.uncons
    exact (inductionHypothesis later).cons lossless
  | @cut item items result start stop token isRaw found ordered here made behind
      inductionHypothesis =>
    rw [covers.sources] at found made ⊢
    have inside : stop ≤ text.length := stays text start stop found
    obtain ⟨lossless, source⟩ := makes _ token (matched_filled ordered inside) made
    have rest : Covers (text.drop stop) result :=
      inductionHypothesis (dropSource_covers stop covers)
    have whole := (covers_raw (text.take start)).append (rest.cons lossless)
    rw [source, cut_text text ordered] at whole
    exact whole
  | @later item items passed behind result start stop isRaw found ordered spanned isSome rest
      inductionHypothesis =>
    have split : passed ++ behind = item :: items := by
      rw [← spanBefore_append start (item :: items), spanned]
    have passedCovers : Covers (Tree.sources passed) passed :=
      ⟨rfl, fun other member => covers.lossless other (split ▸ List.mem_append_left _ member)⟩
    have behindCovers : Covers (Tree.sources behind) behind :=
      ⟨rfl, fun other member => covers.lossless other (split ▸ List.mem_append_right _ member)⟩
    have whole := passedCovers.append (inductionHypothesis behindCovers)
    rw [← Tree.sources_append, split, covers.sources] at whole
    exact whole

/-- A rule turns items that cover a text into items that cover it. -/
theorem applyRule_covers {rule : Rule} {make : Maker} (stays : StaysInside (findWith rule))
    (makes : MakesLossless make) {text : Text} {items result : List Tree}
    (applied : applyRule rule make items = .ok result) (covers : Covers text items) :
    Covers text result := by
  unfold applyRule at applied
  split at applied
  · exact (steps_of_splitGreedy applied).covers stays makes covers
  · exact (steps_of_splitEach applied).covers stays makes covers

/-! ## Splitting with a grammar -/

/-- A rule whose pattern keeps to the text finds matches inside it; leaving out what the group took
moves the start only. -/
theorem findWith_stays {rule : Rule} (keeps : rule.pattern.KeepsToText) :
    StaysInside (findWith rule) := by
  intro text start stop found
  obtain ⟨result, searched, rfl, -⟩ := search_of_findWith found
  exact Pattern.search_bounds keeps searched

/-- The token of a rule is without loss if what splits its content covers the content. -/
theorem makeWith_lossless {splitInside : RuleSet → Text → Except SplitError (List Tree)}
    {root : RuleSet} {name : String} {rule : Rule}
    (ofRoot : ∀ text items, splitInside root text = .ok items → Covers text items)
    (ofInside : ∀ set, rule.inside = .to set → ∀ text items,
      splitInside set text = .ok items → Covers text items) :
    MakesLossless (makeWith splitInside root name rule) := by
  intro text item filled made
  cases steps_of_makeWith made with
  | leaf linked named => exact ⟨.leaf filled, rfl⟩
  | root linked split named =>
    have covers := ofRoot text _ split
    exact ⟨.nested filled covers.sources (covers.filled filled) covers.lossless, rfl⟩
  | inside linked split named =>
    have covers := ofInside _ linked text _ split
    exact ⟨.nested filled covers.sources (covers.filled filled) covers.lossless, rfl⟩

/-- A rule that is tried with a rule set turns items that cover a text into items that cover it, if
whatever splits its content covers the content. -/
theorem tried_covers_of {root set : RuleSet}
    {splitInside : RuleSet → Text → Except SplitError (List Tree)}
    (ofRoot : root.Only fun _ rule => rule.pattern.KeepsToText)
    (ofSet : set.Only fun _ rule => rule.pattern.KeepsToText)
    (insideCovers : ∀ inner : RuleSet, (inner.Only fun _ rule => rule.pattern.KeepsToText) →
      ∀ text items, splitInside inner text = .ok items → Covers text items)
    {name : String} {rule : Rule} (tried : (name, rule) ∈ RuleSet.chainRules root set)
    {text : Text} {items result : List Tree}
    (applied : applyRule rule (makeWith splitInside root name rule) items = .ok result)
    (covers : Covers text items) : Covers text result := by
  obtain ⟨keeps, inside⟩ := RuleSet.only_of_chainRules tried ofRoot ofSet
  refine applyRule_covers (findWith_stays keeps) (makeWith_lossless ?_ ?_) applied covers
  · exact insideCovers root ofRoot
  · exact fun inner linked => insideCovers inner (inside inner linked)

/-- Splitting with a rule set covers the text, however deep it goes. Each level of fuel is a level
of nesting, so the sets inside the rules are covered by the induction. -/
theorem splitWith_covers {root set : RuleSet} (fuel : Nat)
    (ofRoot : root.Only fun _ rule => rule.pattern.KeepsToText)
    (ofSet : set.Only fun _ rule => rule.pattern.KeepsToText) {text : Text} {items : List Tree}
    (split : splitWith root fuel set text = .ok items) : Covers text items := by
  induction fuel generalizing set text items with
  | zero => cases split
  | succ fuel inductionHypothesis =>
    rw [splitWith] at split
    refine Outcome.foldlM_keeps (Covers text) ?_ split (covers_raw text)
    rintro before after ⟨name, rule⟩ tried covers applied
    have insideCovers (inner : RuleSet)
        (ofInner : inner.Only fun _ rule => rule.pattern.KeepsToText) (part : Text)
        (parts : List Tree) (nested : splitWith root fuel inner part = .ok parts) :
        Covers part parts := inductionHypothesis ofInner nested
    exact tried_covers_of ofRoot ofSet insideCovers tried applied covers

/-- A rule that is tried with a rule set turns items that cover a text into items that cover it. -/
theorem tried_covers {root set : RuleSet} {fuel : Nat}
    (ofRoot : root.Only fun _ rule => rule.pattern.KeepsToText)
    (ofSet : set.Only fun _ rule => rule.pattern.KeepsToText) {name : String} {rule : Rule}
    (tried : (name, rule) ∈ RuleSet.chainRules root set) {text : Text} {items result : List Tree}
    (applied : applyRule rule (makeWith (splitWith root fuel) root name rule) items = .ok result)
    (covers : Covers text items) : Covers text result :=
  tried_covers_of ofRoot ofSet
    (fun _ ofInner _ _ nested => splitWith_covers fuel ofRoot ofInner nested) tried applied covers

end Split

/-- Whatever grammar a text is split with, the result has the text as its source, and no item in it
is empty or covers another text than its parts, at any depth. The patterns of the grammar that have
a search of their own have to keep to the text; matches without characters, matches whose start was
moved past their end, and tokens that later rules take in or cut are all allowed.

Proof: every rule turns items that cover the text into items that cover it, which for a greedy rule
is a matter of cutting the joined text and the items at the same places. The parts of a token are
the result of such a run over its own text. -/
theorem tokenize_lossless (grammar : RuleSet)
    (keeps : grammar.Only fun _ rule => rule.pattern.KeepsToText) (text : Text) (items : List Tree)
    (split : grammar.tokenize text = .ok items) :
    Tree.sources items = text ∧ ∀ item ∈ items, item.Lossless := by
  have covers : Split.Covers text items := Split.splitWith_covers _ keeps keeps split
  exact ⟨covers.sources, covers.lossless⟩

/-- A pattern that finds the characters from one place to another in every text that has them. -/
def Pattern.window (start stop : Nat) : Pattern :=
  .custom fun text => if stop ≤ text.length then some ⟨start, stop, none⟩ else none

/-- Such a pattern keeps to the text. -/
theorem Pattern.window_keeps (start stop : Nat) : (window start stop).KeepsToText := by
  intro text found searched
  simp only at searched
  split at searched
  · cases searched
    assumption
  · cases searched

/-- The letters of a word, every second of which is a number. -/
def letters : RuleSet := .ofList "letters" [("number", [{ pattern := .window 1 2 }])]

/-- A grammar whose second rule cuts the tokens of its first and splits what it has taken. -/
def overlapping : RuleSet :=
  .ofList "overlapping" [
    ("keyword", [{ pattern := .window 1 3 }]),
    ("tag", [{ pattern := .window 0 2, greedy := true, inside := .to letters }])]

/-- The patterns of this grammar keep to the text. -/
theorem overlapping_keeps : overlapping.Only fun _ rule => rule.pattern.KeepsToText := by
  have ofLetters : letters.Only fun _ rule => rule.pattern.KeepsToText := by
    refine RuleSet.only_of_parts ?_ nofun
    intro entry entered rule listed
    cases List.mem_singleton.mp entered
    cases List.mem_singleton.mp listed
    exact ⟨Pattern.window_keeps 1 2, nofun⟩
  refine RuleSet.only_of_parts ?_ nofun
  intro entry entered rule listed
  rcases List.mem_cons.mp entered with rfl | second
  · cases List.mem_singleton.mp listed
    exact ⟨Pattern.window_keeps 1 3, nofun⟩
  · cases List.mem_singleton.mp second
    cases List.mem_singleton.mp listed
    refine ⟨Pattern.window_keeps 0 2, ?_⟩
    intro inner linked
    cases linked
    exact ofLetters

/-- The items that the grammar splits a word of five letters into. -/
def overlappingItems : List Tree := [
  .token .tag (.list [.text ['a'], .token .number (.text ['b']) [] (some ['b'])]) []
    (some ['a', 'b']),
  .token .tag (.list [.text ['c'], .token .number (.text ['d']) [] (some ['d'])]) []
    (some ['c', 'd']),
  .text ['e']]

/-- Nothing of a word is lost when its middle was a token that two others have cut. -/
theorem tokenize_lossless_overlapping :
    (overlapping.Only fun _ rule => rule.pattern.KeepsToText) ∧
      overlapping.tokenize "abcde".toList = .ok overlappingItems ∧
      Tree.sources overlappingItems = "abcde".toList ∧
      ∀ item ∈ overlappingItems, item.Lossless := by
  have split : overlapping.tokenize "abcde".toList = .ok overlappingItems := by
    cbv
  exact ⟨overlapping_keeps, split,
    tokenize_lossless overlapping overlapping_keeps "abcde".toList overlappingItems split⟩

end TemplHighlight
