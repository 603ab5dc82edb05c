import TemplHighlight.Proofs.Split.Items
import TemplHighlight.Proofs.Split.Total

/-!
# Where tokens come from

A rule puts two things into a list of items: the tokens that it makes of what it finds, and raw
text. It never shortens a token: a token that a greedy rule cuts becomes raw text, and is a token
no more. So every token of a result, at every depth, was made whole by one of the rules of the
grammar: its text is what the rule has found in a piece of the text that was split, and its kind and
its aliases are those of the rule.
-/

namespace TemplHighlight

/-- A tree is another one, or is inside of it at some depth. -/
inductive Tree.Inside (inner : Tree) : Tree → Prop where
  | here : Inside inner inner
  | content {kind : TokenKind} {content : Tree} {aliases : List String} {cached : Option Text}
      (inside : Inside inner content) : Inside inner (.token kind content aliases cached)
  | item {items : List Tree} {outer : Tree} (listed : outer ∈ items)
      (inside : Inside inner outer) : Inside inner (.list items)

/-- A tree is one of some items, or is inside of one at some depth. -/
def Tree.Among (inner : Tree) (items : List Tree) : Prop := ∃ item ∈ items, Inside inner item

/-- A token that is inside of another token is the token, or is inside of its content. -/
theorem Tree.Inside.of_token {inner content : Tree} {kind : TokenKind} {aliases : List String}
    {cached : Option Text} (inside : Inside inner (.token kind content aliases cached)) :
    inner = .token kind content aliases cached ∨ Inside inner content := by
  cases inside with
  | here => exact .inl rfl
  | content inside => exact .inr inside

/-- No token is inside of raw text. -/
theorem Tree.Inside.of_text {inner : Tree} {chars : Text} (inside : Inside inner (.text chars)) :
    inner = .text chars := by
  cases inside
  rfl

/-- What is inside of a list is among its items, or is the list. -/
theorem Tree.Inside.of_list {inner : Tree} {items : List Tree} (inside : Inside inner (.list items)) :
    inner = .list items ∨ Among inner items := by
  cases inside with
  | here => exact .inl rfl
  | item listed inside => exact .inr ⟨_, listed, inside⟩

namespace Split

/-- A token that a rule has made under a name of what it took out of a text. -/
inductive MadeBy (name : String) (rule : Rule) (text : Text) : Tree → Prop where
  | token {kind : TokenKind} {content : Tree} {part : Text} (named : rule.kindFor? name = some kind)
      (taken : Taken (findWith rule) text part) :
      MadeBy name rule text (.token kind content rule.aliases (some part))

/-- What was made of a piece of a text was made of the text. -/
theorem MadeBy.of_piece {name : String} {rule : Rule} {piece text : Text} {token : Tree}
    (made : MadeBy name rule piece token) (inside : piece <:+: text) :
    MadeBy name rule text token := by
  cases made with
  | token named taken => exact .token named (taken.of_piece inside)

/-! ## What a rule puts into a list -/

variable {find : Finder} {make : Maker} {good : Tree → Prop} {items result : List Tree}

/-- An item covers a piece of the text of all items. -/
theorem piece_of_mem {item : Tree} (listed : item ∈ items) : item.source <:+: Tree.sources items := by
  induction items with
  | nil => cases listed
  | cons first later inductionHypothesis =>
    rcases List.mem_cons.mp listed with rfl | behind
    · exact source_piece item later
    · exact (inductionHypothesis behind).trans (sources_piece first later)

/-- Dropping characters leaves items that were there, and raw text. -/
theorem dropSource_forall (raw : ∀ text, good (.text text)) (before : ∀ item ∈ items, good item)
    (count : Nat) : ∀ item ∈ dropSource count items, good item := by
  fun_induction dropSource count items with
  | case1 items => exact before
  | case2 count => exact before
  | case3 count item later short inductionHypothesis =>
    exact inductionHypothesis (List.forall_mem_cons.mp before).2
  | case4 count item later long =>
    exact List.forall_mem_cons.mpr ⟨raw _, (List.forall_mem_cons.mp before).2⟩

/-- A plain rule keeps a property of all items, if raw texts have it and so do the tokens that are
made of what is taken out of the text. -/
theorem EachSteps.forall_taken (raw : ∀ text, good (.text text))
    (makes : ∀ part token, Taken find (Tree.sources items) part → make part = .ok token →
      good token)
    (steps : EachSteps find make items result) (before : ∀ item ∈ items, good item) :
    ∀ item ∈ result, good item := by
  refine steps.forall_items (fun text (_ : text <:+: Tree.sources items) _ => raw text) ?_
    fun item listed => ⟨fun _ => before item listed, fun _ => piece_of_mem listed⟩
  intro text start stop piece found ordered
  refine ⟨raw _, fun token made => ?_, (List.drop_suffix stop text).isInfix.trans piece⟩
  exact makes _ token ⟨text, start, stop, piece, found, ordered, rfl⟩ made

/-- A greedy rule does so as well. What it leaves of a token that it has cut is raw text. -/
theorem GreedySteps.forall_taken (raw : ∀ text, good (.text text))
    (makes : ∀ part token, Taken find (Tree.sources items) part → make part = .ok token →
      good token)
    (steps : GreedySteps find make items result) (before : ∀ item ∈ items, good item) :
    ∀ item ∈ result, good item := by
  induction steps with
  | done => exact before
  | none isRaw missed => exact before
  | @token item items result isToken behind inductionHypothesis =>
    obtain ⟨first, later⟩ := List.forall_mem_cons.mp before
    refine List.forall_mem_cons.mpr ⟨first, inductionHypothesis ?_ later⟩
    exact fun part token taken => makes part token (taken.of_piece (sources_piece item items))
  | @pass item items result start stop isRaw found empty behind inductionHypothesis =>
    obtain ⟨first, later⟩ := List.forall_mem_cons.mp before
    refine List.forall_mem_cons.mpr ⟨first, inductionHypothesis ?_ later⟩
    exact fun part token taken => makes part token (taken.of_piece (sources_piece item items))
  | @cut item items result start stop token isRaw found ordered here made behind
      inductionHypothesis =>
    refine List.forall_mem_append.mpr ⟨raw_forall (raw _), List.forall_mem_cons.mpr ⟨?_, ?_⟩⟩
    · exact makes _ token ⟨_, start, stop, List.infix_refl _, found, ordered, rfl⟩ made
    · refine inductionHypothesis ?_ (dropSource_forall raw before stop)
      exact fun part token taken =>
        makes part token (taken.of_piece (dropSource_piece stop (item :: items)))
  | @later item items passed behind result start stop isRaw found ordered spanned some rest
      inductionHypothesis =>
    have split : passed ++ behind = item :: items := by
      rw [← spanBefore_append start (item :: items), spanned]
    obtain ⟨inPassed, inBehind⟩ := List.forall_mem_append.mp (split ▸ before)
    refine List.forall_mem_append.mpr ⟨inPassed, inductionHypothesis ?_ inBehind⟩
    exact fun part token taken => makes part token (taken.of_piece (spanBefore_piece spanned))

/-- A rule keeps a property of all items, if raw texts have it and so do the tokens that are made of
what is taken out of the text. -/
theorem applyRule_forall {rule : Rule} (raw : ∀ text, good (.text text))
    (makes : ∀ part token, Taken (findWith rule) (Tree.sources items) part →
      make part = .ok token → good token)
    (applied : applyRule rule make items = .ok result) (before : ∀ item ∈ items, good item) :
    ∀ item ∈ result, good item := by
  unfold applyRule at applied
  split at applied
  · exact (steps_of_splitGreedy applied).forall_taken raw makes before
  · exact (steps_of_splitEach applied).forall_taken raw makes before

/-! ## The tokens of a grammar -/

/-- All tokens that are inside of a tree were made of a text by rules with a property. -/
def AllMade (property : String → Rule → Prop) (text : Text) (tree : Tree) : Prop :=
  ∀ token, token.isToken = true → token.Inside tree →
    ∃ name rule, property name rule ∧ MadeBy name rule text token

/-- What was made of a piece of a text was made of the text. -/
theorem AllMade.of_piece {property : String → Rule → Prop} {piece text : Text} {tree : Tree}
    (made : AllMade property piece tree) (inside : piece <:+: text) : AllMade property text tree := by
  intro token isToken within
  obtain ⟨name, rule, has, madeThere⟩ := made token isToken within
  exact ⟨name, rule, has, madeThere.of_piece inside⟩

/-- There are no tokens in raw text. -/
theorem allMade_text (property : String → Rule → Prop) (text chars : Text) :
    AllMade property text (.text chars) := by
  intro token isToken inside
  rw [inside.of_text] at isToken
  cases isToken

/-- All the tokens of a list were made if those of each item were. -/
theorem allMade_list {property : String → Rule → Prop} {text : Text}
    (each : ∀ item ∈ items, AllMade property text item) : AllMade property text (.list items) := by
  intro token isToken inside
  rcases inside.of_list with rfl | ⟨item, listed, inside⟩
  · cases isToken
  · exact each item listed token isToken inside

/-- The token of a rule was made by the rule, and the tokens that are inside of it were made as the
set inside the rule has made them. -/
theorem allMade_of_makeWith {property : String → Rule → Prop}
    {splitInside : RuleSet → Text → Except SplitError (List Tree)} {root : RuleSet} {name : String}
    {rule : Rule} (has : property name rule)
    (ofRoot : ∀ part items, splitInside root part = .ok items →
      ∀ item ∈ items, AllMade property part item)
    (ofInside : ∀ set, rule.inside = .to set → ∀ part items, splitInside set part = .ok items →
      ∀ item ∈ items, AllMade property part item)
    {text part : Text} {token : Tree} (taken : Taken (findWith rule) text part)
    (made : makeWith splitInside root name rule part = .ok token) :
    AllMade property text token := by
  have outside {kind : TokenKind} {content : Tree} (named : rule.kindFor? name = some kind)
      (ofContent : AllMade property text content) :
      AllMade property text (.token kind content rule.aliases (some part)) := by
    intro inner isToken inside
    rcases inside.of_token with rfl | inContent
    · exact ⟨name, rule, has, .token named taken⟩
    · exact ofContent inner isToken inContent
  cases steps_of_makeWith made with
  | leaf linked named => exact outside named (allMade_text property text part)
  | root linked split named =>
    have ofItems := allMade_list (ofRoot part _ split)
    exact outside named (ofItems.of_piece taken.piece)
  | inside linked split named =>
    have ofItems := allMade_list (ofInside _ linked part _ split)
    exact outside named (ofItems.of_piece taken.piece)

/-- Every token that splitting with a rule set gives, at every depth, was made by a rule of the set
or of the root. The induction is on the fuel: the tokens inside of a token come from a split with
less of it. -/
theorem splitWith_made {property : String → Rule → Prop}
    (keeps : ∀ name rule, property name rule → rule.pattern.KeepsToText) {root set : RuleSet}
    (fuel : Nat) (ofRoot : root.Only property) (ofSet : set.Only property) {text : Text}
    (split : splitWith root fuel set text = .ok items) :
    ∀ item ∈ items, AllMade property text item := by
  have keepsAll {set : RuleSet} (only : set.Only property) :
      set.Only fun _ rule => rule.pattern.KeepsToText :=
    fun name rule held => keeps name rule (only name rule held)
  induction fuel generalizing set text items with
  | zero => cases split
  | succ fuel inductionHypothesis =>
    have rawMade := allMade_text property text
    refine (Outcome.foldlM_keeps
      (fun items => Covers text items ∧ ∀ item ∈ items, AllMade property text item) ?_ split
      ⟨covers_raw text, raw_forall (rawMade text)⟩).2
    rintro before after ⟨name, rule⟩ tried ⟨covers, made⟩ applied
    obtain ⟨has, inside⟩ := RuleSet.only_of_chainRules tried ofRoot ofSet
    refine ⟨tried_covers (keepsAll ofRoot) (keepsAll ofSet) tried applied covers, ?_⟩
    refine applyRule_forall rawMade ?_ applied made
    intro part token taken madeHere
    rw [covers.sources] at taken
    refine allMade_of_makeWith has ?_ ?_ taken madeHere
    · exact fun _ _ nested => inductionHypothesis ofRoot nested
    · exact fun inner linked _ _ nested => inductionHypothesis (inside inner linked) nested

/-- Every token of a text, at every depth, was made by one of the rules of the grammar that the text
was split with. -/
theorem made_of_tokenize {grammar : RuleSet}
    (keeps : grammar.Only fun _ rule => rule.pattern.KeepsToText) {text : Text}
    (split : grammar.tokenize text = .ok items) {token : Tree} (isToken : token.isToken = true)
    (among : token.Among items) :
    ∃ name rule, RuleSet.Holds name rule grammar ∧ MadeBy name rule text token := by
  obtain ⟨item, listed, inside⟩ := among
  have held : grammar.Only fun name rule => RuleSet.Holds name rule grammar := by
    intro name rule holds
    exact holds
  exact splitWith_made keeps _ held held split item listed token isToken inside

end Split

end TemplHighlight
