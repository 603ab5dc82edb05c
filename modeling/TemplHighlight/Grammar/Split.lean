import TemplHighlight.Grammar.RuleSet
import TemplHighlight.Token.Tree

/-!
# Splitting text into tokens

`RuleSet.tokenize` splits a text with a grammar. It starts from the text as one raw item; each rule
in turn makes tokens of its matches in the raw items that the rules before it left over. A plain
rule looks into every raw item by itself. A greedy rule looks into the joined text of a raw item and
all items behind it, so its match may take in tokens that are there already, as long as it starts in
raw text; what is left of a token that was cut becomes raw text again. The text of a token is split
further by the rule set inside the rule.

No text is lost: the items always cover the text that was split, piece by piece.
-/

namespace TemplHighlight

/-- Why a text could not be split. -/
inductive SplitError where
  /-- A pattern could not be used. -/
  | pattern (error : PatternError)
  /-- Neither the rule nor its name says what kind of token to make. -/
  | noKind (name : String)
  /-- A rule set splits the same text over and over again. -/
  | endless
  deriving DecidableEq

namespace SplitError

/-- The words for the errors that come with an explanation. -/
def message? : SplitError → Option Text
  | pattern error => error.message?
  | noKind name => some ("Rule '".toList ++ name.toList ++ "' has no token kind".toList)
  | endless => none

end SplitError

namespace Split

/-- Where in a text the next token is. -/
abbrev Finder := Text → Except SplitError (Option (Nat × Nat))

/-- Makes the token for a piece of text. -/
abbrev Maker := Text → Except SplitError Tree

/-- A text as raw items: one, or none if it is empty. -/
def raw : Text → List Tree
  | [] => []
  | text => [.text text]

/-- Splits a raw text: tokens where `find` says, and raw text between them. A match without
characters ends the search. -/
def splitText (find : Finder) (make : Maker) (text : Text) : Except SplitError (List Tree) :=
  if text.isEmpty then .ok []
  else do
    match ← find text with
    | none => return [.text text]
    | some (start, stop) =>
      if start < stop then
        let token ← make ((text.take stop).drop start)
        let later ← splitText find make (text.drop stop)
        return raw (text.take start) ++ token :: later
      else return [.text text]
termination_by text.length
decreasing_by
  have filled : text.length ≠ 0 := by simp_all
  simp only [List.length_drop]; omega

/-- A plain rule: every raw item is split by itself. -/
def splitEach (find : Finder) (make : Maker) : List Tree → Except SplitError (List Tree)
  | [] => .ok []
  | item :: items => do
    let front ← if item.isToken then .ok [item] else splitText find make item.source
    let later ← splitEach find make items
    return front ++ later

/-- The items that end at or before the place `start`, and the items from there on. -/
def spanBefore : (start : Nat) → List Tree → List Tree × List Tree
  | _, [] => ([], [])
  | start, item :: items =>
    if item.source.length ≤ start then
      match spanBefore (start - item.source.length) items with
      | (before, behind) => (item :: before, behind)
    else ([], item :: items)

/-- What is left of the items behind the first `count` characters. An item that is cut becomes raw
text, even if it was a token. -/
def dropSource : (count : Nat) → List Tree → List Tree
  | 0, items => items
  | _ + 1, [] => []
  | count + 1, item :: items =>
    if item.source.length ≤ count + 1 then dropSource (count + 1 - item.source.length) items
    else .text (item.source.drop (count + 1)) :: items

/-- Every item stands on one side of the place. -/
theorem length_spanBefore (start : Nat) (items : List Tree) :
    (spanBefore start items).2.length + (spanBefore start items).1.length = items.length := by
  induction items generalizing start with
  | nil => simp [spanBefore]
  | cons item items ih =>
    unfold spanBefore
    split
    · have step := ih (start - item.source.length)
      simp at step ⊢; omega
    · simp

/-- From a place on there is no more text than there was. -/
theorem length_sources_spanBefore_le (start : Nat) (items : List Tree) :
    (Tree.sources (spanBefore start items).2).length ≤ (Tree.sources items).length := by
  induction items generalizing start with
  | nil => simp [spanBefore]
  | cons item items ih =>
    unfold spanBefore
    split
    · have step := ih (start - item.source.length)
      simp [Tree.sources] at step ⊢; omega
    · simp

/-- Behind the first `count` characters the text is shorter by as many. -/
theorem length_sources_dropSource (count : Nat) (items : List Tree) :
    (Tree.sources (dropSource count items)).length = (Tree.sources items).length - count := by
  fun_induction dropSource count items with
  | case1 => simp
  | case2 => simp [Tree.sources]
  | case3 count item items covered ih => simp [Tree.sources, ih]; omega
  | case4 count item items cut => simp [Tree.sources, Tree.source]; omega

/-- Of items without text nothing is left behind a character. -/
theorem dropSource_eq_nil {count : Nat} {items : List Tree} (positive : 0 < count)
    (covered : (Tree.sources items).length = 0) : dropSource count items = [] := by
  induction items with
  | nil => cases count with
    | zero => omega
    | succ count => simp [dropSource]
  | cons item items ih =>
    simp [Tree.sources] at covered
    cases count with
    | zero => omega
    | succ count => simp [dropSource, covered.1]; exact ih (by simp [covered.2])

/-- How much there is still to be split: the length of the text, and then the number of items. -/
abbrev size (items : List Tree) : Nat × Nat := ((Tree.sources items).length, items.length)

/-- One size is smaller than another if there is less text, or as much text in fewer items. -/
abbrev Smaller (items others : List Tree) : Prop :=
  Prod.Lex (· < ·) (· < ·) (size items) (size others)

/-- Fewer items without more text are less to be split. -/
theorem smaller_of_le {items others : List Tree}
    (text : (Tree.sources items).length ≤ (Tree.sources others).length)
    (count : items.length < others.length) : Smaller items others := by
  rcases Nat.lt_or_eq_of_le text with less | equal
  · exact Prod.Lex.left _ _ less
  · unfold Smaller size
    rw [equal]
    exact Prod.Lex.right _ count

/-- Passing an item leaves less to be split. -/
theorem smaller_later (item : Tree) (later : List Tree) : Smaller later (item :: later) :=
  smaller_of_le (by simp [Tree.sources]) (by simp)

/-- Taking characters away leaves less to be split. -/
theorem smaller_dropSource {stop : Nat} (item : Tree) (later : List Tree) (positive : 0 < stop) :
    Smaller (dropSource stop (item :: later)) (item :: later) := by
  have counted := length_sources_dropSource stop (item :: later)
  by_cases covered : (Tree.sources (item :: later)).length = 0
  · rw [dropSource_eq_nil positive covered]
    exact smaller_of_le (by simp [Tree.sources]) (by simp)
  · exact Prod.Lex.left _ _ (by omega)

/-- Passing the items before a place leaves less to be split, if there are any. -/
theorem smaller_spanBefore {start : Nat} {items passed behind : List Tree} {item : Tree}
    (spanned : spanBefore start items = (item :: passed, behind)) : Smaller behind items := by
  have shorter := length_sources_spanBefore_le start items
  have counted := length_spanBefore start items
  rw [spanned] at shorter counted
  exact smaller_of_le shorter (by simp only [List.length_cons] at counted; omega)

/-- A greedy rule. The search goes over the joined text of all items from a raw one on; a match that
starts in a later item is left to the turn of that item. -/
def splitGreedy (find : Finder) (make : Maker) (items : List Tree) :
    Except SplitError (List Tree) :=
  match items with
  | [] => .ok []
  | item :: later =>
    if item.isToken then do
      return item :: (← splitGreedy find make later)
    else do
      let joined := Tree.sources (item :: later)
      match ← find joined with
      | none => return item :: later
      | some (start, stop) =>
        if start < stop then
          match _spanned : spanBefore start (item :: later) with
          | ([], _) =>
            let token ← make ((joined.take stop).drop start)
            let behind ← splitGreedy find make (dropSource stop (item :: later))
            return raw (joined.take start) ++ token :: behind
          | (passed :: more, behind) =>
            return passed :: more ++ (← splitGreedy find make behind)
        else
          return item :: (← splitGreedy find make later)
termination_by size items
decreasing_by
  · exact smaller_later item later
  · exact smaller_dropSource item later (by omega)
  · exact smaller_spanBefore _spanned
  · exact smaller_later item later

/-- Turns the errors of a pattern into errors of splitting. -/
def findWith (rule : Rule) : Finder := fun text =>
  match rule.find text with
  | .ok found => .ok found
  | .error error => .error (.pattern error)

/-- The token that a rule makes under a name, its content split by `splitInside`. -/
def makeWith (splitInside : RuleSet → Text → Except SplitError (List Tree)) (root : RuleSet)
    (name : String) (rule : Rule) : Maker := fun text => do
  let content ← match rule.inside with
    | .none => .ok (.text text)
    | .root => Tree.list <$> splitInside root text
    | .to set => Tree.list <$> splitInside set text
  match rule.kindFor? name with
  | some kind => return .token kind content rule.aliases (some text)
  | none => throw (.noKind name)

/-- Lets a rule make its tokens in the items that are there. -/
def applyRule (rule : Rule) (make : Maker) (items : List Tree) : Except SplitError (List Tree) :=
  if rule.greedy then splitGreedy (findWith rule) make items
  else splitEach (findWith rule) make items

/-- Splits a text with the rules on the chain of a rule set, at most `fuel` levels deep. -/
def splitWith (root : RuleSet) : (fuel : Nat) → RuleSet → Text → Except SplitError (List Tree)
  | 0, _, _ => .error .endless
  | fuel + 1, set, text =>
    (RuleSet.chainRules root set).foldlM
      (fun items (name, rule) =>
        applyRule rule (makeWith (splitWith root fuel) root name rule) items)
      (raw text)

end Split

/-- A bound on how deep the rule sets of a grammar can be nested over a text of a given length.
Deeper down some set would meet the same text a second time, and then go on for ever. -/
def RuleSet.depthBound (root : RuleSet) (length : Nat) : Nat :=
  (length + 1) * (root.setCount + 1)

/-- Splits a text with a grammar. -/
def RuleSet.tokenize (root : RuleSet) (text : Text) : Except SplitError (List Tree) :=
  Split.splitWith root (root.depthBound text.length) root text

end TemplHighlight
