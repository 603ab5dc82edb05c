import TemplHighlight.Grammar.Split
import TemplHighlight.Proofs.Outcome

/-!
# The steps of splitting

What a rule does to a list of items, as a relation with one constructor for each thing that can
happen. Every result of a plain or a greedy rule is related to the items it was made from, so what
a rule keeps is proved by an induction over these steps, and the splitting functions themselves are
taken apart in this module only.
-/

namespace TemplHighlight.Split

/-- A finder has no match with characters in a text. -/
def Misses (find : Finder) (text : Text) : Prop :=
  find text = .ok none ∨ ∃ start stop, find text = .ok (some (start, stop)) ∧ stop ≤ start

/-- The steps of splitting one raw text. -/
inductive TextSteps (find : Finder) (make : Maker) :
    (text : Text) → (result : List Tree) → Prop where
  | empty : TextSteps find make [] []
  | whole {text : Text} (filled : text ≠ []) (missed : Misses find text) :
      TextSteps find make text [.text text]
  /-- A match is cut out, and the text behind it is split further. -/
  | cut {text : Text} {start stop : Nat} {token : Tree} {later : List Tree}
      (found : find text = .ok (some (start, stop))) (ordered : start < stop)
      (made : make ((text.take stop).drop start) = .ok token)
      (behind : TextSteps find make (text.drop stop) later) :
      TextSteps find make text (raw (text.take start) ++ token :: later)

/-- The steps of a plain rule. -/
inductive EachSteps (find : Finder) (make : Maker) :
    (items : List Tree) → (result : List Tree) → Prop where
  | done : EachSteps find make [] []
  | token {item : Tree} {items result : List Tree} (token : item.isToken = true)
      (behind : EachSteps find make items result) :
      EachSteps find make (item :: items) (item :: result)
  | raw {item : Tree} {items front result : List Tree} (raw : ¬ item.isToken = true)
      (split : TextSteps find make item.source front)
      (behind : EachSteps find make items result) :
      EachSteps find make (item :: items) (front ++ result)

/-- The steps of a greedy rule. -/
inductive GreedySteps (find : Finder) (make : Maker) :
    (items : List Tree) → (result : List Tree) → Prop where
  | done : GreedySteps find make [] []
  | token {item : Tree} {items result : List Tree} (token : item.isToken = true)
      (behind : GreedySteps find make items result) :
      GreedySteps find make (item :: items) (item :: result)
  /-- Nothing is found from a raw item on. -/
  | none {item : Tree} {items : List Tree} (raw : ¬ item.isToken = true)
      (missed : find (Tree.sources (item :: items)) = .ok none) :
      GreedySteps find make (item :: items) (item :: items)
  /-- A match without characters is found. -/
  | pass {item : Tree} {items result : List Tree} {start stop : Nat}
      (raw : ¬ item.isToken = true)
      (found : find (Tree.sources (item :: items)) = .ok (some (start, stop)))
      (empty : stop ≤ start)
      (behind : GreedySteps find make items result) :
      GreedySteps find make (item :: items) (item :: result)
  /-- A match that starts in the raw item is cut out of the joined text. -/
  | cut {item : Tree} {items result : List Tree} {start stop : Nat} {token : Tree}
      (raw : ¬ item.isToken = true)
      (found : find (Tree.sources (item :: items)) = .ok (some (start, stop)))
      (ordered : start < stop) (here : start < item.source.length)
      (made : make (((Tree.sources (item :: items)).take stop).drop start) = .ok token)
      (behind : GreedySteps find make (dropSource stop (item :: items)) result) :
      GreedySteps find make (item :: items)
        (Split.raw ((Tree.sources (item :: items)).take start) ++ token :: result)
  /-- A match that starts in a later item is left to the turn of that item. -/
  | later {item : Tree} {items passed behind result : List Tree} {start stop : Nat}
      (raw : ¬ item.isToken = true)
      (found : find (Tree.sources (item :: items)) = .ok (some (start, stop)))
      (ordered : start < stop) (spanned : spanBefore start (item :: items) = (passed, behind))
      (some : passed ≠ []) (rest : GreedySteps find make behind result) :
      GreedySteps find make (item :: items) (passed ++ result)

/-- What the finder of a rule finds is a match of its pattern. It stops where the match stops, and
starts where it starts, or behind that if what the group took is left out. -/
theorem search_of_findWith {rule : Rule} {text : Text} {start stop : Nat}
    (found : findWith rule text = .ok (some (start, stop))) :
    ∃ result, rule.pattern.search text = .ok (some result) ∧ result.stop = stop ∧
      result.start ≤ start ∧ (rule.lookbehind = false → result.start = start) := by
  unfold findWith at found
  split at found
  · rename_i bounds searched
    cases found
    simp only [Rule.find, Outcome.bind_eq_ok] at searched
    obtain ⟨result?, searched, same⟩ := searched
    cases result? with
    | none => cases same
    | some result =>
      refine ⟨result, searched, ?_⟩
      simp only at same
      split at same
      · rename_i lookbehind
        rw [Outcome.bind_eq_ok] at same
        obtain ⟨group, -, same⟩ := same
        cases same
        refine ⟨rfl, Nat.le_add_right _ _, ?_⟩
        intro plain
        rw [lookbehind] at plain
        cases plain
      · cases same
        exact ⟨rfl, Nat.le_refl _, fun _ => rfl⟩
  · cases found

/-- A match of the pattern is what the finder of a rule without lookbehind finds. -/
theorem findWith_of_search {rule : Rule} {text : Text} {result : Found}
    (plain : rule.lookbehind = false) (searched : rule.pattern.search text = .ok (some result)) :
    findWith rule text = .ok (some (result.start, result.stop)) := by
  unfold findWith Rule.find
  rw [searched, plain]
  rfl

/-- A rule without lookbehind that finds nothing has searched for its pattern in vain. -/
theorem search_of_missed {rule : Rule} {text : Text} (plain : rule.lookbehind = false)
    (missed : findWith rule text = .ok none) : rule.pattern.search text = .ok none := by
  cases searched : rule.pattern.search text with
  | error error =>
    unfold findWith Rule.find at missed
    rw [searched] at missed
    cases missed
  | ok found? =>
    cases found? with
    | none => rfl
    | some result =>
      rw [findWith_of_search plain searched] at missed
      cases missed

/-- Whatever splitting a raw text returns was reached by steps. -/
theorem steps_of_splitText {find : Finder} {make : Maker} {text : Text} {result : List Tree}
    (split : splitText find make text = .ok result) : TextSteps find make text result := by
  induction text using splitText.induct generalizing result with
  | case1 text empty =>
    rw [splitText, if_pos empty] at split
    cases split
    rw [List.isEmpty_iff.mp empty]
    exact .empty
  | case2 text filled inductionHypothesis =>
    have notNil : text ≠ [] := fun none => filled (List.isEmpty_iff.mpr none)
    rw [splitText, if_neg filled, Outcome.bind_eq_ok] at split
    obtain ⟨match?, found, split⟩ := split
    cases match? with
    | none =>
      cases split
      exact .whole notNil (.inl found)
    | some bounds =>
      obtain ⟨start, stop⟩ := bounds
      simp only at split
      by_cases ordered : start < stop
      · simp only [if_pos ordered, Outcome.bind_eq_ok] at split
        obtain ⟨token, made, later, laterSplit, same⟩ := split
        cases same
        exact .cut found ordered made (inductionHypothesis start stop ordered laterSplit)
      · rw [if_neg ordered] at split
        cases split
        exact .whole notNil (.inr ⟨start, stop, found, Nat.le_of_not_lt ordered⟩)

/-- Whatever a plain rule returns was reached by steps. -/
theorem steps_of_splitEach {find : Finder} {make : Maker} {items result : List Tree}
    (split : splitEach find make items = .ok result) : EachSteps find make items result := by
  induction items generalizing result with
  | nil =>
    cases split
    exact .done
  | cons item items inductionHypothesis =>
    by_cases token : item.isToken = true
    · simp only [splitEach, if_pos token, Outcome.bind_eq_ok] at split
      obtain ⟨front, same, later, laterSplit, result⟩ := split
      cases same
      cases result
      exact .token token (inductionHypothesis laterSplit)
    · simp only [splitEach, if_neg token, Outcome.bind_eq_ok] at split
      obtain ⟨front, frontSplit, later, laterSplit, result⟩ := split
      cases result
      exact .raw token (steps_of_splitText frontSplit) (inductionHypothesis laterSplit)

/-- Where nothing is found, a text stays raw. -/
theorem TextSteps.of_missed {find : Finder} {make : Maker} {text : Text} {result : List Tree}
    (missed : find text = .ok none) (steps : TextSteps find make text result) :
    result = raw text := by
  cases steps with
  | empty => rfl
  | whole filled missed =>
    cases text with
    | nil => exact absurd rfl filled
    | cons c rest => rfl
  | cut found ordered made behind =>
    rw [missed] at found
    cases found

/-- A match that is found in a text is cut out of it. -/
theorem TextSteps.of_found {find : Finder} {make : Maker} {text : Text} {start stop : Nat}
    {result : List Tree} (filled : text ≠ []) (found : find text = .ok (some (start, stop)))
    (ordered : start < stop) (steps : TextSteps find make text result) :
    ∃ token later, make ((text.take stop).drop start) = .ok token ∧
      TextSteps find make (text.drop stop) later ∧
      result = raw (text.take start) ++ token :: later := by
  cases steps with
  | empty => exact absurd rfl filled
  | whole _ missed =>
    rcases missed with missed | ⟨start', stop', missed, unordered⟩
    · rw [missed] at found
      cases found
    · rw [missed] at found
      cases found
      exact absurd ordered (Nat.not_lt.mpr unordered)
  | cut found' _ made behind =>
    rw [found] at found'
    cases found'
    exact ⟨_, _, made, behind, rfl⟩

/-- The steps of a plain rule over a raw text and further items are steps of the text and of these
items. -/
theorem EachSteps.of_raw {find : Finder} {make : Maker} {text : Text} {items result : List Tree}
    (steps : EachSteps find make (Split.raw text ++ items) result) :
    ∃ front back, TextSteps find make text front ∧ EachSteps find make items back ∧
      result = front ++ back := by
  cases text with
  | nil => exact ⟨[], result, .empty, steps, rfl⟩
  | cons c rest =>
    cases steps with
    | token isToken behind => cases isToken
    | raw raw split behind => exact ⟨_, _, split, behind, rfl⟩

/-- What a plain rule makes of one raw text was reached by the steps of splitting the text. -/
theorem steps_of_applyRule_raw {rule : Rule} {make : Maker} {text : Text} {result : List Tree}
    (plain : rule.greedy = false) (applied : applyRule rule make (raw text) = .ok result) :
    TextSteps (findWith rule) make text result := by
  rw [applyRule, plain] at applied
  have steps := steps_of_splitEach applied
  rw [← List.append_nil (raw text)] at steps
  obtain ⟨front, back, split, behind, rfl⟩ := steps.of_raw
  cases behind
  rw [List.append_nil]
  exact split

/-- Items are passed up to a place if and only if the first of them ends at or before it. -/
theorem spanBefore_nil {start : Nat} {item : Tree} {items behind : List Tree}
    (spanned : spanBefore start (item :: items) = ([], behind)) : start < item.source.length := by
  unfold spanBefore at spanned
  split at spanned
  · cases spanned
  · omega

/-- Whatever a greedy rule returns was reached by steps. -/
theorem steps_of_splitGreedy {find : Finder} {make : Maker} {items result : List Tree}
    (split : splitGreedy find make items = .ok result) : GreedySteps find make items result := by
  induction items using splitGreedy.induct generalizing result with
  | case1 =>
    rw [splitGreedy] at split
    cases split
    exact .done
  | case2 item items token inductionHypothesis =>
    rw [splitGreedy, if_pos token, Outcome.bind_eq_ok] at split
    obtain ⟨later, laterSplit, same⟩ := split
    cases same
    exact .token token (inductionHypothesis laterSplit)
  | case3 item items raw cutHypothesis laterHypothesis passHypothesis =>
    rw [splitGreedy, if_neg raw, Outcome.bind_eq_ok] at split
    obtain ⟨match?, found, split⟩ := split
    cases match? with
    | none =>
      cases split
      exact .none raw found
    | some bounds =>
      obtain ⟨start, stop⟩ := bounds
      simp only at split
      by_cases ordered : start < stop
      · rw [if_pos ordered] at split
        split at split
        · rename_i behind spanned
          simp only [Outcome.bind_eq_ok] at split
          obtain ⟨token, made, later, laterSplit, same⟩ := split
          cases same
          exact .cut raw found ordered (spanBefore_nil spanned) made
            (cutHypothesis start stop ordered laterSplit)
        · rename_i passed more behind spanned
          simp only [Outcome.bind_eq_ok] at split
          obtain ⟨later, laterSplit, same⟩ := split
          cases same
          exact .later raw found ordered spanned (by simp)
            (laterHypothesis start passed more behind spanned laterSplit)
      · simp only [if_neg ordered, Outcome.bind_eq_ok] at split
        obtain ⟨later, laterSplit, same⟩ := split
        cases same
        exact .pass raw found (Nat.le_of_not_lt ordered) (passHypothesis laterSplit)

/-- The steps of making a token of a text: its content is the text, or the result of splitting the
text with the root or with the set inside the rule. -/
inductive MakeSteps (splitInside : RuleSet → Text → Except SplitError (List Tree))
    (root : RuleSet) (name : String) (rule : Rule) (text : Text) : Tree → Prop where
  | leaf {kind : TokenKind} (linked : rule.inside = .none)
      (named : rule.kindFor? name = some kind) :
      MakeSteps splitInside root name rule text
        (.token kind (.text text) rule.aliases (some text))
  | root {kind : TokenKind} {items : List Tree} (linked : rule.inside = .root)
      (split : splitInside root text = .ok items) (named : rule.kindFor? name = some kind) :
      MakeSteps splitInside root name rule text
        (.token kind (.list items) rule.aliases (some text))
  | inside {kind : TokenKind} {set : RuleSet} {items : List Tree} (linked : rule.inside = .to set)
      (split : splitInside set text = .ok items) (named : rule.kindFor? name = some kind) :
      MakeSteps splitInside root name rule text
        (.token kind (.list items) rule.aliases (some text))

/-- Whatever token is made was made by these steps. -/
theorem steps_of_makeWith {splitInside : RuleSet → Text → Except SplitError (List Tree)}
    {root : RuleSet} {name : String} {rule : Rule} {text : Text} {item : Tree}
    (made : makeWith splitInside root name rule text = .ok item) :
    MakeSteps splitInside root name rule text item := by
  unfold makeWith at made
  cases linked : rule.inside with
  | none =>
    simp only [linked, Outcome.bind_eq_ok] at made
    obtain ⟨content, same, made⟩ := made
    cases same
    split at made
    · rename_i kind named
      cases made
      exact .leaf linked named
    · cases made
  | root =>
    simp only [linked, Outcome.bind_eq_ok, Outcome.map_eq_ok] at made
    obtain ⟨content, ⟨items, split, rfl⟩, made⟩ := made
    split at made
    · rename_i kind named
      cases made
      exact .root linked split named
    · cases made
  | «to» set =>
    simp only [linked, Outcome.bind_eq_ok, Outcome.map_eq_ok] at made
    obtain ⟨content, ⟨items, split, rfl⟩, made⟩ := made
    split at made
    · rename_i kind named
      cases made
      exact .inside linked split named
    · cases made

/-- The token of a rule has the kind that the rule's name says, the aliases of the rule, and the text
that it was made of. -/
theorem token_of_makeWith {splitInside : RuleSet → Text → Except SplitError (List Tree)}
    {root : RuleSet} {name : String} {rule : Rule} {kind : TokenKind} {text : Text} {token : Tree}
    (named : rule.kindFor? name = some kind)
    (made : makeWith splitInside root name rule text = .ok token) :
    ∃ content, token = .token kind content rule.aliases (some text) := by
  cases steps_of_makeWith made with
  | leaf linked kindNamed =>
    rw [named] at kindNamed
    cases kindNamed
    exact ⟨_, rfl⟩
  | root linked split kindNamed =>
    rw [named] at kindNamed
    cases kindNamed
    exact ⟨_, rfl⟩
  | inside linked split kindNamed =>
    rw [named] at kindNamed
    cases kindNamed
    exact ⟨_, rfl⟩

/-- The token of a rule without a set inside has its text as content. -/
theorem leaf_of_makeWith {splitInside : RuleSet → Text → Except SplitError (List Tree)}
    {root : RuleSet} {name : String} {rule : Rule} {kind : TokenKind} {text : Text} {token : Tree}
    (linked : rule.inside = .none) (named : rule.kindFor? name = some kind)
    (made : makeWith splitInside root name rule text = .ok token) :
    token = .token kind (.text text) rule.aliases (some text) := by
  cases steps_of_makeWith made with
  | leaf _ kindNamed =>
    rw [named] at kindNamed
    cases kindNamed
    rfl
  | root toRoot =>
    rw [linked] at toRoot
    cases toRoot
  | inside toSet =>
    rw [linked] at toSet
    cases toSet

/-- The token of a rule with a set inside has the result of splitting its text with that set. -/
theorem nested_of_makeWith {splitInside : RuleSet → Text → Except SplitError (List Tree)}
    {root set : RuleSet} {name : String} {rule : Rule} {kind : TokenKind} {text : Text}
    {token : Tree} (linked : rule.inside = .to set) (named : rule.kindFor? name = some kind)
    (made : makeWith splitInside root name rule text = .ok token) :
    ∃ items, splitInside set text = .ok items ∧
      token = .token kind (.list items) rule.aliases (some text) := by
  cases steps_of_makeWith made with
  | leaf ends =>
    rw [linked] at ends
    cases ends
  | root ends =>
    rw [linked] at ends
    cases ends
  | inside toSet split kindNamed =>
    rw [linked] at toSet
    rw [named] at kindNamed
    cases toSet
    cases kindNamed
    exact ⟨_, split, rfl⟩

end TemplHighlight.Split
