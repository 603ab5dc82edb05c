import TemplHighlight.Proofs.Split.Lossless

/-!
# Splitting ends with a result

Splitting can fail in three ways: a search fails, a token has no kind, or the nesting goes on for
ever. The first two are seen from the rules. Against the third stands a level for each use of a rule
set on a text: if the sets that split the parts of the text are used on lower levels, then splitting
ends, and the level bounds how deep it goes.
-/

namespace TemplHighlight.Split

/-- A finder takes a part out of a text, or out of a piece of it. -/
def Taken (find : Finder) (text part : Text) : Prop :=
  ∃ piece start stop, piece <:+: text ∧ find piece = .ok (some (start, stop)) ∧ start < stop ∧
    part = (piece.take stop).drop start

/-- What is taken out of a piece of a text is taken out of the text. -/
theorem Taken.of_piece {find : Finder} {piece text part : Text} (taken : Taken find piece part)
    (inside : piece <:+: text) : Taken find text part := by
  obtain ⟨smaller, start, stop, within, found⟩ := taken
  exact ⟨smaller, start, stop, within.trans inside, found⟩

/-- What is taken out of a text is a piece of it. -/
theorem Taken.piece {find : Finder} {text part : Text} (taken : Taken find text part) :
    part <:+: text := by
  obtain ⟨piece, start, stop, inside, -, -, rfl⟩ := taken
  have prior : (piece.take stop).drop start <:+: piece :=
    (List.drop_suffix start _).isInfix.trans (List.take_prefix stop piece).isInfix
  exact prior.trans inside

variable {find : Finder} {make : Maker}

/-- A raw text is split if a token can be made of every part that is taken out of it. -/
theorem splitText_total (finds : ∀ text, ∃ bounds?, find text = .ok bounds?) {text : Text}
    (makes : ∀ part, Taken find text part → ∃ token, make part = .ok token) :
    ∃ result, splitText find make text = .ok result := by
  induction text using splitText.induct with
  | case1 text empty =>
    rw [splitText, if_pos empty]
    exact ⟨[], rfl⟩
  | case2 text filled inductionHypothesis =>
    rw [splitText, if_neg filled]
    obtain ⟨bounds?, found⟩ := finds text
    refine Outcome.bind_total ⟨bounds?, found, ?_⟩
    cases bounds? with
    | none => exact ⟨_, rfl⟩
    | some bounds =>
      obtain ⟨start, stop⟩ := bounds
      simp only
      by_cases ordered : start < stop
      · rw [if_pos ordered]
        obtain ⟨token, made⟩ :=
          makes _ ⟨text, start, stop, List.infix_refl text, found, ordered, rfl⟩
        obtain ⟨later, split⟩ := inductionHypothesis start stop ordered fun part taken =>
          makes part (taken.of_piece (List.drop_suffix stop text).isInfix)
        exact Outcome.bind_total ⟨token, made, Outcome.bind_total ⟨later, split, _, rfl⟩⟩
      · rw [if_neg ordered]
        exact ⟨_, rfl⟩

/-- The items of a list cover pieces of its text. -/
theorem source_piece (item : Tree) (items : List Tree) :
    item.source <:+: Tree.sources (item :: items) :=
  (List.prefix_append item.source (Tree.sources items)).isInfix

/-- The items behind the first cover a piece of the text. -/
theorem sources_piece (item : Tree) (items : List Tree) :
    Tree.sources items <:+: Tree.sources (item :: items) :=
  (List.suffix_append item.source (Tree.sources items)).isInfix

/-- What is left of the items behind some characters covers a piece of the text. -/
theorem dropSource_piece (count : Nat) (items : List Tree) :
    Tree.sources (dropSource count items) <:+: Tree.sources items := by
  rw [sources_dropSource]
  exact (List.drop_suffix count _).isInfix

/-- The items behind a place cover a piece of the text. -/
theorem spanBefore_piece {start : Nat} {items passed behind : List Tree}
    (spanned : spanBefore start items = (passed, behind)) :
    Tree.sources behind <:+: Tree.sources items := by
  have whole := spanBefore_append start items
  rw [spanned] at whole
  rw [← whole, Tree.sources_append]
  exact (List.suffix_append _ _).isInfix

/-- A plain rule has a result if a token can be made of every part that is taken out of the text. -/
theorem splitEach_total (finds : ∀ text, ∃ bounds?, find text = .ok bounds?) {items : List Tree}
    (makes : ∀ part, Taken find (Tree.sources items) part → ∃ token, make part = .ok token) :
    ∃ result, splitEach find make items = .ok result := by
  induction items with
  | nil => exact ⟨[], rfl⟩
  | cons item items inductionHypothesis =>
    obtain ⟨later, split⟩ := inductionHypothesis fun part taken =>
      makes part (taken.of_piece (sources_piece item items))
    rw [splitEach]
    by_cases token : item.isToken = true
    · rw [if_pos token]
      exact Outcome.bind_total ⟨[item], rfl, Outcome.bind_total ⟨later, split, _, rfl⟩⟩
    · rw [if_neg token]
      have ofItem (part : Text) (taken : Taken find item.source part) :
          ∃ token, make part = .ok token :=
        makes part (taken.of_piece (source_piece item items))
      obtain ⟨front, frontSplit⟩ := splitText_total finds ofItem
      exact Outcome.bind_total ⟨front, frontSplit, Outcome.bind_total ⟨later, split, _, rfl⟩⟩

/-- A greedy rule has a result if a token can be made of every part that is taken out of a text. -/
theorem splitGreedy_total (finds : ∀ text, ∃ bounds?, find text = .ok bounds?) {items : List Tree}
    (makes : ∀ part, Taken find (Tree.sources items) part → ∃ token, make part = .ok token) :
    ∃ result, splitGreedy find make items = .ok result := by
  induction items using splitGreedy.induct with
  | case1 =>
    rw [splitGreedy]
    exact ⟨[], rfl⟩
  | case2 item items token inductionHypothesis =>
    obtain ⟨later, split⟩ := inductionHypothesis fun part taken =>
      makes part (taken.of_piece (sources_piece item items))
    rw [splitGreedy, if_pos token]
    exact Outcome.bind_total ⟨later, split, _, rfl⟩
  | case3 item items raw cutHypothesis laterHypothesis passHypothesis =>
    rw [splitGreedy, if_neg raw]
    obtain ⟨bounds?, found⟩ := finds (Tree.sources (item :: items))
    refine Outcome.bind_total ⟨bounds?, found, ?_⟩
    cases bounds? with
    | none => exact ⟨_, rfl⟩
    | some bounds =>
      obtain ⟨start, stop⟩ := bounds
      simp only
      by_cases ordered : start < stop
      · rw [if_pos ordered]
        split
        · rename_i behind spanned
          obtain ⟨token, made⟩ := makes _ ⟨_, start, stop, List.infix_refl _, found, ordered, rfl⟩
          obtain ⟨later, split⟩ := cutHypothesis start stop ordered fun part taken =>
            makes part (taken.of_piece (dropSource_piece stop (item :: items)))
          exact Outcome.bind_total ⟨token, made, Outcome.bind_total ⟨later, split, _, rfl⟩⟩
        · rename_i passed more behind spanned
          obtain ⟨later, split⟩ := laterHypothesis start passed more behind spanned
            fun part taken => makes part (taken.of_piece (spanBefore_piece spanned))
          exact Outcome.bind_total ⟨later, split, _, rfl⟩
      · rw [if_neg ordered]
        obtain ⟨later, split⟩ := passHypothesis fun part taken =>
          makes part (taken.of_piece (sources_piece item items))
        exact Outcome.bind_total ⟨later, split, _, rfl⟩

/-- A rule has a result if a token can be made of every part that is taken out of the text. -/
theorem applyRule_total {rule : Rule} (finds : ∀ text, ∃ bounds?, findWith rule text = .ok bounds?)
    {items : List Tree}
    (makes : ∀ part, Taken (findWith rule) (Tree.sources items) part →
      ∃ token, make part = .ok token) :
    ∃ result, applyRule rule make items = .ok result := by
  unfold applyRule
  split
  · exact splitGreedy_total finds makes
  · exact splitEach_total finds makes

/-! ## Levels -/

/-- The set behind a link, if there is one, is related to a text. -/
def Leads (root : RuleSet) (related : RuleSet → Text → Prop) (part : Text) : Link RuleSet → Prop
  | .none => True
  | .root => related root part
  | .to set => related set part

/-- A token can be made of a part if its kind is known and its content can be split. -/
theorem makeWith_total {splitInside : RuleSet → Text → Except SplitError (List Tree)}
    {root : RuleSet} {name : String} {rule : Rule} {part : Text}
    (named : (rule.kindFor? name).isSome = true)
    (inside : Leads root (fun set text => ∃ items, splitInside set text = .ok items) part
      rule.inside) :
    ∃ token, makeWith splitInside root name rule part = .ok token := by
  obtain ⟨kind, named⟩ := Option.isSome_iff_exists.mp named
  unfold makeWith
  rw [named]
  cases linked : rule.inside with
  | none => exact ⟨_, rfl⟩
  | root =>
    rw [linked] at inside
    obtain ⟨items, split⟩ := inside
    exact Outcome.bind_total ⟨.list items, Outcome.map_eq_ok.mpr ⟨items, split, rfl⟩, _, rfl⟩
  | «to» set =>
    rw [linked] at inside
    obtain ⟨items, split⟩ := inside
    exact Outcome.bind_total ⟨.list items, Outcome.map_eq_ok.mpr ⟨items, split, rfl⟩, _, rfl⟩

/-- The finder of a rule that can be used always answers. -/
theorem findWith_total {name : String} {rule : Rule} (usable : rule.usable name = true)
    (text : Text) : ∃ bounds?, findWith rule text = .ok bounds? := by
  obtain ⟨bounds?, found⟩ := rule.find_total usable text
  exact ⟨bounds?, by rw [findWith, found]⟩

/-- A pattern that answers has no search of its own. -/
theorem keeps_of_usable {name : String} {rule : Rule} (usable : rule.usable name = true) :
    rule.pattern.KeepsToText := by
  simp only [Rule.usable, Bool.and_eq_true] at usable
  cases shape : rule.pattern with
  | custom search =>
    rw [shape] at usable
    cases usable.1.1
  | regex | braces | spread | tag | lead => trivial

/-- If all rules of a grammar can be used, all its patterns keep to the text. -/
theorem only_keeps {set : RuleSet} (usable : set.Only fun name rule => rule.usable name = true) :
    set.Only fun _ rule => rule.pattern.KeepsToText :=
  fun name rule held => keeps_of_usable (usable name rule held)

/-- A rule set is used on texts on levels: the sets that split the parts of a text are used on lower
levels than the set that the text is split with. -/
def Descends (root : RuleSet) (uses : Nat → RuleSet → Text → Prop) : Prop :=
  ∀ level set text name rule part, uses level set text →
    (name, rule) ∈ RuleSet.chainRules root set → Taken (findWith rule) text part →
    Leads root (fun inner part => ∃ lower, lower < level ∧ uses lower inner part) part rule.inside

/-- Splitting with a rule set that is used on a level has a result, if all rules can be used and
there is more fuel than levels. -/
theorem splitWith_total {root : RuleSet} {uses : Nat → RuleSet → Text → Prop}
    (descends : Descends root uses)
    (ofRoot : root.Only fun name rule => rule.usable name = true) {set : RuleSet}
    (ofSet : set.Only fun name rule => rule.usable name = true) {level fuel : Nat} {text : Text}
    (used : uses level set text) (enough : level < fuel) :
    ∃ items, splitWith root fuel set text = .ok items := by
  induction fuel generalizing level set text with
  | zero => omega
  | succ fuel inductionHypothesis =>
    rw [splitWith]
    refine Outcome.foldlM_total (Covers text) ?_ (covers_raw text)
    rintro before ⟨name, rule⟩ tried covers
    obtain ⟨usable, inside⟩ := RuleSet.only_of_chainRules tried ofRoot ofSet
    have goesOn {inner : RuleSet} {part : Text}
        (ofInner : inner.Only fun name rule => rule.usable name = true)
        (lower : ∃ lower, lower < level ∧ uses lower inner part) :
        ∃ items, splitWith root fuel inner part = .ok items := by
      obtain ⟨lower, less, used⟩ := lower
      exact inductionHypothesis ofInner used (by omega)
    have makes (part : Text) (taken : Taken (findWith rule) (Tree.sources before) part) :
        ∃ token, makeWith (splitWith root fuel) root name rule part = .ok token := by
      rw [covers.sources] at taken
      have below := descends level set text name rule part used tried taken
      refine makeWith_total (Bool.and_eq_true_iff.mp usable).2 ?_
      cases linked : rule.inside with
      | none => trivial
      | root =>
        rw [linked] at below
        exact goesOn ofRoot below
      | «to» inner =>
        rw [linked] at below
        exact goesOn (inside inner linked) below
    obtain ⟨after, applied⟩ := applyRule_total (findWith_total usable) makes
    exact ⟨after, applied, tried_covers (only_keeps ofRoot) (only_keeps ofSet) tried applied covers⟩

end TemplHighlight.Split
