import TemplHighlight.Proofs.Split.Total

/-!
# Calls

To split a text with a rule set, the parts that its rules take out of the text are split with other
sets. `Calls` says which set may be asked for which part. Splitting depends on nothing else: where
two ways of splitting agree on the calls, the results agree. So if the sets that are called are used
on lower and lower levels, more fuel than there are levels makes no difference, and no chain of calls
is longer than that.
-/

namespace TemplHighlight.Split

/-- To split a text with a rule set, a part that one of its rules takes out of the text may have to
be split with the root, or with the set inside the rule. -/
inductive Calls (root set : RuleSet) (text : Text) : RuleSet → Text → Prop where
  | root {name : String} {rule : Rule} {part : Text}
      (tried : (name, rule) ∈ RuleSet.chainRules root set)
      (taken : Taken (findWith rule) text part) (linked : rule.inside = .root) :
      Calls root set text root part
  | inside {name : String} {rule : Rule} {inner : RuleSet} {part : Text}
      (tried : (name, rule) ∈ RuleSet.chainRules root set)
      (taken : Taken (findWith rule) text part) (linked : rule.inside = .to inner) :
      Calls root set text inner part

/-- A chain of calls leads from splitting a text with a rule set to splitting a part of it. -/
inductive Nested (root set : RuleSet) (text : Text) : (depth : Nat) → RuleSet → Text → Prop where
  | start : Nested root set text 0 set text
  | call {depth : Nat} {middle inner : RuleSet} {between part : Text}
      (nested : Nested root set text depth middle between)
      (calls : Calls root middle between inner part) :
      Nested root set text (depth + 1) inner part

/-! ## Other makers -/

section

variable {find : Finder} {make other : Maker}

/-- A raw text is split in the same way if the same tokens are made of what is taken out of it. -/
theorem splitText_replay {text : Text} {result : List Tree}
    (remakes : ∀ part token, Taken find text part → make part = .ok token →
      other part = .ok token)
    (split : splitText find make text = .ok result) : splitText find other text = .ok result := by
  induction text using splitText.induct generalizing result with
  | case1 text empty =>
    rw [splitText, if_pos empty] at split ⊢
    exact split
  | case2 text filled inductionHypothesis =>
    rw [splitText, if_neg filled, Outcome.bind_eq_ok] at split ⊢
    obtain ⟨match?, found, split⟩ := split
    refine ⟨match?, found, ?_⟩
    cases match? with
    | none => exact split
    | some bounds =>
      obtain ⟨start, stop⟩ := bounds
      simp only at split ⊢
      by_cases ordered : start < stop
      · simp only [if_pos ordered, Outcome.bind_eq_ok] at split ⊢
        obtain ⟨token, made, later, laterSplit, same⟩ := split
        have remade := remakes _ token ⟨text, start, stop, List.infix_refl text, found, ordered, rfl⟩
          made
        refine ⟨token, remade, later, inductionHypothesis start stop ordered ?_ laterSplit, same⟩
        intro part token taken
        exact remakes part token (taken.of_piece (List.drop_suffix stop text).isInfix)
      · rw [if_neg ordered] at split ⊢
        exact split

/-- So is a list of items by a plain rule. -/
theorem splitEach_replay {items result : List Tree}
    (remakes : ∀ part token, Taken find (Tree.sources items) part → make part = .ok token →
      other part = .ok token)
    (split : splitEach find make items = .ok result) : splitEach find other items = .ok result := by
  induction items generalizing result with
  | nil => exact split
  | cons item items inductionHypothesis =>
    have behind : ∀ later, splitEach find make items = .ok later →
        splitEach find other items = .ok later := by
      intro later
      apply inductionHypothesis
      intro part token taken
      exact remakes part token (taken.of_piece (sources_piece item items))
    by_cases token : item.isToken = true
    · simp only [splitEach, if_pos token, Outcome.bind_eq_ok] at split ⊢
      obtain ⟨front, same, later, laterSplit, joined⟩ := split
      exact ⟨front, same, later, behind later laterSplit, joined⟩
    · simp only [splitEach, if_neg token, Outcome.bind_eq_ok] at split ⊢
      obtain ⟨front, frontSplit, later, laterSplit, joined⟩ := split
      refine ⟨front, splitText_replay ?_ frontSplit, later, behind later laterSplit, joined⟩
      intro part token taken
      exact remakes part token (taken.of_piece (source_piece item items))

/-- So is it by a greedy rule. -/
theorem splitGreedy_replay {items result : List Tree}
    (remakes : ∀ part token, Taken find (Tree.sources items) part → make part = .ok token →
      other part = .ok token)
    (split : splitGreedy find make items = .ok result) :
    splitGreedy find other items = .ok result := by
  induction items using splitGreedy.induct generalizing result with
  | case1 =>
    rw [splitGreedy] at split ⊢
    exact split
  | case2 item items token inductionHypothesis =>
    rw [splitGreedy, if_pos token, Outcome.bind_eq_ok] at split ⊢
    obtain ⟨later, laterSplit, same⟩ := split
    refine ⟨later, inductionHypothesis ?_ laterSplit, same⟩
    exact fun part token taken => remakes part token (taken.of_piece (sources_piece item items))
  | case3 item items raw cutHypothesis laterHypothesis passHypothesis =>
    rw [splitGreedy, if_neg raw, Outcome.bind_eq_ok] at split ⊢
    obtain ⟨match?, found, split⟩ := split
    refine ⟨match?, found, ?_⟩
    cases match? with
    | none => exact split
    | some bounds =>
      obtain ⟨start, stop⟩ := bounds
      simp only at split ⊢
      by_cases ordered : start < stop
      · rw [if_pos ordered] at split ⊢
        split at split
        · rename_i behind spanned
          simp only [Outcome.bind_eq_ok] at split ⊢
          obtain ⟨token, made, later, laterSplit, same⟩ := split
          have remade := remakes _ token ⟨_, start, stop, List.infix_refl _, found, ordered, rfl⟩ made
          refine ⟨token, remade, later, cutHypothesis start stop ordered ?_ laterSplit, same⟩
          exact fun part token taken =>
            remakes part token (taken.of_piece (dropSource_piece stop (item :: items)))
        · rename_i passed more behind spanned
          simp only [Outcome.bind_eq_ok] at split ⊢
          obtain ⟨later, laterSplit, same⟩ := split
          refine ⟨later, laterHypothesis start passed more behind spanned ?_ laterSplit, same⟩
          exact fun part token taken =>
            remakes part token (taken.of_piece (spanBefore_piece spanned))
      · simp only [if_neg ordered, Outcome.bind_eq_ok] at split ⊢
        obtain ⟨later, laterSplit, same⟩ := split
        refine ⟨later, passHypothesis ?_ laterSplit, same⟩
        exact fun part token taken => remakes part token (taken.of_piece (sources_piece item items))

/-- So is it by any rule. -/
theorem applyRule_replay {rule : Rule} {items result : List Tree}
    (remakes : ∀ part token, Taken (findWith rule) (Tree.sources items) part →
      make part = .ok token → other part = .ok token)
    (applied : applyRule rule make items = .ok result) : applyRule rule other items = .ok result := by
  unfold applyRule at applied ⊢
  split
  · rename_i greedy
    rw [if_pos greedy] at applied
    exact splitGreedy_replay remakes applied
  · rename_i plain
    rw [if_neg plain] at applied
    exact splitEach_replay remakes applied

end

/-! ## Other ways to split what is inside -/

variable {root set : RuleSet} {splitInside other : RuleSet → Text → Except SplitError (List Tree)}

/-- The same token is made of a part if its content is split in the same way. -/
theorem makeWith_replay {name : String} {rule : Rule} {part : Text} {token : Tree}
    (agree : Leads root (fun inner part => ∀ items, splitInside inner part = .ok items →
      other inner part = .ok items) part rule.inside)
    (made : makeWith splitInside root name rule part = .ok token) :
    makeWith other root name rule part = .ok token := by
  cases steps_of_makeWith made with
  | leaf linked named =>
    unfold makeWith
    rw [linked, named]
    rfl
  | root linked split named =>
    rw [linked] at agree
    unfold makeWith
    rw [linked, named]
    simp only [agree _ split]
    rfl
  | inside linked split named =>
    rw [linked] at agree
    unfold makeWith
    rw [linked, named]
    simp only [agree _ split]
    rfl

/-- A text is split in the same way with a rule set if every part that another set is called for is
split in the same way. -/
theorem calls_replay (ofRoot : root.Only fun _ rule => rule.pattern.KeepsToText)
    (ofSet : set.Only fun _ rule => rule.pattern.KeepsToText) {fuel fuel' : Nat} {text : Text}
    {items : List Tree}
    (agree : ∀ inner part, Calls root set text inner part → ∀ items,
      splitWith root fuel inner part = .ok items → splitWith root fuel' inner part = .ok items)
    (split : splitWith root (fuel + 1) set text = .ok items) :
    splitWith root (fuel' + 1) set text = .ok items := by
  rw [splitWith] at split ⊢
  refine Outcome.foldlM_replay (Covers text) ?_ split (covers_raw text)
  rintro before after ⟨name, rule⟩ tried covers applied
  refine ⟨applyRule_replay ?_ applied, tried_covers ofRoot ofSet tried applied covers⟩
  intro part token taken made
  rw [covers.sources] at taken
  refine makeWith_replay ?_ made
  cases linked : rule.inside with
  | none => trivial
  | root => exact agree root part (.root tried taken linked)
  | «to» inner => exact agree inner part (.inside tried taken linked)

/-! ## Levels of calls -/

variable {uses : Nat → RuleSet → Text → Prop} {level : Nat} {text part : Text} {inner : RuleSet}

/-- What is called is used on a lower level. -/
theorem Calls.lower (descends : Descends root uses) (used : uses level set text)
    (calls : Calls root set text inner part) : ∃ lower, lower < level ∧ uses lower inner part := by
  cases calls with
  | root tried taken linked =>
    have below := descends level set text _ _ part used tried taken
    rw [linked] at below
    exact below
  | inside tried taken linked =>
    have below := descends level set text _ _ part used tried taken
    rw [linked] at below
    exact below

/-- A chain of calls sinks by a level with each call. -/
theorem Nested.lower (descends : Descends root uses) (used : uses level set text) {depth : Nat}
    (nested : Nested root set text depth inner part) :
    ∃ lower, lower + depth ≤ level ∧ uses lower inner part := by
  induction nested with
  | start => exact ⟨level, Nat.le_refl level, used⟩
  | call nested calls inductionHypothesis =>
    obtain ⟨middle, bounded, usedThere⟩ := inductionHypothesis
    obtain ⟨lower, less, usedHere⟩ := calls.lower descends usedThere
    exact ⟨lower, by omega, usedHere⟩

/-- The sets that are called stand in the root or in the set that calls them. -/
theorem Calls.only {property : String → Rule → Prop} (ofRoot : root.Only property)
    (ofSet : set.Only property) (calls : Calls root set text inner part) :
    inner.Only property := by
  cases calls with
  | root tried taken linked => exact ofRoot
  | inside tried taken linked =>
    exact (RuleSet.only_of_chainRules tried ofRoot ofSet).2 inner linked

/-- So do the sets at the end of a chain of calls. -/
theorem Nested.only {property : String → Rule → Prop} (ofRoot : root.Only property)
    (ofSet : set.Only property) {depth : Nat} (nested : Nested root set text depth inner part) :
    inner.Only property := by
  induction nested with
  | start => exact ofSet
  | call nested calls inductionHypothesis => exact calls.only ofRoot inductionHypothesis

/-- With more fuel than levels, a set splits a text in the same way whatever the fuel is. -/
theorem splitWith_enough (descends : Descends root uses)
    (ofRoot : root.Only fun _ rule => rule.pattern.KeepsToText)
    (ofSet : set.Only fun _ rule => rule.pattern.KeepsToText) (used : uses level set text)
    {fuel fuel' : Nat} (enough : level < fuel) (enough' : level < fuel') {items : List Tree}
    (split : splitWith root fuel set text = .ok items) :
    splitWith root fuel' set text = .ok items := by
  induction fuel generalizing fuel' level set text items with
  | zero => cases split
  | succ fuel inductionHypothesis =>
    obtain ⟨lower', rfl⟩ : ∃ lower', fuel' = lower' + 1 := ⟨fuel' - 1, by omega⟩
    refine calls_replay ofRoot ofSet ?_ split
    intro inner part calls parts inside
    obtain ⟨lower, less, usedThere⟩ := calls.lower descends used
    exact inductionHypothesis (calls.only ofRoot ofSet) usedThere (by omega) (by omega) inside

end TemplHighlight.Split
