import TemplHighlight.Proofs.Grammar.Arranged
import TemplHighlight.Proofs.Pattern.Answers

/-!
# Grammars that can be composed again

What is composed may take the place of one of the grammars that it was composed of, and is then
composed once more. All grammars that come about in this way are of one kind: only their tag rule
leads further than to a set from which no other is reached, and it leads to a set whose rules are of
the same kind, but for those that go back to the whole grammar. Composing two grammars of this kind
gives a third, and fails for want of a rule only.
-/

namespace TemplHighlight

namespace RuleSet

variable {set : RuleSet} {name : String} {rule : Rule} {more : List (String × List Rule)}

/-- The rules of a set stand in its entries. -/
theorem entry_of_mem_rules (listed : rule ∈ set.rules name) :
    ∃ rules, (name, rules) ∈ set.entries ∧ rule ∈ rules := by
  rw [rules] at listed
  cases found : Pairs.get? name set.entries with
  | none =>
    rw [found] at listed
    cases listed
  | some rules =>
    rw [found] at listed
    exact ⟨rules, Pairs.mem_of_get? found, listed⟩

/-- If its names are distinct, the rules in its entries are its rules. -/
theorem mem_rules_of_entry (distinct : set.names.Nodup) {rules : List Rule}
    (entered : (name, rules) ∈ set.entries) (listed : rule ∈ rules) : rule ∈ set.rules name := by
  rw [RuleSet.rules, Pairs.get?_of_mem distinct entered]
  exact listed

/-- A rule of an extended set is one of the old rules or of the new ones. -/
theorem mem_rules_extend (distinct : set.names.Nodup) (listed : rule ∈ (set.extend more).rules name) :
    rule ∈ set.rules name ∨ ∃ rules, (name, rules) ∈ more ∧ rule ∈ rules := by
  obtain ⟨rules, entered, inRules⟩ := entry_of_mem_rules listed
  rcases Pairs.mem_putAll entered with old | new
  · exact .inl (mem_rules_of_entry distinct old inRules)
  · exact .inr ⟨rules, Pairs.ofList_subset more new, inRules⟩

/-- The same of rules that are put ahead of a name. -/
theorem mem_rules_insertBefore {before : String} (distinct : set.names.Nodup)
    (listed : rule ∈ (set.insertBefore before more).rules name) :
    rule ∈ set.rules name ∨ ∃ rules, (name, rules) ∈ more ∧ rule ∈ rules := by
  rw [rules, get?_insertBefore set before more distinct] at listed
  cases found : Pairs.get? name more.reverse with
  | none =>
    rw [found, Option.none_or] at listed
    exact .inl listed
  | some rules =>
    rw [found, Option.some_or] at listed
    exact .inr ⟨rules, List.mem_reverse.mp (Pairs.mem_of_get? found), listed⟩

/-- Extending leaves names distinct. -/
theorem nodup_names_extend (distinct : set.names.Nodup) (more : List (String × List Rule)) :
    (set.extend more).names.Nodup :=
  Pairs.nodup_names_putAll distinct _

/-- So does putting rules ahead of a name. -/
theorem nodup_names_insertBefore (distinct : set.names.Nodup) (before : String)
    (more : List (String × List Rule)) : (set.insertBefore before more).names.Nodup := by
  obtain ⟨front, back, split, -, -, entries⟩ := entries_insertBefore set before more distinct
  rw [names, split] at distinct
  rw [names, entries]
  exact nodup_spliced distinct (Pairs.nodup_names_ofList more)

end RuleSet

namespace Grammar

open RuleSet

variable {name : String} {rule : Rule} {set inside markup script grammar : RuleSet} {depth : Nat}

/-! ## Rules of one kind -/

/-- Whether a link leads nowhere. -/
def endsHere : Link RuleSet → Bool
  | .none => true
  | .root | .to _ => false

/-- Whether a set leads to no other, and all its rules can be used. -/
def isPlain (set : RuleSet) : Bool :=
  endsHere set.rest && set.entries.all fun entry =>
    entry.2.all fun rule => Rule.usable entry.1 rule && endsHere rule.inside

/-- Whether a link leads to a plain set or nowhere. -/
def leadsToPlain : Link RuleSet → Bool
  | .none => true
  | .root => false
  | .to set => isPlain set

/-- Whether a rule can be used under a name, and its tokens are split with a plain set, if at all. -/
def isShallow (name : String) (rule : Rule) : Bool :=
  rule.usable name && leadsToPlain rule.inside

/-- A rule set for what a tag holds: it has one rule for the name of the tag and one for values. Only
rules of its own for brace groups and spreads go back to the whole grammar. -/
structure InsideTag (set : RuleSet) : Prop where
  rest : set.rest = .none
  distinct : set.names.Nodup
  named : ∃ rule, set.rules "tag-name" = [rule] ∧ rule.lookbehind = false ∧
    isShallow "tag-name" rule = true
  valued : ∃ rule, set.rules "attr-value" = [rule] ∧ rule.lookbehind = false ∧
    isShallow "attr-value" rule = true
  rules : ∀ name, ∀ rule ∈ set.rules name,
    isShallow name rule = true ∨ ∃ depth, (name, [rule]) ∈ templTagRules depth

/-- A grammar that can be composed with others: only its tag rule, if it has one, is not shallow,
and its keywords can be added to. -/
structure Layered (grammar : RuleSet) : Prop where
  rest : grammar.rest = .none
  distinct : grammar.names.Nodup
  shallow : ∀ name, name ≠ "tag" → ∀ rule ∈ grammar.rules name, isShallow name rule = true
  keywords : ∀ rule ∈ grammar.rules "keyword", rule.lookbehind = false ∧
    ∃ shape anyCase written, rule.pattern = .regex shape anyCase written
  tag : grammar.has "tag" = true → ∃ tag inside, grammar.rules "tag" = [tag] ∧
    tag.lookbehind = false ∧ tag.inside = .to inside ∧ InsideTag inside

/-- A grammar that was composed: its one tag rule finds templ tags. -/
structure Composed (grammar : RuleSet) : Prop extends Layered grammar where
  templ : ∃ tag inside depth, grammar.rules "tag" = [tag] ∧ tag.pattern = .tag depth ∧
    tag.lookbehind = false ∧ tag.inside = .to inside ∧ InsideTag inside

/-- A rule without a lookbehind can be used with every pattern that can be searched for. -/
theorem usable_with_pattern {pattern : Pattern} {inside : Link RuleSet}
    (usable : rule.usable name = true) (whole : rule.lookbehind = false)
    (searches : pattern.searches = true) :
    Rule.usable name { rule with pattern, inside } = true := by
  simp only [Rule.usable, Bool.and_eq_true] at usable ⊢
  refine ⟨⟨searches, ?_⟩, usable.2⟩
  rw [whole]
  rfl

/-- A plain set stays plain when rules are added that can be used and lead nowhere. -/
theorem isPlain_extend {rules : List Rule} (plain : isPlain set = true)
    (new : (rules.all fun rule => Rule.usable name rule && endsHere rule.inside) = true) :
    isPlain (set.extend [(name, rules)]) = true := by
  obtain ⟨ends, all⟩ := Bool.and_eq_true_iff.mp plain
  refine Bool.and_eq_true_iff.mpr ⟨ends, List.all_eq_true.mpr fun entry entered => ?_⟩
  rcases Pairs.mem_putAll entered with old | added
  · exact List.all_eq_true.mp all entry old
  · obtain rfl := List.mem_singleton.mp (Pairs.ofList_subset _ added)
    exact new

/-! ## Inside a tag -/

/-- The rule for the name of a tag stays shallow when the names of components are split off. -/
theorem templTagName_shallow (shallow : isShallow "tag-name" rule = true)
    (whole : rule.lookbehind = false) :
    ∃ changed, templTagName rule = .ok changed ∧ changed.lookbehind = false ∧
      isShallow "tag-name" changed = true := by
  obtain ⟨usable, leads⟩ := Bool.and_eq_true_iff.mp shallow
  have changes {set : RuleSet} (plain : isPlain set = true) :
      isShallow "tag-name" { rule with
        pattern := templTagNamePattern
        inside := .to (set.extend [("class-name", [{ pattern := componentNamePattern }])]) } =
          true := by
    refine Bool.and_eq_true_iff.mpr ⟨usable_with_pattern usable whole rfl, ?_⟩
    exact isPlain_extend plain (by decide)
  unfold templTagName
  cases linked : rule.inside with
  | none => exact ⟨_, rfl, whole, changes rfl⟩
  | root =>
    rw [linked] at leads
    cases leads
  | «to» set =>
    rw [linked] at leads
    refine ⟨_, rfl, whole, ?_⟩
    split
    · exact changes rfl
    · exact changes leads

/-- A rule for brace groups or spreads stands alone under its name. -/
theorem templTagRules_single {rules : List Rule} (entered : (name, rules) ∈ templTagRules depth)
    (listed : rule ∈ rules) : (name, [rule]) ∈ templTagRules depth := by
  simp only [templTagRules, List.mem_cons, List.not_mem_nil, or_false] at entered ⊢
  rcases entered with same | same
  · cases same
    exact .inl (congrArg _ (List.mem_singleton.mp listed ▸ rfl))
  · cases same
    exact .inr (congrArg _ (List.mem_singleton.mp listed ▸ rfl))

/-- One rule may be put in place of another of its kind. -/
theorem InsideTag.replace (ofSet : InsideTag set) {changed : Rule}
    (whole : changed.lookbehind = false) (shallow : isShallow name changed = true) :
    InsideTag (set.extend [(name, [changed])]) where
  rest := ofSet.rest
  distinct := nodup_names_extend ofSet.distinct _
  named := by
    by_cases same : name = "tag-name"
    · subst same
      exact ⟨changed, rules_extend_self .., whole, shallow⟩
    · rw [rules_extend_other (Ne.symm same)]
      exact ofSet.named
  valued := by
    by_cases same : name = "attr-value"
    · subst same
      exact ⟨changed, rules_extend_self .., whole, shallow⟩
    · rw [rules_extend_other (Ne.symm same)]
      exact ofSet.valued
  rules := by
    intro other rule listed
    rcases mem_rules_extend ofSet.distinct listed with old | ⟨rules, new, inRules⟩
    · exact ofSet.rules other rule old
    · cases List.mem_singleton.mp new
      exact .inl (List.mem_singleton.mp inRules ▸ shallow)

/-- Comments may be added. -/
theorem InsideTag.withComments (ofSet : InsideTag set) {comments : List Rule}
    (shallow : ∀ rule ∈ comments, isShallow "comment" rule = true) :
    InsideTag (set.withComments comments) := by
  unfold RuleSet.withComments
  split
  · exact ofSet
  constructor
  case rest => exact ofSet.rest
  case distinct => exact nodup_names_extend ofSet.distinct _
  case named =>
    rw [rules_extend_other (by decide)]
    exact ofSet.named
  case valued =>
    rw [rules_extend_other (by decide)]
    exact ofSet.valued
  case rules =>
    intro other rule listed
    rcases mem_rules_extend ofSet.distinct listed with old | ⟨rules, new, inRules⟩
    · exact ofSet.rules other rule old
    · cases List.mem_singleton.mp new
      exact .inl (shallow rule inRules)

/-- And the rules for brace groups and spreads. -/
theorem InsideTag.insertBefore (ofSet : InsideTag set) (before : String) (depth : Nat) :
    InsideTag (set.insertBefore before (templTagRules depth)) := by
  have kept {name : String} (other : name ∉ Pairs.names (templTagRules depth)) :
      (set.insertBefore before (templTagRules depth)).rules name = set.rules name := by
    rw [RuleSet.rules, get?_insertBefore _ _ _ ofSet.distinct,
      Pairs.get?_reverse_eq_none.mpr other, Option.none_or, ← RuleSet.rules]
  have newNames : Pairs.names (templTagRules depth) = ["script", "spread"] := rfl
  constructor
  case rest => exact ofSet.rest
  case distinct => exact nodup_names_insertBefore ofSet.distinct ..
  case named =>
    rw [kept (by rw [newNames]; decide)]
    exact ofSet.named
  case valued =>
    rw [kept (by rw [newNames]; decide)]
    exact ofSet.valued
  case rules =>
    intro name rule listed
    rcases mem_rules_insertBefore ofSet.distinct listed with old | ⟨rules, new, inRules⟩
    · exact ofSet.rules name rule old
    · exact .inr ⟨depth, templTagRules_single new inRules⟩

/-- What a templ tag holds is made of what a tag holds, and is of the same kind. -/
theorem templInside_total (ofInside : InsideTag inside) {comments : List Rule}
    (shallow : ∀ rule ∈ comments, isShallow "comment" rule = true) (depth : Nat) :
    ∃ inner, templInside depth comments inside = .ok inner ∧ InsideTag inner := by
  obtain ⟨tagName, named, nameWhole, nameShallow⟩ := ofInside.named
  obtain ⟨attrValue, valued, valueWhole, valueShallow⟩ := ofInside.valued
  obtain ⟨changed, changes, changedWhole, changedShallow⟩ :=
    templTagName_shallow nameShallow nameWhole
  obtain ⟨valueUsable, valueLeads⟩ := Bool.and_eq_true_iff.mp valueShallow
  let changedValue : Rule := { attrValue with pattern := templAttrValuePattern }
  have valueChanged : isShallow "attr-value" changedValue = true :=
    Bool.and_eq_true_iff.mpr ⟨usable_with_pattern valueUsable valueWhole rfl, valueLeads⟩
  have renamed := ofInside.replace changedWhole changedShallow
  have changedWhole : changedValue.lookbehind = false := valueWhole
  have revalued := renamed.replace changedWhole valueChanged
  refine ⟨_, ?_, (revalued.withComments shallow).insertBefore "special-attr" depth⟩
  rw [templInside, insideRule_of_rules named, insideRule_of_rules valued]
  show (templTagName tagName >>= _) = _
  rw [changes]
  rfl

/-! ## Further keywords -/

/-- A step that has a result of one kind for every item has results of this kind for all. -/
theorem mapM_total {α β ε : Type} {step : α → Except ε β} {holds : β → Prop} {items : List α}
    (each : ∀ item ∈ items, ∃ result, step item = .ok result ∧ holds result) :
    ∃ results, items.mapM step = .ok results ∧ ∀ result ∈ results, holds result := by
  induction items with
  | nil => exact ⟨[], rfl, nofun⟩
  | cons item items inductionHypothesis =>
    obtain ⟨first, others⟩ := List.forall_mem_cons.mp each
    obtain ⟨result, done, has⟩ := first
    obtain ⟨results, all, haveAll⟩ := inductionHypothesis others
    refine ⟨result :: results, ?_, List.forall_mem_cons.mpr ⟨has, haveAll⟩⟩
    rw [List.mapM_cons, done]
    show (items.mapM step >>= _) = _
    rw [all]
    rfl

/-- A script grammar takes further keywords if it has a rule for keywords, and stays of its kind. -/
theorem extendKeywords_total (ofScript : Layered script) (keyworded : script.has "keyword" = true)
    (keywords : List Text) (grammar : String) :
    ∃ extended, extendKeywords (.to script) keywords grammar = .ok extended ∧
      Layered extended := by
  have has : ¬ (!script.has "keyword") = true := by
    rw [keyworded]
    decide
  unfold extendKeywords
  dsimp only
  rw [if_neg has]
  by_cases none : keywords.isEmpty = true
  · rw [if_pos none]
    exact ⟨script, rfl, ofScript⟩
  rw [if_neg none]
  have widens : ∀ rule ∈ script.rules "keyword", ∃ widened,
      widenKeyword grammar keywords rule = .ok widened ∧ isShallow "keyword" widened = true ∧
        widened.lookbehind = false ∧
        ∃ shape anyCase written, widened.pattern = .regex shape anyCase written := by
    intro rule listed
    obtain ⟨whole, shape, anyCase, written, isRegex⟩ := ofScript.keywords rule listed
    obtain ⟨usable, leads⟩ :=
      Bool.and_eq_true_iff.mp (ofScript.shallow "keyword" (by decide) rule listed)
    unfold widenKeyword
    rw [isRegex]
    refine ⟨_, rfl, ?_, whole, _, _, _, rfl⟩
    exact Bool.and_eq_true_iff.mpr ⟨usable_with_pattern usable whole rfl, leads⟩
  obtain ⟨widened, done, all⟩ := mapM_total widens
  refine ⟨script.extend [("keyword", widened)], ?_, ?_⟩
  · show (List.mapM _ _ >>= _) = _
    rw [done]
    rfl
  constructor
  case rest => exact ofScript.rest
  case distinct => exact nodup_names_extend ofScript.distinct _
  case shallow =>
    intro name notTag rule listed
    rcases mem_rules_extend ofScript.distinct listed with old | ⟨rules, new, inRules⟩
    · exact ofScript.shallow name notTag rule old
    · cases List.mem_singleton.mp new
      exact (all rule inRules).1
  case keywords =>
    intro rule listed
    rw [rules_extend_self] at listed
    exact (all rule listed).2
  case tag =>
    intro tagged
    have other : "tag" ≠ "keyword" := by decide
    rw [rules_extend_other other]
    refine ofScript.tag ?_
    rw [RuleSet.has_iff, names_extend_there (RuleSet.has_iff.mp keyworded)] at tagged
    exact RuleSet.has_iff.mpr tagged

/-! ## Composing -/

/-- The rules of two grammars together, with their comments, are shallow but for those under
`tag`. -/
theorem joined_shallow (ofMarkup : Layered markup) (ofScript : Layered script) {name : String}
    (notTag : name ≠ "tag") : ∀ rule ∈ (joined markup script).rules name,
      isShallow name rule = true := by
  have both : ∀ rule ∈ (markup.extend script.entries).rules name, isShallow name rule = true := by
    intro rule listed
    rcases mem_rules_extend ofMarkup.distinct listed with old | ⟨rules, new, inRules⟩
    · exact ofMarkup.shallow name notTag rule old
    · exact ofScript.shallow name notTag rule (mem_rules_of_entry ofScript.distinct new inRules)
  intro rule listed
  rw [joined_eq] at listed
  by_cases isComment : name = "comment"
  · subst isComment
    unfold RuleSet.withComments at listed
    split at listed
    · exact both rule listed
    · rw [rules_extend_self] at listed
      rcases List.mem_append.mp listed with ofScripts | ofMarkups
      · exact ofScript.shallow "comment" notTag rule ofScripts
      · exact ofMarkup.shallow "comment" notTag rule ofMarkups
  · rw [rules_withComments_other isComment] at listed
    exact both rule listed

/-- Two grammars of this kind, the first with a tag rule, can be composed with every depth of brace
groups. This gives a grammar of the same kind, whose tag rule finds templ tags. -/
theorem compose_total (ofMarkup : Layered markup) (ofScript : Layered script)
    (tagged : markup.has "tag" = true) (depth : Nat) :
    ∃ grammar, compose (.to markup) (.to script) depth = .ok grammar ∧ Composed grammar := by
  obtain ⟨tag, inside, ruled, whole, linked, ofInside⟩ := ofMarkup.tag tagged
  obtain ⟨inner, made, ofInner⟩ :=
    templInside_total ofInside (ofScript.shallow "comment" (by decide)) depth
  have joinedDistinct : (joined markup script).names.Nodup := by
    rw [joined_eq]
    unfold RuleSet.withComments
    have both := nodup_names_extend ofMarkup.distinct script.entries
    split
    · exact both
    · exact nodup_names_extend both _
  have checked : Pattern.checkDepth depth = .ok depth := by
    rw [Pattern.checkDepth, if_neg (by omega)]
    rfl
  refine ⟨(joined markup script).extend
    [("tag", [{ tag with pattern := .tag depth, inside := .to inner }])], ?_, ?_⟩
  · rw [compose_grammars, if_neg (by simp [tagged]), checked]
    simp only [Except.mapError, bind, Except.bind, ruled, linked, made]
    rfl
  refine ⟨?_, _, inner, depth, rules_extend_self .., rfl, whole, rfl, ofInner⟩
  constructor
  case rest =>
    show (joined markup script).rest = .none
    rw [joined_eq]
    unfold RuleSet.withComments
    split <;> exact ofMarkup.rest
  case distinct => exact nodup_names_extend joinedDistinct _
  case shallow =>
    intro name notTag
    rw [rules_extend_other notTag]
    exact joined_shallow ofMarkup ofScript notTag
  case keywords =>
    have other : "keyword" ≠ "comment" := by decide
    intro rule listed
    rw [rules_extend_other (by decide), joined_eq, rules_withComments_other other] at listed
    rcases mem_rules_extend ofMarkup.distinct listed with old | ⟨rules, new, inRules⟩
    · exact ofMarkup.keywords rule old
    · exact ofScript.keywords rule (mem_rules_of_entry ofScript.distinct new inRules)
  case tag =>
    intro _
    exact ⟨_, inner, rules_extend_self .., whole, rfl, ofInner⟩

/-! ## The shipped grammars -/

/-- Whether all rules of a set are shallow, but for those under `tag`. -/
def isShallowElsewhere (set : RuleSet) : Bool :=
  set.entries.all fun entry => entry.1 == "tag" || entry.2.all (isShallow entry.1)

/-- What this says of the rules. -/
theorem shallow_elsewhere (passed : isShallowElsewhere set = true) {name : String}
    (notTag : name ≠ "tag") : ∀ rule ∈ set.rules name, isShallow name rule = true := by
  intro rule listed
  obtain ⟨rules, entered, inRules⟩ := entry_of_mem_rules listed
  have here := List.all_eq_true.mp passed (name, rules) entered
  have allHere : rules.all (isShallow name) = true := by simpa [notTag] using here
  exact List.all_eq_true.mp allHere rule inRules

/-- What a tag of the markup grammar holds. -/
theorem insideTag_markup : InsideTag Markup.insideTag where
  rest := rfl
  distinct := by decide
  named := ⟨_, rfl, rfl, rfl⟩
  valued := ⟨_, rfl, rfl, rfl⟩
  rules := by
    intro name rule listed
    have notTag : name ≠ "tag" := by
      rintro rfl
      cases listed
    exact .inl (shallow_elsewhere rfl notTag rule listed)

/-- The markup grammar is one of them. -/
theorem layered_markup : Layered Grammar.markup where
  rest := rfl
  distinct := by decide
  shallow _ := shallow_elsewhere rfl
  keywords := nofun
  tag _ := ⟨_, _, rfl, rfl, rfl, insideTag_markup⟩

/-- So is the script grammar. -/
theorem layered_go : Layered Grammar.go where
  rest := rfl
  distinct := by decide
  shallow _ := shallow_elsewhere rfl
  keywords := by
    intro rule listed
    obtain rfl := List.mem_singleton.mp listed
    exact ⟨rfl, _, _, _, rfl⟩
  tag tagged := by
    have untagged : Grammar.go.has "tag" = false := rfl
    rw [untagged] at tagged
    cases tagged

end Grammar

end TemplHighlight
