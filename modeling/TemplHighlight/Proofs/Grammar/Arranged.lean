import TemplHighlight.Proofs.Grammar.Extending
import TemplHighlight.Proofs.Grammar.Inserting
import TemplHighlight.Proofs.Registry.Composing

/-!
# The order of the templ rules

Which rule comes before which decides what a text is split into. The templ grammar has the names of
the markup grammar in their places and behind them those that only the script grammar has; under a
name that both have stand the rules of the script grammar, but under `comment` those of both. Inside
a tag, brace groups and spreads come right ahead of the special attributes, wherever they, or rules
under their names, stood before.
-/

namespace TemplHighlight

open Pairs (names_append)

namespace RuleSet

variable {set : RuleSet} {name : String}

/-- A name with a rule is there. -/
theorem has_of_rules {rule : Rule} {later : List Rule} (ruled : set.rules name = rule :: later) :
    set.has name = true := by
  rw [has, Pairs.has, Option.isSome_iff_ne_none]
  intro absent
  rw [rules, absent] at ruled
  cases ruled

/-- The set with rules under `comment`, if there are any to put there. -/
def withComments (set : RuleSet) (comments : List Rule) : RuleSet :=
  if comments.isEmpty then set else set.extend [("comment", comments)]

/-- The names of a set with comments: `comment` comes last if it was not there. -/
def commentedNames (set : RuleSet) (comments : List Rule) : List String :=
  if comments.isEmpty ∨ "comment" ∈ set.names then set.names else set.names ++ ["comment"]

/-- These are its names. -/
theorem names_withComments (set : RuleSet) (comments : List Rule) :
    (set.withComments comments).names = set.commentedNames comments := by
  unfold withComments commentedNames
  by_cases empty : comments.isEmpty = true
  · rw [if_pos empty, if_pos (.inl empty)]
  · rw [if_neg empty, names_extend_one]
    by_cases there : "comment" ∈ set.names
    · rw [if_pos there, if_pos (.inr there)]
    · rw [if_neg there, if_neg (not_or.mpr ⟨empty, there⟩)]

/-- The comments that are put there are its rules for comments. -/
theorem rules_withComments {comments : List Rule} (filled : comments ≠ []) :
    (set.withComments comments).rules "comment" = comments := by
  rw [withComments, if_neg (List.isEmpty_iff.not.mpr filled), rules_extend_self]

/-- The other rules stay. -/
theorem rules_withComments_other (other : name ≠ "comment") (comments : List Rule) :
    (set.withComments comments).rules name = set.rules name := by
  unfold withComments
  split
  · rfl
  · exact rules_extend_other other set comments

end RuleSet

namespace Grammar

open RuleSet

variable {markup script inside : RuleSet} {tag tagName attrValue : Rule} {depth : Nat}

/-! ## The two grammars together -/

/-- The script rules are laid over those of the markup, and the comments of both come together, the
script ones first. -/
theorem joined_eq (markup script : RuleSet) :
    joined markup script = (markup.extend script.entries).withComments
      (script.rules "comment" ++ markup.rules "comment") := rfl

/-- The names of the two grammars together: there is nothing to add for comments. -/
theorem names_joined (distinct : script.names.Nodup) :
    (joined markup script).names =
      markup.names ++ script.names.filter (· ∉ markup.names) := by
  have extended : (markup.extend script.entries).names =
      markup.names ++ script.names.filter (· ∉ markup.names) := names_extend distinct
  rw [joined_eq, names_withComments, ← extended]
  refine if_pos (or_iff_not_imp_left.mpr fun filled => ?_)
  rw [extended, List.mem_append, List.mem_filter, decide_eq_true_iff]
  by_contra absent
  rw [not_or, not_and, not_not] at absent
  have noMarkup : markup.rules "comment" = [] := by
    rw [rules, Pairs.get?_eq_none.mpr absent.1]
    rfl
  have noScript : script.rules "comment" = [] := by
    rw [rules, Pairs.get?_eq_none.mpr fun there => absent.1 (absent.2 there)]
    rfl
  rw [noMarkup, noScript] at filled
  exact filled rfl

/-- Under a name other than `comment` stand the rules of the script grammar if it has the name. -/
theorem rules_joined (distinct : script.names.Nodup) {name : String} (other : name ≠ "comment") :
    (joined markup script).rules name =
      if script.has name then script.rules name else markup.rules name := by
  rw [joined_eq, rules_withComments_other other, rules_extend distinct, has, Pairs.has, rules,
    rules]
  cases Pairs.get? name script.entries <;> rfl

/-! ## Inside a tag -/

/-- The one rule under a name is found. -/
theorem insideRule_of_rules {name : String} {rule : Rule} (ruled : inside.rules name = [rule]) :
    insideRule inside name = .ok rule := by
  rw [insideRule, if_pos (has_of_rules ruled), ruled]

/-- A tag-name rule can be changed if a rule set is inside it, or nothing. -/
theorem templTagName_of_closed (closed : tagName.inside ≠ .root) :
    ∃ changed, templTagName tagName = .ok changed := by
  unfold templTagName
  cases linked : tagName.inside with
  | root => exact absurd linked closed
  | none => exact ⟨_, rfl⟩
  | «to» set => exact ⟨_, rfl⟩

/-- What is inside a templ tag, in the order in which it is put there. -/
theorem templInside_of_rules (named : inside.rules "tag-name" = [tagName])
    (closed : tagName.inside ≠ .root) (valued : inside.rules "attr-value" = [attrValue])
    (comments : List Rule) :
    ∃ changedName changedValue, templInside depth comments inside =
      .ok ((((inside.extend [("tag-name", [changedName])]).extend
        [("attr-value", [changedValue])]).withComments comments).insertBefore "special-attr"
          (templTagRules depth)) := by
  obtain ⟨changedName, changed⟩ := templTagName_of_closed closed
  refine ⟨changedName, { attrValue with pattern := templAttrValuePattern }, ?_⟩
  rw [templInside, insideRule_of_rules named, insideRule_of_rules valued]
  show (templTagName tagName >>= _) = _
  rw [changed]
  rfl

/-- What is inside a templ tag, compared with what is inside a tag: brace groups and spreads stand
together ahead of the special attributes, or at the end if there are none. -/
structure ArrangedInside (comments : List Rule) (inside inner : RuleSet) : Prop where
  names : ∃ front back,
    (inside.commentedNames comments).filter (· ∉ ["script", "spread"]) = front ++ back ∧
      inner.names = front ++ ["script", "spread"] ++ back ∧ "special-attr" ∉ front ∧
      (back = [] ∨ ∃ later, back = "special-attr" :: later)
  others : ∀ name, name ∉ ["tag-name", "attr-value", "comment", "script", "spread"] →
    inner.rules name = inside.rules name

/-- Of distinct names, those with `comment` behind them are distinct too. -/
theorem nodup_commentedNames (distinct : inside.names.Nodup) (comments : List Rule) :
    (inside.commentedNames comments).Nodup := by
  unfold commentedNames
  split
  · exact distinct
  · rename_i absent
    rw [← List.concat_eq_append]
    exact distinct.concat fun there => absent (.inr there)

/-- Putting the rules for brace groups and spreads ahead of the special attributes arranges what is
inside a tag, if nothing but the tag name, the value and the comments was changed before. -/
theorem arranged_insertBefore {prepared : RuleSet} {comments : List Rule}
    (distinct : inside.names.Nodup) (sameNames : prepared.names = inside.commentedNames comments)
    (sameRules : ∀ name, name ∉ ["tag-name", "attr-value", "comment"] →
      prepared.rules name = inside.rules name) :
    ArrangedInside comments inside
      (prepared.insertBefore "special-attr" (templTagRules depth)) := by
  have preparedDistinct : prepared.names.Nodup := by
    rw [sameNames]
    exact nodup_commentedNames distinct comments
  have newNames : Pairs.names (templTagRules depth) = ["script", "spread"] := rfl
  constructor
  case names =>
    obtain ⟨front, back, split, notAhead, atPlace, built⟩ :=
      names_insertBefore prepared "special-attr" (templTagRules depth) preparedDistinct
    rw [newNames] at built
    refine ⟨front.filter (· ∉ ["script", "spread"]), back.filter (· ∉ ["script", "spread"]),
      ?_, ?_, ?_, ?_⟩
    · rw [← sameNames, split, List.filter_append]
    · rw [built, List.append_assoc]
      rfl
    · exact fun kept => notAhead (List.mem_filter.mp kept).1
    · rcases atPlace with rfl | ⟨later, rfl⟩
      · exact .inl rfl
      · exact .inr ⟨_, List.filter_cons_of_pos (by decide)⟩
  case others =>
    intro name other
    have notNew : name ∉ Pairs.names (templTagRules depth) := by
      rw [newNames]
      exact fun new => other (List.mem_append_right ["tag-name", "attr-value", "comment"] new)
    have notChanged : name ∉ ["tag-name", "attr-value", "comment"] := fun changed =>
      other (List.mem_append_left ["script", "spread"] changed)
    rw [rules, get?_insertBefore _ _ _ preparedDistinct, Pairs.get?_reverse_eq_none.mpr notNew,
      Option.none_or, ← rules, sameRules name notChanged]

/-- What is inside a templ tag can be made, and it is arranged so. -/
theorem templInside_arranged (depth : Nat) (distinct : inside.names.Nodup)
    (named : inside.rules "tag-name" = [tagName]) (closed : tagName.inside ≠ .root)
    (valued : inside.rules "attr-value" = [attrValue]) (comments : List Rule) :
    ∃ inner, templInside depth comments inside = .ok inner ∧
      ArrangedInside comments inside inner := by
  obtain ⟨changedName, changedValue, made⟩ := templInside_of_rules named closed valued comments
  refine ⟨_, made, arranged_insertBefore distinct ?_ ?_⟩
  · have nameThere : "tag-name" ∈ inside.names := Pairs.has_iff.mp (has_of_rules named)
    have valueThere : "attr-value" ∈ inside.names := Pairs.has_iff.mp (has_of_rules valued)
    have sameNames : ((inside.extend [("tag-name", [changedName])]).extend
        [("attr-value", [changedValue])]).names = inside.names := by
      rw [names_extend_there, names_extend_there nameThere]
      rwa [names_extend_there nameThere]
    rw [names_withComments, commentedNames, sameNames, ← commentedNames]
  · intro name other
    simp only [List.mem_cons, List.not_mem_nil, or_false, not_or] at other
    rw [rules_withComments_other other.2.2, rules_extend_other other.2.1,
      rules_extend_other other.1]

/-! ## The templ grammar -/

/-- A grammar has the rules of a markup grammar and of a script grammar in the order of their names,
and a tag rule that was changed in its pattern and inside only. -/
structure Arranged (markup script : RuleSet) (tag : Rule) (inside grammar : RuleSet) : Prop where
  names : grammar.names = markup.names ++ script.names.filter (· ∉ markup.names)
  others : ∀ name, name ≠ "tag" → name ≠ "comment" →
    grammar.rules name = if script.has name then script.rules name else markup.rules name
  comments : script.rules "comment" ++ markup.rules "comment" ≠ [] →
    grammar.rules "comment" = script.rules "comment" ++ markup.rules "comment"
  rest : grammar.rest = markup.rest
  tag : ∃ pattern inner,
    grammar.rules "tag" = [{ tag with pattern := pattern, inside := .to inner }] ∧
      ArrangedInside (script.rules "comment") inside inner

/-- The templ grammar can be composed of a markup grammar with one tag rule that has one rule for
the tag name and one for values inside, and of any script grammar; and then its rules are arranged.

Proof: each step puts rules under names that are there, which stay in their places, or under names
that are not, which come last. Only putting rules ahead of a name moves any, and it moves none but
those for brace groups and spreads. -/
theorem compose_arranges (markup script inside : RuleSet) (tag tagName attrValue : Rule)
    (depth : Nat) (tagged : markup.rules "tag" = [tag]) (linked : tag.inside = .to inside)
    (named : inside.rules "tag-name" = [tagName]) (closed : tagName.inside ≠ .root)
    (valued : inside.rules "attr-value" = [attrValue]) (scriptDistinct : script.names.Nodup)
    (insideDistinct : inside.names.Nodup) :
    ∃ grammar, compose (.to markup) (.to script) depth = .ok grammar ∧
      Arranged markup script tag inside grammar := by
  obtain ⟨inner, made, arranged⟩ :=
    templInside_arranged depth insideDistinct named closed valued (script.rules "comment")
  have hasTag : markup.has "tag" = true := has_of_rules tagged
  have checked : Pattern.checkDepth depth = .ok depth := by
    rw [Pattern.checkDepth, if_neg (by omega)]
    rfl
  refine ⟨(joined markup script).extend
    [("tag", [{ tag with pattern := .tag depth, inside := .to inner }])], ?_, ?_⟩
  · rw [compose_grammars, if_neg (by simp [hasTag]), checked]
    simp only [Except.mapError, bind, Except.bind, tagged, linked, made]
    rfl
  constructor
  case names =>
    have there : "tag" ∈ (joined markup script).names := by
      rw [names_joined scriptDistinct]
      exact List.mem_append_left _ (Pairs.has_iff.mp hasTag)
    rw [names_extend_there there, names_joined scriptDistinct]
  case others =>
    intro name notTag notComment
    rw [rules_extend_other notTag, rules_joined scriptDistinct notComment]
  case comments =>
    intro filled
    rw [rules_extend_other (by decide), joined_eq, rules_withComments filled]
  case rest =>
    show (joined markup script).rest = markup.rest
    rw [joined_eq, withComments]
    split <;> rfl
  case tag => exact ⟨.tag depth, inner, rules_extend_self .., arranged⟩

/-- A rule for spreads. -/
def spreadRule : Rule := { pattern := .spread 0 }

/-- A tag rule with rules for spreads and brace groups inside, on either side of the special
attributes. -/
def crowdedTag : Rule where
  pattern := .tag 0
  greedy := true
  inside := .to (.ofList "crowded tag" [
    ("spread", [spreadRule]), ("tag-name", [spreadRule]), ("special-attr", []), ("script", []),
    ("attr-value", [spreadRule])])

/-- A markup grammar with this rule. -/
def crowdedMarkup : RuleSet :=
  .ofList "crowded markup" [("string", []), ("tag", [crowdedTag]), ("comment", [spreadRule])]

/-- A script grammar that has some of its names. -/
def sharingScript : RuleSet :=
  .ofList "sharing script" [("tag", []), ("comment", [spreadRule]), ("number", []), ("string", [])]

/-- The rules of these two are arranged, though they share names and the names of what only a templ
tag has are there already. -/
theorem compose_arranges_crowded : ∃ inside,
    crowdedMarkup.rules "tag" = [crowdedTag] ∧ crowdedTag.inside = .to inside ∧
      inside.rules "tag-name" = [spreadRule] ∧ spreadRule.inside ≠ .root ∧
      inside.rules "attr-value" = [spreadRule] ∧ sharingScript.names.Nodup ∧ inside.names.Nodup ∧
      ∃ grammar, compose (.to crowdedMarkup) (.to sharingScript) (1 : Nat) = .ok grammar ∧
        grammar.names = ["string", "tag", "comment", "number"] ∧
        Arranged crowdedMarkup sharingScript crowdedTag inside grammar := by
  have scriptDistinct : sharingScript.names.Nodup := by decide
  obtain ⟨grammar, composed, arranged⟩ := compose_arranges crowdedMarkup sharingScript _ crowdedTag
    spreadRule spreadRule 1 rfl rfl rfl nofun rfl scriptDistinct (by decide)
  exact ⟨_, rfl, rfl, rfl, nofun, rfl, scriptDistinct, by decide, grammar, composed,
    arranged.names, arranged⟩

end Grammar

end TemplHighlight
