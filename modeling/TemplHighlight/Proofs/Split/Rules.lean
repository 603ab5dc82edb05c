import Mathlib.Logic.Relation
import TemplHighlight.Grammar.RuleSet

/-!
# The rules of a grammar

A rule belongs to a grammar if it stands in one of the rule sets that the grammar's links lead to,
inside its rules or along its rests. Whatever set a text is split with on the way, the rules that
are tried belong to that set or to the root. So a property of all rules of a grammar is at hand at
every depth of the splitting. Such a property can be computed for a grammar that is written down.
-/

namespace TemplHighlight.RuleSet

/-- A rule stands under a name in a rule set or in one that its links lead to. -/
inductive Holds (name : String) (rule : Rule) : RuleSet → Prop where
  | here {set : RuleSet} {rules : List Rule} (entered : (name, rules) ∈ set.entries)
      (listed : rule ∈ rules) : Holds name rule set
  | inside {set inner : RuleSet} {entry : String × List Rule} {outer : Rule}
      (entered : entry ∈ set.entries) (listed : outer ∈ entry.2)
      (linked : outer.inside = .to inner) (held : Holds name rule inner) : Holds name rule set
  | rest {set later : RuleSet} (linked : set.rest = .to later) (held : Holds name rule later) :
      Holds name rule set

/-- All the rules of a grammar have a property, each under its name. -/
def Only (property : String → Rule → Prop) (set : RuleSet) : Prop :=
  ∀ name rule, Holds name rule set → property name rule

/-- All the rules of a grammar have a property if those of the set itself do, and all the rules of
the sets that they and the rest lead to. -/
theorem only_of_parts {property : String → Rule → Prop} {set : RuleSet}
    (own : ∀ entry ∈ set.entries, ∀ rule ∈ entry.2, property entry.1 rule ∧
      ∀ inner, rule.inside = .to inner → Only property inner)
    (behind : ∀ later, set.rest = .to later → Only property later) : Only property set := by
  intro name rule held
  cases held with
  | here entered listed => exact (own _ entered rule listed).1
  | inside entered listed linked heldThere =>
    exact (own _ entered _ listed).2 _ linked name rule heldThere
  | rest linked heldThere => exact behind _ linked name rule heldThere

mutual

/-- Whether all the rules of a grammar pass a check. -/
def every (check : String → Rule → Bool) : RuleSet → Bool
  | ⟨_, entries, rest⟩ => everyEntry check entries && everyLink check rest

/-- Whether all the rules behind a link do. -/
def everyLink (check : String → Rule → Bool) : Link RuleSet → Bool
  | .none | .root => true
  | .to set => every check set

/-- Whether all the rules of some entries do. -/
def everyEntry (check : String → Rule → Bool) : List (String × List (RuleOver RuleSet)) → Bool
  | [] => true
  | entry :: entries => everyUnder check entry && everyEntry check entries

/-- Whether all the rules of an entry do. -/
def everyUnder (check : String → Rule → Bool) : String × List (RuleOver RuleSet) → Bool
  | (name, rules) => everyRule check name rules

/-- Whether all the rules under a name do, and those inside them. -/
def everyRule (check : String → Rule → Bool) (name : String) : List (RuleOver RuleSet) → Bool
  | [] => true
  | rule :: rules => everyInside check name rule && everyRule check name rules

/-- Whether a rule does, and those inside it. -/
def everyInside (check : String → Rule → Bool) (name : String) : RuleOver RuleSet → Bool
  | ⟨pattern, inside, aliases, lookbehind, greedy, kind⟩ =>
    check name ⟨pattern, inside, aliases, lookbehind, greedy, kind⟩ && everyLink check inside

end

/-- A check that all rules pass is passed by the rules under one of the names. -/
theorem everyRule_of_everyEntry {check : String → Rule → Bool}
    {entries : List (String × List Rule)} (passed : everyEntry check entries)
    {entry : String × List Rule} (entered : entry ∈ entries) :
    everyRule check entry.1 entry.2 := by
  induction entries with
  | nil => cases entered
  | cons first later inductionHypothesis =>
    obtain ⟨here, behind⟩ := Bool.and_eq_true_iff.mp passed
    rcases List.mem_cons.mp entered with rfl | inLater
    · cases entry
      exact here
    · exact inductionHypothesis behind inLater

/-- A check that all rules under a name pass is passed by each of them and inside it. -/
theorem everyInside_of_everyRule {check : String → Rule → Bool} {name : String}
    {rules : List Rule} (passed : everyRule check name rules) {rule : Rule}
    (listed : rule ∈ rules) : everyInside check name rule := by
  induction rules with
  | nil => cases listed
  | cons first later inductionHypothesis =>
    obtain ⟨here, behind⟩ := Bool.and_eq_true_iff.mp passed
    rcases List.mem_cons.mp listed with rfl | inLater
    · exact here
    · exact inductionHypothesis behind inLater

/-- A check that a grammar passes is passed by all its rules. -/
theorem only_of_every {check : String → Rule → Bool} {set : RuleSet} (passed : every check set) :
    Only (fun name rule => check name rule) set := by
  intro name rule held
  induction held with
  | @here set rules entered listed =>
    cases set
    obtain ⟨own, -⟩ := Bool.and_eq_true_iff.mp passed
    have inside := everyInside_of_everyRule (everyRule_of_everyEntry own entered) listed
    cases rule
    exact (Bool.and_eq_true_iff.mp inside).1
  | @inside set inner entry outer entered listed linked held inductionHypothesis =>
    cases set
    obtain ⟨own, -⟩ := Bool.and_eq_true_iff.mp passed
    have inside := everyInside_of_everyRule (everyRule_of_everyEntry own entered) listed
    cases outer
    cases linked
    exact inductionHypothesis (Bool.and_eq_true_iff.mp inside).2
  | @rest set later linked held inductionHypothesis =>
    cases set
    cases linked
    exact inductionHypothesis (Bool.and_eq_true_iff.mp passed).2

/-- A rule set leads to another one: what a rule of it finds is split with that, or the set goes on
with it. -/
inductive Leads (set other : RuleSet) : Prop where
  | inside {entry : String × List Rule} {rule : Rule} (entered : entry ∈ set.entries)
      (listed : rule ∈ entry.2) (linked : rule.inside = .to other) : Leads set other
  | rest (linked : set.rest = .to other) : Leads set other

mutual

/-- A set leads to the sets along its rests. -/
theorem leads_of_links {later : RuleSet} :
    (set : RuleSet) → later ∈ set.links → Relation.ReflTransGen Leads set later
  | ⟨label, entries, rest⟩, listed => by
    rcases List.mem_cons.mp listed with rfl | behind
    · exact .refl
    · obtain ⟨next, linked, leads⟩ := leads_of_linksFrom rest behind
      exact .head (.rest linked) leads

/-- A link leads to the sets along it through the set that it names. -/
theorem leads_of_linksFrom {later : RuleSet} : (link : Link RuleSet) → later ∈ linksFrom link →
    ∃ next, link = .to next ∧ Relation.ReflTransGen Leads next later
  | .to next, listed => ⟨next, rfl, leads_of_links next listed⟩

end

/-- The rules of the sets that a set leads to belong to it. -/
theorem Holds.of_leads {name : String} {rule : Rule} {set later : RuleSet}
    (held : Holds name rule later) (leads : Relation.ReflTransGen Leads set later) :
    Holds name rule set := by
  induction leads using Relation.ReflTransGen.head_induction_on with
  | refl => exact held
  | head leads _ inductionHypothesis =>
    cases leads with
    | inside entered listed linked => exact .inside entered listed linked inductionHypothesis
    | rest linked => exact .rest linked inductionHypothesis

/-- The sets that are tried are among the sets that were listed. -/
theorem mem_of_takeUnseen {set : RuleSet} {seen : List String} {sets : List RuleSet}
    (taken : set ∈ takeUnseen seen sets) : set ∈ sets := by
  induction sets generalizing seen with
  | nil => cases taken
  | cons first later inductionHypothesis =>
    unfold takeUnseen at taken
    split at taken
    · cases taken
    · rcases List.mem_cons.mp taken with rfl | behind
      · exact List.mem_cons_self
      · exact List.mem_cons_of_mem first (inductionHypothesis behind)

/-- A rule that is tried stands, under its name, in a set that belongs to the set the text is split
with or to the root. -/
theorem entry_of_chainRules {root set : RuleSet} {name : String} {rule : Rule}
    (tried : (name, rule) ∈ chainRules root set) :
    ∃ owner, (owner ∈ set.links ∨ owner ∈ root.links) ∧
      ∃ rules, (name, rules) ∈ owner.entries ∧ rule ∈ rules := by
  obtain ⟨owner, onChain, ruled⟩ := List.mem_flatMap.mp tried
  obtain ⟨⟨entryName, rules⟩, entered, named⟩ := List.mem_flatMap.mp ruled
  obtain ⟨member, listed, same⟩ := List.mem_map.mp named
  cases same
  refine ⟨owner, ?_, rules, entered, listed⟩
  rcases List.mem_append.mp (mem_of_takeUnseen onChain) with own | rooted
  · exact .inl own
  · split at rooted
    · exact .inr rooted
    · cases rooted

/-- A property of all rules of the root and of a set holds of the rules that are tried, and of all
rules inside them. -/
theorem only_of_chainRules {property : String → Rule → Prop} {root set : RuleSet} {name : String}
    {rule : Rule} (tried : (name, rule) ∈ chainRules root set) (ofRoot : Only property root)
    (ofSet : Only property set) :
    property name rule ∧ ∀ inner, rule.inside = .to inner → Only property inner := by
  obtain ⟨owner, onChain, rules, entered, listed⟩ := entry_of_chainRules tried
  have ofOwner : Only property owner := by
    intro otherName other held
    rcases onChain with own | rooted
    · exact ofSet otherName other (held.of_leads (leads_of_links set own))
    · exact ofRoot otherName other (held.of_leads (leads_of_links root rooted))
  refine ⟨ofOwner name rule (.here entered listed), ?_⟩
  intro inner linked otherName other held
  exact ofOwner otherName other (.inside entered listed linked held)

end TemplHighlight.RuleSet
