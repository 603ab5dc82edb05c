import TemplHighlight.Grammar.Markup
import TemplHighlight.Proofs.Grammar.Chains
import TemplHighlight.Proofs.Split.Alike
import TemplHighlight.Proofs.Split.Rules

/-!
# Grammars that go on with themselves

A grammar without a rest may be given the root as its rest. At the top this leads from the grammar
straight back to it, so nothing is gained and nothing lost. Deeper down a set may go on with the
root, and then with what the root goes on with: in the one grammar the loop ends there, in the other
it comes back to a set that it has passed. So the same rules are tried at every depth, and all texts
are split in the same way, also those that cannot be split.
-/

namespace TemplHighlight

namespace RuleSet

/-- A rule set is part of a grammar, and not the grammar itself. -/
def Within (grammar set : RuleSet) : Prop := Relation.TransGen Leads grammar set

/-- One grammar ends where another one with the same rules goes on with the root. Their labels tell
them apart from the sets that they are made of. -/
structure Rooted (grammar rooted : RuleSet) : Prop where
  same : rooted.entries = grammar.entries
  ends : grammar.rest = .none
  back : rooted.rest = .root
  apart : ∀ set, Within grammar set → set.label ≠ grammar.label ∧ set.label ≠ rooted.label

/-- Two rule sets that have the same part in two grammars: the grammars themselves, or a set that
both are made of. -/
inductive Counterparts (grammar rooted : RuleSet) : RuleSet → RuleSet → Prop where
  | root : Counterparts grammar rooted grammar rooted
  | within {set : RuleSet} (isWithin : Within grammar set) : Counterparts grammar rooted set set

/-- What a rule that is tried splits its matches with is part of the grammar. -/
theorem within_of_tried {grammar set inner : RuleSet} {entry : String × Rule}
    (leads : Relation.ReflTransGen Leads grammar set) (tried : entry ∈ chainRules grammar set)
    (linked : entry.2.inside = .to inner) : Within grammar inner := by
  obtain ⟨owner, onChain, rules, entered, listed⟩ := entry_of_chainRules tried
  have toOwner : Relation.ReflTransGen Leads grammar owner := by
    rcases onChain with own | ofRoot
    · exact leads.trans (leads_of_links set own)
    · exact leads_of_links grammar ofRoot
  exact .tail' toOwner (.inside entered listed linked)

variable {grammar rooted set set' : RuleSet}

/-- A grammar leads to all sets that have a counterpart. -/
theorem Counterparts.leads (counterparts : Counterparts grammar rooted set set') :
    Relation.ReflTransGen Leads grammar set := by
  cases counterparts with
  | root => exact .refl
  | within isWithin => exact isWithin.to_reflTransGen

/-- Where a set of both grammars goes on, it goes on with counterparts. -/
theorem counterparts_of_rest (isWithin : Within grammar set) :
    Option.Rel (Counterparts grammar rooted) (target? grammar set.rest)
      (target? rooted set.rest) := by
  cases linked : set.rest with
  | none => exact .none
  | root => exact .some .root
  | «to» later => exact .some (.within (.tail isWithin (.rest linked)))

/-- Until a grammar is met, the loop from counterparts tries the same rules in both grammars. Behind
it there is nothing in the one, and in the other the grammar again. -/
theorem Rooted.iterates (isRooted : Rooted grammar rooted) {seen : List String}
    {current current' : Option RuleSet} {sets : List RuleSet} {tried : List (String × Rule)}
    (run : Iterates grammar seen current sets tried) (unseen : grammar.label ∉ seen)
    (unseen' : rooted.label ∉ seen)
    (counterparts : Option.Rel (Counterparts grammar rooted) current current') :
    ∃ sets', Iterates rooted seen current' sets' tried := by
  induction run generalizing current' with
  | ends seen =>
    cases counterparts
    exact ⟨[], .ends seen⟩
  | again met =>
    cases counterparts with
    | some pair =>
      cases pair with
      | root => exact absurd met unseen
      | within => exact ⟨[], .again met⟩
  | @visit seen set sets tried new later inductionHypothesis =>
    cases counterparts with
    | some pair =>
      cases pair with
      | root =>
        have nothing : tried = [] := by
          rw [isRooted.ends] at later
          cases later
          rfl
        have back : Iterates rooted (rooted.label :: seen) (target? rooted rooted.rest) [] [] := by
          rw [isRooted.back]
          exact .again List.mem_cons_self
        have rules : rooted.allRules = grammar.allRules := by rw [allRules, allRules, isRooted.same]
        rw [nothing, ← rules]
        exact ⟨[rooted], .visit unseen' back⟩
      | within isWithin =>
        obtain ⟨differs, differs'⟩ := isRooted.apart set isWithin
        obtain ⟨sets', later'⟩ := inductionHypothesis
          (List.not_mem_cons_of_ne_of_not_mem differs.symm unseen)
          (List.not_mem_cons_of_ne_of_not_mem differs'.symm unseen') (counterparts_of_rest isWithin)
        exact ⟨set :: sets', .visit new later'⟩

/-- Counterparts try the same rules. -/
theorem Rooted.tried (isRooted : Rooted grammar rooted)
    (counterparts : Counterparts grammar rooted set set') :
    chainRules grammar set = chainRules rooted set' := by
  obtain ⟨sets', run⟩ := isRooted.iterates (triesChain grammar set).ends List.not_mem_nil
    List.not_mem_nil (.some counterparts)
  exact ((triesChain rooted set').only sets' _ run).2

/-- The grammars are made of equally many sets. -/
theorem Rooted.setCount (isRooted : Rooted grammar rooted) :
    rooted.setCount = grammar.setCount := by
  obtain ⟨same, ends, back, -⟩ := isRooted
  cases grammar
  cases rooted
  cases same
  cases ends
  cases back
  rfl

end RuleSet

namespace Split

open RuleSet

variable {grammar rooted set set' : RuleSet}

/-- Rules of both grammars are like themselves. -/
theorem rulesAlike_of_tried (counterparts : Counterparts grammar rooted set set')
    {entry : String × Rule} (tried : entry ∈ chainRules grammar set) :
    RulesAlike (Counterparts grammar rooted) entry entry where
  name := rfl
  pattern := rfl
  lookbehind := rfl
  aliases := rfl
  kind := rfl
  inside := by
    cases linked : entry.2.inside with
    | none => exact .none
    | root => exact .root
    | «to» inner => exact .to (.within (within_of_tried counterparts.leads tried linked))

/-- At every depth, counterparts split every text in the same way, failures included. -/
theorem splitWith_counterparts (isRooted : Rooted grammar rooted) (fuel : Nat)
    (counterparts : Counterparts grammar rooted set set') :
    splitWith grammar fuel set = splitWith rooted fuel set' := by
  refine splitWith_related (Counterparts grammar rooted) .root ?_ fuel counterparts
  intro set set' counterparts
  rw [← isRooted.tried counterparts]
  exact List.forall₂_same.mpr fun entry tried => ⟨rulesAlike_of_tried counterparts tried, rfl⟩

/-- For all grammars and all rule sets in them the loop over the chain of rests ends, and tries the
rules of each set on the chain once and in order. So a grammar without a rest splits every text in
the same way if it is given the root as its rest.

The grammar with a rest is a set of its own. Its label is not that of a set in the grammar, and
neither is the label of the grammar without a rest.

Proof: the loop passes the same sets in both grammars, up to the grammar itself, of which the rules
are the same. Behind it the loop ends in both: one has no rest, and the rest of the other was met.
By induction on the depth, the rules make the same tokens. -/
theorem rests_lead_back :
    (∀ root set : RuleSet, TriesChain root set) ∧
    ∀ (grammar : RuleSet) (label : String), grammar.rest = .none →
      (∀ set, Within grammar set → set.label ≠ grammar.label ∧ set.label ≠ label) →
      ∀ text, ((grammar.withRest .root).relabel label).tokenize text = grammar.tokenize text := by
  refine ⟨triesChain, ?_⟩
  intro grammar label ends apart text
  have isRooted : Rooted grammar ((grammar.withRest .root).relabel label) :=
    ⟨rfl, ends, rfl, apart⟩
  rw [tokenize, tokenize, depthBound, depthBound, isRooted.setCount,
    splitWith_counterparts isRooted _ .root]

/-- A rule for names behind a mark. A name is split with the root. -/
def markedRule : Rule where
  pattern := Grammar.pattern (.sequence [.group (.word "@"), .plus (.one .word)]) "(@)\\w+"
  inside := .root
  lookbehind := true

/-- What a list is split with: commas, and then what the root says. -/
def listInside : RuleSet :=
  .ofList "list" [("operator", [{ pattern := Grammar.pattern (.word ",") "," }])] .root

/-- A rule for lists in parentheses. -/
def listRule : Rule where
  pattern := Grammar.pattern (.sequence [.word "(", .most (.notAmong "()"), .word ")"])
    "\\([^()]*\\)"
  inside := .to listInside

/-- A grammar for lists, in which one link inside and one rest lead to the root. -/
def lists : RuleSet := .ofList "lists" [("keyword", [markedRule]), ("string", [listRule])]

/-- This grammar as a set of its own that goes on with the root too. -/
def listsAgain : RuleSet := (lists.withRest .root).relabel "lists again"

/-- Only the set inside of lists is part of the grammar. -/
theorem within_lists {set : RuleSet} (isWithin : Within lists set) : set = listInside := by
  induction isWithin with
  | single leads =>
    cases leads with
    | rest linked => cases linked
    | inside entered listed linked =>
      rcases List.mem_cons.mp entered with rfl | second
      · cases List.mem_singleton.mp listed
        cases linked
      · cases List.mem_singleton.mp second
        cases List.mem_singleton.mp listed
        exact (Link.to.inj linked).symm
  | tail _ leads inductionHypothesis =>
    subst inductionHypothesis
    cases leads with
    | rest linked => cases linked
    | inside entered listed linked =>
      cases List.mem_singleton.mp entered
      cases List.mem_singleton.mp listed
      cases linked

/-- The set inside of lists leads to the root, and the root leads to itself. -/
theorem onChain_listInside {other : RuleSet} (onChain : OnChain listsAgain listInside other) :
    other = listInside ∨ other = listsAgain := by
  induction onChain with
  | refl => exact .inl rfl
  | tail _ goesOn inductionHypothesis =>
    rcases inductionHypothesis with rfl | rfl
    · exact .inr (Option.some.inj goesOn).symm
    · exact .inr (Option.some.inj goesOn).symm

/-- From the set inside of lists the loop passes this set and then the root, and meets the root
again. A list is split in the same way whether the grammar goes on with itself or ends. -/
theorem rests_lead_back_lists :
    ToldApart listsAgain listInside ∧
    chain listsAgain listInside = [listInside, listsAgain] ∧
    (∀ other, other ∈ chain listsAgain listInside ↔ OnChain listsAgain listInside other) ∧
    lists.rest = .none ∧
    (∀ set, Within lists set → set.label ≠ lists.label ∧ set.label ≠ "lists again") ∧
    listsAgain.tokenize "(@a,b)".toList = lists.tokenize "(@a,b)".toList := by
  have told : ToldApart listsAgain listInside := by
    intro one other onChain onChain' sameLabel
    rcases onChain_listInside onChain with rfl | rfl <;>
      rcases onChain_listInside onChain' with rfl | rfl
    · rfl
    · exact absurd sameLabel (by decide)
    · exact absurd sameLabel (by decide)
    · rfl
  have apart : ∀ set, Within lists set →
      set.label ≠ lists.label ∧ set.label ≠ "lists again" := by
    intro set isWithin
    cases within_lists isWithin
    decide
  exact ⟨told, rfl, (rests_lead_back.1 listsAgain listInside).every told, rfl, apart,
    rests_lead_back.2 lists "lists again" rfl apart _⟩

end Split

end TemplHighlight
