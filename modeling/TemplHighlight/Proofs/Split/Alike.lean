import Mathlib.Data.List.Forall2
import TemplHighlight.Grammar.Split

/-!
# Grammars that are alike

Two grammars split texts in the same way if sets of the one go together with sets of the other, and
sets that go together try rules that are alike: rules with the same pattern that make the same
tokens, of which the contents are split with sets that go together again. So to compare two grammars
it is enough to say which sets go together, and to look at the rules that these try.
-/

namespace TemplHighlight.Split

open RuleSet

/-- Two links lead to related sets, or both to the root, or both nowhere. -/
inductive LinksAlike (related : RuleSet → RuleSet → Prop) : Link RuleSet → Link RuleSet → Prop where
  | none : LinksAlike related .none .none
  | root : LinksAlike related .root .root
  | to {set set' : RuleSet} (alike : related set set') : LinksAlike related (.to set) (.to set')

/-- Two rules under their names find and make the same, if related sets split texts in the same
way. Nothing is said of their flags. -/
structure RulesAlike (related : RuleSet → RuleSet → Prop) (entry entry' : String × Rule) :
    Prop where
  name : entry.1 = entry'.1
  pattern : entry.2.pattern = entry'.2.pattern
  lookbehind : entry.2.lookbehind = entry'.2.lookbehind
  aliases : entry.2.aliases = entry'.2.aliases
  kind : entry.2.kind = entry'.2.kind
  inside : LinksAlike related entry.2.inside entry'.2.inside

variable {related : RuleSet → RuleSet → Prop} {root root' : RuleSet}

/-- Rules that are alike find the same. -/
theorem RulesAlike.found {entry entry' : String × Rule} (alike : RulesAlike related entry entry') :
    findWith entry.2 = findWith entry'.2 := by
  funext text
  unfold findWith Rule.find
  rw [alike.pattern, alike.lookbehind]

/-- They make the same tokens if related sets split the content in the same way. -/
theorem RulesAlike.made {entry entry' : String × Rule} (alike : RulesAlike related entry entry')
    {splitInside splitInside' : RuleSet → Text → Except SplitError (List Tree)}
    (ofRoot : splitInside root = splitInside' root')
    (ofInside : ∀ inner inner', entry.2.inside = .to inner → related inner inner' →
      splitInside inner = splitInside' inner') :
    makeWith splitInside root entry.1 entry.2 = makeWith splitInside' root' entry'.1 entry'.2 := by
  obtain ⟨name, rule⟩ := entry
  obtain ⟨name', rule'⟩ := entry'
  obtain ⟨sameName, -, -, sameAliases, sameKind, links⟩ := alike
  simp only at sameName sameAliases sameKind links ofInside ⊢
  subst sameName
  funext text
  unfold makeWith Rule.kindFor?
  rw [sameAliases, sameKind]
  generalize isInside : rule.inside = link at links ⊢
  generalize rule'.inside = link' at links ⊢
  cases links with
  | none => rfl
  | root => simp only [ofRoot]
  | «to» alike => simp only [ofInside _ _ isInside alike]

/-- Runs over lists that go together, of which the steps do the same, do the same. -/
theorem foldlM_alike {ε α β γ : Type} {step : β → α → Except ε β} {step' : β → γ → Except ε β}
    {steps : List α} {steps' : List γ}
    (alike : List.Forall₂
      (fun current current' => ∀ state, step state current = step' state current') steps steps')
    (start : β) : steps.foldlM step start = steps'.foldlM step' start := by
  induction alike generalizing start with
  | nil => rfl
  | cons same _ inductionHypothesis =>
    rw [List.foldlM_cons, List.foldlM_cons, same]
    exact bind_congr inductionHypothesis

/-- Rules that are alike and have the same flag do the same to all items. -/
theorem RulesAlike.applied {entry entry' : String × Rule} (alike : RulesAlike related entry entry')
    (flag : entry.2.greedy = entry'.2.greedy) (make : Maker) (items : List Tree) :
    applyRule entry.2 make items = applyRule entry'.2 make items := by
  unfold applyRule
  rw [alike.found, flag]

variable (related) in
/-- If related sets try rules that are alike and have the same flags, they split every text in the
same way, failures included.

Proof: by induction on the depth, rules that are alike make the same tokens. They find the same, so
they do the same to all items, one rule after the other. -/
theorem splitWith_related (roots : related root root')
    (rules : ∀ set set', related set set' →
      List.Forall₂ (fun entry entry' => RulesAlike related entry entry' ∧
        entry.2.greedy = entry'.2.greedy) (chainRules root set) (chainRules root' set'))
    (fuel : Nat) {set set' : RuleSet} (pair : related set set') :
    splitWith root fuel set = splitWith root' fuel set' := by
  induction fuel generalizing set set' with
  | zero => rfl
  | succ fuel inductionHypothesis =>
    funext text
    rw [splitWith, splitWith]
    refine foldlM_alike ((rules set set' pair).imp ?_) (raw text)
    rintro entry entry' ⟨alike, flag⟩ items
    have made : makeWith (splitWith root fuel) root entry.1 entry.2 =
        makeWith (splitWith root' fuel) root' entry'.1 entry'.2 :=
      alike.made (inductionHypothesis roots) fun _ _ _ pair => inductionHypothesis pair
    show applyRule entry.2 (makeWith _ root entry.1 entry.2) items = _
    rw [made, alike.applied flag]

end TemplHighlight.Split
