import TemplHighlight.Proofs.Grammar.Chains
import TemplHighlight.Proofs.Grammar.Layered
import TemplHighlight.Proofs.Templ.Total

/-!
# Grammars that were composed again split every text

A grammar that was composed, of whatever was composed before, has one rule that leads further than
to a plain set: its tag rule. The parts of a tag that are split with the whole grammar again start
with other characters than a tag, so they are shorter. With twice the length of the text as a level,
splitting goes down on every second step, as it does with the shipped grammars.
-/

namespace TemplHighlight.Grammar

open Split RuleSet

variable {root inside set : RuleSet} {name : String} {rule : Rule} {text part : Text} {level : Nat}

/-! ## Rules that are tried -/

/-- With a set that does not go on, its own rules are tried. -/
theorem entry_of_tried (ends : set.rest = .none) (tried : (name, rule) ∈ chainRules root set) :
    ∃ rules, (name, rules) ∈ set.entries ∧ rule ∈ rules := by
  obtain ⟨label, entries, rest⟩ := set
  cases ends
  have alone : chain root ⟨label, entries, .none⟩ = [⟨label, entries, .none⟩] := by
    simp [chain, links, linksFrom, endsAtRoot, linkEndsAtRoot, takeUnseen]
  rw [chainRules, alone, List.flatMap_singleton] at tried
  obtain ⟨⟨entryName, rules⟩, entered, named⟩ := List.mem_flatMap.mp tried
  obtain ⟨member, listed, same⟩ := List.mem_map.mp named
  cases same
  exact ⟨rules, entered, listed⟩

/-- If its names are distinct, these are its rules. -/
theorem mem_rules_of_tried (ends : set.rest = .none) (distinct : set.names.Nodup)
    (tried : (name, rule) ∈ chainRules root set) : rule ∈ set.rules name := by
  obtain ⟨rules, entered, listed⟩ := entry_of_tried ends tried
  exact mem_rules_of_entry distinct entered listed

/-- Nothing lies behind a link that ends. -/
theorem none_of_endsHere {link : Link RuleSet} (ends : endsHere link = true) : link = .none := by
  cases link with
  | none => rfl
  | root | «to» set => cases ends

/-- A rule that is tried with a plain set leads nowhere. -/
theorem ends_of_plain (plain : isPlain set = true) (tried : (name, rule) ∈ chainRules root set) :
    rule.inside = .none := by
  obtain ⟨ends, all⟩ := Bool.and_eq_true_iff.mp plain
  obtain ⟨rules, entered, listed⟩ := entry_of_tried (none_of_endsHere ends) tried
  have inEntry := List.all_eq_true.mp all (name, rules) entered
  have ofRule := List.all_eq_true.mp inEntry rule listed
  exact none_of_endsHere (Bool.and_eq_true_iff.mp ofRule).2

/-- With a brace group that is a value one rule of its own is tried, which leads nowhere, and those
of the whole grammar. -/
theorem tried_with_script (ofRoot : Layered root)
    (tried : (name, rule) ∈ chainRules root Templ.scriptInside) :
    rule.inside = .none ∨ rule ∈ root.rules name := by
  obtain ⟨owner, onChain, rules, entered, listed⟩ := entry_of_chainRules tried
  rcases onChain with own | rooted
  · have same : owner = Templ.scriptInside := List.mem_singleton.mp own
    subst same
    cases List.mem_singleton.mp entered
    cases List.mem_singleton.mp listed
    exact .inl rfl
  · rw [links_eq, ofRoot.rest] at rooted
    have same : owner = root := List.mem_singleton.mp rooted
    subst same
    exact .inr (mem_rules_of_entry ofRoot.distinct entered listed)

/-! ## All rules can be used -/

/-- The rules of a plain set can be used. -/
theorem only_of_plain (plain : isPlain set = true) :
    set.Only fun name rule => rule.usable name = true := by
  obtain ⟨ends, all⟩ := Bool.and_eq_true_iff.mp plain
  refine only_of_parts ?_ ?_
  · rintro ⟨name, rules⟩ entered rule listed
    have inEntry := List.all_eq_true.mp all (name, rules) entered
    obtain ⟨usable, leads⟩ := Bool.and_eq_true_iff.mp (List.all_eq_true.mp inEntry rule listed)
    refine ⟨usable, ?_⟩
    intro inner linked
    rw [linked] at leads
    cases leads
  · intro later linked
    rw [linked] at ends
    cases ends

/-- A shallow rule can be used, and so can the rules that it leads to. -/
theorem only_of_shallow (shallow : isShallow name rule = true) :
    rule.usable name = true ∧ ∀ inner, rule.inside = .to inner →
      inner.Only fun name rule => rule.usable name = true := by
  obtain ⟨usable, leads⟩ := Bool.and_eq_true_iff.mp shallow
  refine ⟨usable, ?_⟩
  intro inner linked
  rw [linked] at leads
  exact only_of_plain leads

/-- The rules for brace groups and spreads can be used, and so can the rule that stands in front of
the whole grammar. -/
theorem only_of_templTagRules {depth : Nat} (entered : (name, [rule]) ∈ templTagRules depth) :
    rule.usable name = true ∧ ∀ inner, rule.inside = .to inner →
      inner.Only fun name rule => rule.usable name = true := by
  simp only [templTagRules, List.mem_cons, List.not_mem_nil, or_false] at entered
  rcases entered with same | same
  · cases same
    refine ⟨rfl, ?_⟩
    rintro inner ⟨⟩
    exact only_of_every rfl
  · cases same
    refine ⟨rfl, ?_⟩
    rintro inner ⟨⟩

/-- So can all rules inside a tag. -/
theorem InsideTag.only (ofInside : InsideTag inside) :
    inside.Only fun name rule => rule.usable name = true := by
  refine only_of_parts ?_ ?_
  · rintro ⟨name, rules⟩ entered rule listed
    rcases ofInside.rules name rule (mem_rules_of_entry ofInside.distinct entered listed) with
      shallow | ⟨depth, added⟩
    · exact only_of_shallow shallow
    · exact only_of_templTagRules added
  · intro later linked
    rw [ofInside.rest] at linked
    cases linked

/-- So can a rule that finds tags. -/
theorem usable_tag {depth : Nat} (found : rule.pattern = .tag depth)
    (whole : rule.lookbehind = false) : Rule.usable "tag" rule = true := by
  have kind : (Rule.kindFor? rule "tag").isSome = true := by
    rw [Rule.kindFor?, Option.isSome_or]
    exact Bool.or_true _
  simp [Rule.usable, kind, found, whole, Pattern.searches, Pattern.scans]

/-- All rules of a composed grammar can be used, as far as its links lead. -/
theorem Composed.only (composed : Composed root) :
    root.Only fun name rule => rule.usable name = true := by
  refine only_of_parts ?_ ?_
  · rintro ⟨name, rules⟩ entered rule listed
    have own := mem_rules_of_entry composed.distinct entered listed
    by_cases isTag : name = "tag"
    · subst isTag
      obtain ⟨tag, inside, depth, ruled, found, whole, linked, ofInside⟩ := composed.templ
      rw [ruled] at own
      obtain rfl := List.mem_singleton.mp own
      refine ⟨usable_tag found whole, ?_⟩
      intro inner linkedThere
      rw [linked] at linkedThere
      cases linkedThere
      exact ofInside.only
    · exact only_of_shallow (composed.shallow name isTag rule own)
  · intro later linked
    rw [composed.rest] at linked
    cases linked

/-! ## Levels -/

/-- How the sets of a composed grammar are used on texts, and on which level. -/
inductive UsedOn (root : RuleSet) : (level : Nat) → RuleSet → Text → Prop where
  | whole (text : Text) : UsedOn root (2 * text.length + 1) root text
  | script (text : Text) : UsedOn root (2 * text.length + 1) Templ.scriptInside text
  | tag {inside : RuleSet} {text : Text} (ofInside : InsideTag inside)
      (starts : text.head? = some '<') : UsedOn root (2 * text.length) inside text
  | plain {set : RuleSet} (text : Text) (plain : isPlain set = true) : UsedOn root 0 set text

/-- The sets that split a part are used on a level lower than a given one. -/
abbrev LeadsBelow (root : RuleSet) (level : Nat) (part : Text) (link : Link RuleSet) : Prop :=
  Split.Leads root (fun inner part => ∃ lower, lower < level ∧ UsedOn root lower inner part) part
    link

/-- A shallow rule leads to a lower level. -/
theorem leads_of_shallow (positive : 0 < level) (shallow : isShallow name rule = true) :
    LeadsBelow root level part rule.inside := by
  have leads := (Bool.and_eq_true_iff.mp shallow).2
  cases linked : rule.inside with
  | none => trivial
  | root =>
    rw [linked] at leads
    cases leads
  | «to» set =>
    rw [linked] at leads
    exact ⟨0, positive, .plain part leads⟩

/-- The rules of a composed grammar lead to tags in a text, and to plain sets. -/
theorem Composed.leads (composed : Composed root) (own : rule ∈ root.rules name)
    (taken : Taken (findWith rule) text part) :
    LeadsBelow root (2 * text.length + 1) part rule.inside := by
  by_cases isTag : name = "tag"
  · subst isTag
    obtain ⟨tag, inside, depth, ruled, found, whole, linked, ofInside⟩ := composed.templ
    rw [ruled] at own
    obtain rfl := List.mem_singleton.mp own
    have triggered : rule.pattern.trigger? = some '<' := by
      rw [found]
      rfl
    have starts := Templ.taken_head triggered whole taken
    have short := taken.piece.length_le
    rw [linked]
    exact ⟨2 * part.length, by omega, .tag ofInside starts⟩
  · exact leads_of_shallow (Nat.succ_pos _) (composed.shallow name isTag rule own)

/-- The rules inside a tag lead to shorter texts, and to plain sets. -/
theorem InsideTag.leads (ofInside : InsideTag inside) (own : rule ∈ inside.rules name)
    (starts : text.head? = some '<') (taken : Taken (findWith rule) text part) :
    LeadsBelow root (2 * text.length) part rule.inside := by
  have filled : 0 < 2 * text.length := by
    cases text with
    | nil => cases starts
    | cons c later => simp only [List.length_cons]; omega
  rcases ofInside.rules name rule own with shallow | ⟨depth, added⟩
  · exact leads_of_shallow filled shallow
  simp only [templTagRules, List.mem_cons, List.not_mem_nil, or_false] at added
  rcases added with same | same
  · cases same
    have partStarts : part.head? = some '=' := Templ.taken_head rfl rfl taken
    have short := Templ.shorter_of_head taken.piece starts partStarts (by decide)
    exact ⟨2 * part.length + 1, by omega, .script part⟩
  · cases same
    have partStarts : part.head? = some '\x7b' := Templ.taken_head rfl rfl taken
    have short := Templ.shorter_of_head taken.piece starts partStarts (by decide)
    exact ⟨2 * part.length + 1, by omega, .whole part⟩

/-- The sets of a composed grammar are used on lower and lower levels. -/
theorem Composed.descends (composed : Composed root) : Descends root (UsedOn root) := by
  intro level set text name rule part used tried taken
  cases used with
  | whole text =>
    exact composed.leads (mem_rules_of_tried composed.rest composed.distinct tried) taken
  | script text =>
    rcases tried_with_script composed.toLayered tried with linked | own
    · rw [linked]
      trivial
    · exact composed.leads own taken
  | tag ofInside starts =>
    exact ofInside.leads (mem_rules_of_tried ofInside.rest ofInside.distinct tried) starts taken
  | plain text plain =>
    rw [ends_of_plain plain tried]
    trivial

/-- Every composed grammar splits every text. -/
theorem Composed.tokenize_total (composed : Composed root) (text : Text) :
    ∃ items, root.tokenize text = .ok items := by
  have enough : 2 * text.length + 1 < root.depthBound text.length := by
    have sets : 2 ≤ root.setCount + 1 := by
      cases root
      simp only [RuleSet.setCount]
      omega
    have bound := Nat.mul_le_mul_left (text.length + 1) sets
    unfold RuleSet.depthBound
    omega
  exact splitWith_total composed.descends composed.only composed.only (.whole text) enough

end TemplHighlight.Grammar
