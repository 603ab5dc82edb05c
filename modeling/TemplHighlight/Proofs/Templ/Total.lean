import TemplHighlight.Proofs.Split.Total
import TemplHighlight.Proofs.Templ.Rules

/-!
# The templ grammar splits every text

All rules of the templ grammar can be used. Its sets lead to each other in a circle, from a whole
text to a tag, from there to a spread or a script, and back to the rules for a whole text; but a
spread and a script do not start as a tag does, so they are shorter than the tag they are taken out
of. Twice the length of the text is therefore a level that sinks with every second step.
-/

namespace TemplHighlight.Templ

open Split

/-- All rules of the templ grammar can be used. -/
theorem grammar_usable (keywords : List Text) (depth : Nat) :
    (grammar keywords depth).Only fun name rule => rule.usable name = true := by
  have passed : (grammar keywords depth).every (fun name rule => rule.usable name) = true := by
    cases keywords <;> rfl
  exact RuleSet.only_of_every passed

/-- Whether a link leads nowhere. -/
def isEnd : Link RuleSet → Bool
  | .none => true
  | _ => false

/-- There is no set behind such a link. -/
theorem none_of_isEnd {link : Link RuleSet} (ends : isEnd link = true) : link = .none := by
  cases link with
  | none => rfl
  | root | «to» set => cases ends

/-- Whether no rule that is tried with a rule set leads to another set. -/
def isFlat (root set : RuleSet) : Bool :=
  (RuleSet.chainRules root set).all fun entry => isEnd entry.2.inside

/-- Whether a link leads nowhere, or to a set from which none leads on. -/
def endsSoon (root : RuleSet) : Link RuleSet → Bool
  | .none => true
  | .root => false
  | .to set => isFlat root set

/-- How the sets of the templ grammar are used on texts, and on which level. -/
inductive Uses (keywords : List Text) (depth : Nat) : (level : Nat) → RuleSet → Text → Prop where
  | whole (text : Text) : Uses keywords depth (2 * text.length + 1) (grammar keywords depth) text
  | script (text : Text) : Uses keywords depth (2 * text.length + 1) scriptInside text
  | tag {text : Text} (starts : text.head? = some '<') :
      Uses keywords depth (2 * text.length) (tagInside depth) text
  | flat {set : RuleSet} (text : Text) (flat : isFlat (grammar keywords depth) set = true) :
      Uses keywords depth 0 set text

variable {keywords : List Text} {depth : Nat}

/-- The sets that split a part are used on a level lower than a given one. -/
abbrev LeadsBelow (keywords : List Text) (depth level : Nat) (part : Text) (link : Link RuleSet) :
    Prop :=
  Leads (grammar keywords depth)
    (fun inner part => ∃ lower, lower < level ∧ Uses keywords depth lower inner part) part link

/-- A rule that leads nowhere, or to a set from which none leads on, leads to a lower level. -/
theorem leads_of_endsSoon {level : Nat} (positive : 0 < level) {part : Text} {link : Link RuleSet}
    (ends : endsSoon (grammar keywords depth) link = true) :
    LeadsBelow keywords depth level part link := by
  cases link with
  | none => trivial
  | root => cases ends
  | «to» set => exact ⟨0, positive, .flat part ends⟩

/-- The same of a list of rules. -/
theorem leads_of_all {level : Nat} (positive : 0 < level) {part : Text}
    {rules : List (String × Rule)}
    (ends : rules.all (fun entry => endsSoon (grammar keywords depth) entry.2.inside) = true)
    {name : String} {rule : Rule} (member : (name, rule) ∈ rules) :
    LeadsBelow keywords depth level part rule.inside :=
  leads_of_endsSoon positive (List.all_eq_true.mp ends _ member)

/-- What a rule with a scanner takes out of a text starts with the trigger of the scanner. -/
theorem taken_head {rule : Rule} {trigger : Char} {text part : Text}
    (triggered : rule.pattern.trigger? = some trigger) (plain : rule.lookbehind = false)
    (taken : Taken (findWith rule) text part) : part.head? = some trigger := by
  obtain ⟨piece, start, stop, -, found, ordered, rfl⟩ := taken
  obtain ⟨result, searched, -, -, atStart⟩ := search_of_findWith found
  have head := Pattern.search_head triggered searched
  rw [atStart plain] at head
  rw [List.drop_take, List.head?_take, if_neg (by omega)]
  exact head

/-- A part of a text that starts with another character is shorter than the text. -/
theorem shorter_of_head {text part : Text} {c d : Char} (inside : part <:+: text)
    (starts : text.head? = some c) (partStarts : part.head? = some d) (differ : c ≠ d) :
    part.length < text.length := by
  refine Nat.lt_of_le_of_ne inside.length_le ?_
  intro same
  rw [inside.eq_of_length same, starts] at partStarts
  exact differ (Option.some.inj partStarts)

/-- The rules for a whole text lead to tags in it, and to sets from which none leads on. -/
theorem leads_of_grammar {text part : Text} {name : String} {rule : Rule}
    (tried : (name, rule) ∈
      RuleSet.chainRules (grammar keywords depth) (grammar keywords depth))
    (taken : Taken (findWith rule) text part) :
    LeadsBelow keywords depth (2 * text.length + 1) part rule.inside := by
  rw [rules_of_grammar] at tried
  rcases List.mem_append.mp tried with before | behind
  · exact leads_of_all (Nat.succ_pos _) rfl before
  · rcases List.mem_cons.mp behind with same | later
    · cases same
      have starts : part.head? = some '<' := taken_head rfl rfl taken
      have short := taken.piece.length_le
      exact ⟨2 * part.length, by omega, .tag starts⟩
    · refine leads_of_all (Nat.succ_pos _) ?_ later
      cases keywords <;> rfl

/-- The rules for a tag lead to shorter texts, and to sets from which none leads on. -/
theorem leads_of_tagInside {text part : Text} {name : String} {rule : Rule}
    (tried : (name, rule) ∈ RuleSet.chainRules (grammar keywords depth) (tagInside depth))
    (starts : text.head? = some '<') (taken : Taken (findWith rule) text part) :
    LeadsBelow keywords depth (2 * text.length) part rule.inside := by
  have filled : 0 < 2 * text.length := by
    cases text with
    | nil => cases starts
    | cons c later => simp only [List.length_cons]; omega
  rw [rules_of_tagInside] at tried
  rcases List.mem_cons.mp tried with same | tried
  · cases same
    exact leads_of_endsSoon filled rfl
  rcases List.mem_cons.mp tried with same | tried
  · cases same
    have partStarts : part.head? = some '=' := taken_head rfl rfl taken
    have short := shorter_of_head taken.piece starts partStarts (by decide)
    exact ⟨2 * part.length + 1, by omega, .script part⟩
  rcases List.mem_cons.mp tried with same | tried
  · cases same
    have partStarts : part.head? = some '\x7b' := taken_head rfl rfl taken
    have short := shorter_of_head taken.piece starts partStarts (by decide)
    exact ⟨2 * part.length + 1, by omega, .whole part⟩
  · exact leads_of_all filled rfl tried

/-- The sets of the templ grammar are used on lower and lower levels. -/
theorem uses_descend (keywords : List Text) (depth : Nat) :
    Descends (grammar keywords depth) (Uses keywords depth) := by
  intro level set text name rule part used tried taken
  cases used with
  | whole text => exact leads_of_grammar tried taken
  | script text =>
    rw [rules_of_scriptInside] at tried
    rcases List.mem_cons.mp tried with same | tried
    · cases same
      trivial
    · exact leads_of_grammar tried taken
  | tag starts => exact leads_of_tagInside tried starts taken
  | flat text flat =>
    have linked : rule.inside = .none := none_of_isEnd (List.all_eq_true.mp flat _ tried)
    rw [linked]
    trivial

/-- There is more fuel for a text than there are levels. -/
theorem levels_lt_depthBound (keywords : List Text) (depth : Nat) (text : Text) :
    2 * text.length + 1 < (grammar keywords depth).depthBound text.length := by
  have sets : 2 ≤ (grammar keywords depth).setCount + 1 := by
    simp only [grammar, RuleSet.setCount]
    omega
  have bound := Nat.mul_le_mul_left (text.length + 1) sets
  unfold RuleSet.depthBound
  omega

/-- Splitting a text with the templ grammar has a result. -/
theorem tokenize_total (keywords : List Text) (depth : Nat) (text : Text) :
    ∃ items, (grammar keywords depth).tokenize text = .ok items := by
  have usable := grammar_usable keywords depth
  exact splitWith_total (uses_descend keywords depth) usable usable (.whole text)
    (levels_lt_depthBound keywords depth text)

end TemplHighlight.Templ
