import TemplHighlight.Grammar.RuleSet
import TemplHighlight.Proofs.Pairs

/-!
# Rules put under their names

Extending a rule set lays the table of the new rules over its own. So it is associative, own rules
change nothing, and to replace the rules under a name is to extend by them where that adds no name.
Rules under different names can be replaced in any order.
-/

namespace TemplHighlight.RuleSet

variable {set first second third : RuleSet} {name other : String}
  {more own : List (String × List Rule)}

/-! ## Names and rules -/

/-- New rules with distinct names are laid over the table as they are. -/
theorem extend_of_nodup (distinct : (Pairs.names more).Nodup) :
    set.extend more = { set with entries := Pairs.putAll set.entries more } := by
  rw [extend, Pairs.ofList_distinct distinct]

/-- A set is extended by putting entries with distinct names into it, one after the other. -/
theorem entries_extend (distinct : (Pairs.names more).Nodup) :
    (set.extend more).entries = Pairs.putAll set.entries more := by
  rw [extend_of_nodup distinct]

/-- Extending keeps the names in their places and puts the new ones behind them. -/
theorem names_extend (distinct : (Pairs.names more).Nodup) :
    (set.extend more).names = set.names ++ (Pairs.names more).filter (· ∉ set.names) := by
  rw [names, entries_extend distinct, Pairs.names_putAll_of_nodup distinct, ← names]

/-- Extending by one name. -/
theorem names_extend_one (set : RuleSet) (name : String) (rules : List Rule) :
    (set.extend [(name, rules)]).names =
      if name ∈ set.names then set.names else set.names ++ [name] :=
  Pairs.names_put name rules set.entries

/-- Where a name was there, extending keeps all names. -/
theorem names_extend_there (there : name ∈ set.names) (rules : List Rule) :
    (set.extend [(name, rules)]).names = set.names := by
  rw [names_extend_one, if_pos there]

/-- The rules that a set is extended by come first, under their names. -/
theorem rules_extend (distinct : (Pairs.names more).Nodup) (name : String) :
    (set.extend more).rules name =
      ((Pairs.get? name more).or (Pairs.get? name set.entries)).getD [] := by
  rw [rules, entries_extend distinct, Pairs.get?_putAll_of_nodup distinct]

/-- A set has rules under its names, also where none of them is left. -/
theorem has_iff : set.has name = true ↔ name ∈ set.names := Pairs.has_iff

/-! ## One set over another -/

/-- Two extensions one after the other are one, by the second rules over the first. -/
theorem extend_extend (distinct : first.names.Nodup) (secondDistinct : second.names.Nodup)
    (thirdDistinct : third.names.Nodup) :
    (first.extend second.entries).extend third.entries =
      first.extend (second.extend third.entries).entries := by
  have bothDistinct := Pairs.nodup_names_putAll secondDistinct third.entries
  rw [extend_of_nodup thirdDistinct, extend_of_nodup secondDistinct, entries_extend thirdDistinct,
    extend_of_nodup bothDistinct, Pairs.putAll_putAll distinct secondDistinct thirdDistinct]

/-- A set that is extended by rules it has stays as it is. -/
theorem extend_own (distinct : set.names.Nodup) (within : own ⊆ set.entries) :
    set.extend own = set := by
  obtain ⟨label, entries, rest⟩ := set
  have unchanged := Pairs.putAll_own distinct fun _ member => within (Pairs.ofList_subset own member)
  exact congrArg (RuleSet.mk label · rest) unchanged

/-- Rules are replaced where there are some by extending, and nowhere else. -/
theorem replace?_eq (set : RuleSet) (name : String) (rules : List Rule) :
    set.replace? name rules =
      if name ∈ set.names then some (set.extend [(name, rules)]) else none := by
  rw [replace?]
  exact if_congr has_iff rfl rfl

/-- The rules under two names are replaced in any order. -/
theorem replace?_comm (distinct : set.names.Nodup) (differ : name ≠ other)
    (rules otherRules : List Rule) :
    (set.replace? name rules).bind (·.replace? other otherRules) =
      (set.replace? other otherRules).bind (·.replace? name rules) := by
  rw [replace?_eq, replace?_eq]
  by_cases there : name ∈ set.names
  · by_cases otherThere : other ∈ set.names
    · have swapped := Pairs.put_comm distinct there otherThere differ rules otherRules
      have same : (set.extend [(name, rules)]).extend [(other, otherRules)] =
          (set.extend [(other, otherRules)]).extend [(name, rules)] :=
        congrArg (RuleSet.mk set.label · set.rest) swapped
      rw [if_pos there, if_pos otherThere, Option.bind_some, Option.bind_some, replace?_eq,
        replace?_eq, names_extend_there there, names_extend_there otherThere, if_pos there,
        if_pos otherThere, same]
    · rw [if_pos there, if_neg otherThere, Option.bind_some, replace?_eq, names_extend_there there,
        if_neg otherThere]
      rfl
  · by_cases otherThere : other ∈ set.names
    · rw [if_neg there, if_pos otherThere, Option.bind_some, replace?_eq,
        names_extend_there otherThere, if_neg there]
      rfl
    · rw [if_neg there, if_neg otherThere, Option.bind_none, Option.bind_none]

/-- How extending and replacing act on three rule sets. -/
structure Overlays (first second third : RuleSet) : Prop where
  /-- Both ways of extending give one rule set: its names in their order, the rules under them and
  its rest. -/
  associative : (first.extend second.entries).extend third.entries =
    first.extend (second.extend third.entries).entries
  /-- Rules that are there change nothing, some of them or all. -/
  own : ∀ rules, rules ⊆ first.entries → first.extend rules = first
  itself : first.extend first.entries = first
  /-- Only rules under a name that is there can be replaced. -/
  replaces : ∀ name rules, (first.replace? name rules).isSome ↔ name ∈ first.names
  /-- Replacing is extending by one name, and keeps the order of the names. -/
  replaced : ∀ name rules result, first.replace? name rules = some result →
    result = first.extend [(name, rules)] ∧ result.names = first.names
  /-- Different names can be replaced in any order, with one result or none. -/
  commutes : ∀ name other rules otherRules, name ≠ other →
    (first.replace? name rules).bind (·.replace? other otherRules) =
      (first.replace? other otherRules).bind (·.replace? name rules)

/-- Extending lays rules over rules, whichever names the sets have in common and however many rules
stand under them. -/
theorem extend_overlays (first second third : RuleSet) (distinct : first.names.Nodup)
    (secondDistinct : second.names.Nodup) (thirdDistinct : third.names.Nodup) :
    Overlays first second third := by
  constructor
  case associative => exact extend_extend distinct secondDistinct thirdDistinct
  case own =>
    intro rules within
    exact extend_own distinct within
  case itself => exact extend_own distinct (List.Subset.refl _)
  case replaces =>
    intro name rules
    rw [replace?_eq]
    by_cases there : name ∈ first.names <;> simp [there]
  case replaced =>
    intro name rules result replaced
    rw [replace?_eq] at replaced
    split at replaced
    next there =>
      cases replaced
      exact ⟨rfl, names_extend_there there rules⟩
    next => cases replaced
  case commutes =>
    intro name other rules otherRules differ
    exact replace?_comm distinct differ rules otherRules

/-- Names with one rule, with two and with none. -/
def someNames : RuleSet :=
  .ofList "some" [("a", [{ pattern := .braces 0 }]), ("b", []),
    ("c", [{ pattern := .spread 0 }, { pattern := .braces 1 }])]

/-- Other names, one of them there already. -/
def otherNames : RuleSet := .ofList "other" [("d", []), ("c", [{ pattern := .braces 2 }])] .root

/-- Names of both, and one that is new. -/
def mixedNames : RuleSet :=
  .ofList "mixed" [("e", []), ("d", [{ pattern := .spread 1 }]), ("a", []), ("c", [])]

/-- Three sets, each with names of the others, and the order of what comes out. -/
theorem extend_overlays_overlapping :
    Overlays someNames otherNames mixedNames ∧
      ((someNames.extend otherNames.entries).extend mixedNames.entries).names =
        ["a", "b", "c", "d", "e"] :=
  have distinct : someNames.names.Nodup := by decide
  have otherDistinct : otherNames.names.Nodup := by decide
  have mixedDistinct : mixedNames.names.Nodup := by decide
  ⟨extend_overlays someNames otherNames mixedNames distinct otherDistinct mixedDistinct, by decide⟩

end TemplHighlight.RuleSet
