import TemplHighlight.Grammar.Pattern
import TemplHighlight.Pairs
import TemplHighlight.Token.Kind

/-!
# Rule sets

A grammar is a rule set: names in order, each with the rules that go by it. A rule finds a pattern
and says what becomes of the text found: the kind and the aliases of the token, and the rule set
that splits its content further. A rule set may go on with another one, its rest. Both links may
also lead to the root, the grammar that the whole text is split with.

Editing a rule set gives a new one and leaves the old as it was.
-/

namespace TemplHighlight

/-- Where a rule set is looked for. -/
inductive Link (Set : Type) where
  | none
  /-- The grammar that the whole text is split with. -/
  | root
  | to (set : Set)

/-- A rule over some type of rule sets. -/
structure RuleOver (Set : Type) where
  pattern : Pattern
  /-- The rules that split the text found. -/
  inside : Link Set := .none
  aliases : List String := []
  /-- What the pattern's group took stands before the token and is not part of it. -/
  lookbehind : Bool := false
  /-- The match may take in tokens that earlier rules made. -/
  greedy : Bool := false
  /-- The kind of the token, if it is not the one that the rule's name says. -/
  kind : Option TokenKind := Option.none

/-- A rule set. -/
structure RuleSet where
  /-- Tells rule sets on a chain of rests apart; sets with one label count as one set. -/
  label : String
  /-- The rules by name, in the order in which they are tried. -/
  entries : List (String × List (RuleOver RuleSet))
  /-- The rules to go on with. -/
  rest : Link RuleSet

/-- A rule of a rule set. -/
abbrev Rule := RuleOver RuleSet

namespace Rule

/-- The first match in a text: where the token starts and where it stops. -/
def find (rule : Rule) (text : Text) : Except PatternError (Option (Nat × Nat)) := do
  match ← rule.pattern.search text with
  | none => return none
  | some found =>
    if rule.lookbehind then
      let group ← rule.pattern.groupOf found.group
      return some (found.start + (group.getD []).length, found.stop)
    else
      return some (found.start, found.stop)

/-- The kind of the tokens that the rule makes under a name. -/
def kindFor? (rule : Rule) (name : String) : Option TokenKind :=
  rule.kind.or (TokenKind.ofName? name)

/-- The report of fields that a rule does not have, if some of the given ones are such. -/
def unknownFields? (given : List String) : Option Text :=
  let known := ["pattern", "inside", "alias", "lookbehind", "greedy", "kind"]
  let unknown := (given.filter (!known.contains ·)).mergeSort fun a b => decide (a ≤ b)
  if unknown.isEmpty then none
  else some ("Unknown rule fields: ".toList ++ Text.join ", ".toList (unknown.map String.toList))

/-- The form in which a rule is shown in messages. -/
def shown (rule : Rule) : Text := "Rule(".toList ++ rule.pattern.shown ++ [')']

end Rule

namespace RuleSet

/-- The rule set of a list of names with their rules. -/
def ofList (label : String) (entries : List (String × List Rule)) (rest : Link RuleSet := .none) :
    RuleSet :=
  ⟨label, Pairs.ofList entries, rest⟩

/-- The rule set without rules. -/
def empty (label : String) : RuleSet := ⟨label, [], .none⟩

/-- The names of the rules, in order. -/
def names (set : RuleSet) : List String := Pairs.names set.entries

/-- Whether there are rules under a name, even if none of them is left. -/
def has (set : RuleSet) (name : String) : Bool := Pairs.has name set.entries

/-- The rules under a name; none under a name that is not there. -/
def rules (set : RuleSet) (name : String) : List Rule := (Pairs.get? name set.entries).getD []

/-- All rules with their names, in the order in which they are tried. -/
def allRules (set : RuleSet) : List (String × Rule) :=
  set.entries.flatMap fun (name, rules) => rules.map (name, ·)

/-- Puts rules under their names. Names that are there keep their places, new ones come last. -/
def extend (set : RuleSet) (more : List (String × List Rule)) : RuleSet :=
  { set with entries := Pairs.putAll set.entries (Pairs.ofList more) }

/-- Puts other rules under a name that is there. -/
def replace? (set : RuleSet) (name : String) (rules : List Rule) : Option RuleSet :=
  if set.has name then some (set.extend [(name, rules)]) else none

/-- The set without the rules under a name. -/
def without (set : RuleSet) (name : String) : RuleSet :=
  { set with entries := Pairs.erase name set.entries }

/-- Puts entries into a table one after the other. The new ones are put when their place comes,
right ahead of the name `before`, and at the end if they are not `placed` by then. An old entry
under one of their names is left out. -/
def rebuild (before : String) (new : List (String × List Rule)) (built : List (String × List Rule))
    (placed : Bool) : List (String × List Rule) → List (String × List Rule)
  | [] => if placed then built else Pairs.putAll built new
  | (name, rules) :: entries =>
    let opened := if name = before then Pairs.putAll built new else built
    let kept := if Pairs.has name new then opened else Pairs.put name rules opened
    rebuild before new kept (placed || name == before) entries

/-- Puts new rules ahead of a name. Those whose names are there already move; if the name to put
them ahead of is not there, they come last. -/
def insertBefore (set : RuleSet) (before : String) (newRules : List (String × List Rule)) :
    RuleSet :=
  { set with entries := rebuild before (Pairs.ofList newRules) [] false set.entries }

/-- The set with another rest. -/
def withRest (set : RuleSet) (rest : Link RuleSet) : RuleSet := { set with rest }

/-- The same rules as a set of its own on a chain of rests. -/
def relabel (set : RuleSet) (label : String) : RuleSet := { set with label }

/-- The form in which a rule set is shown in messages. -/
def shown (set : RuleSet) : Text :=
  "RuleSet(".toList ++ Text.join ", ".toList (set.names.map String.toList) ++ [')']

mutual

/-- The number of rule sets that a rule set is made of, itself included. -/
def setCount : RuleSet → Nat
  | ⟨_, entries, rest⟩ => 1 + setCountEntries entries + setCountLink rest

/-- The number of rule sets behind a link. -/
def setCountLink : Link RuleSet → Nat
  | .none | .root => 0
  | .to set => set.setCount

/-- The number of rule sets inside some entries. -/
def setCountEntries : List (String × List (RuleOver RuleSet)) → Nat
  | [] => 0
  | entry :: entries => setCountEntry entry + setCountEntries entries

/-- The number of rule sets inside an entry. -/
def setCountEntry : String × List (RuleOver RuleSet) → Nat
  | (_, rules) => setCountRules rules

/-- The number of rule sets inside some rules. -/
def setCountRules : List (RuleOver RuleSet) → Nat
  | [] => 0
  | rule :: rules => setCountRule rule + setCountRules rules

/-- The number of rule sets inside a rule. -/
def setCountRule : RuleOver RuleSet → Nat
  | ⟨_, inside, _, _, _, _⟩ => setCountLink inside

end

mutual

/-- A rule set and the sets that its rest leads to, up to the end or to a link to the root. -/
def links : RuleSet → List RuleSet
  | ⟨label, entries, rest⟩ => ⟨label, entries, rest⟩ :: linksFrom rest

/-- The sets that a link leads to. -/
def linksFrom : Link RuleSet → List RuleSet
  | .none | .root => []
  | .to set => set.links

end

mutual

/-- Whether the chain of rests ends with a link to the root. -/
def endsAtRoot : RuleSet → Bool
  | ⟨_, _, rest⟩ => linkEndsAtRoot rest

/-- Whether the chain behind a link ends with one to the root. -/
def linkEndsAtRoot : Link RuleSet → Bool
  | .none => false
  | .root => true
  | .to set => set.endsAtRoot

end

/-- The sets of a list up to the first whose label came before. -/
def takeUnseen (seen : List String) : List RuleSet → List RuleSet
  | [] => []
  | set :: sets => if set.label ∈ seen then [] else set :: takeUnseen (set.label :: seen) sets

/-- The rule sets whose rules are tried on a text, in order: the set itself and the sets on its
chain of rests, with the root's chain where a link leads to the root. The chain stops at the first
set that was there before, so a root that leads back to itself does no harm. -/
def chain (root set : RuleSet) : List RuleSet :=
  takeUnseen [] (set.links ++ if set.endsAtRoot then root.links else [])

/-- The rules that are tried on a text, with their names, in order. -/
def chainRules (root set : RuleSet) : List (String × Rule) :=
  (chain root set).flatMap allRules

end RuleSet

end TemplHighlight
