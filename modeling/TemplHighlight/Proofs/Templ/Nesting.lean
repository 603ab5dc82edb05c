import TemplHighlight.Proofs.Registry.Shipped
import TemplHighlight.Proofs.Split.Calls

/-!
# How deep the templ grammar nests

A tag in a text may hold spreads and brace groups, and these are split with the rules for a whole
text again, in which there may be tags. Each time the rules for a whole text are met again the text
is shorter, so the nesting ends: no chain of calls is longer than twice the text, and splitting needs
no more fuel than that. On the way no rule fails.
-/

namespace TemplHighlight

namespace Split

/-- The rules of the root are tried on every text that is split with a set: it is the root, or its
rests lead there. -/
def Enters (root set : RuleSet) : Prop := root ∈ RuleSet.chain root set

end Split

namespace Templ

open Split TagBody

variable {keywords : List Text} {depth : Nat}

/-- Where the rules for a whole text are tried, so is the rule for tags. -/
theorem tries_tag {set : RuleSet} (enters : Enters (grammar keywords depth) set) :
    ("tag", tagRule depth) ∈ RuleSet.chainRules (grammar keywords depth) set := by
  refine List.mem_flatMap.mpr ⟨grammar keywords depth, enters, ?_⟩
  show _ ∈ listed beforeTag ++ ("tag", tagRule depth) :: listed (behindTag keywords)
  exact List.mem_append_right _ List.mem_cons_self

/-- The rules for a whole text are tried on a whole text, on what a spread holds and on a brace
group, and with them on the level that the length of the text gives. -/
theorem used_of_enters {level : Nat} {set : RuleSet} {text : Text}
    (used : Uses keywords depth level set text) (enters : Enters (grammar keywords depth) set) :
    (set = grammar keywords depth ∨ set = scriptInside) ∧ level = 2 * text.length + 1 := by
  cases used with
  | whole text => exact ⟨.inl rfl, rfl⟩
  | script text => exact ⟨.inr rfl, rfl⟩
  | tag starts =>
    -- the chain of the set for a tag is this set alone
    have own : grammar keywords depth = tagInside depth := List.mem_singleton.mp enters
    have labels : "markup" = "markup tag" := congrArg RuleSet.label own
    exact absurd labels (by decide)
  | flat text flat =>
    have ends := List.all_eq_true.mp flat _ (tries_tag enters)
    cases ends

/-- The sets with which they are tried. -/
theorem enters_iff {level : Nat} {set : RuleSet} {text : Text}
    (used : Uses keywords depth level set text) :
    Enters (grammar keywords depth) set ↔ set = grammar keywords depth ∨ set = scriptInside := by
  constructor
  · intro enters
    exact (used_of_enters used enters).1
  · rintro (rfl | rfl)
    · exact List.mem_cons_self
    · exact List.mem_cons_of_mem _ List.mem_cons_self

/-- A whole text is not nested deeper than its length allows, whatever is called. -/
theorem nested_used {text : Text} {steps : Nat} {set : RuleSet} {piece : Text}
    (nested : Nested (grammar keywords depth) (grammar keywords depth) text steps set piece) :
    ∃ level, level + steps ≤ 2 * text.length + 1 ∧ Uses keywords depth level set piece :=
  nested.lower (uses_descend keywords depth) (.whole text)

/-- When the rules for a whole text are met again, the text is shorter. -/
theorem reentered_shorter {text : Text} {steps : Nat} {set : RuleSet} {piece : Text}
    (nested : Nested (grammar keywords depth) (grammar keywords depth) text steps set piece)
    (enters : Enters (grammar keywords depth) set) {further : Nat} {inner : RuleSet} {part : Text}
    (nestedThere : Nested (grammar keywords depth) set piece further inner part)
    (again : 0 < further) (reenters : Enters (grammar keywords depth) inner) :
    part.length < piece.length := by
  obtain ⟨level, -, used⟩ := nested_used nested
  obtain ⟨lower, below, usedThere⟩ := nestedThere.lower (uses_descend keywords depth) used
  rw [(used_of_enters used enters).2, (used_of_enters usedThere reenters).2] at below
  omega

/-- Every text that is reached by calls is split, with any fuel that is left when the whole text had
more than twice its length. -/
theorem nested_splits {text : Text} {steps : Nat} {set : RuleSet} {piece : Text}
    (nested : Nested (grammar keywords depth) (grammar keywords depth) text steps set piece) :
    ∃ parts, ∀ fuel, 2 * text.length + 1 < fuel + steps →
      splitWith (grammar keywords depth) fuel set piece = .ok parts := by
  have descends := uses_descend keywords depth
  have usable := grammar_usable keywords depth
  have setUsable := nested.only usable usable
  obtain ⟨level, bounded, used⟩ := nested_used nested
  obtain ⟨parts, split⟩ := splitWith_total descends usable setUsable used (Nat.lt_succ_self level)
  refine ⟨parts, ?_⟩
  intro fuel enough
  apply splitWith_enough descends (only_keeps usable) (only_keeps setUsable) used
    (Nat.lt_succ_self level) _ split
  omega

/-- Splitting and highlighting end with a result, for every configuration with the shipped grammars,
every depth of brace groups and every text. The registry is created and its templ grammar splits the
text, into what is then marked. However the rules lead from set to set, no chain of calls is longer
than twice the text and one, and whatever is reached is split with the fuel that is left; each time
the rules for a whole text are met again, through a spread or behind the rule of a brace group, the
text is shorter than where they were met before. And every rule of the grammar answers: its tokens
have a kind, and if something stands before them there is a group to read.

Proof: the rules for a whole text are used on a level of twice its length and one, a tag on a level
of twice its length, and any set that leads on is called on a lower level than the set that calls it,
since a spread and a brace group do not start as a tag does. So a chain of calls sinks by a level
with each call. That the rules answer is computed for the grammar as it is written down. -/
theorem nesting_ends (config : Config) (depth : Nat) (text : Text) :
    ∃ templ registry log items,
      Registry.create (config.shipped depth) = .ok (registry, log) ∧
      registry.get config.language = .ok templ ∧
      registry.tokenize text config.language = .ok items ∧
      registry.highlight text config.language = .ok (mark items) ∧
      (∀ fuel, 2 * text.length + 1 < fuel → splitWith templ fuel templ text = .ok items) ∧
      (∀ steps set piece, Nested templ templ text steps set piece →
        steps ≤ 2 * text.length + 1 ∧
        (∃ parts, ∀ fuel, 2 * text.length + 1 < fuel + steps →
          splitWith templ fuel set piece = .ok parts) ∧
        (Enters templ set ↔ set = templ ∨ set = scriptInside) ∧
        (Enters templ set → ∀ further inner part,
          Nested templ set piece further inner part → 0 < further → Enters templ inner →
            part.length < piece.length)) ∧
      templ.Only fun name rule => rule.Answers name := by
  obtain ⟨registry, log, created, installed, hooked⟩ := Registry.create_shipped config depth
  obtain ⟨items, split⟩ := tokenize_total config.keywords depth text
  have usable := grammar_usable config.keywords depth
  refine ⟨grammar config.keywords depth, registry, log, items, created, installed,
    Registry.tokenize_installed installed split,
    Registry.highlight_installed installed hooked split, ?_, ?_, ?_⟩
  · intro fuel enough
    exact splitWith_enough (uses_descend _ depth) (only_keeps usable) (only_keeps usable)
      (.whole text) (levels_lt_depthBound config.keywords depth text) enough split
  · intro steps set piece nested
    obtain ⟨level, bounded, used⟩ := nested_used nested
    refine ⟨by omega, nested_splits nested, enters_iff used, ?_⟩
    intro enters further inner part nestedThere again reenters
    exact reentered_shorter nested enters nestedThere again reenters
  · intro name rule held
    exact Rule.answers_of_usable (usable name rule held)

end Templ

end TemplHighlight
