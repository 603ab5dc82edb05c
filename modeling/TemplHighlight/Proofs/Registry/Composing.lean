import TemplHighlight.Proofs.Registry.Installing
import TemplHighlight.Proofs.Registry.Shipped

/-!
# What is composed

A templ grammar is composed from two grammars of the registry and from nothing else: the markup
grammar, which must have a tag rule, and the script grammar, which must have a keyword rule. It has
the comment rules of both. So each grammar that was composed can be told from every grammar that it
is made of: by the number of its comment rules, which grows.

Each of the two base grammars can be composed in its own role only.
-/

namespace TemplHighlight

namespace RuleSet

/-- The rules that were put under a name. -/
theorem rules_extend_self (set : RuleSet) (name : String) (rules : List Rule) :
    (set.extend [(name, rules)]).rules name = rules := by
  show (Pairs.get? name (Pairs.put name rules set.entries)).getD [] = rules
  rw [Pairs.get?_put_self]
  rfl

/-- The rules under other names stay. -/
theorem rules_extend_other {name other : String} (differ : other ≠ name) (set : RuleSet)
    (rules : List Rule) : (set.extend [(name, rules)]).rules other = set.rules other := by
  show (Pairs.get? other (Pairs.put name rules set.entries)).getD [] = set.rules other
  rw [Pairs.get?_put_other differ]
  rfl

/-- The number of comment rules. -/
def commentCount (set : RuleSet) : Nat := (set.rules "comment").length

end RuleSet

namespace Grammar

/-- A markup grammar followed by a script grammar, with the comments of both. -/
def joined (markup script : RuleSet) : RuleSet :=
  let comments := script.rules "comment" ++ markup.rules "comment"
  if comments.isEmpty then markup.extend script.entries
  else (markup.extend script.entries).extend [("comment", comments)]

/-- Composing two grammars, with every way in which it can fail, in order. -/
theorem compose_grammars (markup script : RuleSet) (depth : Int) :
    compose (.to markup) (.to script) depth =
      if markup.has "tag" = false then
        .error (.missing "markup" (some "grammar has no tag rule"))
      else
        (Pattern.checkDepth depth).mapError .pattern >>= fun depth =>
          match markup.rules "tag" with
          | [tag] =>
            match tag.inside with
            | .to inside => (templInside depth (script.rules "comment") inside).map fun inside =>
              (joined markup script).extend
                [("tag", [{ tag with pattern := .tag depth, inside := .to inside }])]
            | _ => .error .noInside
          | _ => .error (.notSingle "tag") := by
  -- Both links lead to a set, so that only the tests of the two grammars are left.
  dsimp only [compose, bind, Except.bind]
  cases markup.has "tag" with
  | false => rfl
  | true =>
    cases Pattern.checkDepth depth with
    | error error => rfl
    | ok depth =>
      rcases markup.rules "tag" with _ | ⟨tag, _ | _⟩
      · rfl
      · obtain ⟨pattern, inside, aliases, lookbehind, greedy, kind⟩ := tag
        cases inside with
        | none => rfl
        | root => rfl
        | «to» inside => rfl
      · rfl

/-- A grammar can be composed only with a tag rule and a depth, and only the tag rule is other than
in the two grammars together. -/
theorem compose_ok {markup script grammar : RuleSet} {depth : Int}
    (composed : compose (.to markup) (.to script) depth = .ok grammar) :
    markup.has "tag" = true ∧ 0 ≤ depth ∧
      ∃ tag, grammar = (joined markup script).extend [("tag", [tag])] := by
  rw [compose_grammars] at composed
  by_cases tagged : markup.has "tag" = false
  · rw [if_pos tagged] at composed
    cases composed
  · rw [if_neg tagged] at composed
    obtain ⟨levels, checked, composed⟩ := Outcome.bind_eq_ok.mp composed
    have natural : 0 ≤ depth := by
      by_contra negative
      rw [Outcome.mapError_eq_ok, Pattern.checkDepth, if_pos (by omega)] at checked
      cases checked
    refine ⟨by simpa using tagged, natural, ?_⟩
    split at composed
    · split at composed
      · obtain ⟨inside, -, rfl⟩ := Outcome.map_eq_ok.mp composed
        exact ⟨_, rfl⟩
      · cases composed
    · cases composed

/-- Without a tag rule nothing is composed. -/
theorem compose_of_untagged {markup script : RuleSet} {depth : Int}
    (untagged : markup.has "tag" = false) :
    compose (.to markup) (.to script) depth =
      .error (.missing "markup" (some "grammar has no tag rule")) := by
  rw [compose_grammars, if_pos untagged]

/-- The two grammars together have the comment rules of both. -/
theorem comments_joined (markup script : RuleSet) :
    script.commentCount + markup.commentCount ≤ (joined markup script).commentCount := by
  unfold joined RuleSet.commentCount
  by_cases empty : (script.rules "comment" ++ markup.rules "comment").isEmpty = true
  · rw [List.isEmpty_iff, List.append_eq_nil_iff] at empty
    simp [empty.1, empty.2]
  · refine Nat.le_of_eq ?_
    rw [if_neg empty, RuleSet.rules_extend_self, List.length_append]

/-- Further keywords change the keyword rule alone, and there has to be one. -/
theorem extendKeywords_ok {base script : RuleSet} {keywords : List Text} {name : String}
    (extended : extendKeywords (.to base) keywords name = .ok script) :
    base.has "keyword" = true ∧
      ∀ other, other ≠ "keyword" → script.rules other = base.rules other := by
  unfold extendKeywords at extended
  cases has : base.has "keyword" with
  | false =>
    simp only [has] at extended
    cases extended
  | true =>
    refine ⟨rfl, fun other differ => ?_⟩
    simp only [has] at extended
    cases keywords with
    | nil =>
      cases extended
      rfl
    | cons keyword keywords =>
      obtain ⟨widened, -, result⟩ := Outcome.bind_eq_ok.mp extended
      cases result
      exact RuleSet.rules_extend_other differ base widened

/-- Without a keyword rule no keyword is added. -/
theorem extendKeywords_of_lacking {base : RuleSet} {keywords : List Text} {name : String}
    (lacking : base.has "keyword" = false) :
    extendKeywords (.to base) keywords name =
      .error (.missing name (some "grammar has no keyword rule")) := by
  unfold extendKeywords
  simp only [lacking]
  rfl

end Grammar

namespace Registry

variable {registry other : Registry} {config : Config} {grammar : RuleSet}

/-- Composing looks at two grammars only. -/
theorem composeTempl_congr
    (sameMarkup : registry.find? config.markupGrammar = other.find? config.markupGrammar)
    (sameScript : registry.find? config.scriptGrammar = other.find? config.scriptGrammar) :
    registry.composeTempl config = other.composeTempl config := by
  simp only [composeTempl, get, sameMarkup, sameScript]

/-- What is composed of two grammars that are there. -/
theorem composeTempl_found {markup base : RuleSet}
    (isMarkup : registry.find? config.markupGrammar = some markup)
    (isBase : registry.find? config.scriptGrammar = some base) :
    registry.composeTempl config =
      (do
        let script ← Grammar.extendKeywords (.to base) config.keywords config.scriptGrammar
        Grammar.compose (.to markup) (.to script) config.maxBraceDepth).mapError .compose := by
  simp only [composeTempl, get_eq_ok.mpr isMarkup, get_eq_ok.mpr isBase, Config.keywords, bind,
    Except.bind]
  cases Grammar.extendKeywords (.to base) (config.extraKeywords.map String.toList)
      config.scriptGrammar with
  | error error => rfl
  | ok script =>
    dsimp only
    cases Grammar.compose (.to markup) (.to script) config.maxBraceDepth <;> rfl

/-- The two grammars that a grammar was composed of. -/
theorem composeTempl_ok (composed : registry.composeTempl config = .ok grammar) :
    ∃ markup script, registry.find? config.markupGrammar = some markup ∧
      registry.find? config.scriptGrammar = some script ∧
      markup.has "tag" = true ∧ script.has "keyword" = true ∧ 0 ≤ config.maxBraceDepth ∧
      script.commentCount + markup.commentCount ≤ grammar.commentCount := by
  have found := composed
  rw [composeTempl, Outcome.bind_eq_ok] at found
  obtain ⟨markup, isMarkup, found⟩ := found
  obtain ⟨base, isBase, -⟩ := Outcome.bind_eq_ok.mp found
  rw [get_eq_ok] at isMarkup isBase
  rw [composeTempl_found isMarkup isBase, Outcome.mapError_eq_ok] at composed
  obtain ⟨script, extended, composed⟩ := Outcome.bind_eq_ok.mp composed
  obtain ⟨keyworded, sameRules⟩ := Grammar.extendKeywords_ok extended
  obtain ⟨tagged, depth, tag, rfl⟩ := Grammar.compose_ok composed
  refine ⟨markup, base, isMarkup, isBase, tagged, keyworded, depth, ?_⟩
  have both := Grammar.comments_joined markup script
  unfold RuleSet.commentCount at both ⊢
  rwa [RuleSet.rules_extend_other (by decide), ← sameRules "comment" (by decide)]

/-! ## What can be composed of the base grammars -/

/-- Of the base grammars only the one for markup has a tag rule, and only the one for scripts has a
keyword rule. -/
theorem base_roles {language : String} (found : base.find? language = some grammar) :
    (grammar.has "tag" = true → language = "markup" ∧ grammar = Grammar.markup) ∧
      (grammar.has "keyword" = true → language = "go" ∧ grammar = Grammar.go) := by
  have grammars : base.grammars = [("markup", ⟨Grammar.markup, 0⟩), ("go", ⟨Grammar.go, 1⟩)] := rfl
  rw [find?, grammars, Pairs.get?, Pairs.get?, Pairs.get?] at found
  split at found
  next isMarkup =>
    cases found
    exact ⟨fun _ => ⟨isMarkup.symm, rfl⟩, fun keyworded => absurd keyworded (by decide)⟩
  next =>
    split at found
    next isGo =>
      cases found
      exact ⟨fun tagged => absurd tagged (by decide), fun _ => ⟨isGo.symm, rfl⟩⟩
    next => cases found

/-- A configuration whose two grammars are there from the start, each in its role, is one with the
shipped grammars. -/
theorem shipped_of_roles {markup script : RuleSet} (natural : 0 ≤ config.maxBraceDepth)
    (isMarkup : base.find? config.markupGrammar = some markup)
    (isScript : base.find? config.scriptGrammar = some script)
    (tagged : markup.has "tag" = true) (keyworded : script.has "keyword" = true) :
    ∃ depth : Nat, config = config.shipped depth := by
  obtain ⟨depth, depthIs⟩ := Int.eq_ofNat_of_zero_le natural
  have markupIs := ((base_roles isMarkup).1 tagged).1
  have scriptIs := ((base_roles isScript).2 keyworded).1
  refine ⟨depth, ?_⟩
  rw [Config.shipped, ← markupIs, ← scriptIs]
  exact congrArg (fun depth => { config with maxBraceDepth := depth }) depthIs

/-- Only the shipped grammars can be composed when nothing else was installed. -/
theorem shipped_of_composed (composed : base.composeTempl config = .ok grammar) :
    ∃ depth : Nat, config = config.shipped depth ∧
      grammar = Templ.grammar config.keywords depth := by
  obtain ⟨markup, script, isMarkup, isScript, tagged, keyworded, natural, -⟩ :=
    composeTempl_ok composed
  obtain ⟨depth, shipped⟩ := shipped_of_roles natural isMarkup isScript tagged keyworded
  rw [shipped, composeTempl_shipped] at composed
  exact ⟨depth, shipped, (Except.ok.inj composed).symm⟩

end Registry

end TemplHighlight
