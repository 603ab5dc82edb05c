import TemplHighlight.Proofs.Registry.Installing
import TemplHighlight.Proofs.Templ.Total

/-!
# Registries over the shipped grammars

A configuration that names the two grammars that are shipped leaves three things open: the language
to install for, the further keywords, and the depth of brace groups, which is not negative. Each of
these configurations gives a registry. The registry splits every text with the templ grammar of
those keywords and that depth, and marking is all that highlighting adds.
-/

namespace TemplHighlight

/-- The configuration with the shipped grammars and a depth of brace groups; the rest, among it the
language and the further keywords, is as it was. -/
def Config.shipped (config : Config) (depth : Nat) : Config :=
  { config with markupGrammar := "markup", scriptGrammar := "go", maxBraceDepth := depth }

/-- The further keywords of a configuration, as texts. -/
def Config.keywords (config : Config) : List Text := config.extraKeywords.map String.toList

namespace Registry

open TagBody Templ

variable {registry : Registry} {language : String} {text : Text} {items : List Tree}

/-- A registry splits a text with the grammar of the language. -/
theorem tokenize_installed {grammar : RuleSet} (installed : registry.get language = .ok grammar)
    (split : grammar.tokenize text = .ok items) :
    registry.tokenize text language = .ok items := by
  rw [tokenize, Outcome.bind_eq_ok]
  refine ⟨grammar, installed, ?_⟩
  simp only [split]
  rfl

/-- It marks the items if there is only the hook that does so. -/
theorem highlight_installed {grammar : RuleSet} (installed : registry.get language = .ok grammar)
    (hooked : registry.hooksOf afterTokenize = [.plainText language])
    (split : grammar.tokenize text = .ok items) :
    registry.highlight text language = .ok (mark items) := by
  rw [highlight, installed, tokenize_installed installed split]
  show Except.ok (registry.runHooks afterTokenize
    ⟨some text, some language, some grammar, items⟩).tokens = _
  rw [runHooks, hooked]
  simp [Hook.apply]

/-- The grammar that a configuration with the shipped grammars composes. -/
theorem composeTempl_shipped (config : Config) (depth : Nat) :
    base.composeTempl (config.shipped depth) = .ok (grammar config.keywords depth) := by
  have made : (do
      let script ← Grammar.extendKeywords (.to Grammar.go) config.keywords "go"
      Grammar.compose (.to Grammar.markup) (.to script) depth) =
      Except.ok (grammar config.keywords depth) := composed_grammar config.keywords depth
  rw [composeTempl, Outcome.bind_eq_ok]
  refine ⟨Grammar.markup, rfl, ?_⟩
  rw [Outcome.bind_eq_ok]
  refine ⟨Grammar.go, rfl, ?_⟩
  simp only [Config.keywords] at made
  simp only [Config.shipped, made]
  rfl

/-- A configuration with the shipped grammars gives a registry that has the templ grammar under its
language, and no hook but the one for the text of tag bodies. -/
theorem create_shipped (config : Config) (depth : Nat) :
    ∃ registry log, create (config.shipped depth) = .ok (registry, log) ∧
      registry.get config.language = .ok (grammar config.keywords depth) ∧
      registry.hooksOf afterTokenize = [.plainText config.language] := by
  obtain ⟨log, created⟩ := installTempl_of_composed (composeTempl_shipped config depth)
  have done := templInstalled base config.language (grammar config.keywords depth)
  refine ⟨_, log, created, get_eq_ok.mpr done.installed, ?_⟩
  rcases done.hooked with ⟨there, -⟩ | ⟨-, new⟩
  · cases there
  · exact new

end Registry

end TemplHighlight
