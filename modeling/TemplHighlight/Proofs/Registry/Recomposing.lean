import TemplHighlight.Proofs.Registry.Composing
import TemplHighlight.Proofs.Registry.Shipped
import TemplHighlight.Proofs.Templ.Recomposed

/-!
# Installing over what was installed

A configuration may name any language for any role, also one that a templ grammar was installed for
before. Whatever was installed, all grammars of a registry can be composed again, so an installation
fails for want of a grammar only, and the language that it was made for splits every text. A
registry in which this holds of the grammars stays so.
-/

namespace TemplHighlight

namespace Registry

open Grammar

variable {registry : Registry} {config : Config} {grammar : RuleSet} {language : String}

/-- A registry all of whose grammars can be composed again. -/
def Composable (registry : Registry) : Prop :=
  ∀ language grammar, registry.find? language = some grammar → Layered grammar

/-- The base grammars can be composed. -/
theorem composable_base : Composable base := by
  intro language grammar found
  have grammars : base.grammars = [("markup", ⟨Grammar.markup, 0⟩), ("go", ⟨Grammar.go, 1⟩)] := rfl
  rw [find?, grammars, Pairs.get?, Pairs.get?, Pairs.get?] at found
  split at found
  · cases found
    exact layered_markup
  · split at found
    · cases found
      exact layered_go
    · cases found

/-- Of grammars that can be composed one is made, unless one of the two is missing or lacks what it
is needed for. -/
theorem Composable.composeTempl (composable : Composable registry)
    (natural : 0 ≤ config.maxBraceDepth) :
    (∃ grammar, registry.composeTempl config = .ok grammar ∧ Composed grammar) ∨
      ∃ name detail, registry.composeTempl config = .error (.compose (.missing name detail)) := by
  cases isMarkup : registry.find? config.markupGrammar with
  | none =>
    refine .inr ⟨config.markupGrammar, none, ?_⟩
    simp only [Registry.composeTempl, get, isMarkup]
    rfl
  | some markup =>
    cases isScript : registry.find? config.scriptGrammar with
    | none =>
      refine .inr ⟨config.scriptGrammar, none, ?_⟩
      simp only [Registry.composeTempl, get, isMarkup, isScript]
      rfl
    | some script =>
      rw [composeTempl_found isMarkup isScript]
      have ofMarkup := composable _ _ isMarkup
      have ofScript := composable _ _ isScript
      cases keyworded : script.has "keyword" with
      | false =>
        rw [extendKeywords_of_lacking keyworded]
        exact .inr ⟨config.scriptGrammar, _, rfl⟩
      | true =>
        obtain ⟨extended, extends', ofExtended⟩ :=
          extendKeywords_total ofScript keyworded config.keywords config.scriptGrammar
        rw [extends']
        cases tagged : markup.has "tag" with
        | false => exact .inr ⟨"markup", _, congrArg _ (compose_of_untagged tagged)⟩
        | true =>
          obtain ⟨depth, depthIs⟩ := Int.eq_ofNat_of_zero_le natural
          obtain ⟨grammar, made, composed⟩ := compose_total ofMarkup ofExtended tagged depth
          refine .inl ⟨grammar, ?_, composed⟩
          show Except.mapError _ (compose (.to markup) (.to extended) config.maxBraceDepth) = _
          rw [depthIs, made]
          rfl

/-- A registry whose grammars can all be composed again, and one of them was composed for a
language. -/
structure Shows (registry : Registry) (language : String) : Prop where
  composable : Composable registry
  composed : ∃ grammar, registry.find? language = some grammar ∧ Composed grammar

/-- What was composed can be composed again. -/
theorem Composable.withTempl (composable : Composable registry) (composed : Composed grammar)
    (language : String) : (registry.withTempl language grammar).Shows language where
  composable := by
    intro other found isFound
    rw [find?_withTempl] at isFound
    split at isFound
    · cases isFound
      exact composed.toLayered
    · exact composable other found isFound
  composed := ⟨grammar, (find?_withTempl ..).trans (if_pos rfl), composed⟩

/-- Every text has items in a language that a grammar was composed for, whatever hooks there are. -/
theorem Shows.highlight_total (shows : registry.Shows language) (text : Text) :
    ∃ items, registry.highlight text language = .ok items := by
  obtain ⟨grammar, found, composed⟩ := shows.composed
  obtain ⟨items, split⟩ := composed.tokenize_total text
  have installed := get_eq_ok.mpr found
  rw [highlight, installed, tokenize_installed installed split]
  exact ⟨_, rfl⟩

/-- Composing succeeds with a natural depth only. -/
theorem natural_of_composed (composed : registry.composeTempl config = .ok grammar) :
    0 ≤ config.maxBraceDepth := by
  obtain ⟨-, -, -, -, -, -, natural, -⟩ := composeTempl_ok composed
  exact natural

/-- An installation that succeeds was made of the grammars that the registry had. -/
theorem Composable.composed (composable : Composable registry)
    (made : registry.composeTempl config = .ok grammar) : Composed grammar := by
  rcases composable.composeTempl (natural_of_composed made) with
    ⟨other, same, isComposed⟩ | ⟨name, detail, refused⟩
  · rw [made] at same
    cases same
    exact isComposed
  · rw [refused] at made
    cases made

/-- A registry that has, for the language of a configuration, a grammar that was composed for that
configuration, and whose grammars can all be composed again. -/
structure Serves (registry : Registry) (config : Config) : Prop where
  composable : Composable registry
  composed : ∃ (earlier : Registry) (grammar : RuleSet), Composable earlier ∧
    earlier.composeTempl config = .ok grammar ∧ registry.find? config.language = some grammar

/-- Such a registry shows every text. -/
theorem Serves.shows (serves : registry.Serves config) : registry.Shows config.language := by
  obtain ⟨earlier, grammar, composable, made, found⟩ := serves.composed
  exact ⟨serves.composable, grammar, found, composable.composed made⟩

/-- An installation that succeeds leaves a registry that serves the configuration. -/
theorem Composable.of_installTempl (composable : Composable registry) {after : Registry}
    {log : Log} (installed : registry.installTempl config = .ok (after, log)) :
    after.Serves config := by
  obtain ⟨grammar, made, rfl⟩ := composed_of_installTempl installed
  have isComposed := composable.composed made
  exact ⟨(composable.withTempl isComposed config.language).composable, registry, grammar,
    composable, made, (find?_withTempl ..).trans (if_pos rfl)⟩

/-- An installation fails for want of a grammar only, unless the depth of brace groups is
negative. -/
theorem Composable.missing_of_installTempl (composable : Composable registry)
    (natural : 0 ≤ config.maxBraceDepth) {error : HighlightError}
    (refused : registry.installTempl config = .error error) :
    ∃ name detail, error = .compose (.missing name detail) := by
  rcases composable.composeTempl natural with ⟨grammar, made, -⟩ | ⟨name, detail, missing⟩
  · obtain ⟨log, installed⟩ := installTempl_of_composed made
    cases refused.symm.trans installed
  · rw [installTempl_of_refused missing] at refused
    cases refused
    exact ⟨name, detail, rfl⟩

/-- A new registry cannot be made for want of a grammar only. -/
theorem create_or_missing (natural : 0 ≤ config.maxBraceDepth) :
    (∃ registry log, create config = .ok (registry, log)) ∨
      ∃ name detail, create config = .error (.compose (.missing name detail)) := by
  cases created : create config with
  | ok made => exact .inl ⟨made.1, made.2, rfl⟩
  | error error =>
    obtain ⟨name, detail, rfl⟩ := composable_base.missing_of_installTempl natural created
    exact .inr ⟨name, detail, rfl⟩

end Registry

end TemplHighlight
