import TemplHighlight.Proofs.Registry.Composing
import TemplHighlight.Proofs.Registry.Runs

/-!
# Installing again and again

One registry gets the templ grammars of several configurations, one after the other, as it does when
a site is told to use another configuration each time. What came before is forgotten as long as no
templ grammar was installed for a language that the last one is composed of: the last language then
has the same grammar, and is highlighted in the same way, as in a new registry. A templ grammar that
took the place of one of the two base grammars is not forgotten: it can be told from every base
grammar by the number of its comment rules.
-/

namespace TemplHighlight

open RegistryUse

variable {registry : Registry} {config : Config} {grammar : RuleSet}

namespace Registry

/-! ## Composed grammars are no base grammars -/

/-- Every grammar that another one can be composed of has the comment rules that its base grammar
has, and those of some languages have more. -/
structure Commented (composed : List String) (registry : Registry) : Prop where
  /-- The markup grammar has a comment rule, and whatever can stand for it has one. -/
  tagged : ∀ language grammar, registry.find? language = some grammar →
    grammar.has "tag" = true → 1 ≤ grammar.commentCount
  /-- The script grammar has two comment rules, and whatever can stand for it has two. -/
  keyworded : ∀ language grammar, registry.find? language = some grammar →
    grammar.has "keyword" = true → 2 ≤ grammar.commentCount
  /-- These languages have grammars that were composed. -/
  composed : ∀ language ∈ composed, ∀ grammar, registry.find? language = some grammar →
    3 ≤ grammar.commentCount

namespace Commented

variable {composed : List String}

/-- The base grammars have comment rules of their own. -/
theorem base : Commented [] base where
  tagged language grammar found tagged := by
    rw [((base_roles found).1 tagged).2]
    decide
  keyworded language grammar found keyworded := by
    rw [((base_roles found).2 keyworded).2]
    decide
  composed := nofun

/-- What is composed of two grammars has the comment rules of both. -/
theorem counts (commented : Commented composed registry)
    (made : registry.composeTempl config = .ok grammar) :
    ∃ markup script, registry.find? config.markupGrammar = some markup ∧
      registry.find? config.scriptGrammar = some script ∧
      1 ≤ markup.commentCount ∧ 2 ≤ script.commentCount ∧
      script.commentCount + markup.commentCount ≤ grammar.commentCount := by
  obtain ⟨markup, script, isMarkup, isScript, tagged, keyworded, -, both⟩ := composeTempl_ok made
  exact ⟨markup, script, isMarkup, isScript, commented.tagged _ _ isMarkup tagged,
    commented.keyworded _ _ isScript keyworded, both⟩

/-- So it has three at least. -/
theorem three_le (commented : Commented composed registry)
    (made : registry.composeTempl config = .ok grammar) : 3 ≤ grammar.commentCount := by
  obtain ⟨markup, script, -, -, one, two, both⟩ := commented.counts made
  omega

/-- If one of the two was composed itself, there is one more. -/
theorem four_le (commented : Commented composed registry)
    (made : registry.composeTempl config = .ok grammar) {language : String}
    (layered : language ∈ composed)
    (used : language = config.markupGrammar ∨ language = config.scriptGrammar) :
    4 ≤ grammar.commentCount := by
  obtain ⟨markup, script, isMarkup, isScript, one, two, both⟩ := commented.counts made
  rcases used with rfl | rfl
  · have three := commented.composed _ layered _ isMarkup
    omega
  · have three := commented.composed _ layered _ isScript
    omega

/-- One more templ grammar is installed. -/
theorem withTempl (commented : Commented composed registry)
    (made : registry.composeTempl config = .ok grammar) :
    Commented (composed ++ [config.language]) (registry.withTempl config.language grammar) := by
  have three := commented.three_le made
  have cases_of {language : String} {present : RuleSet}
      (found : (registry.withTempl config.language grammar).find? language = some present) :
      present = grammar ∨ language ≠ config.language ∧ registry.find? language = some present := by
    rw [find?_withTempl] at found
    split at found
    next => exact .inl (Option.some.inj found).symm
    next differ => exact .inr ⟨differ, found⟩
  constructor
  case tagged =>
    intro language present found tagged
    rcases cases_of found with rfl | ⟨-, old⟩
    · omega
    · exact commented.tagged language present old tagged
  case keyworded =>
    intro language present found keyworded
    rcases cases_of found with rfl | ⟨-, old⟩
    · omega
    · exact commented.keyworded language present old keyworded
  case composed =>
    intro language member present found
    rcases cases_of found with rfl | ⟨differ, old⟩
    · exact three
    · have earlier : language ∈ composed := by simpa [differ] using member
      exact commented.composed language earlier present old

/-- The languages that templ grammars were installed for have grammars that were composed. -/
theorem run (commented : Commented composed registry) (configs : List Config) :
    Commented (composed ++ Pairs.names (installs (configs.map .installTempl) registry))
      (RegistryUse.run (configs.map .installTempl) registry) := by
  induction configs generalizing composed registry with
  | nil =>
    show Commented (composed ++ []) registry
    rwa [List.append_nil]
  | cons config configs inductionHypothesis =>
    show Commented (composed ++ Pairs.names
        (((RegistryUse.installTempl config).installed? registry).toList ++
          installs (configs.map .installTempl) ((RegistryUse.installTempl config).after registry)))
      (RegistryUse.run (configs.map .installTempl)
        ((RegistryUse.installTempl config).after registry))
    rw [Pairs.names, List.map_append, ← List.append_assoc, after_installTempl, installed?]
    cases made : registry.composeTempl config with
    | error error =>
      rw [Option.toList_none, List.map_nil, List.append_nil]
      exact inductionHypothesis commented
    | ok grammar => exact inductionHypothesis (commented.withTempl made)

end Commented

/-- What a new registry composes has the comment rules of the base grammars and no more. -/
theorem commentCount_base (made : base.composeTempl config = .ok grammar) :
    grammar.commentCount = 3 := by
  obtain ⟨depth, -, rfl⟩ := shipped_of_composed made
  cases config.keywords <;> rfl

/-! ## What is left of the earlier installations -/

/-- The registry after the templ grammars of some configurations were installed, one after the
other, with those skipped that cannot be composed. -/
def afterConfigs (configs : List Config) : Registry :=
  RegistryUse.run (configs.map .installTempl) base

/-- The languages that these templ grammars were installed for. -/
def configured (configs : List Config) : List String :=
  Pairs.names (installs (configs.map .installTempl) base)

/-- A language that no templ grammar was installed for has what a new registry has for it. -/
theorem find?_afterConfigs {configs : List Config} {language : String}
    (untouched : language ∉ configured configs) :
    (afterConfigs configs).find? language = base.find? language := by
  rw [afterConfigs, (Recorded.of_run _).found, Recorded.base.found,
    Pairs.get?_reverse_append untouched]

/-- Installing again composes the same grammar if and only if none of the two that it is composed of
was composed itself. -/
theorem composeTempl_afterConfigs {configs : List Config} {fresh : RuleSet}
    (made : (afterConfigs configs).composeTempl config = .ok grammar)
    (created : base.composeTempl config = .ok fresh) :
    grammar = fresh ↔
      config.markupGrammar ∉ configured configs ∧ config.scriptGrammar ∉ configured configs := by
  constructor
  · intro same
    have three : grammar.commentCount = 3 := same ▸ commentCount_base created
    have commented : Commented (configured configs) (afterConfigs configs) :=
      Commented.base.run configs
    have notComposed {language : String}
        (used : language = config.markupGrammar ∨ language = config.scriptGrammar) :
        language ∉ configured configs := fun layered => by
      have four := commented.four_le made layered used
      omega
    exact ⟨notComposed (.inl rfl), notComposed (.inr rfl)⟩
  · rintro ⟨markupUntouched, scriptUntouched⟩
    rw [composeTempl_congr (find?_afterConfigs markupUntouched)
      (find?_afterConfigs scriptUntouched), created] at made
    exact (Except.ok.inj made).symm

-- A grammar in the place of the markup grammar gets the comment rules of scripts each time.
example :
    let config : Config := { language := "markup" }
    [[], [config], [config, config]].map
      (fun earlier => ((afterConfigs earlier).composeTempl config).toOption.map (·.commentCount)) =
      [some 3, some 5, some 7] := by
  decide +kernel

/-- The last configuration is highlighted with its grammar, and its tokens are marked. -/
theorem highlight_withTempl (configs : List Config)
    (made : (afterConfigs configs).composeTempl config = .ok grammar) (text : Text) :
    let registry := (afterConfigs configs).withTempl config.language grammar
    registry.highlight text config.language =
      (registry.tokenize text config.language).map TagBody.mark := by
  have recorded := (Recorded.of_run (configs.map .installTempl)).use (.installTempl config)
  have runs : (RegistryUse.run (configs.map .installTempl) base).composeTempl config =
    .ok grammar := made
  rw [after_installTempl, hooked?, installed?, runs] at recorded
  exact (recorded.highlight text config.language).trans (by simp [afterConfigs])

/-- Registries with the same grammar for a language and the same hooks highlight alike. -/
theorem highlight_congr {one other : Registry} {language : String}
    (sameGrammar : one.find? language = other.find? language)
    (sameHooks : one.hooksOf afterTokenize = other.hooksOf afterTokenize) (text : Text) :
    one.highlight text language = other.highlight text language := by
  simp only [highlight, runHooks, sameHooks, tokenize_congr sameGrammar, get, sameGrammar]

/-- A configuration whose language is none of the two that it is composed of can be installed again,
and then everything is as it was. -/
theorem installTempl_again (made : registry.composeTempl config = .ok grammar)
    (notMarkup : config.language ≠ config.markupGrammar)
    (notScript : config.language ≠ config.scriptGrammar) :
    let before := registry.withTempl config.language grammar
    ∃ after log, before.installTempl config = .ok (after, log) ∧
      after.languages = before.languages ∧
      (∀ language, after.find? language = before.find? language) ∧
      ∀ event, after.hooksOf event = before.hooksOf event := by
  intro before
  have kept {language : String} (differ : config.language ≠ language) :
      before.find? language = registry.find? language := by
    rw [find?_withTempl, if_neg differ.symm]
  have again : before.composeTempl config = .ok grammar :=
    (composeTempl_congr (kept notMarkup) (kept notScript)).trans made
  obtain ⟨log, installed⟩ := installTempl_of_composed again
  have first := templInstalled registry config.language grammar
  have second := templInstalled before config.language grammar
  refine ⟨_, log, installed, ?_, fun language => ?_, fun event => ?_⟩
  · have there : config.language ∈ before.languages := by
      rw [first.languages]
      by_cases old : config.language ∈ registry.languages
      · rwa [if_pos old]
      · simp [old]
    rw [second.languages, if_pos there]
  · rw [find?_withTempl]
    split
    next same => rw [same, first.installed]
    next => rfl
  · by_cases splitting : event = afterTokenize
    · subst splitting
      rcases second.hooked with ⟨-, same⟩ | ⟨missing, -⟩
      · exact same
      · exact absurd first.has_hook missing
    · exact second.hooks event splitting

/-- A registry that the templ grammars of some configurations were installed in, one after the
other, compared with a new one for the last configuration.

The last language has the same grammar in both if and only if no templ grammar was installed
earlier for one of the two languages that it is composed of. Then all texts are highlighted alike.
Installing the last configuration again changes nothing, if its language is none of the two.

Proof: what was not installed for is as in a new registry, and composing looks at two languages
only. Each composed grammar has the comment rules of both grammars that it was made of, so that one
made of a composed grammar has more than the three that a new registry gives. -/
theorem history_forgotten {earlier : List Config} {registry fresh : Registry} {log freshLog : Log}
    (installed : (afterConfigs earlier).installTempl config = .ok (registry, log))
    (created : create config = .ok (fresh, freshLog)) :
    let apart := config.markupGrammar ∉ configured earlier ∧
      config.scriptGrammar ∉ configured earlier
    (registry.find? config.language = fresh.find? config.language ↔ apart) ∧
      (apart → ∀ text,
        registry.highlight text config.language = fresh.highlight text config.language) ∧
      (config.language ≠ config.markupGrammar → config.language ≠ config.scriptGrammar →
        ∃ again log, registry.installTempl config = .ok (again, log) ∧
          again.languages = registry.languages ∧
          (∀ language, again.find? language = registry.find? language) ∧
          (∀ event, again.hooksOf event = registry.hooksOf event) ∧
          ∀ text language, again.highlight text language = registry.highlight text language) := by
  intro apart
  obtain ⟨grammar, made, rfl⟩ := composed_of_installTempl installed
  obtain ⟨freshGrammar, freshMade, rfl⟩ := composed_of_installTempl created
  have sameGrammar : ((afterConfigs earlier).withTempl config.language grammar).find?
        config.language = (base.withTempl config.language freshGrammar).find? config.language ↔
      apart := by
    rw [find?_withTempl, find?_withTempl, if_pos rfl, if_pos rfl, Option.some.injEq]
    exact composeTempl_afterConfigs made freshMade
  refine ⟨sameGrammar, fun untouched text => ?_, fun notMarkup notScript => ?_⟩
  · have new : (base.withTempl config.language freshGrammar).highlight text config.language =
        ((base.withTempl config.language freshGrammar).tokenize text config.language).map
          TagBody.mark := highlight_withTempl [] freshMade text
    rw [highlight_withTempl earlier made, tokenize_congr (sameGrammar.mpr untouched), new]
  · obtain ⟨again, log, done, languages, grammars, hooks⟩ :=
      installTempl_again made notMarkup notScript
    exact ⟨again, log, done, languages, grammars, hooks, fun text language =>
      highlight_congr (grammars language) (hooks afterTokenize) text⟩

/-- Three configurations, one of which cannot be composed, and then the one that is used when
nothing is configured. -/
theorem history_forgotten_default :
    let earlier : List Config := [{ language := "docs", extraKeywords := ["component"] },
      { markupGrammar := "none" }, { maxBraceDepth := 0 }]
    ∃ registry log fresh freshLog,
      (afterConfigs earlier).installTempl {} = .ok (registry, log) ∧
        create {} = .ok (fresh, freshLog) ∧
        ∀ text, registry.highlight text "templ" = fresh.highlight text "templ" := by
  intro earlier
  have apart : "markup" ∉ configured earlier ∧ "go" ∉ configured earlier := by decide +kernel
  have made : (afterConfigs earlier).composeTempl {} =
      .ok (Templ.grammar (Config.keywords {}) 2) := by
    rw [composeTempl_congr (find?_afterConfigs apart.1) (find?_afterConfigs apart.2)]
    exact composeTempl_shipped {} 2
  obtain ⟨log, installed⟩ := installTempl_of_composed made
  obtain ⟨freshLog, created⟩ := installTempl_of_composed (composeTempl_shipped {} 2)
  exact ⟨_, log, _, freshLog, installed, created, (history_forgotten installed created).2.1 apart⟩

end Registry

end TemplHighlight
