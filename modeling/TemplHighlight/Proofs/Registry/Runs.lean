import TemplHighlight.Proofs.Occurrences
import TemplHighlight.Proofs.Registry.Installing
import TemplHighlight.Proofs.Registry.Shipped
import TemplHighlight.Proofs.Site.Tasks

/-!
# A registry in use

Grammars are registered and composed in any order, hooks are added, and in between grammars are
looked up and texts highlighted; each of these may fail. Two lists say all there is to know about
the registry afterwards: the grammars that were installed, in order, and the languages that a hook
was asked for. A language has the grammar that was installed for it last, and its tokens are marked
if its hook was asked for. What is done for one language is not seen by any other.
-/

namespace TemplHighlight

open TagBody

/-! ## What is done with a registry -/

/-- What is done with a registry. -/
inductive RegistryUse where
  /-- A grammar is installed as it is. -/
  | register (language : String) (grammar : RuleSet)
  /-- The templ grammar of a configuration is composed and installed. -/
  | installTempl (config : Config)
  /-- The hook for the text of tag bodies is added for a language. -/
  | addHook (language : String)
  /-- The grammar of a language is looked up. -/
  | lookUp (language : String)
  /-- A text is highlighted. -/
  | highlight (text : Text) (language : String)

namespace RegistryUse

/-- Looks at the registry and forgets what was seen. -/
def look {α : Type} (view : Registry → Except HighlightError α) : RegistryTask Unit := do
  let _ ← RegistryTask.ofExcept (view (← get).registry)

/-- The work on the registry. -/
def task : RegistryUse → RegistryTask Unit
  | register language grammar => RegistryTask.register language grammar
  | installTempl config => do let _ ← RegistryTask.installTempl config
  | addHook language => do
    let _ ← RegistryTask.addHook Registry.afterTokenize (.plainText language)
  | lookUp language => look (·.get language)
  | highlight text language => look (·.highlight text language)

/-- The registry after it was used, whether that has succeeded or failed. -/
def after (use : RegistryUse) (registry : Registry) : Registry :=
  (finalState use.task { registry }).registry

/-- The registry after all uses. -/
def run (uses : List RegistryUse) (registry : Registry) : Registry :=
  uses.foldl (fun registry use => use.after registry) registry

/-- The grammar that is installed by a use, with its language. -/
def installed? : RegistryUse → Registry → Option (String × RuleSet)
  | register language grammar, _ => some (language, grammar)
  | installTempl config, registry =>
    match registry.composeTempl config with
    | .ok grammar => some (config.language, grammar)
    | .error _ => none
  | _, _ => none

/-- The language whose hook is asked for by a use. -/
def hooked? : RegistryUse → Registry → Option String
  | installTempl config, registry => ((installTempl config).installed? registry).map (·.1)
  | addHook language, _ => some language
  | _, _ => none

/-- The languages that a use is about: no other one can tell that there was such a use, and if the
use fails none can. -/
def languages (use : RegistryUse) (registry : Registry) : List String :=
  Pairs.names (use.installed? registry).toList ++ (use.hooked? registry).toList

/-- The grammars that are installed by some uses, in order. -/
def installs : List RegistryUse → Registry → Pairs RuleSet
  | [], _ => []
  | use :: uses, registry => (use.installed? registry).toList ++ installs uses (use.after registry)

/-- The languages whose hooks are asked for by some uses, in order. -/
def hooks : List RegistryUse → Registry → List String
  | [], _ => []
  | use :: uses, registry => (use.hooked? registry).toList ++ hooks uses (use.after registry)

/-- The grammars that are there from the start. -/
def baseGrammars : Pairs RuleSet := [("markup", Grammar.markup), ("go", Grammar.go)]

/-! ## One use -/

/-- A look at the registry changes nothing, whether there is something to be seen or not. -/
theorem finalState_look {α : Type} (view : Registry → Except HighlightError α)
    (state : LoggedRegistry) : finalState (look view) state = state := by
  show finalState (RegistryTask.ofExcept (view state.registry) >>= fun _ => pure ()) state = state
  cases view state.registry <;> rfl

/-- Installing a templ grammar changes the registry if the grammar can be composed. -/
theorem after_installTempl (config : Config) (registry : Registry) :
    (installTempl config).after registry =
      match registry.composeTempl config with
      | .ok grammar => registry.withTempl config.language grammar
      | .error _ => registry := by
  show (finalState (EStateM.bind (RegistryTask.installTempl config) fun _ => pure ())
    { registry }).registry = _
  rw [finalState, EStateM.bind]
  cases composed : (LoggedRegistry.mk registry []).registry.composeTempl config with
  | error error => rw [RegistryTask.installTempl_of_refused composed]
  | ok grammar =>
    obtain ⟨logged, runs⟩ := RegistryTask.installTempl_of_composed composed
    rw [runs]
    rfl

/-- What the grammars that were installed and the hooks that were asked for say of a registry. -/
structure Recorded (installs : Pairs RuleSet) (hooks : List String) (registry : Registry) :
    Prop where
  found : ∀ language, registry.find? language = Pairs.get? language installs.reverse
  languages : registry.languages = (Pairs.names installs).eraseDups
  hooked : registry.hooksOf Registry.afterTokenize = hooks.eraseDups.map Hook.plainText

namespace Recorded

variable {recordedInstalls : Pairs RuleSet} {recordedHooks : List String} {registry after : Registry}
  {language : String} {grammar : RuleSet}

/-- Another grammar is installed. -/
theorem install (recorded : Recorded recordedInstalls recordedHooks registry)
    (found : ∀ other, after.find? other =
      if language = other then some grammar else registry.find? other)
    (languages : after.languages = if language ∈ registry.languages then registry.languages
      else registry.languages ++ [language])
    (hooked : after.hooksOf Registry.afterTokenize = registry.hooksOf Registry.afterTokenize) :
    Recorded (recordedInstalls ++ [(language, grammar)]) recordedHooks after where
  found other := by rw [found, Pairs.get?_reverse_concat, recorded.found]
  languages := by
    have names : Pairs.names (recordedInstalls ++ [(language, grammar)]) =
        Pairs.names recordedInstalls ++ [language] := List.map_append
    rw [languages, names, eraseDups_concat, recorded.languages]
    simp only [List.mem_eraseDups]
  hooked := hooked.trans recorded.hooked

/-- Another hook is asked for. -/
theorem hook (recorded : Recorded recordedInstalls recordedHooks registry) (language : String) :
    Recorded recordedInstalls (recordedHooks ++ [language])
      (registry.addHook Registry.afterTokenize (.plainText language)).2.1 where
  found other := by
    rw [Registry.find?, Registry.grammars_addHook]
    exact recorded.found other
  languages := by
    rw [Registry.languages, Registry.grammars_addHook]
    exact recorded.languages
  hooked := by
    have there : Hook.plainText language ∈ registry.hooksOf Registry.afterTokenize ↔
        language ∈ recordedHooks := by
      simp [recorded.hooked]
    rw [eraseDups_concat]
    rcases Registry.hooksOf_addHook registry Registry.afterTokenize language with
      ⟨old, same⟩ | ⟨new, more⟩
    · rw [if_pos (there.mp old), same, recorded.hooked]
    · rw [if_neg fun old => new (there.mpr old), more, recorded.hooked, List.map_append]
      rfl

/-- Nothing has changed. -/
theorem unchanged (recorded : Recorded recordedInstalls recordedHooks registry) :
    Recorded (recordedInstalls ++ []) (recordedHooks ++ []) registry := by
  rw [List.append_nil, List.append_nil]
  exact recorded

/-- A grammar is registered. -/
theorem register (recorded : Recorded recordedInstalls recordedHooks registry) (language : String)
    (grammar : RuleSet) :
    Recorded (recordedInstalls ++ [(language, grammar)]) recordedHooks
      (registry.register language grammar).1 :=
  recorded.install (fun other => by simp only [Registry.find?_register, eq_comm])
    (Registry.languages_register registry language grammar)
    (Registry.hooksOf_register registry language grammar _)

/-- One use is recorded, whether it succeeds or fails. -/
theorem use (recorded : Recorded recordedInstalls recordedHooks registry) (use : RegistryUse) :
    Recorded (recordedInstalls ++ (use.installed? registry).toList)
      (recordedHooks ++ (use.hooked? registry).toList) (use.after registry) := by
  cases use with
  | register language grammar =>
    have registered := recorded.register language grammar
    rw [← List.append_nil recordedHooks] at registered
    exact registered
  | installTempl config =>
    rw [after_installTempl, hooked?, installed?]
    cases registry.composeTempl config with
    | error error => exact recorded.unchanged
    | ok grammar => exact (recorded.register config.language grammar).hook config.language
  | addHook language =>
    have hooked := recorded.hook language
    rw [← List.append_nil recordedInstalls] at hooked
    exact hooked
  | lookUp language =>
    rw [after, task, finalState_look]
    exact recorded.unchanged
  | highlight text language =>
    rw [after, task, finalState_look]
    exact recorded.unchanged

/-- All uses are recorded, in order. -/
theorem run (recorded : Recorded recordedInstalls recordedHooks registry)
    (uses : List RegistryUse) :
    Recorded (recordedInstalls ++ installs uses registry) (recordedHooks ++ hooks uses registry)
      (RegistryUse.run uses registry) := by
  induction uses generalizing recordedInstalls recordedHooks registry with
  | nil => exact recorded.unchanged
  | cons use uses inductionHypothesis =>
    rw [installs, hooks, ← List.append_assoc, ← List.append_assoc]
    exact inductionHypothesis (recorded.use use)

/-- At the start there are the base grammars and no hooks. -/
theorem base : Recorded baseGrammars [] Registry.base where
  found language := by
    have grammars : Registry.base.grammars =
        [("markup", ⟨Grammar.markup, 0⟩), ("go", ⟨Grammar.go, 1⟩)] := rfl
    rw [Registry.find?, grammars]
    by_cases isMarkup : "markup" = language
    · subst isMarkup
      rfl
    · by_cases isGo : "go" = language
      · subst isGo
        rfl
      · simp [Pairs.get?, baseGrammars, isMarkup, isGo]
  languages := rfl
  hooked := rfl

/-- The registry after some uses is recorded from the start. -/
theorem of_run (uses : List RegistryUse) :
    Recorded (baseGrammars ++ installs uses .base) (hooks uses .base)
      (RegistryUse.run uses .base) := base.run uses

end Recorded

/-! ## Highlighting -/

/-- The hook for the text of tag bodies marks the tokens of its own language. -/
theorem apply_plainText {language : String} {context : HookContext}
    (ofLanguage : context.language = some language) (name : String) :
    (Hook.plainText name).apply context =
      { context with tokens := if language = name then mark context.tokens else context.tokens } := by
  by_cases own : language = name
  · simp only [Hook.apply, ofLanguage, own, if_true]
  · have other : some language ≠ some name := fun same => own (Option.some.inj same)
    simp only [Hook.apply, if_neg own, if_neg (ofLanguage.symm ▸ other)]

/-- Of different hooks for the text of tag bodies one at most marks the tokens of a language. -/
theorem foldl_plainText {names : List String} (distinct : names.Nodup) {language : String}
    {context : HookContext} (ofLanguage : context.language = some language) :
    (names.map Hook.plainText).foldl (fun context hook => hook.apply context) context =
      { context with
        tokens := if language ∈ names then mark context.tokens else context.tokens } := by
  induction names generalizing context with
  | nil => rfl
  | cons name names inductionHypothesis =>
    obtain ⟨new, later⟩ := List.nodup_cons.mp distinct
    rw [List.map_cons, List.foldl_cons, apply_plainText ofLanguage]
    refine Eq.trans (inductionHypothesis later ?_) ?_
    · exact ofLanguage
    by_cases here : language = name
    · simp [here, new]
    · simp [here]

/-- A language whose hook was asked for has its tokens marked, any other has them as they are. -/
theorem Recorded.highlight {recordedInstalls : Pairs RuleSet} {recordedHooks : List String}
    {registry : Registry} (recorded : Recorded recordedInstalls recordedHooks registry)
    (text : Text) (language : String) :
    registry.highlight text language =
      (registry.tokenize text language).map (if language ∈ recordedHooks then mark else id) := by
  have marks (context : HookContext) (ofLanguage : context.language = some language) :
      (registry.runHooks Registry.afterTokenize context).tokens =
        (if language ∈ recordedHooks then mark else id) context.tokens := by
    rw [Registry.runHooks, recorded.hooked,
      foldl_plainText (nodup_eraseDups recordedHooks) ofLanguage]
    by_cases asked : language ∈ recordedHooks
    · simp [asked]
    · simp [asked]
  unfold Registry.highlight
  cases isGrammar : registry.get language with
  | error error =>
    rw [Registry.tokenize, isGrammar]
    rfl
  | ok grammar =>
    cases split : registry.tokenize text language with
    | error error => rfl
    | ok tokens => exact congrArg Except.ok (marks ⟨text, language, grammar, tokens⟩ rfl)

/-! ## What is known of a registry that was used -/

/-- How a text is split depends on the grammar of the language alone. -/
theorem tokenize_congr {registry other : Registry} {language : String}
    (same : registry.find? language = other.find? language) (text : Text) :
    registry.tokenize text language = other.tokenize text language := by
  rw [Registry.tokenize, Registry.tokenize, Registry.get, Registry.get, same]

/-- A language that a use is not about is highlighted as before. -/
theorem Recorded.highlight_elsewhere {recordedInstalls : Pairs RuleSet}
    {recordedHooks : List String} {registry : Registry}
    (recorded : Recorded recordedInstalls recordedHooks registry) {use : RegistryUse}
    {language : String} (elsewhere : language ∉ use.languages registry) (text : Text) :
    (use.after registry).highlight text language = registry.highlight text language := by
  have used := recorded.use use
  rw [RegistryUse.languages, List.mem_append, not_or] at elsewhere
  have sameGrammar : (use.after registry).find? language = registry.find? language := by
    rw [used.found, recorded.found, Pairs.get?_reverse_append elsewhere.1]
  have sameHooks : language ∈ recordedHooks ++ (use.hooked? registry).toList ↔
      language ∈ recordedHooks := by
    simp [elsewhere.2]
  rw [used.highlight, recorded.highlight, tokenize_congr sameGrammar]
  simp only [sameHooks]

/-- A registry after any uses, each of which may have failed.

Every language has the grammar that was installed for it last, and is missing if there never was
one; the languages stand in the order in which they first came in, each of them once. A language has
at most one hook for the text of tag bodies. Its texts are split with its grammar, and the tokens
are marked if its templ grammar was installed or its hook was added, and left as they are otherwise.
Another use changes nothing for the languages that it is not about, of which there are none if it
fails.

Proof: by induction over the uses, the registry is as the installed grammars and the hooks that were
asked for say; and all this is read off the two lists. -/
theorem registry_of_uses (uses : List RegistryUse) :
    let registry := run uses .base
    let installed := baseGrammars ++ installs uses .base
    (∀ language, registry.find? language = Pairs.get? language installed.reverse ∧
      (registry.find? language = none ↔ language ∉ Pairs.names installed) ∧
      registry.get language =
        match registry.find? language with
        | some grammar => .ok grammar
        | none => .error (.compose (.missing language none))) ∧
    (registry.languages.Nodup ∧ registry.languages = (Pairs.names installed).eraseDups) ∧
    (∀ language, (registry.hooksOf Registry.afterTokenize).countP
      (Hook.plainText language).same ≤ 1) ∧
    (∀ language text, registry.highlight text language =
      (registry.tokenize text language).map
        (if language ∈ hooks uses .base then mark else id)) ∧
    ∀ use language, language ∉ use.languages registry → ∀ text,
      (RegistryUse.after use registry).highlight text language =
        registry.highlight text language := by
  intro registry installed
  have recorded : Recorded installed (hooks uses .base) registry := .of_run uses
  refine ⟨fun language => ⟨recorded.found language, ?_, rfl⟩, ⟨?_, recorded.languages⟩,
    fun language => ?_, fun language text => recorded.highlight text language,
    fun use language elsewhere text => recorded.highlight_elsewhere elsewhere text⟩
  · rw [recorded.found]
    exact Pairs.get?_reverse_eq_none
  · rw [recorded.languages]
    exact nodup_eraseDups _
  · have counted : (registry.hooksOf Registry.afterTokenize).countP
        (Hook.plainText language).same = (hooks uses .base).eraseDups.count language := by
      rw [recorded.hooked, List.countP_map, List.count]
      refine List.countP_congr fun other _ => ?_
      simp [Hook.same_plainText]
    rw [counted]
    exact List.nodup_iff_count_le_one.mp (nodup_eraseDups _) language

/-- A registry in which the grammar for scripts was replaced, a composition has failed, and a
language without tags has got the hook. Composing one more grammar does not change how that language
is highlighted. -/
theorem registry_of_uses_elsewhere :
    let uses := [installTempl { language := "go" }, installTempl { maxBraceDepth := -1 },
      register "plain" (.empty "plain"), addHook "plain"]
    "plain" ∉ (installTempl { language := "docs" }).languages (run uses .base) ∧
      ∀ text, ((installTempl { language := "docs" }).after (run uses .base)).highlight text "plain" =
        (run uses .base).highlight text "plain" := by
  intro uses
  have elsewhere : "plain" ∉ (installTempl { language := "docs" }).languages (run uses .base) := by
    decide +kernel
  exact ⟨elsewhere, (registry_of_uses uses).2.2.2.2 _ _ elsewhere⟩

end RegistryUse

end TemplHighlight
