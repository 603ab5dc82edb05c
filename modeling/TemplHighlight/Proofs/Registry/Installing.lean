import TemplHighlight.Proofs.Outcome
import TemplHighlight.Proofs.Pairs
import TemplHighlight.Registry

/-!
# What installing changes

The operations of a registry, each with what it does to the grammars, the languages and the hooks,
and what it leaves alone. Installing a templ grammar composes it first. If that fails, the registry
is as it was; otherwise the grammar stands under the language of the configuration and its hook is
there, and nothing else has changed.
-/

namespace TemplHighlight

variable {registry : Registry} {config : Config} {grammar : RuleSet}

namespace Hook

/-- The hook for the text of tag bodies is the same as no other hook. -/
theorem same_plainText {language : String} {hook : Hook} :
    (plainText language).same hook = true ↔ hook = plainText language := by
  cases hook with
  | plainText other =>
    rw [same, beq_iff_eq, plainText.injEq]
    exact eq_comm
  | custom shown change => exact ⟨nofun, nofun⟩

end Hook

namespace Registry

/-! ## Grammars -/

/-- A language has a grammar if and only if one is found. -/
theorem get_eq_ok {language : String} :
    registry.get language = .ok grammar ↔ registry.find? language = some grammar := by
  unfold get
  cases registry.find? language <;> simp

/-- Registering changes nothing under other languages. -/
theorem get?_register_other {language other : String} (differ : other ≠ language) :
    Pairs.get? other (registry.register language grammar).1.grammars =
      Pairs.get? other registry.grammars :=
  Pairs.get?_put_other differ _ _

/-- A language that is registered has the grammar that it was registered with. -/
theorem find?_register (registry : Registry) (language : String) (grammar : RuleSet)
    (other : String) :
    (registry.register language grammar).1.find? other =
      if other = language then some grammar else registry.find? other := by
  split
  next same =>
    subst same
    simp only [find?, register, install, Pairs.get?_put_self, Option.map_some]
  next differ => rw [find?, get?_register_other differ, find?]

/-- A new language comes last, any other stays in its place. -/
theorem languages_register (registry : Registry) (language : String) (grammar : RuleSet) :
    (registry.register language grammar).1.languages =
      if language ∈ registry.languages then registry.languages
      else registry.languages ++ [language] :=
  Pairs.names_put _ _ _

/-- Registering changes no hook. -/
theorem hooksOf_register (registry : Registry) (language : String) (grammar : RuleSet)
    (event : String) :
    (registry.register language grammar).1.hooksOf event = registry.hooksOf event := rfl

/-! ## Hooks -/

/-- Adding a hook changes no grammar. -/
theorem grammars_addHook (registry : Registry) (event : String) (hook : Hook) :
    (registry.addHook event hook).2.1.grammars = registry.grammars := by
  unfold addHook
  split <;> rfl

/-- Adding a hook changes no hook of another event. -/
theorem hooksOf_addHook_other {event other : String} (differ : other ≠ event) (hook : Hook) :
    (registry.addHook event hook).2.1.hooksOf other = registry.hooksOf other := by
  unfold addHook
  split
  · rfl
  · exact congrArg (·.getD []) (Pairs.get?_put_other differ _ registry.hooks)

/-- A hook for the text of tag bodies is added behind the others, unless it is there. -/
theorem hooksOf_addHook (registry : Registry) (event language : String) :
    Hook.plainText language ∈ registry.hooksOf event ∧
        (registry.addHook event (.plainText language)).2.1.hooksOf event =
          registry.hooksOf event ∨
      Hook.plainText language ∉ registry.hooksOf event ∧
        (registry.addHook event (.plainText language)).2.1.hooksOf event =
          registry.hooksOf event ++ [.plainText language] := by
  have there : (registry.hooksOf event).any (Hook.plainText language).same = true ↔
      Hook.plainText language ∈ registry.hooksOf event := by
    simp [List.any_eq_true, Hook.same_plainText]
  unfold addHook
  split
  next has => exact .inl ⟨there.mp has, rfl⟩
  next new =>
    refine .inr ⟨fun has => new (there.mpr has), ?_⟩
    show (Pairs.get? event (Pairs.put event _ registry.hooks)).getD [] = _
    rw [Pairs.get?_put_self]
    rfl

/-! ## The templ grammar -/

/-- The registry with a templ grammar and the hook for the text of tag bodies. -/
def withTempl (registry : Registry) (language : String) (grammar : RuleSet) : Registry :=
  ((registry.register language grammar).1.addHook afterTokenize (.plainText language)).2.1

/-- The language has the grammar, other languages have what they had. -/
theorem find?_withTempl (registry : Registry) (language : String) (grammar : RuleSet)
    (other : String) :
    (registry.withTempl language grammar).find? other =
      if other = language then some grammar else registry.find? other := by
  rw [withTempl, find?, grammars_addHook]
  exact find?_register registry language grammar other

/-- What has changed in a registry if a templ grammar was installed for a language. -/
structure TemplInstalled (language : String) (grammar : RuleSet) (before after : Registry) :
    Prop where
  /-- The language has the grammar. -/
  installed : after.find? language = some grammar
  /-- A new language comes last, any other stays in its place. -/
  languages : after.languages =
    if language ∈ before.languages then before.languages else before.languages ++ [language]
  /-- Other languages have what they had. -/
  others : ∀ other, other ≠ language →
    Pairs.get? other after.grammars = Pairs.get? other before.grammars
  /-- The language has its hook, behind those that were there. -/
  hooked : Hook.plainText language ∈ before.hooksOf afterTokenize ∧
      after.hooksOf afterTokenize = before.hooksOf afterTokenize ∨
    Hook.plainText language ∉ before.hooksOf afterTokenize ∧
      after.hooksOf afterTokenize = before.hooksOf afterTokenize ++ [.plainText language]
  /-- The hooks of other events are what they were. -/
  hooks : ∀ event, event ≠ afterTokenize → after.hooksOf event = before.hooksOf event

/-- The hook of the language is there. -/
theorem TemplInstalled.has_hook {language : String} {before after : Registry}
    (done : TemplInstalled language grammar before after) :
    Hook.plainText language ∈ after.hooksOf afterTokenize := by
  rcases done.hooked with ⟨there, same⟩ | ⟨-, new⟩
  · rwa [same]
  · simp [new]

/-- This is what installing a templ grammar changes. -/
theorem templInstalled (registry : Registry) (language : String) (grammar : RuleSet) :
    TemplInstalled language grammar registry (registry.withTempl language grammar) where
  installed := (find?_withTempl registry language grammar language).trans (if_pos rfl)
  languages := by
    rw [withTempl, Registry.languages, grammars_addHook]
    exact languages_register registry language grammar
  others other differ := by
    rw [withTempl, grammars_addHook]
    exact get?_register_other differ
  hooked := hooksOf_addHook (registry.register language grammar).1 afterTokenize language
  hooks event differ := hooksOf_addHook_other differ (.plainText language)

end Registry

namespace RegistryTask

variable {state : LoggedRegistry}

/-- A grammar that was composed is installed. -/
theorem installTempl_of_composed (composed : state.registry.composeTempl config = .ok grammar) :
    ∃ logged, installTempl config state =
      .ok grammar ⟨state.registry.withTempl config.language grammar, logged⟩ := by
  let registered := state.registry.register config.language grammar
  let hooked := registered.1.addHook Registry.afterTokenize (.plainText config.language)
  have goesOn : installTempl config state =
      (do
        if hooked.1 then
          logAll [⟨.debug,
            "Installed plain-text rewrite for '".toList ++ config.language.toList ++ "'".toList⟩]
        return grammar : RegistryTask RuleSet)
        ⟨hooked.2.1, state.logged ++ registered.2 ++ hooked.2.2⟩ := by
    show (ofExcept (state.registry.composeTempl config) >>= _ : RegistryTask RuleSet) state = _
    rw [composed]
    rfl
  rw [goesOn]
  split <;> exact ⟨_, rfl⟩

/-- A grammar that cannot be composed changes nothing. -/
theorem installTempl_of_refused {error : HighlightError}
    (refused : state.registry.composeTempl config = .error error) :
    installTempl config state = .error error state := by
  show (ofExcept (state.registry.composeTempl config) >>= _ : RegistryTask RuleSet) state = _
  rw [refused]
  rfl

end RegistryTask

namespace Registry

/-- A grammar that was composed is installed, together with its hook. -/
theorem installTempl_of_composed (composed : registry.composeTempl config = .ok grammar) :
    ∃ log, registry.installTempl config =
      .ok (registry.withTempl config.language grammar, log) := by
  have runs : (LoggedRegistry.mk registry []).registry.composeTempl config = .ok grammar := composed
  obtain ⟨logged, run⟩ := RegistryTask.installTempl_of_composed runs
  refine ⟨logged, ?_⟩
  rw [installTempl, run]

/-- An installation fails as composing fails. -/
theorem installTempl_of_refused {error : HighlightError}
    (refused : registry.composeTempl config = .error error) :
    registry.installTempl config = .error error := by
  have runs : (LoggedRegistry.mk registry []).registry.composeTempl config = .error error := refused
  rw [installTempl, RegistryTask.installTempl_of_refused runs]

/-- What was installed was composed before. -/
theorem composed_of_installTempl {after : Registry} {log : Log}
    (installed : registry.installTempl config = .ok (after, log)) :
    ∃ grammar, registry.composeTempl config = .ok grammar ∧
      after = registry.withTempl config.language grammar := by
  cases composed : registry.composeTempl config with
  | error error =>
    rw [installTempl_of_refused composed] at installed
    cases installed
  | ok grammar =>
    obtain ⟨log, done⟩ := installTempl_of_composed composed
    rw [done] at installed
    cases installed
    exact ⟨grammar, rfl, rfl⟩

end Registry

end TemplHighlight
