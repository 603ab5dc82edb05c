import TemplHighlight.Proofs.Registry.Installing
import TemplHighlight.Proofs.Site.Tasks

/-!
# Taking over a configuration

A site takes over a configuration by composing its grammar, putting it into the registry, and then
building everything anew. If the grammar cannot be composed, the site and the session are what they
were, the files among them; otherwise what follows is the build, with the new configuration and the
new registry.
-/

namespace TemplHighlight

variable {config : Config} {state : SiteState}

namespace Site

/-- A site and its session with a configuration, and a registry with the grammar for it. -/
def takeOver (state : SiteState) (config : Config) (registry : Registry) (log : Log) : SiteState where
  site := { state.site with config, registry }
  session := { state.session with logged := state.session.logged ++ log }

/-- Taking over a configuration ends at once if its grammar cannot be composed, and then nothing has
changed; otherwise everything is built with the configuration and the grammar. -/
theorem reload_run (config : Config) (state : SiteState) :
    reload config state =
      match state.site.registry.installTempl config with
      | .error error => .error (.highlight error) state
      | .ok (registry, log) => build true (takeOver state config registry log) := by
  let worked : LoggedRegistry := { registry := state.site.registry }
  cases composed : worked.registry.composeTempl config with
  | error error =>
    have installs := RegistryTask.installTempl_of_refused composed
    have onRegistry : SiteTask.onRegistry (RegistryTask.installTempl config) state =
        .error (.highlight error) state := by
      rw [SiteTask.onRegistry, installs]
      simp [worked]
    rw [Registry.installTempl_of_refused composed]
    show EStateM.bind (SiteTask.onRegistry (RegistryTask.installTempl config)) _ state = _
    rw [EStateM.bind, onRegistry]
  | ok grammar =>
    obtain ⟨logged, installs⟩ := RegistryTask.installTempl_of_composed composed
    have installed : state.site.registry.installTempl config =
        .ok (state.site.registry.withTempl config.language grammar, logged) := by
      rw [Registry.installTempl, installs]
    have onRegistry : SiteTask.onRegistry (RegistryTask.installTempl config) state =
        .ok grammar (takeOver state state.site.config
          (state.site.registry.withTempl config.language grammar) logged) := by
      rw [SiteTask.onRegistry, installs]
      rfl
    rw [installed]
    exact bind_of_ok grammar _ onRegistry

end Site

/-- How taking over a configuration ends, if it is known how the build ends that follows. -/
theorem Ends.reload {done : Unit → SiteState → Prop} {failed : SiteState → Prop}
    (refused : failed state)
    (builds : ∀ registry log, state.site.registry.installTempl config = .ok (registry, log) →
      Ends (Site.build true) (Site.takeOver state config registry log) done failed) :
    Ends (Site.reload config) state done failed := by
  unfold Ends
  rw [Site.reload_run]
  cases installs : state.site.registry.installTempl config with
  | error error => exact refused
  | ok installed => exact builds installed.1 installed.2 installs

namespace Site

/-- Installing a templ grammar is done as a whole or not at all.

Whatever grammars and hooks a registry has, and whatever a configuration asks for: if the
installation fails, the registry is the one that it was, with all languages, grammars and hooks, and
nothing was logged. If it succeeds, the composed grammar is the one of the language, whose hook is
there, and neither the other languages nor the other hooks have changed. A site that takes over the
configuration has not changed either if the installation fails, neither its configuration nor its
cache nor any file; only what comes behind the installation can fail in another state.

Proof: the grammar is composed before anything is written, and no step behind that can fail. -/
theorem installation_atomic (config : Config) :
    (∀ state : LoggedRegistry, Ends (RegistryTask.installTempl config) state
      (fun grammar after => state.registry.composeTempl config = .ok grammar ∧
        Registry.TemplInstalled config.language grammar state.registry after.registry ∧
        Hook.plainText config.language ∈ after.registry.hooksOf Registry.afterTokenize)
      fun after => after = state) ∧
    ∀ state : SiteState, reload config state =
      match state.site.registry.installTempl config with
      | .error error => .error (.highlight error) state
      | .ok (registry, log) => build true (takeOver state config registry log) := by
  refine ⟨fun state => ?_, reload_run config⟩
  unfold Ends
  cases composed : state.registry.composeTempl config with
  | error error => rw [RegistryTask.installTempl_of_refused composed]
  | ok grammar =>
    obtain ⟨logged, run⟩ := RegistryTask.installTempl_of_composed composed
    have done := Registry.templInstalled state.registry config.language grammar
    rw [run]
    exact ⟨rfl, done, done.has_hook⟩

/-- A negative depth of brace groups is found while the grammar is composed. -/
example : RegistryTask.installTempl { maxBraceDepth := -1 } { registry := .base } =
    .error (.compose (.pattern (.negativeDepth (-1)))) { registry := .base } := rfl

end Site

end TemplHighlight
