import Mathlib.Data.List.Induction
import TemplHighlight.Proofs.Registry.Shipped
import TemplHighlight.Proofs.Site.Reloading
import TemplHighlight.Proofs.Site.Rules
import TemplHighlight.Proofs.Watch.Rebuilding

/-!
# The configurations of a watched site

A watched site has its configuration in two places: the handler decides by it which changes matter,
and the site by it what is built and how. A build that reads the configuration anew hands it to the
handler first, and to the site, together with a registry, once its grammar is composed. So the
handler has the configuration that was read last, and the site the last one whose grammar could be
composed. Whatever else happens, and wherever a build fails, neither changes.
-/

namespace TemplHighlight

variable {α : Type} {watching : Watching}

/-! ## Working on a watched site -/

namespace Ends

/-- Work on a site, as work on a watched site. -/
theorem ofSiteTask {task : SiteTask α} {done : α → Watching → Prop} {failed : Watching → Prop}
    (ends : Ends task watching.state (fun value state => done value { watching with state })
      fun state => failed { watching with state }) :
    Ends (WatchTask.ofSiteTask task) watching done failed := by
  unfold Ends at ends ⊢
  unfold WatchTask.ofSiteTask
  cases result : task watching.state with
  | ok value state =>
    rw [result] at ends
    exact ends
  | error failure state =>
    rw [result] at ends
    exact ends

/-- A change of the handler. -/
theorem setHandler {change : Handler → Handler} {done : Unit → Watching → Prop}
    {failed : Watching → Prop}
    (has : done () { watching with handler := change watching.handler }) :
    Ends (Watching.setHandler change) watching done failed := has

end Ends

/-- Taking note of a change changes neither the configuration of the handler nor any file. -/
theorem Handler.notice_ends (handler : Handler) (path : Text) (isDirectory : Bool)
    {session : Session} :
    Ends (handler.notice path isDirectory) session
      (fun after ended => after.config = handler.config ∧ ended.disk = session.disk)
      fun ended => ended.disk = session.disk := by
  unfold Handler.notice
  cases isDirectory with
  | true => exact .pure ⟨rfl, rfl⟩
  | false =>
    refine .bind (.look (.bind (.ofExcept (fun relevant _ => ?_) rfl)))
    cases relevant with
    | false => exact .pure ⟨rfl, rfl⟩
    | true => exact .bind (.printLine (.pure ⟨rfl, rfl⟩))

/-! ## Reading a configuration -/

/-- A configuration that was read, and the registry with its grammar, if that could be composed. -/
structure ConfigReading where
  config : Config
  composed? : Option Registry

/-- The configuration that a site has taken over, and the registry with its grammar. -/
def ConfigReading.taken? (reading : ConfigReading) : Option (Config × Registry) :=
  reading.composed?.map fun registry => (reading.config, registry)

namespace Site

/-- The configuration of a site and its registry. -/
def rules (site : Site) : Config × Registry := (site.config, site.registry)

/-- The reading of a configuration by a site. -/
def reading (site : Site) (config : Config) : ConfigReading :=
  ⟨config, match site.registry.installTempl config with
    | .ok (registry, _) => some registry
    | .error _ => none⟩

/-- Taking over a configuration changes the configuration and the registry of a site together, once
the grammar is composed; a build that fails behind that does not take it back. -/
theorem reload_rules (config : Config) (state : SiteState) :
    Ends (reload config) state
      (fun _ after => after.site.rules = (state.site.reading config).taken?.getD state.site.rules)
      fun after =>
        after.site.rules = (state.site.reading config).taken?.getD state.site.rules := by
  unfold reading
  cases installs : state.site.registry.installTempl config with
  | error error =>
    rw [Ends, reload_run, installs]
    rfl
  | ok installed =>
    obtain ⟨registry, log⟩ := installed
    have keeps : Keeps (fun site => site.rules = (config, registry)) (build true) :=
      build_keeps (fun _ _ _ => id) true
    rw [Ends, reload_run, installs]
    exact keeps (takeOver state config registry log) rfl

end Site

namespace Watching

/-- What a build reads, if it is told that a configuration has changed: nothing if there is no
configuration that can be used. -/
def reading? (watching : Watching) (environment : Pairs Text) (configChanged : Bool) :
    Option ConfigReading :=
  if configChanged then
    match Config.load watching.state.session.disk (some watching.state.site.source.toText)
        environment with
    | .ok config => some (watching.state.site.reading config)
    | .error _ => none
  else none

/-- The places where the configuration of a watched site is: the one of the handler, and those of
the site and its registry. -/
def rules (watching : Watching) : Config × Config × Registry :=
  (watching.handler.config, watching.state.site.rules)

/-- Takes over what was read: the handler takes the configuration in any case, the site only with a
registry. -/
def take (rules : Config × Config × Registry) (reading : ConfigReading) :
    Config × Config × Registry :=
  (reading.config, reading.taken?.getD rules.2)

/-- What a build that reads `reading?` leaves behind. -/
def Took (watching : Watching) (reading? : Option ConfigReading) (after : Watching) : Prop :=
  after.rules = reading?.toList.foldl take watching.rules

/-- A build takes over what it reads, wherever it fails. -/
theorem rebuild_took (environment : Pairs Text) (configChanged : Bool) :
    Ends (rebuild environment configChanged) watching
      (fun _ => watching.Took (watching.reading? environment configChanged))
      (watching.Took (watching.reading? environment configChanged)) := by
  unfold reading?
  refine .rebuild ?_ ?_ ?_
  · rintro rfl
    have keeps : Keeps (fun site => site.rules = watching.state.site.rules) (Site.build false) :=
      Site.build_keeps (fun _ _ _ => id) false
    exact (keeps watching.state rfl).mono
      (fun _ _ same => congrArg (watching.handler.config, ·) same)
      fun _ same => congrArg (watching.handler.config, ·) same
  · rintro rfl failure unread
    rw [if_pos rfl, unread]
    rfl
  · -- From here on the handler has the configuration, whatever becomes of the site.
    rintro rfl config loaded
    rw [if_pos rfl, loaded]
    exact (Site.reload_rules config _).mono (fun _ _ same => congrArg (config, ·) same)
      fun _ same => congrArg (config, ·) same

/-- Reporting a failure takes over nothing. -/
theorem runBuild_took (environment : Pairs Text) (configChanged : Bool) :
    Ends (runBuild environment configChanged) watching
      (fun _ => watching.Took (watching.reading? environment configChanged))
      (watching.Took (watching.reading? environment configChanged)) := by
  refine .runBuild ((rebuild_took environment configChanged).mono (fun _ _ => id) ?_)
  intro after took
  refine ⟨took, fun failure words => ?_⟩
  cases failure <;> exact took

/-- Taking note of a change takes over nothing. -/
theorem notice_rules (path : Text) (isDirectory : Bool) :
    Ends (notice path isDirectory) watching (fun _ after => after.rules = watching.rules)
      fun after => after.rules = watching.rules := by
  refine .bind (show Ends get watching _ _ from ?_)
  refine .bind (.ofSiteTask (.ofTask ((watching.handler.notice_ends path isDirectory).mono ?_
    fun _ _ => rfl)))
  rintro handler session ⟨same, -⟩
  exact .setHandler (congrArg (·, watching.state.site.rules) same)

end Watching

/-! ## What happens while a site is watched -/

/-- What happens while a site is watched. -/
inductive Happening where
  /-- Files are changed, whichever and however. -/
  | edit (disk : Disk)
  /-- The change of a file or directory is noticed. -/
  | notice (path : Text) (isDirectory : Bool)
  /-- A build answers the changes, and is told whether a configuration is among them. -/
  | build (environment : Pairs Text) (configChanged : Bool)

namespace Happening

/-- What is done when something happens. -/
def task : Happening → WatchTask Unit
  | edit disk => modify fun watching => { watching with state.session.disk := disk }
  | notice path isDirectory => Watching.notice path isDirectory
  | build environment configChanged => Watching.runBuild environment configChanged

/-- What is read when something happens. -/
def reading? : Happening → Watching → Option ConfigReading
  | build environment configChanged, watching => watching.reading? environment configChanged
  | _, _ => none

/-- The watched site after something has happened, whether that has succeeded or failed. -/
def after (happening : Happening) (watching : Watching) : Watching :=
  finalState happening.task watching

/-- The watched site after all that has happened. -/
def run (happenings : List Happening) (watching : Watching) : Watching :=
  happenings.foldl (fun watching happening => happening.after watching) watching

/-- The configurations that are read while all this happens, in order. -/
def readings : List Happening → Watching → List ConfigReading
  | [], _ => []
  | happening :: happenings, watching =>
    (happening.reading? watching).toList ++ readings happenings (happening.after watching)

/-- Whatever happens takes over what it reads. -/
theorem task_took (happening : Happening) :
    Ends happening.task watching (fun _ => watching.Took (happening.reading? watching))
      (watching.Took (happening.reading? watching)) := by
  cases happening with
  | edit disk => exact (rfl : watching.rules = _)
  | notice path isDirectory => exact Watching.notice_rules path isDirectory
  | build environment configChanged => exact Watching.runBuild_took environment configChanged

/-- All that is read is taken over, in order. -/
theorem run_rules (happenings : List Happening) (watching : Watching) :
    (run happenings watching).rules =
      (readings happenings watching).foldl Watching.take watching.rules := by
  induction happenings generalizing watching with
  | nil => rfl
  | cons happening happenings inductionHypothesis =>
    have took : watching.Took (happening.reading? watching) (happening.after watching) :=
      happening.task_took.final
    rw [readings, List.foldl_append, ← took]
    exact inductionHypothesis (happening.after watching)

end Happening

namespace Watching

/-- The handler has what was read last, the site what was last read and could be composed. -/
theorem foldl_take (readings : List ConfigReading) (rules : Config × Config × Registry) :
    readings.foldl take rules =
      ((readings.getLast?.map (·.config)).getD rules.1,
        (readings.filterMap ConfigReading.taken?).getLast?.getD rules.2) := by
  induction readings using List.reverseRecOn with
  | nil => rfl
  | append_singleton readings last inductionHypothesis =>
    rw [List.foldl_append, inductionHypothesis]
    cases taken : last.taken? with
    | none => simp [take, taken]
    | some rules => simp [take, taken]

/-- After whatever has happened since the watching began, the handler has the configuration that was
read last, and the site the last one whose grammar could be composed, with its registry. So they
have the same one, unless the last one was refused as its grammar could not be composed. -/
theorem configurations_of_happenings {state : SiteState} {opened : Watching}
    (begins : start state = .ok opened.handler opened.state) (happenings : List Happening) :
    (Happening.run happenings opened).handler.config =
        ((Happening.readings happenings opened).getLast?.map (·.config)).getD state.site.config ∧
      (Happening.run happenings opened).state.site.rules =
        ((Happening.readings happenings opened).filterMap ConfigReading.taken?).getLast?.getD
          state.site.rules ∧
      ((∀ last ∈ (Happening.readings happenings opened).getLast?, last.composed?.isSome) →
        (Happening.run happenings opened).handler.config =
          (Happening.run happenings opened).state.site.config) := by
  have opens : opened.rules = (state.site.config, state.site.rules) := by
    obtain ⟨handler, started⟩ := opened
    cases begins
    rfl
  have rules := Happening.run_rules happenings opened
  rw [foldl_take, opens] at rules
  obtain ⟨ofHandler, ofSite⟩ := Prod.mk.inj rules
  refine ⟨ofHandler, ofSite, fun composed => ?_⟩
  have sameConfig := congrArg Prod.fst ofSite
  rw [ofHandler]
  refine Eq.trans ?_ sameConfig.symm
  rcases List.eq_nil_or_concat (Happening.readings happenings opened) with none | ⟨before, last, all⟩
  · rw [none]
    rfl
  · rw [all, List.concat_eq_append] at composed ⊢
    obtain ⟨registry, isRegistry⟩ :=
      Option.isSome_iff_exists.mp (composed last List.getLast?_concat)
    simp [ConfigReading.taken?, isRegistry]

/-- A disk with a configuration file for a site that lies at the root. -/
def configured (text : String) : Disk :=
  ⟨[(["templight.toml"], .file (Utf8.encode text.toList))], []⟩

/-- A site that is to be watched. Its configuration file names a grammar that there is not. -/
def misconfigured : SiteState where
  site := {
    config := {}
    source := .absolute []
    output := .absolute ["build"]
    registry := .base
    cache := ⟨.absolute [".templight", "cache.json"], Cache.blank⟩ }
  session := {
    disk := configured "[templight]\nmarkup_grammar = \"none\"\nlanguage_id = \"first\"\n" }

/-- The site when the watching has begun. -/
def misconfiguredOpened : Watching where
  handler := { config := {}, root := ['/'] }
  state := { misconfigured with
    session.printed := "Watching / for changes...\n".toList }

/-- The configuration is read, then its file is put right, and it is read again. -/
def putRight : List Happening :=
  [.build [] true, .edit (configured "[templight]\nlanguage_id = \"second\"\n"), .build [] true]

/-- When the configuration file was put right and read again, the site has the configuration of the
handler, after both had gone apart. -/
theorem configurations_put_right :
    (Happening.run putRight misconfiguredOpened).handler.config.language = "second" ∧
      (Happening.run putRight misconfiguredOpened).handler.config =
        (Happening.run putRight misconfiguredOpened).state.site.config := by
  have begins : start misconfigured =
      .ok misconfiguredOpened.handler misconfiguredOpened.state := rfl
  have composed : ∀ last ∈ (Happening.readings putRight misconfiguredOpened).getLast?,
      last.composed?.isSome := by decide +kernel
  obtain ⟨-, -, same⟩ := configurations_of_happenings begins putRight
  exact ⟨by decide +kernel, same composed⟩

/-- Before that, the handler has the new configuration, and the site the one it had. -/
example :
    let watching := Happening.run [.build [] true] misconfiguredOpened
    (watching.handler.config.language, watching.state.site.config.language) = ("first", "templ") := by
  decide +kernel

end Watching

end TemplHighlight
