import TemplHighlight.Proofs.Site.Outcomes
import TemplHighlight.Watch.Watching

/-!
# How a build that answers changes runs

While a site is watched, a build is done with the configuration that there is, or with the one that
is read anew. If it fails and there are words for that, it is reported and the watching goes on.
What holds of every build of a site is carried over to the watched site here.
-/

namespace TemplHighlight

namespace Watching

variable {watching after : Watching} {environment : Pairs Text} {configChanged : Bool}

/-- A watched site for which a line was printed. -/
def printed (watching : Watching) (line : Text) : Watching :=
  { watching with
    state.session.printed := watching.state.session.printed ++ (line ++ ['\n']) }

/-- A watched site whose configuration is about to be read anew. -/
def announced (watching : Watching) : Watching :=
  watching.printed "Configuration changed, reloading grammar...".toList

/-- A watched site for which a build is done. -/
def finished (watching : Watching) : Watching :=
  watching.printed "Build finished. Watching...".toList

/-- A watched site for which a failed build was reported; failed file operations are logged too. -/
def reported (watching : Watching) (failure : Failure) (words : Text) : Watching :=
  let logged : Watching := match failure with
    | .file _ => { watching with
        state.session.logged := watching.state.session.logged ++ [⟨.error, "Build failed".toList⟩] }
    | _ => watching
  logged.printed ("\x1b[91mBuild failed: ".toList ++ words ++ "\x1b[0m".toList)

/-- A build that fails with words is reported, one without words is passed on. -/
theorem runBuild_run (environment : Pairs Text) (configChanged : Bool) (watching : Watching) :
    runBuild environment configChanged watching =
      match rebuild environment configChanged watching with
      | .ok () after => .ok () after
      | .error failure after =>
        match failure.words? with
        | some words => .ok () (after.reported failure words)
        | none => .error failure after := by
  unfold runBuild
  cases built : rebuild environment configChanged watching with
  | ok value after =>
    have attempts : (rebuild environment configChanged).attempt watching =
        .ok (.ok value) after := by
      rw [WatchTask.attempt, built]
    rw [bind_of_ok _ _ attempts]
    rfl
  | error failure after =>
    have attempts : (rebuild environment configChanged).attempt watching =
        .ok (.error failure) after := by
      rw [WatchTask.attempt, built]
    rw [bind_of_ok _ _ attempts]
    cases failure with
    | file error =>
      simp only [Failure.words?]
      split <;> rfl
    | highlight error =>
      show (match (Failure.highlight error).report? with
        | some words => reportFailed words
        | none => throw (.highlight error) : WatchTask Unit) after =
          match (Failure.highlight error).report? with
          | some words => .ok () (after.reported (.highlight error) words)
          | none => .error (.highlight error) after
      cases (Failure.highlight error).report? <;> rfl
    | _ => rfl

/-- Building with the configuration that there is. -/
theorem rebuild_run (environment : Pairs Text) (watching : Watching) :
    rebuild environment false watching =
      match Site.build false watching.state with
      | .ok () state => .ok () { watching with state }.finished
      | .error failure state => .error failure { watching with state } := by
  cases built : Site.build false watching.state with
  | ok value state =>
    have builds : WatchTask.ofSiteTask (Site.build false) watching =
        .ok () { watching with state } := by
      rw [WatchTask.ofSiteTask, built]
    exact bind_of_ok _ _ builds
  | error failure state =>
    have builds : WatchTask.ofSiteTask (Site.build false) watching =
        .error failure { watching with state } := by
      rw [WatchTask.ofSiteTask, built]
    exact bind_of_error builds

/-- Building with the configuration read anew: if there is one, the handler has it in any case. -/
theorem rebuild_run_changed (environment : Pairs Text) (watching : Watching) :
    rebuild environment true watching =
      match Config.load watching.state.session.disk (some watching.state.site.source.toText)
          environment with
      | .error failure => .error failure watching.announced
      | .ok config =>
        match Site.reload config watching.announced.state with
        | .ok () state => .ok () (finished ⟨{ watching.handler with config }, state⟩)
        | .error failure state => .error failure ⟨{ watching.handler with config }, state⟩ := by
  unfold rebuild
  rw [if_pos rfl, bind_of_ok () watching.announced (by rfl),
    bind_of_ok watching.state.site watching.announced (by rfl),
    bind_of_ok watching.state.session.disk watching.announced (by rfl)]
  dsimp only
  cases Config.load watching.state.session.disk (some watching.state.site.source.toText)
      environment with
  | error failure => exact bind_of_error (by rfl)
  | ok config =>
    let handed : Watching := { watching.announced with handler.config := config }
    rw [bind_of_ok config watching.announced (by rfl), bind_of_ok () handed (by rfl)]
    dsimp only
    cases built : Site.reload config watching.announced.state with
    | ok value state =>
      have builds : WatchTask.ofSiteTask (Site.reload config) handed =
          .ok () { handed with state } := by
        rw [WatchTask.ofSiteTask, show handed.state = watching.announced.state from rfl, built]
      exact bind_of_ok _ _ builds
    | error failure state =>
      have builds : WatchTask.ofSiteTask (Site.reload config) handed =
          .error failure { handed with state } := by
        rw [WatchTask.ofSiteTask, show handed.state = watching.announced.state from rfl, built]
      exact bind_of_error builds

/-- A build that is done says so at its end. -/
theorem finished_of_rebuild {after : Watching}
    (builds : rebuild environment configChanged watching = .ok () after) :
    ∃ built : Watching, after = built.finished := by
  cases configChanged with
  | false =>
    rw [rebuild_run] at builds
    split at builds <;> cases builds
    exact ⟨_, rfl⟩
  | true =>
    rw [rebuild_run_changed] at builds
    split at builds
    · cases builds
    · split at builds <;> cases builds
      exact ⟨_, rfl⟩

end Watching

namespace Ends

variable {watching : Watching} {environment : Pairs Text} {configChanged : Bool}
  {done : Unit → Watching → Prop} {failed : Watching → Prop}

/-- How a build that answers changes ends, if it is known how the site is built. -/
theorem rebuild
    (builds : configChanged = false → Ends (Site.build false) watching.state
      (fun _ state => done () { watching with state }.finished)
      fun state => failed { watching with state })
    (unread : configChanged = true → ∀ failure, Config.load watching.state.session.disk
        (some watching.state.site.source.toText) environment = .error failure →
      failed watching.announced)
    (reloads : configChanged = true → ∀ config, Config.load watching.state.session.disk
        (some watching.state.site.source.toText) environment = .ok config →
      Ends (Site.reload config) watching.announced.state
        (fun _ state => done () (Watching.finished ⟨{ watching.handler with config }, state⟩))
        fun state => failed ⟨{ watching.handler with config }, state⟩) :
    Ends (Watching.rebuild environment configChanged) watching done failed := by
  cases configChanged with
  | false =>
    have ends := builds rfl
    rw [Ends, Watching.rebuild_run]
    unfold Ends at ends
    cases built : Site.build false watching.state with
    | ok value state =>
      rw [built] at ends
      exact ends
    | error failure state =>
      rw [built] at ends
      exact ends
  | true =>
    rw [Ends, Watching.rebuild_run_changed]
    cases loaded : Config.load watching.state.session.disk
        (some watching.state.site.source.toText) environment with
    | error failure => exact unread rfl failure loaded
    | ok config =>
      have ends := reloads rfl config loaded
      unfold Ends at ends
      dsimp only
      cases built : Site.reload config watching.announced.state with
      | ok value state =>
        rw [built] at ends
        exact ends
      | error failure state =>
        rw [built] at ends
        exact ends

/-- A failure that is reported is the end of the build, but not of the watching. -/
theorem runBuild
    (rebuilds : Ends (Watching.rebuild environment configChanged) watching done fun after =>
      failed after ∧ ∀ failure words, done () (after.reported failure words)) :
    Ends (Watching.runBuild environment configChanged) watching done failed := by
  unfold Ends at rebuilds ⊢
  rw [Watching.runBuild_run]
  cases built : Watching.rebuild environment configChanged watching with
  | ok value after =>
    rw [built] at rebuilds
    exact rebuilds
  | error failure after =>
    rw [built] at rebuilds
    dsimp only
    cases failure.words? with
    | none => exact rebuilds.1
    | some words => exact rebuilds.2 failure words

end Ends

end TemplHighlight
