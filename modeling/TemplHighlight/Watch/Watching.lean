import TemplHighlight.Site.Build
import TemplHighlight.Watch.Handler

/-!
# Watching sites

While a site is watched, every burst of changes is answered by a build; when a configuration file
has changed, the configuration is read anew before. A build that fails in a way that is to be
expected is reported, and the watching goes on.
-/

namespace TemplHighlight

/-- A site that is watched. -/
structure Watching where
  handler : Handler
  state : SiteState

/-- Work while a site is watched. -/
abbrev WatchTask := EStateM Failure Watching

/-- Work on a site is work on a watched site that leaves the handler alone. -/
def WatchTask.ofSiteTask {α : Type} (task : SiteTask α) : WatchTask α := fun watching =>
  match task watching.state with
  | .ok value state => .ok value { watching with state }
  | .error failure state => .error failure { watching with state }

instance : MonadLift SiteTask WatchTask := ⟨WatchTask.ofSiteTask⟩

/-- Does a task and gives its failure, if any, as a result. What it did until then stays done. -/
def WatchTask.attempt {α : Type} (task : WatchTask α) : WatchTask (Except Failure α) :=
  fun watching =>
    match task watching with
    | .ok value watching => .ok (.ok value) watching
    | .error failure watching => .ok (.error failure) watching

namespace Watching

/-- Says that the watching of a site begins. -/
def start : SiteTask Handler := do
  let site ← SiteTask.site
  Session.printLine ("Watching ".toList ++ site.source.toText ++ " for changes...".toList)
  return { config := site.config, root := site.source.toText }

/-- Says that the watching ends. -/
def stop : SessionTask Unit := Session.print "\nStopping watcher.\n".toList

/-- Changes the handler. -/
def setHandler (change : Handler → Handler) : WatchTask Unit :=
  modify fun watching => { watching with handler := change watching.handler }

/-- Changes the debouncer and gives what comes of it. -/
def debounce (change : Debouncer → Option Bool × Debouncer) : WatchTask (Option Bool) := do
  let (told, debouncer) := change (← get).handler.debouncer
  setHandler fun handler => { handler with debouncer }
  return told

/-- Takes note of a change. -/
def notice (path : Text) (isDirectory : Bool) : WatchTask Unit := do
  let handler ← (← get).handler.notice path isDirectory
  setHandler fun _ => handler

/-- Builds the site, with the configuration read anew if it has changed. -/
def rebuild (environment : Pairs Text) (configChanged : Bool) : WatchTask Unit := do
  if configChanged then
    Session.printLine "Configuration changed, reloading grammar...".toList
    let directory := (← SiteTask.site).source.toText
    let disk ← Session.look id
    let config ← Session.ofExcept (Config.load disk (some directory) environment)
    setHandler fun handler => { handler with config }
    Site.reload config
  else Site.build false
  Session.printLine "Build finished. Watching...".toList

/-- Reports a build that failed, in red. -/
def reportFailed (words : Text) : WatchTask Unit :=
  Session.printLine ("\x1b[91mBuild failed: ".toList ++ words ++ "\x1b[0m".toList)

/-- Builds the site and reports the failures that are to be expected; others are passed on, and so
is the failure of a path that cannot be used at all. -/
def runBuild (environment : Pairs Text) (configChanged : Bool) : WatchTask Unit := do
  match ← (rebuild environment configChanged).attempt with
  | .ok () => return ()
  | .error (.file error) =>
    if error.cause = .unusable then throw (.file error)
    Session.log .error "Build failed".toList
    reportFailed error.message
  | .error failure =>
    match failure.report? with
    | some words => reportFailed words
    | none => throw failure

/-- Lets the pending timer expire, if there is one, and runs the build that it calls for. -/
def fire (environment : Pairs Text) : WatchTask Unit := do
  match (← get).handler.debouncer.pending? with
  | none => return ()
  | some number =>
    match ← debounce (·.expire number) with
    | none => return ()
    | some configChanged =>
      let result ← (runBuild environment configChanged).attempt
      let _ ← debounce Debouncer.finish
      match result with
      | .ok () => return ()
      | .error failure => throw failure

end Watching

end TemplHighlight
