import TemplHighlight.Command.Basic
import TemplHighlight.Token.Dump
import TemplHighlight.Watch.Watching

/-!
# Running commands

A command reads the configuration, sets the level of the log, and does what it is asked for. The
failures that are reported end it with status 1; any other failure is left to the caller.
-/

namespace TemplHighlight.Command

/-- How a command ends. -/
inductive Ending where
  | status (code : Nat)
  /-- The site was built and is now to be watched. -/
  | watching (handler : Handler) (site : Site)

/-- How a command ends, and the name of the level that the log has then. -/
structure Result where
  ending : Ending
  level : String

/-- The level of the log until a configuration is read. -/
def initialLevel : String := "WARNING"

/-- The level of the log for a level's name: two levels have two names. -/
def levelNamed (name : String) : String :=
  if name = "WARN" then "WARNING" else if name = "FATAL" then "CRITICAL" else name

/-- A directory as an absolute path. -/
def absolute (directory : Text) : SessionTask Path := do
  return Path.normalize (← Session.look (·.current)) (Path.ofText directory)

/-- Does work on a site, and gives the site as it is afterwards. -/
def onSite {α : Type} (site : Site) (task : SiteTask α) : SessionTask (α × Site) := fun session =>
  match task ⟨site, session⟩ with
  | .ok value state => .ok (value, state.site) state.session
  | .error failure state => .error failure state.session

/-- Builds the pages of a directory and gives its site. -/
def build (config : Config) (directory : Text) (force : Bool) : SessionTask Site := do
  let directory ← absolute directory
  Session.printLine ("Building highlighted sources in ".toList ++ directory.toText ++ "...".toList)
  let site ← Site.create config directory.toText none none
  let ((), site) ← onSite site (Site.build force)
  Session.printLine ("Build complete: ".toList ++ Text.decimal site.generated.length ++
    " file(s) written to ".toList ++ site.output.toText)
  return site

/-- A highlighted text in the form that is asked for. -/
def written (config : Config) (form : OutputForm) (title : Text) (tokens : List Tree) : Text :=
  match form with
  | .json => (Tree.list tokens).toJson.toText ++ ['\n']
  | .html => Html.document (.list tokens) config.language.toList (some title)

/-- Highlights a file. -/
def highlight (config : Config) (file : Text) (output : Option Text) (form : OutputForm) :
    SessionTask Nat := do
  if !(← Session.look (·.has file)) then
    Session.printLine ("Error: File '".toList ++ file ++ "' does not exist.".toList)
    return 1
  let text ← Session.readText file
  let registry ← Site.registryFor config none
  let tokens ← Session.ofExcept ((registry.highlight text config.language).mapError .highlight)
  let result := written config form (Handler.lastName file).toList tokens
  match output with
  | none | some [] => Session.print result
  | some output =>
    Session.writeText output result
    Session.printLine ("Wrote ".toList ++ output)
  return 0

/-- The version of the library and of its commands. -/
def version : Text := "0.1.0".toList

/-- Says which version this is. -/
def showVersion : SessionTask Unit := do
  Session.printLine ("templight CLI version: ".toList ++ version)
  Session.printLine ("templight version: ".toList ++ version)

/-- Does what a command is asked for. -/
def perform (config : Config) : Action → SessionTask Ending
  | .highlight file output form => return .status (← highlight config file output form)
  | .build directory force => do
    let _ ← build config directory force
    return .status 0
  | .watch directory => do
    let site ← build config directory false
    let (handler, site) ← onSite site Watching.start
    return .watching handler site
  | .version => do
    showVersion
    return .status 0

/-- Where the configuration of a command is looked for. -/
def configPath (command : Command) : SessionTask (Option Text) := do
  match command.config, command.action with
  | none, .build directory _ | none, .watch directory => return some (← absolute directory).toText
  | path, _ => return path

/-- The configuration of a command. -/
def readConfig (command : Command) (environment : Pairs Text) : SessionTask Config := do
  let path ← configPath command
  Session.ofExcept (Config.load (← Session.look id) path environment)

/-- Ends with status 1 if the failure is one to be reported. -/
def report (failure : Failure) : SessionTask Ending := do
  match failure.report? with
  | some words =>
    Session.printLine ("Error: ".toList ++ words)
    return .status 1
  | none => throw failure

/-- Does a task, and reports its failure if it fails. -/
def reporting (task : SessionTask Ending) : SessionTask Ending := fun session =>
  match task session with
  | .ok ending session => .ok ending session
  | .error failure session => report failure session

/-- The paths of all that a command may look at, each with whether everything below is meant. -/
def places (command : Command) : List (Text × Bool) :=
  let fileIn (directory : Text) : Text := directory ++ '/' :: Config.fileName.toList
  let config := match command.config with
    | some path => [(path, false), (fileIn path, false)]
    | none => [(Config.fileName.toList, false)]
  config ++ match command.action with
    | .highlight file output _ => [(file, false), (output.getD ['.'], false)]
    | .build directory _ | .watch directory => [(directory, true)]
    | .version => []

/-- Runs a command. -/
def run (command : Command) (environment : Pairs Text) : SessionTask Result := fun session =>
  match readConfig command environment session with
  | .ok config session =>
    let level := if command.verbose then "DEBUG" else levelNamed config.logLevel
    ((⟨·, level⟩) <$> reporting (perform config command.action)) session
  | .error failure session =>
    ((⟨·, initialLevel⟩) <$> report failure) session

/-- Runs what is asked for with arguments. Help ends with status 0 and misuse with status 2; the
words for both are not part of what a command prints. -/
def runArguments (arguments : List Text) (environment : Pairs Text) : SessionTask Result :=
  match parse arguments with
  | .help => return ⟨.status 0, initialLevel⟩
  | .misuse => return ⟨.status 2, initialLevel⟩
  | .command command => run command environment

end TemplHighlight.Command
