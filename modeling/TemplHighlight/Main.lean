import TemplHighlight.Command.Run

/-!
# The command line

Reads the files that a command may look at, runs the command on them, writes back the files that it
has changed, and prints what it has printed. A watched site is read again every second.
-/

namespace TemplHighlight.CommandLine

/-- The path of a location. -/
def pathOf (location : Location) : String := String.ofList (Path.absolute location).toText

/-- Takes in what is at a location, and with `deep` also everything below. Says whether anything is
there. -/
partial def readAt (deep : Bool) (disk : Disk) (location : Location) : IO (Bool × Disk) := do
  try
    let place ← IO.FS.realPath (pathOf location)
    if ← place.isDir then
      let mut disk := disk.put location .directory
      if deep then
        for entry in ← place.readDir do
          disk := (← readAt true disk (location ++ [entry.fileName])).2
      return (true, disk)
    else
      let bytes ← IO.FS.readBinFile place
      return (true, disk.put location (.file bytes.toList))
  catch _ => return (false, disk)

/-- Takes in what a path names, and the directories that lead there. -/
def readPath (disk : Disk) (path : Text) (deep : Bool) : IO Disk := do
  let location := (Path.normalize disk.current (Path.ofText path)).names
  let mut disk := disk
  for count in List.range location.length do
    let (there, read) ← readAt false disk (location.take (count + 1))
    if !there then return disk
    disk := read
  if deep then return (← readAt true disk location).2 else return disk

/-- The files that a command may look at. -/
def readFor (current : Location) (command : Command) : IO Disk := do
  let mut disk := Disk.empty current
  for (path, deep) in command.places do
    disk ← readPath disk path deep
  return disk

/-- Writes back the files and directories that are not what they were. -/
def writeBack (old new : Disk) : IO Unit := do
  for (location, node) in new.nodes do
    match node, old.node? location with
    | .directory, none => IO.FS.createDirAll (pathOf location)
    | .file bytes, some (.file before) =>
      if bytes != before then IO.FS.writeBinFile (pathOf location) ⟨bytes.toArray⟩
    | .file bytes, _ => IO.FS.writeBinFile (pathOf location) ⟨bytes.toArray⟩
    | _, _ => pure ()

/-- Prints what was printed, and on the other channel what was logged. -/
def say (session : Session) (level : String) : IO Unit := do
  let output ← IO.getStdout
  output.putStr (String.ofList session.printed)
  output.flush
  for message in session.logged do
    if message.isShownAt level then IO.eprintln (String.ofList message.line)

/-- Writes back and says what a command did; the session goes on with nothing said. -/
def settle (old : Disk) (session : Session) (level : String) : IO Session := do
  writeBack old session.disk
  say session level
  return { disk := session.disk }

/-- Watches a site until the program is interrupted. -/
partial def watch (environment : Pairs Text) (level : String) (watching : Watching) : IO Unit := do
  IO.sleep 1000
  let session := watching.state.session
  let source := watching.state.site.source
  let (_, disk) ← readAt true (Disk.empty session.disk.current) source.names
  let changed := session.disk.changedBelow disk source.names
  let work : WatchTask Unit := do
    for names in changed do
      Watching.notice (watching.state.site.sourcePath names).toText false
    Watching.fire environment
  let start := { watching with state := { watching.state with session := { disk } } }
  let (failure?, done) := match work start with
    | .ok () done => (none, done)
    | .error failure done => (some failure, done)
  let session ← settle disk done.state.session level
  if let some failure := failure? then IO.eprintln (String.ofList failure.describe)
  watch environment level { done with state := { done.state with session } }

/-- How the program is called. -/
def usage : String :=
  "usage: templight [-h] [--config CONFIG] [-v] highlight [-o OUTPUT] [--format html|json] FILE" ++
  "\n" ++
  "       templight [-h] [--config CONFIG] [-v] build [--force] [DIRECTORY]\n" ++
  "       templight [-h] [--config CONFIG] [-v] watch [DIRECTORY]\n" ++
  "       templight [-h] [--config CONFIG] [-v] version"

/-- The variables that a configuration depends on. -/
def readEnvironment : IO (Pairs Text) := do
  let mut environment := []
  for name in Config.environmentNames do
    if let some value ← IO.getEnv name then
      environment := Pairs.put name value.toList environment
  return environment

/-- Runs a command on the files there are. -/
def run (command : Command) : IO UInt32 := do
  let environment ← readEnvironment
  let current := (Path.ofText (toString (← IO.currentDir)).toList).names
  let disk ← readFor current command
  match command.run environment { disk } with
  | .ok result session =>
    let session ← settle disk session result.level
    match result.ending with
    | .status code => return UInt32.ofNat code
    | .watching handler site =>
      watch environment result.level ⟨handler, site, session⟩
      return 0
  | .error failure session =>
    let _ ← settle disk session Command.initialLevel
    IO.eprintln (String.ofList failure.describe)
    return 1

end TemplHighlight.CommandLine

open TemplHighlight in
/-- Runs what is asked for on the command line. -/
def main (arguments : List String) : IO UInt32 := do
  match Command.parse (arguments.map String.toList) with
  | .help =>
    IO.println CommandLine.usage
    return 0
  | .misuse =>
    IO.eprintln CommandLine.usage
    return 2
  | .command command => CommandLine.run command
