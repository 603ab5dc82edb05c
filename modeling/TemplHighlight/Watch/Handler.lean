import TemplHighlight.Config.Load
import TemplHighlight.Session
import TemplHighlight.Watch.Debounce

/-!
# Changes that matter

Of all the changes below a directory, those of sources and of configuration files matter, unless
they happen in a directory that is hidden or ignored.
-/

namespace TemplHighlight

/-- What decides which changes matter, and what has come of them so far. -/
structure Handler where
  config : Config
  /-- The directory that is watched. -/
  root : Text
  debouncer : Debouncer := {}

namespace Handler

/-- The last name of a path that is given as text. -/
def lastName (path : Text) : String := (Path.pieces path).getLast?.getD ""

/-- The names that lead from the watched directory to a path; a single dot if the path is that
directory. -/
def wayTo (handler : Handler) (current : Location) (path : Text) : List String :=
  let namesOf (path : Text) := (Path.normalize current (Path.ofText path)).names
  match Path.wayBetween (namesOf handler.root) (namesOf path) with
  | [] => ["."]
  | way => way

/-- Whether the change of a file matters. -/
def isRelevant (handler : Handler) (current : Location) (path : Text) : Except Failure Bool :=
  if path.isEmpty then .error .emptyPath
  else
    let way := handler.wayTo current path
    .ok <|
      if way.any (· ∈ handler.config.ignoreDirs) then false
      else if way.head? = some ".." || way.dropLast.any (·.toList.head? = some '.') then false
      else lastName path = Config.fileName ||
        FileName.extensionOfText path ∈ handler.config.watchExtensions

/-- Takes note of a change. Changes of directories do not matter. -/
def notice (handler : Handler) (path : Text) (isDirectory : Bool) : SessionTask Handler := do
  if isDirectory then return handler
  let current ← Session.look (·.current)
  if !(← Session.ofExcept (handler.isRelevant current path)) then return handler
  Session.printLine ("File changed: ".toList ++ path)
  return { handler with
    debouncer := handler.debouncer.change (lastName path = Config.fileName) }

end Handler

end TemplHighlight
