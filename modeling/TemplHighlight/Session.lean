import TemplHighlight.Failure

/-!
# Sessions

A session is what a command works in: the files, what it has printed and what it has logged. A task
works in a session and ends with a result or a failure; what it did until then stays done.
-/

namespace TemplHighlight

/-- The files, and what was printed and logged so far. -/
structure Session where
  disk : Disk
  printed : Text := []
  logged : Log := []

/-- Work in a session. -/
abbrev SessionTask := EStateM Failure Session

namespace Session

/-- Ends with the failure or goes on with the result. -/
def ofExcept {α : Type} : Except Failure α → SessionTask α
  | .ok value => pure value
  | .error failure => throw failure

/-- Prints a text. -/
def print (text : Text) : SessionTask Unit :=
  modify fun session => { session with printed := session.printed ++ text }

/-- Prints a line. -/
def printLine (line : Text) : SessionTask Unit := print (line ++ ['\n'])

/-- Logs messages. -/
def logAll (messages : Log) : SessionTask Unit :=
  modify fun session => { session with logged := session.logged ++ messages }

/-- Logs one message. -/
def log (level : LogLevel) (text : Text) : SessionTask Unit := logAll [⟨level, text⟩]

/-- What can be seen of the files. -/
def look {α : Type} (view : Disk → α) : SessionTask α := do return view (← get).disk

/-- Changes the files, if that is possible. -/
def change (operation : Disk → Except FileError Disk) : SessionTask Unit := do
  match operation (← get).disk with
  | .ok disk => modify fun session => { session with disk }
  | .error error => throw (.file error)

/-- The bytes of a file. -/
def readBytes (path : Text) : SessionTask Bytes := do
  ofExcept ((← look (·.read path)).mapError .file)

/-- The text of a file; every line ends with a line feed, whatever it ends with in the file. -/
def readText (path : Text) : SessionTask Text := do
  match Utf8.decode? (← readBytes path) with
  | some text => return text.unifyLineEnds
  | none => throw .undecodable

/-- Writes a text to a file. -/
def writeText (path : Text) (text : Text) : SessionTask Unit :=
  change (·.write path (Utf8.encode text))

/-- Makes a directory and those above it that are missing. -/
def makeDirectories (path : Path) : SessionTask Unit := change (·.makeDirectories path)

end Session

end TemplHighlight
