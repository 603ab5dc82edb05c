import TemplHighlight.Text.Quoted

/-!
# Paths

A path is a number of slashes in front and the names behind them. Reading one drops empty names and
names that are a single dot, but keeps `..`, whose meaning depends on the files. Further down is the
extension of a file name.
-/

namespace TemplHighlight

/-- A path. -/
structure Path where
  /-- None for a relative path, one for an absolute one, and two for one that starts with exactly
  two. -/
  slashes : Nat
  names : List String
  deriving DecidableEq

namespace Path

/-- The pieces of a text between slashes. -/
def pieces (text : Text) : List String := (Text.splitAt '/' text).map String.ofList

/-- The number of slashes that count at the start of a path. -/
def leadingSlashes : Text → Nat
  | '/' :: '/' :: '/' :: _ => 1
  | '/' :: '/' :: _ => 2
  | '/' :: _ => 1
  | _ => 0

/-- The path that a text names. -/
def ofText (text : Text) : Path :=
  ⟨leadingSlashes text, (pieces text).filter fun name => name != "" && name != "."⟩

/-- A path as text. The path without anything is a dot. -/
def toText (path : Path) : Text :=
  if path.slashes = 0 && path.names.isEmpty then ['.']
  else List.replicate path.slashes '/' ++ Text.join ['/'] (path.names.map String.toList)

/-- The absolute path of names below the root. -/
def absolute (names : List String) : Path := ⟨1, names⟩

/-- A path seen from another one; an absolute path stays what it is. -/
def append (base path : Path) : Path :=
  if path.slashes = 0 then { base with names := base.names ++ path.names } else path

instance : Append Path := ⟨append⟩

/-- The path to a name in a directory. -/
def child (path : Path) (name : String) : Path := { path with names := path.names ++ [name] }

/-- The path without its last name. -/
def parent (path : Path) : Path := { path with names := path.names.dropLast }

/-- The last name of a path; empty if there is none. -/
def name (path : Path) : String := path.names.getLast?.getD ""

/-- Takes back a name for every `..`, as far as there are names. -/
def collapse (names : List String) : List String :=
  (names.foldl (fun done name => if name = ".." then done.tail else name :: done) []).reverse

/-- The absolute path that a path names as seen from a directory, with every `..` taken back. -/
def resolve (directory : List String) (path : Path) : Path :=
  absolute (collapse (if path.slashes = 0 then directory ++ path.names else path.names))

/-- The path that `resolve` gives, except that two slashes in front stay two. -/
def normalize (directory : List String) (path : Path) : Path :=
  { resolve directory path with slashes := max 1 path.slashes }

/-- The names that lead from a path to one below it. -/
def below? (base path : Path) : Option (List String) :=
  if base.slashes = path.slashes && base.names.isPrefixOf path.names then
    some (path.names.drop base.names.length)
  else none

/-- The way from one absolute path to another, given by their names. -/
def wayBetween : (start target : List String) → List String
  | a :: start, b :: target =>
    if a = b then wayBetween start target
    else List.replicate (start.length + 1) ".." ++ b :: target
  | start, target => List.replicate start.length ".." ++ target

end Path

namespace FileName

/-- The text from the last dot on, and what stands before it. -/
def splitLastDot? (name : Text) : Option (Text × Text) :=
  if name.contains '.' then
    let back := name.reverse
    let tail := back.takeWhile (· != '.')
    some ((back.drop (tail.length + 1)).reverse, '.' :: tail.reverse)
  else none

/-- The extension of a file name: from its last dot on, if anything but dots stands before it. -/
def extension (name : String) : String :=
  match splitLastDot? name.toList with
  | some (stem, ending) => if stem.all (· == '.') then "" else String.ofList ending
  | none => ""

/-- The extension of the last name of a path that is given as text. -/
def extensionOfText (path : Text) : String :=
  extension ((Path.pieces path).getLast?.getD "")

end FileName

end TemplHighlight
