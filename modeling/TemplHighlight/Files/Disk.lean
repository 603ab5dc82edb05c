import TemplHighlight.Files.Path
import TemplHighlight.Text.Utf8

/-!
# Files

A disk holds files and directories by the names that lead to them from the root. A path is looked up
name by name: every name but the last has to be a directory, and `..` leads back to the directory
above. A path with a NUL in it names nothing. Each operation either gives a changed disk or fails
and changes nothing.
-/

namespace TemplHighlight

/-- The names that lead from the root to a file or directory. -/
abbrev Location := List String

/-- What is at a location. -/
inductive Node where
  | file (bytes : Bytes)
  | directory

/-- Why a file operation failed. -/
inductive FileCause where
  | notFound
  | isDirectory
  | notDirectory
  | exists
  /-- There is a NUL in the path. -/
  | unusable
  deriving DecidableEq

/-- A failed file operation, with the path as it was given. -/
structure FileError where
  cause : FileCause
  path : Text
  deriving DecidableEq

/-- The words for a failed file operation. -/
def FileError.message (error : FileError) : Text :=
  let about (words : String) : Text := words.toList ++ error.path.quoted
  match error.cause with
  | .notFound => about "[Errno 2] No such file or directory: "
  | .isDirectory => about "[Errno 21] Is a directory: "
  | .notDirectory => about "[Errno 20] Not a directory: "
  | .exists => about "[Errno 17] File exists: "
  | .unusable => "embedded null byte".toList

/-- The files and directories there are, and the directory that relative paths start from. -/
structure Disk where
  nodes : List (Location × Node)
  current : Location

namespace Disk

/-- The disk with nothing but the directories that lead to `current`. -/
def empty (current : Location) : Disk :=
  ⟨((List.range current.length).map fun count => (current.take (count + 1), Node.directory)),
    current⟩

/-- What is at a location. The root is always a directory. -/
def node? (disk : Disk) (location : Location) : Option Node :=
  if location.isEmpty then some .directory else disk.nodes.lookup location

/-- Puts a file or directory at a location. -/
def put (disk : Disk) (location : Location) (node : Node) : Disk :=
  let rec go : List (Location × Node) → List (Location × Node)
    | [] => [(location, node)]
    | (there, old) :: more =>
      if there = location then (there, node) :: more else (there, old) :: go more
  { disk with nodes := go disk.nodes }

/-- Goes down from a location. A name that is empty or a dot stays, but only in a directory. -/
def walk (disk : Disk) : Location → List String → Except FileCause Location
  | location, [] => .ok location
  | location, name :: names =>
    match disk.node? location with
    | some .directory =>
      if name = "" || name = "." then walk disk location names
      else if name = ".." then walk disk location.dropLast names
      else if (disk.node? (location ++ [name])).isSome then walk disk (location ++ [name]) names
      else .error .notFound
    | some (.file _) => .error .notDirectory
    | none => .error .notFound

/-- Where a path starts. -/
def startOf (disk : Disk) (path : Text) : Location :=
  if path.head? = some '/' then [] else disk.current

/-- Refuses a path with a NUL in it. -/
def checkPath (path : Text) : Except FileCause Unit :=
  if path.contains '\x00' then .error .unusable else .ok ()

/-- The location that a path names. -/
def locate (disk : Disk) (path : Text) : Except FileCause Location := do
  checkPath path
  if path.isEmpty then throw .notFound
  disk.walk (disk.startOf path) (Path.pieces path)

/-- What a path names. -/
def look (disk : Disk) (path : Text) : Except FileCause Node := do
  match disk.node? (← disk.locate path) with
  | some node => return node
  | none => throw .notFound

/-- Whether a path names something. -/
def has (disk : Disk) (path : Text) : Bool := (disk.look path).isOk

/-- Whether a path names a file. -/
def hasFile (disk : Disk) (path : Text) : Bool :=
  match disk.look path with
  | .ok (.file _) => true
  | _ => false

/-- Whether a path names a directory. -/
def hasDirectory (disk : Disk) (path : Text) : Bool :=
  match disk.look path with
  | .ok .directory => true
  | _ => false

/-- Names the path in an error. -/
def atPath {α : Type} (path : Text) : Except FileCause α → Except FileError α
  | .ok value => .ok value
  | .error cause => .error ⟨cause, path⟩

/-- The bytes of a file. -/
def read (disk : Disk) (path : Text) : Except FileError Bytes :=
  atPath path do
    match ← disk.look path with
    | .file bytes => return bytes
    | .directory => throw .isDirectory

/-- The location of a file to be written: the directory has to be there, and the path must end with
the name of a file and no slash. -/
def locateNew (disk : Disk) (path : Text) : Except FileCause Location := do
  checkPath path
  if path.isEmpty then throw .notFound
  match (Path.pieces path).reverse.dropWhile (· == "") with
  | [] => throw .isDirectory
  | name :: above =>
    let directory ← disk.walk (disk.startOf path) above.reverse
    match disk.node? directory with
    | some .directory =>
      if name = "." || name = ".." || path.getLast? = some '/' then throw .isDirectory
      return directory ++ [name]
    | _ => throw .notDirectory

/-- Writes a file, in place of the one that was there. -/
def write (disk : Disk) (path : Text) (bytes : Bytes) : Except FileError Disk :=
  atPath path do
    let location ← disk.locateNew path
    match disk.node? location with
    | some .directory => throw .isDirectory
    | _ => return disk.put location (.file bytes)

/-- Makes one directory. -/
def makeDirectory (disk : Disk) (path : Text) : Except FileError Disk :=
  atPath path do
    checkPath path
    if disk.has path then throw .exists
    let names := (Path.ofText path).names
    let directory ← disk.walk (disk.startOf path) names.dropLast
    match disk.node? directory with
    | some .directory => return disk.put (directory ++ [names.getLast?.getD ""]) .directory
    | _ => throw .notDirectory

/-- Makes a directory and those above it that are missing. A directory that is there already is left
as it is. `fuel` bounds the number of directories above. -/
def makeDirectoriesWith (disk : Disk) (path : Path) : (fuel : Nat) → Except FileError Disk
  | 0 => .error ⟨.notFound, path.toText⟩
  | fuel + 1 =>
    match disk.makeDirectory path.toText with
    | .ok disk => .ok disk
    | .error error =>
      if error.cause = .notFound && path.parent != path then do
        let disk ← disk.makeDirectoriesWith path.parent fuel
        match disk.makeDirectory path.toText with
        | .ok disk => .ok disk
        | .error error =>
          if error.cause != .notFound && disk.hasDirectory path.toText then .ok disk
          else .error error
      else if error.cause != .notFound && disk.hasDirectory path.toText then .ok disk
      else .error error

/-- Makes a directory and those above it that are missing. -/
def makeDirectories (disk : Disk) (path : Path) : Except FileError Disk :=
  disk.makeDirectoriesWith path (path.names.length + 1)

/-- Takes away a file, or a directory with everything below it. -/
def remove (disk : Disk) (path : Text) : Except FileError Disk :=
  atPath path do
    let _ ← disk.look path
    let location ← disk.locate path
    return { disk with nodes := disk.nodes.filter fun (there, _) => !location.isPrefixOf there }

/-- The files below a location, with the names that lead to them from there. -/
def filesBelow (disk : Disk) (location : Location) : List (Location × Bytes) :=
  disk.nodes.filterMap fun (there, node) =>
    match node with
    | .file bytes =>
      if location.isPrefixOf there then some (there.drop location.length, bytes) else none
    | .directory => none

/-- The names that lead from a location to the files below it that differ from another disk's. -/
def changedBelow (disk other : Disk) (location : Location) : List Location :=
  let old := disk.filesBelow location
  let new := other.filesBelow location
  (new.filter fun (names, bytes) => old.lookup names != some bytes).map (·.1) ++
    (old.filter fun (names, _) => (new.lookup names).isNone).map (·.1)

end Disk

end TemplHighlight
