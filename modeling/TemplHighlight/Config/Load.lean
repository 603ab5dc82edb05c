import TemplHighlight.Failure
import TemplHighlight.Toml.Parser

/-!
# Reading configurations

A configuration is read from a file that is named itself, or from the file `templight.toml` of a
directory; without such a file the directory has the default configuration. What the environment
sets goes before what the file sets.
-/

namespace TemplHighlight.Config

/-- The name of configuration files. -/
def fileName : String := "templight.toml"

/-- The configuration file of a directory, if it has one. No directory, or an empty path, stands for
the current one. -/
def find? (disk : Disk) (start : Option Text) : Option Path :=
  let directory := match start with
    | none | some [] => Path.absolute disk.current
    | some start => Path.ofText start
  let file := directory.child fileName
  if disk.hasFile file.toText then some file else none

/-- The configuration file that a path stands for: the file itself, or the one in the directory. -/
def locate (disk : Disk) (path : Option Text) : Except ConfigError (Option Path) :=
  match path with
  | none => .ok (find? disk none)
  | some given =>
    let path := Path.ofText given
    if disk.hasFile path.toText then .ok (some path)
    else if disk.has path.toText then .ok (find? disk (some given))
    else .error (.notFound given)

/-- The configuration that the bytes of a file hold. -/
def ofBytes (path : Text) (bytes : Bytes) : Except Failure Config :=
  match Utf8.decode? bytes with
  | none => .error .undecodable
  | some text =>
    match Toml.parse text with
    | .error .malformed => .error (.config (.malformed path))
    | .error .hugeInteger => .error .hugeInteger
    | .ok document => (ofDocument path document).mapError .config

/-- The configuration that a file holds. -/
def ofFile (disk : Disk) (file : Path) : Except Failure Config := do
  let bytes ← (disk.read file.toText).mapError .file
  let config ← ofBytes file.toText bytes
  return { config with source := some (String.ofList file.toText) }

/-- The configuration for a path, or for the current directory if there is none. -/
def load (disk : Disk) (path : Option Text) (environment : Pairs Text) : Except Failure Config := do
  let config ← match ← (locate disk path).mapError .config with
    | some file => ofFile disk file
    | none => pure {}
  (config.withEnvironment environment).mapError .config

end TemplHighlight.Config
