import TemplHighlight.Digest.Md5
import TemplHighlight.Json.Parser
import TemplHighlight.Json.Printer
import TemplHighlight.Session

/-!
# The build cache

A build cache remembers the digest that every source had when it was last rendered, so that a build
can leave out what has not changed. It is kept in a file as a JSON object; a file that cannot be
read counts as empty, and anything else that the file may hold is kept as it is, though no build can
work with it.
-/

namespace TemplHighlight

/-- A build cache and the file that it is kept in. -/
structure Cache where
  file : Path
  content : Json.Value

namespace Cache

/-- The content of a cache without entries. -/
def blank : Json.Value := .object []

/-- The content that the bytes of a cache file stand for. -/
def contentOf? (bytes : Bytes) : Option Json.Value := do
  Json.parse? (← Utf8.decode? bytes).unifyLineEnds

/-- The cache that a file holds; a file that is not there holds no entries. -/
def load (file : Path) : SessionTask Cache := do
  if !(← Session.look (·.has file.toText)) then return ⟨file, blank⟩
  let content? : Option Json.Value := match ← Session.look (·.read file.toText) with
    | .ok bytes => contentOf? bytes
    | .error _ => none
  match content? with
  | some content => return ⟨file, content⟩
  | none =>
    Session.log .warning
      ("Ignoring unreadable build cache ".toList ++ file.toText ++ ": ...".toList)
    return ⟨file, blank⟩

/-- Writes a cache to its file. -/
def save (cache : Cache) : SessionTask Unit := do
  Session.makeDirectories cache.file.parent
  Session.writeText cache.file.toText cache.content.toText

/-- The digest of a file. -/
def digest (path : Text) : SessionTask Text := do return Md5.hexDigest (← Session.readBytes path)

/-- Whether the content has a digest as the entry of a path. -/
def isCurrent (path digest : Text) (members : Pairs Json.Value) : Bool :=
  match Pairs.get? (String.ofList path) members with
  | some (.string known) => known == digest
  | _ => false

/-- Whether a file is not what it was when its digest was taken. -/
def isChanged (cache : Cache) (path : Text) : SessionTask Bool := do
  let digest ← digest path
  match cache.content with
  | .object members => return !isCurrent path digest members
  | _ => throw .cacheLookup

/-- The cache with the digest that a file has now. -/
def update (cache : Cache) (path : Text) : SessionTask Cache := do
  let digest ← digest path
  match cache.content with
  | .object members =>
    let members := Pairs.put (String.ofList path) (.string digest) members
    return { cache with content := .object members }
  | _ => throw .cacheUpdate

/-- The cache without entries. -/
def clear (cache : Cache) : Cache := { cache with content := blank }

end Cache

end TemplHighlight
