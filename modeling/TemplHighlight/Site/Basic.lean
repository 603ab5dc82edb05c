import TemplHighlight.Site.Cache

/-!
# Sites

A site is a directory of sources that are rendered as HTML pages. Which files are sources and where
their pages go is decided by the configuration and the path of a file alone.
-/

namespace TemplHighlight

/-- A directory of sources, with all that is needed to render them. -/
structure Site where
  config : Config
  /-- The directory of the sources, from the root. -/
  source : Path
  /-- The directory of the pages. -/
  output : Path
  registry : Registry
  cache : Cache
  /-- The pages that the last build has written. -/
  generated : List Path := []

/-- A site and the session that it is worked on in. -/
structure SiteState where
  site : Site
  session : Session

/-- Work on a site. -/
abbrev SiteTask := EStateM Failure SiteState

/-- Work in a session is work on a site that leaves the site alone. -/
def SiteTask.ofTask {α : Type} (task : SessionTask α) : SiteTask α := fun state =>
  match task state.session with
  | .ok value session => .ok value { state with session }
  | .error failure session => .error failure { state with session }

instance : MonadLift SessionTask SiteTask := ⟨SiteTask.ofTask⟩

/-- The site as it is now. -/
def SiteTask.site : SiteTask Site := return (← get).site

/-- Changes the site. -/
def SiteTask.setSite (change : Site → Site) : SiteTask Unit :=
  modify fun state => { state with site := change state.site }

/-- Work on the registry of a site; what it logs is logged in the session. -/
def SiteTask.onRegistry {α : Type} (task : RegistryTask α) : SiteTask α := fun state =>
  let resume (worked : LoggedRegistry) : SiteState :=
    { site := { state.site with registry := worked.registry }
      session := { state.session with logged := state.session.logged ++ worked.logged } }
  match task { registry := state.site.registry } with
  | .ok value worked => .ok value (resume worked)
  | .error error worked => .error (.highlight error) (resume worked)

namespace Config

/-- Whether the names of directories may lead to sources: none of them is hidden or ignored. -/
def entersAll (config : Config) (directories : List String) : Bool :=
  directories.all fun name => !(name ∈ config.ignoreDirs) && name.toList.head? != some '.'

/-- Whether the names that lead to a file make it a source. -/
def isSource (config : Config) (names : List String) : Bool :=
  match names.getLast? with
  | some name =>
    config.entersAll names.dropLast && FileName.extension name ∈ config.watchExtensions
  | none => false

end Config

namespace Site

/-- The order in which the files of a directory are visited, each given by the names that lead to
it: first the files right there, by name, and then the directories, by name. -/
def visitsBefore : List String → List String → Bool
  | [], _ => true
  | _ :: _, [] => false
  | [a], [b] => decide (a ≤ b)
  | [_], _ :: _ :: _ => true
  | _ :: _ :: _, [_] => false
  | a :: more, b :: others =>
    if a = b then visitsBefore more others else decide (a ≤ b)

/-- The names that lead to the sources of a configuration below a directory, in the order in which
they are visited. -/
def sourceNames (disk : Disk) (config : Config) (directory : Location) : List (List String) :=
  ((disk.filesBelow directory).map (·.1)).filter config.isSource |>.mergeSort visitsBefore

/-- The path to a file that the names lead to from the directory of the sources. -/
def sourcePath (site : Site) (names : List String) : Path :=
  { site.source with names := site.source.names ++ names }

/-- The sources of a site. -/
def sources (site : Site) (disk : Disk) : List Path :=
  (sourceNames disk site.config site.source.names).map site.sourcePath

/-- The page of a source that the names lead to. -/
def pagePath (site : Site) (names : List String) : Path :=
  site.output ++ (⟨0, names.dropLast ++ [names.getLast?.getD "" ++ ".html"]⟩ : Path)

/-- The page of a source, given by any path to it; every source is below the directory of the
sources. -/
def pageOf (site : Site) (current : Location) (source : Path) : Except Failure Path := do
  (Disk.atPath source.toText (Disk.checkPath source.toText)).mapError .file
  match site.source.below? (Path.resolve current source) with
  | none | some [] => throw (.outside source.toText)
  | some names => return site.pagePath names

end Site

end TemplHighlight
