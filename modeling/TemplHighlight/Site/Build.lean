import TemplHighlight.Site.Basic
import TemplHighlight.Token.Html

/-!
# Building sites

A build renders the sources that have changed since they were last rendered, or whose page is
missing, and then writes the cache. A new configuration is taken over by composing its grammar
first, so that a grammar that cannot be composed leaves the site as it was, and then rendering
everything.
-/

namespace TemplHighlight.Site

/-- The page that shows a source. -/
def page (site : Site) (name : String) (text : Text) : Except HighlightError Text := do
  let tokens ← site.registry.highlight text site.config.language
  return Html.document (.list tokens) site.config.language.toList (some name.toList)

/-- A registry for a configuration: the one that is given, or a new one. -/
def registryFor (config : Config) : Option Registry → SessionTask Registry
  | some registry => return registry
  | none => do
    let (registry, log) ← Session.ofExcept ((Registry.create config).mapError .highlight)
    Session.logAll log
    return registry

/-- The site of a directory of sources. Its pages go to `output`, or to a directory `build` next to
the sources. -/
def create (config : Config) (source : Text) (output : Option Text) (registry : Option Registry) :
    SessionTask Site := do
  Session.ofExcept ((Disk.atPath source (Disk.checkPath source)).mapError .file)
  let source := Path.resolve (← Session.look (·.current)) (Path.ofText source)
  let output := match output with
    | none | some [] => source.child "build"
    | some output => Path.ofText output
  let registry ← registryFor config registry
  let cache ← Cache.load ((source.child ".templight").child "cache.json")
  return { config, source, output, registry, cache }

/-- Writes the page of a source and says where it is: at `target`, or where the site keeps the pages
of its sources. -/
def render (source : Path) (target : Option Path) : SiteTask Path := do
  let text ← Session.readText source.toText
  let site ← SiteTask.site
  let page ← Session.ofExcept ((site.page source.name text).mapError .highlight)
  let target ← match target with
    | some target => pure target
    | none => do Session.ofExcept (site.pageOf (← Session.look (·.current)) source)
  Session.makeDirectories target.parent
  Session.writeText target.toText page
  return target

/-- Whether a source needs no rendering: it has not changed, and its page is there. -/
def isFresh (source target : Path) : SiteTask Bool := do
  let changed ← (← SiteTask.site).cache.isChanged source.toText
  let there ← Session.look (·.has target.toText)
  return !changed && there

/-- Renders a source that needs it, and takes note of its digest. Says whether it was rendered. -/
def refresh (names : List String) : SiteTask Bool := do
  let site ← SiteTask.site
  let source := site.sourcePath names
  let target := site.pagePath names
  if ← isFresh source target then return false
  let target ← render source (some target)
  let cache ← (← SiteTask.site).cache.update source.toText
  SiteTask.setSite fun site => { site with cache, generated := site.generated ++ [target] }
  Session.printLine
    ("  ".toList ++ Path.toText ⟨0, names⟩ ++ " -> ".toList ++ target.toText)
  return true

/-- Renders sources, one after the other. Gives the number of those that needed no rendering. -/
def refreshAll : List (List String) → SiteTask Nat
  | [] => return 0
  | names :: more => do
    let rendered ← refresh names
    let fresh ← refreshAll more
    return if rendered then fresh else fresh + 1

/-- Renders the sources that need it, or all if that is asked for, and writes the cache. -/
def build (force : Bool) : SiteTask Unit := do
  if force then SiteTask.setSite fun site => { site with cache := site.cache.clear }
  SiteTask.setSite fun site => { site with generated := [] }
  let site ← SiteTask.site
  let names ← Session.look (sourceNames · site.config site.source.names)
  let fresh ← refreshAll names
  let site ← SiteTask.site
  site.cache.save
  Session.log .debug
    ("Rendered ".toList ++ Text.decimal site.generated.length ++ " file(s), ".toList ++
      Text.decimal fresh ++ " unchanged".toList)

/-- Takes over a configuration and renders everything with it. -/
def reload (config : Config) : SiteTask Unit := do
  let _ ← SiteTask.onRegistry (RegistryTask.installTempl config)
  SiteTask.setSite fun site => { site with config }
  build true

end TemplHighlight.Site
