import TemplHighlight.Proofs.Site.Events
import TemplHighlight.Proofs.Site.Opening

/-!
# Builds are fresh

A new site without a cache can be relied on, and so it can be after whatever has happened to it. A
build that succeeds leaves every source up to date.
-/

namespace TemplHighlight

open Disk

variable {scope : Scope}

namespace Site

variable {config : Config} {source : Text} {output : Option Text} {registry : Option Registry}
  {session : Session}

/-- A new site can be relied on if there is no cache for it. -/
theorem reliable_of_created {site : Site} {start : Session} (allowed : scope.configs config)
    (proper : Proper session.disk.current)
    (created : create config source output registry session = .ok site start)
    (noCache : start.disk.has site.cache.file.toText = false)
    (knows : scope.Knows site.source.names start.disk) :
    ∃ layout, Reliable scope layout ⟨site, start⟩ := by
  obtain ⟨sameDisk, opened⟩ := (create_ends config source output registry).of_ok created
  have fits := opened.fits proper
  have content : site.cache.content = Cache.blank := by
    refine opened.content.resolve_right ?_
    rintro ⟨bytes, read, -⟩
    rw [sameDisk, has_of_read read] at noCache
    cases noCache
  obtain rfl := opened.ofConfig
  rw [opened.ofSource] at knows
  exact ⟨Layout.of proper source output,
    ⟨⟨fits.source, fits.output, fits.cache, congrArg Disk.current sameDisk⟩, allowed, knows⟩,
    cached_blank content⟩

/-- Whenever a build succeeds while a site lives, with or without a new configuration, every source
that there is has a page that shows its text under the configuration and the registry of the site.

The site starts without a cache. Until the build, sources are written, files are removed, and the
site is built and given new configurations, in any order; each of these may fail somewhere. No
configuration takes pages for sources, no directory of sources is named like a page and no source
is named with dots alone, and the contents of sources have digests of their own. -/
theorem up_to_date_after_events {site : Site} {start : Session} {events : List Event}
    {last : Event} {final : SiteState} (allowed : scope.configs config)
    (proper : Proper session.disk.current)
    (created : create config source output registry session = .ok site start)
    (noCache : start.disk.has site.cache.file.toText = false)
    (knows : scope.Knows site.source.names start.disk)
    (allowedEvents : ∀ event ∈ events, event.Allowed scope)
    (allowedLast : last.Allowed scope) (builds : last.builds = true)
    (succeeds : last.task (Event.run events ⟨site, start⟩) = .ok () final) :
    final.site.AllUpToDate final.session.disk := by
  obtain ⟨layout, reliable⟩ := reliable_of_created allowed proper created noCache knows
  have ends := (reliable.run allowedEvents).event_ends allowedLast
  exact (ends.of_ok succeeds).2 builds

/-- A registry whose only language takes every text as it is. -/
def plainRegistry : Registry := .ofList [("templ", ⟨"plain", [], .none⟩)]

/-- A site with one source. -/
def single : SiteState where
  site := {
    config := {}
    source := .absolute ["s"]
    output := .absolute ["s", "build"]
    registry := plainRegistry
    cache := ⟨.absolute ["s", ".templight", "cache.json"], Cache.blank⟩ }
  session := { disk := ⟨[(["s"], .directory), (["s", "p.templ"], .file [120])], []⟩ }

/-- The contents that its source has: two texts, and bytes that are no text. -/
def singleScope : Scope where
  configs := (· = {})
  contents bytes := bytes ∈ [[120], [255], [121]]
  quiet := by
    rintro _ rfl
    decide
  distinct a b isContent isContent' := by
    have distinct : ∀ a ∈ [[120], [255], [121]], ∀ b ∈ [[120], [255], [121]],
        Md5.hexDigest a = Md5.hexDigest b → a = b := by decide +kernel
    exact distinct a isContent b isContent'

/-- The file of the site may be a source. -/
theorem single_source : SourceNames singleScope ["p.templ"] := by
  refine ⟨⟨{}, rfl, by decide⟩, by decide, by decide, ?_⟩
  rintro _ ⟨⟩
  exact ⟨'p', by decide⟩

/-- It is the only one, and its content is one of those. -/
theorem single_known : singleScope.Knows single.site.source.names single.session.disk := by
  have only {names : List String} {bytes : Bytes}
      (listed : (["s"] ++ names, .file bytes) ∈ single.session.disk.nodes) :
      names = ["p.templ"] ∧ bytes = [120] := by
    simpa [single] using listed
  constructor
  · intro names bytes listed config allowed isSource
    obtain ⟨rfl, -⟩ := only listed
    exact single_source
  · intro names source bytes found
    obtain ⟨-, rfl⟩ := only (mem_of_node? found)
    exact List.mem_cons_self

/-- After a build, one that fails because the source is no text, and another one when it is a text
again, its page shows what it is now. -/
theorem up_to_date_after_failed_build :
    ∃ final, (Event.build false).task (Event.run [.build false, .write ["p.templ"] [255],
        .build false, .write ["p.templ"] [121]] single) = .ok () final ∧
      ["p.templ"] ∈ final.site.found final.session.disk ∧
      final.site.AllUpToDate final.session.disk := by
  have created : create {} ['s'] none (some plainRegistry) single.session =
      .ok single.site single.session := rfl
  have writes (bytes : Bytes) (inScope : bytes ∈ [[120], [255], [121]]) :
      Event.Allowed singleScope (.write ["p.templ"] bytes) := ⟨single_source, inScope⟩
  have allowed : ∀ event ∈ [.build false, .write ["p.templ"] [255], .build false,
      .write ["p.templ"] [121]], Event.Allowed singleScope event := by
    simp only [List.forall_mem_cons]
    exact ⟨trivial, writes _ (by decide), trivial, writes _ (by decide), nofun⟩
  have allowedLast : (Event.build false).Allowed singleScope := trivial
  have succeeds : ∃ final, (Event.build false).task (Event.run [.build false,
      .write ["p.templ"] [255], .build false, .write ["p.templ"] [121]] single) = .ok () final ∧
      ["p.templ"] ∈ final.site.found final.session.disk := by
    simp only [Site.found, sourceNames, List.mem_mergeSort]
    decide +kernel
  obtain ⟨final, built, found⟩ := succeeds
  exact ⟨final, built, found,
    up_to_date_after_events rfl (by decide) created rfl single_known allowed allowedLast rfl built⟩

/-- A site with one source that is named with dots alone, and a configuration that takes files
without an extension for sources. -/
def dotted : SiteState where
  site := {
    config := { watchExtensions := [""] }
    source := .absolute []
    output := ⟨0, ["a"]⟩
    registry := plainRegistry
    cache := ⟨.absolute [".templight", "cache.json"], Cache.blank⟩ }
  session := { disk := ⟨[(["b"], .directory), (["b", "..."], .file [120])], []⟩ }

/-- The site after a build, when its source has changed. -/
def dottedChanged : SiteState := Event.run [.build false, .write ["b", "..."] [121]] dotted

/-- The contents of all files of a disk. -/
def contentsOf (disk : Disk) : List Bytes := (disk.filesBelow []).map (·.2)

/-- That no source is named with dots alone cannot be left out. The page of `...` has no extension
either, as dots in front of a name do not start one, so it is a source itself. A build that comes to
it before it comes to `...` renders it as it was, and then renders `...` and changes it. -/
theorem page_of_dots_stale :
    ".html" ∉ dotted.site.config.watchExtensions ∧
    create dotted.site.config ['/'] (some ['a']) (some plainRegistry) dotted.session =
      .ok dotted.site dotted.session ∧
    dotted.session.disk.has dotted.site.cache.file.toText = false ∧
    dotted.session.disk.has dotted.site.output.toText = false ∧
    ∃ final, (Event.build false).task dottedChanged = .ok () final ∧
      ["a", "b", "....html"] ∈ final.site.found final.session.disk ∧
      (∀ names ∈ final.site.found final.session.disk, ∀ name ∈ names.dropLast,
        ¬ ".html".toList <:+ name.toList) ∧
      (let contents := contentsOf dotted.session.disk ++ contentsOf dottedChanged.session.disk ++
        contentsOf final.session.disk
      ∀ a ∈ contents, ∀ b ∈ contents, Md5.hexDigest a = Md5.hexDigest b → a = b) ∧
      ¬ final.site.UpToDate final.session.disk ["a", "b", "....html"] := by
  have visited : dottedChanged.site.found dottedChanged.session.disk =
      [["a", "b", "....html"], ["b", "..."]] := by
    have found : ((dottedChanged.session.disk.filesBelow dottedChanged.site.source.names).map
        (·.1)).filter dottedChanged.site.config.isSource =
          [["b", "..."], ["a", "b", "....html"]] := by decide +kernel
    rw [Site.found, sourceNames, found]
    simp [List.mergeSort, List.MergeSort.Internal.splitInTwo, visitsBefore]
  refine ⟨by decide, rfl, by decide, by decide, ?_⟩
  rw [Event.task, build_of_sourceNames visited]
  simp only [Site.found, sourceNames, List.mem_mergeSort]
  decide +kernel

end Site

end TemplHighlight
