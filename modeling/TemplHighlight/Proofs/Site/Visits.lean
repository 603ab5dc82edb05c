import TemplHighlight.Proofs.Json.Tables
import TemplHighlight.Proofs.Site.Opening
import TemplHighlight.Proofs.Site.Rendering

/-!
# What a build leaves of every source

However far a build gets, each source is in one of two cases. Its page and its entry in the cache are
what they were; or the page is made from what the source is, under the configuration of the site, and
the entry is the digest of the source. Once the build has come past a source, its entry is the digest
of the source in both cases, and something is at the location of the page.
-/

namespace TemplHighlight

open Disk

/-- The page that a new site with a configuration makes of a source with a name. -/
def Config.rendering? (config : Config) (name : String) (source : Bytes) : Option Bytes := do
  let (registry, _) ← (Registry.create config).toOption
  let text ← Utf8.decode? source
  let tokens ← (registry.highlight text.unifyLineEnds config.language).toOption
  return Utf8.encode (Html.document (.list tokens) config.language.toList (some name.toList))

/-- Names that lead to a source of one of some configurations. -/
structure Watched (configs : Config → Prop) (names : List String) : Prop
    extends FileNames names where
  watched : ∃ config, configs config ∧ config.isSource names = true

/-- None of some configurations takes pages for sources. -/
def Quiet (configs : Config → Prop) : Prop :=
  ∀ config, configs config → ".html" ∉ config.watchExtensions

namespace Layout

/-- The files of a disk that may be sources can have pages. -/
def Known (layout : Layout) (configs : Config → Prop) (disk : Disk) : Prop :=
  ∀ names bytes, (layout.source ++ names, .file bytes) ∈ disk.nodes →
    ∀ config, configs config → config.isSource names = true → FileNames names

/-- A site that is laid out, with a registry of its own, and the files that it works on. -/
structure Houses (layout : Layout) (configs : Config → Prop) (site : Site) (disk : Disk) : Prop
    extends layout.Fits site disk where
  configured : configs site.config
  registered : ∃ log, Registry.create site.config = .ok (site.registry, log)
  known : layout.Known configs disk

/-- The locations that a build may write files at, besides that of the cache. -/
def Pages (layout : Layout) (configs : Config → Prop) (location : Location) : Prop :=
  ∃ names, Watched configs names ∧ location = layout.pageAt names

/-- What was done about a source while the files and the entries of the cache changed. -/
inductive Visited (layout : Layout) (config : Config) (names : List String) (before after : Disk)
    (texts texts' : Pairs Text) : Prop where
  /-- Its page, if there was one, and its entry are what they were. -/
  | kept
      (page : ∀ page, before.node? (layout.pageAt names) = some (.file page) →
        after.node? (layout.pageAt names) = some (.file page))
      (entry : Pairs.get? (layout.key names) texts' = Pairs.get? (layout.key names) texts)
  /-- Its page is made from what it is, and its entry is its digest. -/
  | rendered (source page : Bytes)
      (isSource : before.node? (layout.sourceAt names) = some (.file source))
      (shows : config.rendering? (names.getLast?.getD "") source = some page)
      (isPage : after.node? (layout.pageAt names) = some (.file page))
      (entry : Pairs.get? (layout.key names) texts' = some (Md5.hexDigest source))

end Layout

variable {layout : Layout} {configs : Config → Prop} {config : Config} {site : Site}
  {disk before middle after : Disk} {names others : List String} {texts texts' texts'' : Pairs Text}

/-! ## Sources, pages and the cache are apart -/

namespace Watched

/-- A source is not where a page is. -/
theorem ne_page (watched : Watched configs names) (quiet : Quiet configs) (file : FileNames others) :
    layout.sourceAt names ≠ layout.pageAt others := by
  obtain ⟨config, allowed, isSource⟩ := watched.watched
  exact (layout.pageAt_not_source (quiet config allowed) file isSource).symm

/-- Nor where the cache is. -/
theorem ne_cache (watched : Watched configs names) : layout.sourceAt names ≠ layout.cacheAt := by
  obtain ⟨config, -, isSource⟩ := watched.watched
  exact layout.source_ne_cache isSource

end Watched

/-- No page is where a configuration has a source. -/
theorem Quiet.not_pages (quiet : Quiet configs) (allowed : configs config)
    (isSource : config.isSource names = true) :
    ¬ layout.Pages configs (layout.sourceAt names) := by
  rintro ⟨others, other, same⟩
  exact layout.pageAt_not_source (quiet config allowed) other.toFileNames isSource same.symm

/-- Nor is one where a source is watched. -/
theorem Watched.not_pages (watched : Watched configs names) (quiet : Quiet configs) :
    ¬ layout.Pages configs (layout.sourceAt names) := by
  obtain ⟨config, allowed, isSource⟩ := watched.watched
  exact quiet.not_pages allowed isSource

/-- A page shows a source of a site if a new site with its configuration makes it. -/
theorem Layout.Houses.shows_iff (houses : layout.Houses configs site disk) (file : FileNames names)
    {source page : Bytes} :
    site.Shows names source page ↔
      site.config.rendering? (names.getLast?.getD "") source = some page := by
  obtain ⟨log, created⟩ := houses.registered
  obtain ⟨front, last, rfl, -⟩ := file.split
  have title : (site.sourcePath (front ++ [last])).name = last := by
    rw [Path.name, houses.names_sourcePath, ← List.append_assoc, List.getLast?_concat]
    rfl
  rw [Site.Shows, title, List.getLast?_concat]
  simp only [Config.rendering?, created, Site.page, Except.toOption, Option.bind_eq_bind,
    Option.bind_some, Option.getD_some, Outcome.bind_eq_ok]
  cases Utf8.decode? source with
  | none => simp
  | some text =>
    cases highlighted : site.registry.highlight text.unifyLineEnds site.config.language with
    | error error => simp [highlighted]
    | ok tokens => simp [highlighted, pure, Except.pure, eq_comm]

/-! ## Visits -/

/-- What is known of the sources stays known while files are written elsewhere. -/
theorem Layout.Known.grow {made written : Location → Prop} (known : layout.Known configs before)
    (grows : Grows made written before after)
    (unwritten : ∀ names config, configs config → config.isSource names = true →
      ¬ written (layout.sourceAt names)) : layout.Known configs after := by
  intro names bytes listed config allowed isSource
  refine known names bytes ?_ config allowed isSource
  exact (grows.files _ bytes listed).resolve_right (unwritten names config allowed isSource)

/-- What was done in two parts. -/
theorem Layout.Visited.trans (first : layout.Visited config names before middle texts texts')
    (second : layout.Visited config names middle after texts' texts'')
    (sources : ∀ source, middle.node? (layout.sourceAt names) = some (.file source) →
      before.node? (layout.sourceAt names) = some (.file source)) :
    layout.Visited config names before after texts texts'' := by
  cases second with
  | rendered source page isSource shows isPage entry =>
    exact .rendered source page (sources source isSource) shows isPage entry
  | kept page entry =>
    cases first with
    | kept pageBefore entryBefore =>
      exact .kept (fun bytes there => page bytes (pageBefore bytes there)) (entry.trans entryBefore)
    | rendered source bytes isSource shows isPage entryBefore =>
      exact .rendered source bytes isSource shows (page bytes isPage) (entry.trans entryBefore)

/-- What work on a site has come to since it began, with the entries of the cache then and now. -/
structure Worked (layout : Layout) (configs : Config → Prop) (before after : SiteState)
    (texts texts' : Pairs Text) : Prop where
  site : ∃ generated, after.site = { before.site with cache.content := .table texts', generated }
  distinct : (Pairs.names texts').Nodup
  grows : Grows (fun _ => True) (layout.Pages configs) before.session.disk after.session.disk
  visited : ∀ names, Watched configs names → layout.Visited before.site.config names
    before.session.disk after.session.disk texts texts'

variable {state start : SiteState}

namespace Worked

/-- At the beginning nothing has been done. -/
theorem refl (content : state.site.cache.content = .table texts)
    (distinct : (Pairs.names texts).Nodup) : Worked layout configs state state texts texts where
  site := ⟨state.site.generated, by rw [← content]⟩
  distinct
  grows := .refl
  visited _ _ := .kept (fun _ => id) rfl

/-- Making directories changes neither pages nor entries. -/
theorem of_made (content : state.site.cache.content = .table texts)
    (distinct : (Pairs.names texts).Nodup)
    (grows : Grows (fun _ => True) (fun _ => False) state.session.disk disk) :
    Worked layout configs state { state with session.disk := disk } texts texts where
  site := ⟨state.site.generated, by rw [← content]⟩
  distinct
  grows := grows.mono (fun _ => id) fun _ => False.elim
  visited _ watched :=
    .kept (fun _ => grows.keeps (layout.proper_pageAt watched.toFileNames) id) rfl

/-- The cache holds the entries that the work has come to. -/
theorem content {finish : SiteState} (worked : Worked layout configs state finish texts texts') :
    finish.site.cache.content = .table texts' := by
  obtain ⟨generated, same⟩ := worked.site
  rw [same]

/-- Work may go on where other work has ended. -/
theorem trans {finish : SiteState} (quiet : Quiet configs)
    (first : Worked layout configs start state texts texts')
    (second : Worked layout configs state finish texts' texts'') :
    Worked layout configs start finish texts texts'' := by
  obtain ⟨_, same⟩ := first.site
  obtain ⟨generated, same'⟩ := second.site
  have sameConfig : state.site.config = start.site.config := by rw [same]
  refine ⟨⟨generated, by rw [same', same]⟩, second.distinct, first.grows.trans second.grows,
    fun names watched => ?_⟩
  refine (first.visited names watched).trans (sameConfig ▸ second.visited names watched) ?_
  exact fun source => first.grows.was (layout.proper_sourceAt watched.proper)
    (watched.not_pages quiet)

end Worked

namespace Layout.Houses

/-- A site stays in its place while it is worked on. -/
theorem work {finish : SiteState} (houses : layout.Houses configs start.site start.session.disk)
    (quiet : Quiet configs) (worked : Worked layout configs start finish texts texts') :
    layout.Houses configs finish.site finish.session.disk := by
  obtain ⟨generated, same⟩ := worked.site
  rw [same]
  exact {
    source := houses.source
    output := houses.output
    cache := houses.cache
    current := worked.grows.current.trans houses.current
    configured := houses.configured
    registered := houses.registered
    known := houses.known.grow worked.grows fun _ _ => quiet.not_pages }

/-- Directories are made on the way to a page. -/
theorem makes (houses : layout.Houses configs site disk) (file : FileNames names)
    (made : disk.makeDirectories (site.pagePath names).parent = .ok after) :
    Grows (fun _ => True) (fun _ => False) disk after := by
  obtain ⟨front, last, rfl, properFront, -⟩ := file.split
  have named : ∀ name ∈ (site.pagePath (front ++ [last])).parent.names, PieceName name := by
    rw [Path.parent, houses.names_pagePath, List.dropLast_concat]
    exact List.forall_mem_append.mpr
      ⟨layout.namedOutput, fun name member => (properFront name member).toPieceName⟩
  exact (makeDirectories_grows named made).mono (fun _ _ => trivial) fun _ => id

end Layout.Houses

/-- A source that was rendered, with its digest put into the cache. -/
theorem Worked.of_rendered {finish : SiteState} {source page : Bytes} {generated : List Path}
    {printed : Text} (houses : layout.Houses configs state.site state.session.disk)
    (distinct : (Pairs.names texts).Nodup) (watched : Watched configs names)
    (rendered : Rendered layout (fun _ => True) state.site names state.session.disk disk source page)
    (isFinish : finish = ⟨{ state.site with
      cache.content := .object (Pairs.put (state.site.cacheKey names)
        (.string (Md5.hexDigest source)) (Json.members texts))
      generated }, { state.session with disk, printed }⟩) :
    Worked layout configs state finish texts
      (Pairs.put (layout.key names) (Md5.hexDigest source) texts) := by
  subst isFinish
  have file := watched.toFileNames
  refine ⟨⟨generated, ?_⟩, Pairs.nodup_names_put distinct,
    rendered.grows.mono (fun _ => id) fun _ same => ⟨names, watched, same⟩, fun others other => ?_⟩
  · rw [houses.cacheKey, Json.put_members]
    rfl
  · by_cases isNew : others = names
    · subst isNew
      exact .rendered source page ((houses.reaches_source file).read_eq_ok.mp rendered.read).2
        ((houses.shows_iff file).mp rendered.shows) rendered.written (Pairs.get?_put_self ..)
    · have otherPage : layout.pageAt others ≠ layout.pageAt names := fun same =>
        isNew (layout.pageAt_injective other.toFileNames file same)
      have otherKey : layout.key others ≠ layout.key names := fun same =>
        isNew (layout.key_injective other.proper file.proper same)
      exact .kept (fun _ => rendered.grows.keeps (layout.proper_pageAt other.toFileNames) otherPage)
        (Pairs.get?_put_other otherKey ..)

/-- A build has come past a source: its entry is its digest, and something is where its page is. -/
def Layout.Settled (layout : Layout) (names : List String) (site : Site) (disk : Disk) : Prop :=
  ∃ source texts, site.cache.content = .table texts ∧
    disk.read (site.sourcePath names).toText = .ok source ∧
    Pairs.get? (layout.key names) texts = some (Md5.hexDigest source) ∧
    disk.has (site.pagePath names).toText = true

/-- A source stays settled while the site is worked on. -/
theorem Layout.Settled.work {finish : SiteState}
    (settled : layout.Settled names state.site state.session.disk)
    (houses : layout.Houses configs state.site state.session.disk) (quiet : Quiet configs)
    (watched : Watched configs names) (content : state.site.cache.content = .table texts)
    (worked : Worked layout configs state finish texts texts') :
    layout.Settled names finish.site finish.session.disk := by
  obtain ⟨source, known, isKnown, read, entry, there⟩ := settled
  obtain rfl := Json.table_injective (isKnown.symm.trans content)
  obtain ⟨generated, same⟩ := worked.site
  have file := watched.toFileNames
  have reachesPage : state.session.disk.Reaches (state.site.pagePath names) _ :=
    houses.reaches_page file
  obtain ⟨entered, node, isNode⟩ := reachesPage.has_iff.mp there
  have visited := worked.visited names watched
  refine ⟨source, texts', worked.content, ?_, ?_, ?_⟩
  · rw [same]
    exact (houses.reaches_source file).read_kept (houses.proper_start _) worked.grows
      (watched.not_pages quiet) read
  · cases visited with
    | kept _ entryStays => exact entryStays.trans entry
    | rendered now _ isNow _ _ entryNow =>
      obtain ⟨-, isSource⟩ := (houses.reaches_source file).read_eq_ok.mp read
      cases isSource.symm.trans isNow
      exact entryNow
  · have stays : ∃ node, finish.session.disk.node? (layout.pageAt names) = some node := by
      cases node with
      | directory => exact ⟨_, worked.grows.directories _ (layout.proper_pageAt file) isNode⟩
      | file page =>
        cases visited with
        | kept pageStays _ => exact ⟨_, pageStays page isNode⟩
        | rendered _ _ _ _ isPage _ => exact ⟨_, isPage⟩
    rw [same]
    exact (reachesPage.of_current worked.grows.current).has_iff.mpr
      ⟨reachesPage.entered (houses.proper_start _) worked.grows entered, stays⟩

namespace Site

/-- A source is fresh if its entry is its digest and something is where its page goes. -/
theorem isFresh_of_entry {source target : Path} {bytes : Bytes} {entries : Pairs Text}
    (read : state.session.disk.read source.toText = .ok bytes)
    (there : state.session.disk.has target.toText = true)
    (content : state.site.cache.content = .table entries)
    (entry : Pairs.get? (String.ofList source.toText) entries = some (Md5.hexDigest bytes)) :
    isFresh source target state = .ok true state := by
  have reads : Session.look (·.read source.toText) state.session =
      .ok (.ok bytes) state.session := by
    rw [← read]
    rfl
  have digest : Cache.digest source.toText state.session =
      .ok (Md5.hexDigest bytes) state.session := by
    unfold Cache.digest Session.readBytes
    rw [bind_of_ok bytes state.session]
    · rfl
    · rw [bind_of_ok _ _ reads]
      rfl
  have current : Cache.isCurrent source.toText (Md5.hexDigest bytes) (Json.members entries) =
      true := by
    rw [Cache.isCurrent, Json.get?_members, entry]
    exact beq_self_eq_true _
  have isSame : state.site.cache.isChanged source.toText state.session =
      .ok false state.session := by
    rw [Cache.isChanged, bind_of_ok _ _ digest, content]
    exact congrArg (fun same => EStateM.Result.ok (!same) state.session) current
  have unchanged : SiteTask.ofTask (state.site.cache.isChanged source.toText) state =
      .ok false state := by
    rw [SiteTask.ofTask, isSame]
  unfold isFresh
  rw [bind_of_ok state.site state (by rfl)]
  refine (bind_of_ok _ _ unchanged).trans ?_
  exact congrArg (fun there => EStateM.Result.ok (true && there) state) there

/-- Visiting a source settles it. -/
theorem refresh_works (houses : layout.Houses configs state.site state.session.disk)
    (quiet : Quiet configs) (watched : Watched configs names)
    (content : state.site.cache.content = .table texts) (distinct : (Pairs.names texts).Nodup) :
    Ends (refresh names) state
      (fun _ after => ∃ texts', Worked layout configs state after texts texts' ∧
        layout.Settled names after.site after.session.disk)
      fun after => ∃ texts', Worked layout configs state after texts texts' := by
  have file := watched.toFileNames
  have apart : layout.sourceAt names ≠ layout.pageAt names := watched.ne_page quiet file
  refine (refresh_ends houses.toFits file apart fun _ => houses.makes file).mono ?_ ?_
  · rintro rendered after ⟨source, members, isObject, done⟩
    obtain rfl : members = Json.members texts := Json.Value.object.inj (isObject.symm.trans content)
    cases rendered with
    | false =>
      obtain ⟨rfl, read, found, there⟩ := done
      rw [houses.cacheKey, Json.get?_members] at found
      obtain ⟨digest, found, same⟩ := Option.map_eq_some_iff.mp found
      obtain rfl := Json.Value.string.inj same
      exact ⟨texts, .refl content distinct, source, texts, content, read, found, there⟩
    | true =>
      obtain ⟨disk, page, generated, printed, rendered, isAfter⟩ := done
      have worked := Worked.of_rendered houses distinct watched rendered isAfter
      have thereAfter : disk.has (state.site.pagePath names).toText = true :=
        ((houses.reaches_page file).of_current rendered.grows.current).has_iff.mpr
          ⟨rendered.entered, _, rendered.written⟩
      refine ⟨_, worked, source, _, worked.content, ?_, Pairs.get?_put_self .., ?_⟩
      · rw [isAfter]
        exact rendered.read_after houses.toFits file apart
      · rw [isAfter]
        exact thereAfter
  · rintro _ ⟨disk, rfl, grows⟩
    exact ⟨texts, .of_made content distinct grows⟩

/-- Going over sources settles all of them. -/
theorem refreshAll_works {visited : List (List String)}
    (houses : layout.Houses configs state.site state.session.disk)
    (quiet : Quiet configs) (watched : ∀ names ∈ visited, Watched configs names)
    (content : state.site.cache.content = .table texts) (distinct : (Pairs.names texts).Nodup) :
    Ends (refreshAll visited) state
      (fun _ after => ∃ texts', Worked layout configs state after texts texts' ∧
        ∀ names ∈ visited, layout.Settled names after.site after.session.disk)
      fun after => ∃ texts', Worked layout configs state after texts texts' := by
  refine (refreshAll_ends_of
    (fun after => ∃ texts', Worked layout configs state after texts texts')
    (fun names after => Watched configs names ∧
      layout.Settled names after.site after.session.disk)
    ?_ ⟨texts, .refl content distinct⟩).mono ?_ fun _ => id
  · rintro names visit middle ⟨textsMiddle, worked⟩
    have housesMiddle := houses.work quiet worked
    refine (refresh_works housesMiddle quiet (watched names visit) worked.content
      worked.distinct).mono ?_ ?_
    · rintro _ after ⟨textsAfter, workedOn, settled⟩
      refine ⟨⟨_, worked.trans quiet workedOn⟩, ⟨watched names visit, settled⟩, ?_⟩
      rintro others ⟨other, before⟩
      exact ⟨other, before.work housesMiddle quiet other worked.content workedOn⟩
    · rintro after ⟨textsAfter, workedOn⟩
      exact ⟨_, worked.trans quiet workedOn⟩
  · rintro _ after ⟨⟨textsAfter, worked⟩, settled⟩
    exact ⟨textsAfter, worked, fun names visit => (settled names (.inr visit)).2⟩

end Site

end TemplHighlight
