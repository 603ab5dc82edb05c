import TemplHighlight.Command.Run
import TemplHighlight.Proofs.Registry.Shipped
import TemplHighlight.Proofs.Site.Visits

/-!
# What a run does

A run makes a new site, which takes over the entries that the file of the cache keeps, and builds it.
The file of the cache is written at the end, and what was written there is read again by the next
run. So a run that fails may have changed pages, but the entries that are kept are those from before
it.
-/

namespace TemplHighlight

open Disk

variable {layout : Layout} {configs : Config → Prop} {config : Config} {site : Site}
  {disk before middle after : Disk} {names : List String} {texts texts' texts'' : Pairs Text}
  {state : SiteState} {session : Session}

/-! ## The cache in its file -/

/-- A cache that was written to a file is read from it again. -/
theorem Cache.contentOf?_table (distinct : (Pairs.names texts).Nodup) :
    contentOf? (Utf8.encode (Json.Value.table texts).toText) = some (.table texts) := by
  have plain := Json.plain_table texts
  rw [contentOf?, plain.decode?_encode]
  show Json.parse? (Text.unifyLineEnds _) = _
  rw [plain.unifyLineEnds, Json.parse?_table distinct]

namespace Layout

/-- The entries that the file of the cache keeps. -/
def Keeps (layout : Layout) (disk : Disk) (texts : Pairs Text) : Prop :=
  ∃ bytes, disk.node? layout.cacheAt = some (.file bytes) ∧
    Cache.contentOf? bytes = some (.table texts)

/-- The file of the cache, if there is one, keeps entries with distinct names. -/
def Readable (layout : Layout) (disk : Disk) : Prop :=
  ∀ bytes, disk.node? layout.cacheAt = some (.file bytes) →
    ∃ texts, Cache.contentOf? bytes = some (.table texts) ∧ (Pairs.names texts).Nodup

/-- A file of a cache keeps one table of entries. -/
theorem Keeps.unique (keeps : layout.Keeps disk texts) (keeps' : layout.Keeps disk texts') :
    texts = texts' := by
  obtain ⟨bytes, isCache, content⟩ := keeps
  obtain ⟨bytes', isCache', content'⟩ := keeps'
  cases isCache.symm.trans isCache'
  exact Json.table_injective (Option.some.inj (content.symm.trans content'))

/-- What a run does to the files: pages are made from what their sources are, and with them entries
that the run has started with become others. -/
structure Ran (layout : Layout) (configs : Config → Prop) (config : Config) (before after : Disk)
    (texts texts' : Pairs Text) : Prop where
  grows : Grows (fun _ => True)
    (fun location => layout.Pages configs location ∨ location = layout.cacheAt) before after
  visited : ∀ names, Watched configs names →
    layout.Visited config names before after texts texts'

/-- A run has succeeded: the new entries are kept, and every source of the site has one. -/
structure Succeeded (layout : Layout) (configs : Config → Prop) (config : Config)
    (before : Disk) (site : Site) (after : Disk) (texts texts' : Pairs Text) : Prop where
  ran : layout.Ran configs config before after texts texts'
  keeps : layout.Keeps after texts'
  distinct : (Pairs.names texts').Nodup
  houses : layout.Houses configs site after
  ofConfig : site.config = config
  content : site.cache.content = .table texts'
  settled : ∀ names ∈ site.found after, Watched configs names ∧ layout.Settled names site after

/-- A run has failed: the entries that are kept, if any, are those from before it. -/
structure Failed (layout : Layout) (configs : Config → Prop) (config : Config)
    (before after : Disk) (texts texts' : Pairs Text) : Prop where
  ran : layout.Ran configs config before after texts texts'
  cache : ∀ bytes, after.node? layout.cacheAt = some (.file bytes) →
    before.node? layout.cacheAt = some (.file bytes)

/-- The location of the cache has proper names. -/
theorem proper_cacheAt (layout : Layout) : Proper layout.cacheAt :=
  List.forall_mem_append.mpr ⟨layout.properSource, by decide⟩

end Layout

namespace Worked

variable {start finish : SiteState}

/-- Work on a site does to the files what a run does. -/
theorem ran (worked : Worked layout configs start finish texts texts') :
    layout.Ran configs start.site.config start.session.disk finish.session.disk texts texts' where
  grows := worked.grows.mono (fun _ => id) fun _ => .inl
  visited := worked.visited

/-- Work on a site does not touch the file of the cache. -/
theorem cache (worked : Worked layout configs start finish texts texts') (bytes : Bytes)
    (isCache : finish.session.disk.node? layout.cacheAt = some (.file bytes)) :
    start.session.disk.node? layout.cacheAt = some (.file bytes) := by
  refine worked.grows.was layout.proper_cacheAt ?_ isCache
  rintro ⟨names, watched, same⟩
  exact layout.pageAt_ne_cacheAt watched.toFileNames same.symm

end Worked

/-! ## Building -/

namespace Layout.Houses

/-- The sources that are found are watched. -/
theorem watched (houses : layout.Houses configs site disk) (found : names ∈ site.found disk) :
    Watched configs names := by
  obtain ⟨⟨bytes, listed⟩, isSource⟩ := Site.mem_found.mp found
  rw [houses.source] at listed
  exact ⟨houses.known names bytes listed _ houses.configured isSource, _, houses.configured,
    isSource⟩

/-- The directory of the cache is made. -/
theorem makes_cacheDirectory (houses : layout.Houses configs site disk)
    (made : disk.makeDirectories site.cache.file.parent = .ok after) :
    Grows (fun _ => True) (fun _ => False) disk after := by
  have named : ∀ name ∈ site.cache.file.parent.names, PieceName name := by
    have names : site.cache.file.parent.names = layout.source ++ [".templight"] := by
      rw [houses.cache_eq]
      exact List.dropLast_concat
    rw [names]
    exact List.forall_mem_append.mpr
      ⟨fun name member => (layout.properSource name member).toPieceName,
        List.forall_mem_singleton.mpr (by decide)⟩
  exact (makeDirectories_grows named made).mono (fun _ _ => trivial) fun _ => id

/-- Files that are written elsewhere leave a site in its place. -/
theorem grow {made written : Location → Prop} (houses : layout.Houses configs site before)
    (grows : Grows made written before after)
    (unwritten : ∀ names config, configs config → config.isSource names = true →
      ¬ written (layout.sourceAt names)) : layout.Houses configs site after where
  source := houses.source
  output := houses.output
  cache := houses.cache
  current := grows.current.trans houses.current
  configured := houses.configured
  registered := houses.registered
  known := houses.known.grow grows unwritten

/-- And no source is found that was not found before. -/
theorem found_before {made written : Location → Prop} (houses : layout.Houses configs site before)
    (grows : Grows made written before after)
    (unwritten : ∀ names config, configs config → config.isSource names = true →
      ¬ written (layout.sourceAt names))
    (found : names ∈ site.found after) : names ∈ site.found before := by
  obtain ⟨⟨bytes, listed⟩, isSource⟩ := Site.mem_found.mp found
  refine Site.mem_found.mpr ⟨⟨bytes, (grows.files _ bytes listed).resolve_right ?_⟩, isSource⟩
  rw [houses.source]
  exact unwritten names site.config houses.configured isSource

end Layout.Houses

/-- A source stays settled when the file of the cache is written. -/
theorem Layout.Settled.save (settled : layout.Settled names site before)
    (houses : layout.Houses configs site before) (watched : Watched configs names)
    (grows : Grows (fun _ => True) (· = layout.cacheAt) before after) :
    layout.Settled names site after := by
  obtain ⟨source, texts, content, read, entry, there⟩ := settled
  have file := watched.toFileNames
  have reachesPage : before.Reaches (site.pagePath names) _ := houses.reaches_page file
  obtain ⟨entered, node, isNode⟩ := reachesPage.has_iff.mp there
  have stays := grows.keeps (layout.proper_pageAt file) (layout.pageAt_ne_cacheAt file) isNode
  exact ⟨source, texts, content,
    (houses.reaches_source file).read_kept (houses.proper_start _) grows watched.ne_cache read,
    entry, (reachesPage.of_current grows.current).has_iff.mpr
      ⟨reachesPage.entered (houses.proper_start _) grows entered, node, stays⟩⟩

/-- What work on a site and the file of its cache, written behind it, come to. -/
theorem Worked.save {start finish : SiteState}
    (worked : Worked layout configs start finish texts texts') (quiet : Quiet configs)
    (grows : Grows (fun _ => True) (· = layout.cacheAt) finish.session.disk after) :
    layout.Ran configs start.site.config start.session.disk after texts texts' where
  grows := worked.ran.grows.trans (grows.mono (fun _ => id) fun _ => .inr)
  visited names watched := by
    refine (worked.visited names watched).trans (.kept (fun _ => ?_) rfl) fun _ => ?_
    · exact grows.keeps (layout.proper_pageAt watched.toFileNames)
        (layout.pageAt_ne_cacheAt watched.toFileNames)
    · exact worked.grows.was (layout.proper_sourceAt watched.proper) (watched.not_pages quiet)

/-- A run has succeeded when all sources were visited and the cache was written. -/
theorem Layout.Succeeded.of_saved {start finish : SiteState}
    (houses : layout.Houses configs start.site start.session.disk) (quiet : Quiet configs)
    (worked : Worked layout configs start finish texts texts')
    (settled : ∀ names ∈ start.site.found start.session.disk,
      layout.Settled names finish.site finish.session.disk)
    (grows : Grows (fun _ => True) (· = layout.cacheAt) finish.session.disk disk)
    (isCache : disk.node? layout.cacheAt =
      some (.file (Utf8.encode finish.site.cache.content.toText))) :
    layout.Succeeded configs start.site.config start.session.disk finish.site disk texts texts' := by
  have notCache (names : List String) (config : Config) (_ : configs config)
      (isSource : config.isSource names = true) : layout.sourceAt names ≠ layout.cacheAt :=
    layout.source_ne_cache isSource
  have housesFinish := houses.work quiet worked
  obtain ⟨generated, same⟩ := worked.site
  rw [worked.content] at isCache
  refine ⟨worked.save quiet grows, ⟨_, isCache, Cache.contentOf?_table worked.distinct⟩,
    worked.distinct, housesFinish.grow grows notCache, by rw [same], worked.content,
    fun names found => ?_⟩
  have foundFinish := housesFinish.found_before grows notCache found
  have foundStart : names ∈ start.site.found start.session.disk := by
    refine houses.found_before worked.grows (fun _ _ => quiet.not_pages) ?_
    rw [same] at foundFinish
    exact foundFinish
  have watched := houses.watched foundStart
  exact ⟨watched, (settled names foundStart).save housesFinish watched grows⟩

namespace Site

/-- What a build does that starts with a table of entries. -/
theorem build_ran (houses : layout.Houses configs state.site state.session.disk)
    (quiet : Quiet configs) (content : state.site.cache.content = .table texts)
    (distinct : (Pairs.names texts).Nodup) :
    Ends (build false) state
      (fun _ after => ∃ texts', layout.Succeeded configs state.site.config state.session.disk
        after.site after.session.disk texts texts')
      fun after => ∃ texts', layout.Failed configs state.site.config state.session.disk
        after.session.disk texts texts' := by
  refine .bind (.setSite (.bind (.site (.bind (.ofTask (.look ?_))))))
  have housesStart : layout.Houses configs { state.site with generated := [] }
      state.session.disk := { houses with source := houses.source }
  have goes : Ends (refreshAll (state.site.found state.session.disk))
      { state with site.generated := [] } _ _ :=
    refreshAll_works housesStart quiet (fun _ => houses.watched) content distinct
  refine .bind (goes.mono ?_ ?_)
  · rintro _ middle ⟨textsMiddle, worked, settled⟩
    have housesMiddle := housesStart.work quiet worked
    refine .bind (.site (.bind ((save_ends housesMiddle.toFits fun _ =>
      housesMiddle.makes_cacheDirectory).mono ?_ ?_)))
    · rintro _ _ ⟨disk, rfl, grows, isCache⟩
      have succeeded := Layout.Succeeded.of_saved housesStart quiet worked settled grows isCache
      exact .ofTask (.logAll ⟨textsMiddle, succeeded⟩)
    · rintro _ ⟨disk, rfl, grows⟩
      have grows' : Grows (fun _ => True) (· = layout.cacheAt) middle.session.disk disk :=
        grows.mono (fun _ => id) fun _ => False.elim
      exact ⟨textsMiddle, worked.save quiet grows', fun bytes isCache =>
        worked.cache bytes (grows.was layout.proper_cacheAt id isCache)⟩
  · rintro after ⟨textsAfter, worked⟩
    exact ⟨textsAfter, worked.ran, worked.cache⟩

end Site

/-! ## Running -/

/-- Work on a site, as a part of a command. -/
theorem Ends.onSite {α : Type} {task : SiteTask α} {done : α × Site → Session → Prop}
    {failed : Session → Prop}
    (ends : Ends task ⟨site, session⟩ (fun value after => done (value, after.site) after.session)
      fun after => failed after.session) :
    Ends (Command.onSite site task) session done failed := by
  unfold Ends at ends ⊢
  unfold Command.onSite
  cases result : task ⟨site, session⟩ with
  | ok value after =>
    rw [result] at ends
    exact ends
  | error failure after =>
    rw [result] at ends
    exact ends

namespace Layout

/-- The entries that a run starts with: those that are kept, or none. -/
def StartsWith (layout : Layout) (disk : Disk) (texts : Pairs Text) : Prop :=
  texts = [] ∨ layout.Keeps disk texts

/-- A task makes a site for a configuration and builds it. -/
def Builds (layout : Layout) (configs : Config → Prop) (run : Config → SessionTask Site) : Prop :=
  ∀ config session, configs config → session.disk.current = layout.current →
    layout.Known configs session.disk → layout.Readable session.disk →
    Ends (run config) session
      (fun site after => ∃ texts texts', layout.StartsWith session.disk texts ∧
        layout.Succeeded configs config session.disk site after.disk texts texts')
      fun after => ∃ texts texts', layout.StartsWith session.disk texts ∧
        layout.Failed configs config session.disk after.disk texts texts'

/-- A run that fails before it builds has done nothing. -/
theorem Failed.refl : layout.Failed configs config disk disk [] [] :=
  ⟨⟨.refl, fun _ _ => .kept (fun _ => id) rfl⟩, fun _ => id⟩

end Layout

namespace Site

variable {source : Text} {output : Option Text}

/-- A new site starts with the entries that are kept, or with none. -/
theorem Opened.startsWith (opened : Opened config source output none disk site)
    (fits : layout.Fits site disk) (readable : layout.Readable disk) :
    ∃ texts, site.cache.content = .table texts ∧ (Pairs.names texts).Nodup ∧
      layout.StartsWith disk texts := by
  rcases opened.content with blank | ⟨bytes, read, content⟩
  · exact ⟨[], blank, List.nodup_nil, .inl rfl⟩
  · have isCache := (fits.reaches_cache.read_eq_ok.mp read).2
    obtain ⟨texts, isTable, distinct⟩ := readable bytes isCache
    exact ⟨texts, Option.some.inj (content.symm.trans isTable), distinct,
      .inr ⟨bytes, isCache, isTable⟩⟩

/-- Making a site and building it is a run, whatever is done with the built site. -/
theorem create_builds {α : Type} {next : Unit × Site → SessionTask α}
    {done : α → Session → Prop} {failed : Session → Prop}
    (fits : ∀ site, Opened config source output none session.disk site →
      layout.Fits site session.disk)
    (allowed : configs config) (quiet : Quiet configs)
    (known : layout.Known configs session.disk) (readable : layout.Readable session.disk)
    (hasRun : ∀ texts texts' built after, layout.StartsWith session.disk texts →
      layout.Succeeded configs config session.disk built.2 after.disk texts texts' →
      Ends (next built) after done failed)
    (hasFailed : ∀ texts texts' after, layout.StartsWith session.disk texts →
      layout.Failed configs config session.disk after.disk texts texts' → failed after) :
    Ends (do
      let site ← create config source output none
      let built ← Command.onSite site (build false)
      next built) session done failed := by
  refine .bind ((create_ends config source output none).mono ?_ ?_)
  · rintro site opening ⟨sameDisk, opened⟩
    obtain ⟨texts, content, distinct, starts⟩ := opened.startsWith (fits site opened) readable
    have houses : layout.Houses configs site session.disk :=
      { fits site opened with
        configured := opened.ofConfig ▸ allowed
        registered := opened.ofConfig ▸ opened.ofRegistry rfl
        known }
    have goes : Ends (build false) ⟨site, opening⟩
        (fun _ after => ∃ texts', layout.Succeeded configs config session.disk after.site
          after.session.disk texts texts')
        fun after => ∃ texts', layout.Failed configs config session.disk after.session.disk
          texts texts' := by
      rw [← sameDisk, ← opened.ofConfig]
      exact build_ran (sameDisk ▸ houses) quiet content distinct
    refine .bind (.onSite (goes.mono ?_ ?_))
    · rintro _ after ⟨texts', succeeded⟩
      exact hasRun texts texts' _ _ starts succeeded
    · rintro after ⟨texts', hasFailed'⟩
      exact hasFailed texts texts' _ starts hasFailed'
  · rintro after sameDisk
    exact hasFailed [] [] after (.inl rfl) (sameDisk ▸ .refl)

/-- Makes a site for a configuration and builds it. -/
def once (source : Text) (output : Option Text) (config : Config) : SessionTask Site := do
  let site ← create config source output none
  let ((), site) ← Command.onSite site (build false)
  return site

/-- Making a site and building it is a run. -/
theorem once_builds {current : Location} (proper : Proper current) (quiet : Quiet configs)
    (source : Text) (output : Option Text) :
    (Layout.of proper source output).Builds configs (once source output) := by
  intro config session allowed same known readable
  obtain rfl : session.disk.current = current := same
  exact create_builds (fun _ opened => opened.fits proper) allowed quiet known readable
    (fun texts texts' built after starts succeeded => .pure ⟨texts, texts', starts, succeeded⟩)
    fun texts texts' after starts hasFailed => ⟨texts, texts', starts, hasFailed⟩

end Site

/-- Building the pages of a directory is a run. -/
theorem Command.build_builds {current : Location} (proper : Proper current)
    (quiet : Quiet configs) (directory : Text) :
    (Layout.of proper (Path.normalize current (Path.ofText directory)).toText none).Builds configs
      (Command.build · directory false) := by
  intro config session allowed same known readable
  obtain rfl : session.disk.current = current := same
  refine .bind (.bind (.look (.pure (.bind (.printLine ?_)))))
  exact Site.create_builds (fun _ opened => opened.fits proper) allowed quiet known readable
    (fun texts texts' built after starts succeeded =>
      .bind (.printLine (.pure ⟨texts, texts', starts, succeeded⟩)))
    fun texts texts' after starts hasFailed => ⟨texts, texts', starts, hasFailed⟩

/-! ## Running on one source -/

variable {source : Text} {output : Option Text} {directory : Text} {opened built : Site}
  {opening finish : Session} {registry : Registry} {printed : Text} {logged log : Log}
  {bytes : Bytes} {page : Text} {entries : Pairs Text}

/-- A site that was made and then built. -/
theorem Site.once_of_ok (created : create config source output none session = .ok opened opening)
    (builds : build false ⟨opened, opening⟩ = .ok () ⟨built, finish⟩) :
    once source output config session = .ok built finish := by
  have worked : Command.onSite opened (build false) opening = .ok ((), built) finish := by
    rw [Command.onSite, builds]
  rw [once, bind_of_ok _ _ created, bind_of_ok _ _ worked]
  rfl

/-- The session when it was said that a directory is built. -/
def Command.announced (directory : Text) (session : Session) : Session :=
  let path := Path.normalize session.disk.current (Path.ofText directory)
  { session with
    printed := session.printed ++
      ("Building highlighted sources in ".toList ++ path.toText ++ "...".toList ++ ['\n']) }

/-- A directory whose site was made and then built. -/
theorem Command.build_of_ok (created : Site.create config (Path.normalize session.disk.current
      (Path.ofText directory)).toText none none (announced directory session) = .ok opened opening)
    (builds : Site.build false ⟨opened, opening⟩ = .ok () ⟨built, finish⟩) :
    ∃ printed, build config directory false session = .ok built { finish with printed } := by
  have worked : onSite opened (Site.build false) opening = .ok ((), built) finish := by
    rw [onSite, builds]
  refine ⟨finish.printed ++ ("Build complete: ".toList ++ Text.decimal built.generated.length ++
    " file(s) written to ".toList ++ built.output.toText ++ ['\n']), ?_⟩
  unfold build
  rw [bind_of_ok _ session (by rfl), bind_of_ok () (announced directory session) (by rfl),
    bind_of_ok _ _ created, bind_of_ok _ _ worked]
  rfl

/-- A directory with a source and nothing else. -/
def loneFiles (bytes : Bytes) : Disk :=
  ⟨[(["s"], .directory), (["s", "p.templ"], .file bytes)], []⟩

/-- The same when there is a page. -/
def loneShown (page : Text) : Disk :=
  ⟨[(["s"], .directory), (["s", "p.templ"], .file [120]), (["s", "build"], .directory),
    (["s", "build", "p.templ.html"], .file (Utf8.encode page))], []⟩

/-- The same when there is a page and a cache. -/
def loneBuilt (page : Text) (entries : Pairs Text) : Disk :=
  ⟨[(["s"], .directory), (["s", "p.templ"], .file [120]), (["s", "build"], .directory),
    (["s", "build", "p.templ.html"], .file (Utf8.encode page)), (["s", ".templight"], .directory),
    (["s", ".templight", "cache.json"], .file (Utf8.encode (Json.Value.table entries).toText))], []⟩

/-- The site of that directory. -/
def lone (config : Config) (registry : Registry) (entries : Pairs Text) : Site where
  config
  source := .absolute ["s"]
  output := .absolute ["s", "build"]
  registry
  cache := ⟨.absolute ["s", ".templight", "cache.json"], .table entries⟩

/-- The entry of the source. -/
def loneEntries : Pairs Text := [("/s/p.templ", Md5.hexDigest [120])]

/-- The site when the source was rendered. -/
def loneRendered (registry : Registry) : Site :=
  { lone {} registry loneEntries with generated := [.absolute ["s", "build", "p.templ.html"]] }

/-- The source can have a page. -/
theorem lone_known (proper : Proper []) :
    (Layout.of proper ['/', 's'] none).Known configs (loneFiles bytes) := by
  intro names content listed _ _ _
  have only : (["s"] ++ names, .file content) ∈ (loneFiles bytes).nodes := listed
  obtain ⟨rfl, -⟩ : names = ["p.templ"] ∧ content = bytes := by simpa [loneFiles] using only
  exact ⟨by decide, "p.templ", rfl, 'p', by decide, by decide⟩

/-- The source is watched where the default configuration is one of those allowed. -/
theorem lone_watched (allowed : configs {}) : Watched configs ["p.templ"] :=
  ⟨⟨by decide, "p.templ", rfl, 'p', by decide, by decide⟩, {}, allowed, by decide⟩

/-- It is the only source there is. -/
theorem lone_found (isSource : config.isSource ["p.templ"] = true)
    (noSource : config.isSource ["build", "p.templ.html"] = false)
    (listed : (disk.filesBelow ["s"]).map (·.1) = [["p.templ"]] ∨
      (disk.filesBelow ["s"]).map (·.1) =
        [["p.templ"], ["build", "p.templ.html"], [".templight", "cache.json"]]) :
    (lone config registry entries).found disk = [["p.templ"]] := by
  show (((disk.filesBelow ["s"]).map (·.1)).filter config.isSource).mergeSort Site.visitsBefore = _
  rcases listed with listed | listed <;>
    simp [listed, isSource, noSource, cache_not_source]

/-- A registry can be made, and it shows any text. -/
theorem lone_shows (text : Text) :
    ∃ registry log page, Registry.create {} = .ok (registry, log) ∧
      (lone {} registry []).page "p.templ" text = .ok page := by
  obtain ⟨registry, log, created, installed, hooked⟩ := Registry.create_shipped {} 2
  obtain ⟨items, split⟩ := Templ.tokenize_total (Config.keywords {}) 2 text
  have marked := Registry.highlight_installed installed hooked split
  exact ⟨registry, log, _, created, Outcome.bind_eq_ok.mpr ⟨_, marked, rfl⟩⟩

namespace Site

/-- A new site has no entries. -/
theorem create_lone (created : Registry.create config = .ok (registry, log)) :
    create config ['/', 's'] none none ⟨loneFiles bytes, printed, logged⟩ =
      .ok (lone config registry []) ⟨loneFiles bytes, printed, logged ++ log⟩ := by
  unfold create
  rw [bind_of_ok () ⟨loneFiles bytes, printed, logged⟩ (by rfl),
    bind_of_ok [] ⟨loneFiles bytes, printed, logged⟩ (by rfl),
    bind_of_ok _ _ (registryFor_of_create created)]
  rfl

/-- Rendering the source writes its page. -/
theorem render_lone (shows : (lone {} registry []).page "p.templ" ['x'] = .ok page) :
    render (.absolute ["s", "p.templ"]) (some (.absolute ["s", "build", "p.templ.html"]))
        ⟨lone {} registry [], loneFiles [120], printed, logged⟩ =
      .ok (.absolute ["s", "build", "p.templ.html"])
        ⟨lone {} registry [], loneShown page, printed, logged⟩ := by
  unfold render
  rw [bind_of_ok ['x'] ⟨lone {} registry [], loneFiles [120], printed, logged⟩ (by rfl),
    bind_of_ok _ ⟨lone {} registry [], loneFiles [120], printed, logged⟩ (by rfl),
    bind_of_ok page ⟨lone {} registry [], loneFiles [120], printed, logged⟩ ?_]
  · rfl
  · exact congrArg (fun result => SiteTask.ofTask (Session.ofExcept (result.mapError .highlight)) _)
      shows

/-- A source without an entry is rendered, and gets one. -/
theorem refresh_lone (shows : (lone {} registry []).page "p.templ" ['x'] = .ok page) :
    refresh ["p.templ"] ⟨lone {} registry [], loneFiles [120], printed, logged⟩ =
      .ok true ⟨loneRendered registry, loneShown page,
        printed ++ "  p.templ -> /s/build/p.templ.html\n".toList, logged⟩ := by
  unfold refresh
  rw [bind_of_ok _ ⟨lone {} registry [], loneFiles [120], printed, logged⟩ (by rfl),
    bind_of_ok false ⟨lone {} registry [], loneFiles [120], printed, logged⟩ (by rfl),
    if_neg Bool.false_ne_true]
  exact bind_of_ok _ _ (render_lone shows)

/-- The first build renders the source. -/
theorem build_lone (shows : (lone {} registry []).page "p.templ" ['x'] = .ok page) :
    ∃ printed' logged', build false ⟨lone {} registry [], loneFiles [120], printed, logged⟩ =
      .ok () ⟨loneRendered registry, loneBuilt page loneEntries, printed', logged'⟩ := by
  refine ⟨printed ++ "  p.templ -> /s/build/p.templ.html\n".toList,
    logged ++ [⟨.debug, "Rendered ".toList ++ Text.decimal 1 ++ " file(s), ".toList ++
      Text.decimal 0 ++ " unchanged".toList⟩],
    (build_of_sourceNames (lone_found (by decide) (by decide) (.inl rfl))).trans ?_⟩
  rw [bind_of_ok () ⟨lone {} registry [], loneFiles [120], printed, logged⟩ (by rfl), refreshAll,
    bind_assoc, bind_of_ok _ _ (refresh_lone shows)]
  rfl

/-- If the source is no text, the build fails. -/
theorem once_undecodable (created : Registry.create {} = .ok (registry, log)) :
    once ['/', 's'] none {} ⟨loneFiles [255], printed, logged⟩ =
      .error .undecodable ⟨loneFiles [255], printed, logged ++ log⟩ := by
  have builds : build false ⟨lone {} registry [], loneFiles [255], printed, logged ++ log⟩ =
      .error .undecodable ⟨lone {} registry [], loneFiles [255], printed, logged ++ log⟩ :=
    (build_of_sourceNames (lone_found (by decide) (by decide) (.inl rfl))).trans rfl
  have worked : Command.onSite (lone {} registry []) (build false)
      ⟨loneFiles [255], printed, logged ++ log⟩ =
        .error .undecodable ⟨loneFiles [255], printed, logged ++ log⟩ := by
    rw [Command.onSite, builds]
  rw [once, bind_of_ok _ _ (create_lone created)]
  show EStateM.bind _ _ _ = _
  rw [EStateM.bind, worked]

/-- A new site starts with the entries that are kept. -/
theorem create_loneBuilt (distinct : (Pairs.names entries).Nodup)
    (created : Registry.create config = .ok (registry, log)) :
    create config ['/', 's'] none none ⟨loneBuilt page entries, printed, logged⟩ =
      .ok (lone config registry entries) ⟨loneBuilt page entries, printed, logged ++ log⟩ := by
  have read : (loneBuilt page entries).read
      (Path.absolute ["s", ".templight", "cache.json"]).toText =
        .ok (Utf8.encode (Json.Value.table entries).toText) := rfl
  unfold create
  rw [bind_of_ok () ⟨loneBuilt page entries, printed, logged⟩ (by rfl),
    bind_of_ok [] ⟨loneBuilt page entries, printed, logged⟩ (by rfl),
    bind_of_ok _ _ (registryFor_of_create created)]
  exact bind_of_ok _ _ (load_of_read read (Cache.contentOf?_table distinct))

/-- A build that starts with the entry of the source renders nothing. -/
theorem build_loneBuilt (isSource : config.isSource ["p.templ"] = true)
    (noSource : config.isSource ["build", "p.templ.html"] = false)
    (entry : Pairs.get? "/s/p.templ" entries = some (Md5.hexDigest [120])) :
    ∃ logged', build false ⟨lone config registry entries, loneBuilt page entries, printed, logged⟩ =
      .ok () ⟨lone config registry entries, loneBuilt page entries, printed, logged'⟩ := by
  have found : (lone config registry entries).found (loneBuilt page entries) = [["p.templ"]] :=
    lone_found isSource noSource (.inr rfl)
  refine ⟨logged ++ [⟨.debug, "Rendered ".toList ++ Text.decimal 0 ++
    " file(s), ".toList ++ Text.decimal 1 ++ " unchanged".toList⟩],
    (build_of_sourceNames found).trans ?_⟩
  have fresh : isFresh (.absolute ["s", "p.templ"]) (.absolute ["s", "build", "p.templ.html"])
      ⟨lone config registry entries, loneBuilt page entries, printed, logged⟩ =
        .ok true ⟨lone config registry entries, loneBuilt page entries, printed, logged⟩ :=
    isFresh_of_entry rfl rfl rfl entry
  have unchanged : refresh ["p.templ"]
      ⟨lone config registry entries, loneBuilt page entries, printed, logged⟩ =
        .ok false ⟨lone config registry entries, loneBuilt page entries, printed, logged⟩ := by
    unfold refresh
    rw [bind_of_ok _ ⟨lone config registry entries, loneBuilt page entries, printed, logged⟩
      (by rfl)]
    exact bind_of_ok _ _ fresh
  rw [bind_of_ok () ⟨lone config registry entries, loneBuilt page entries, printed, logged⟩ (by rfl),
    refreshAll, bind_assoc, bind_of_ok _ _ unchanged]
  rfl

end Site

namespace Command

/-- The first build by command renders the source. -/
theorem build_loneFiles (created : Registry.create {} = .ok (registry, log))
    (shows : (lone {} registry []).page "p.templ" ['x'] = .ok page) :
    ∃ printed' logged', build {} ['/', 's'] false ⟨loneFiles [120], printed, logged⟩ =
      .ok (loneRendered registry) ⟨loneBuilt page loneEntries, printed', logged'⟩ := by
  have opens : Site.create {} (Path.normalize [] (Path.ofText ['/', 's'])).toText none none
      (announced ['/', 's'] ⟨loneFiles [120], printed, logged⟩) = .ok _ _ :=
    Site.create_lone created
  obtain ⟨_, logged', builds⟩ := Site.build_lone shows
  obtain ⟨printed', built⟩ := build_of_ok opens builds
  exact ⟨printed', logged', built⟩

/-- A later build finds the entry and renders nothing. -/
theorem build_loneBuilt (isSource : config.isSource ["p.templ"] = true)
    (noSource : config.isSource ["build", "p.templ.html"] = false)
    (created : Registry.create config = .ok (registry, log)) :
    ∃ printed' logged', build config ['/', 's'] false ⟨loneBuilt page loneEntries, printed, logged⟩ =
      .ok (lone config registry loneEntries) ⟨loneBuilt page loneEntries, printed', logged'⟩ := by
  have opens : Site.create config (Path.normalize [] (Path.ofText ['/', 's'])).toText none none
      (announced ['/', 's'] ⟨loneBuilt page loneEntries, printed, logged⟩) = .ok _ _ :=
    Site.create_loneBuilt (by decide) created
  have entry : Pairs.get? "/s/p.templ" loneEntries = some (Md5.hexDigest [120]) := rfl
  obtain ⟨logged', builds⟩ := Site.build_loneBuilt isSource noSource entry
  obtain ⟨printed', built⟩ := build_of_ok opens builds
  exact ⟨printed', logged', built⟩

end Command

end TemplHighlight
