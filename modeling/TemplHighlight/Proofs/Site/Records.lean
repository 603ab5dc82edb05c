import TemplHighlight.Proofs.Pairs
import TemplHighlight.Proofs.Site.Paths

/-!
# What the entries of a cache stand for

An entry of the cache does not say that the page of a source is there, nor that the source is still
what it was. It says that whatever stands at the location of the page was rendered, with the
configuration and the registry that the site has now, from contents with the digest of the entry.
This stays true however sources change and files are removed, and while pages of other sources are
written.
-/

namespace TemplHighlight

open Disk

variable {scope : Scope} {layout : Layout} {before after : SiteState} {disk : Disk}
  {names others : List String} {written written' : Location → Prop}

namespace Site

/-- A page shows a source of a site: it is what the site makes of the text of the source. -/
def Shows (site : Site) (names : List String) (source page : Bytes) : Prop :=
  ∃ text shown, Utf8.decode? source = some text ∧
    site.page (site.sourcePath names).name text.unifyLineEnds = .ok shown ∧
    page = Utf8.encode shown

/-- A source and its page can be read, and the page shows the source. -/
def UpToDate (site : Site) (disk : Disk) (names : List String) : Prop :=
  ∃ source page, disk.read (site.sourcePath names).toText = .ok source ∧
    disk.read (site.pagePath names).toText = .ok page ∧ site.Shows names source page

/-- Whether a source is up to date. -/
def isUpToDate (site : Site) (disk : Disk) (names : List String) : Bool :=
  match disk.read (site.sourcePath names).toText, disk.read (site.pagePath names).toText with
  | .ok source, .ok page =>
    match Utf8.decode? source with
    | some text =>
      match site.page (site.sourcePath names).name text.unifyLineEnds with
      | .ok shown => page = Utf8.encode shown
      | .error _ => false
    | none => false
  | _, _ => false

/-- The check tells whether a source is up to date. -/
theorem isUpToDate_iff {site : Site} :
    site.isUpToDate disk names = true ↔ site.UpToDate disk names := by
  unfold isUpToDate UpToDate Shows
  constructor
  · intro check
    split at check
    · rename_i source page read readPage
      split at check
      · rename_i text decoded
        split at check
        · rename_i shown isPage
          exact ⟨source, page, read, readPage, text, shown, decoded, isPage,
            of_decide_eq_true check⟩
        · cases check
      · cases check
    · cases check
  · rintro ⟨source, page, read, readPage, text, shown, decoded, isPage, rfl⟩
    simp [read, readPage, decoded, isPage]

instance {site : Site} : Decidable (site.UpToDate disk names) := decidable_of_iff _ isUpToDate_iff

/-- The names that lead to the sources of a site. -/
def found (site : Site) (disk : Disk) : List (List String) :=
  sourceNames disk site.config site.source.names

/-- All sources that are found are up to date. -/
def AllUpToDate (site : Site) (disk : Disk) : Prop :=
  ∀ names ∈ site.found disk, site.UpToDate disk names

/-- The name that the cache has for a source. -/
def cacheKey (site : Site) (names : List String) : String :=
  String.ofList (site.sourcePath names).toText

end Site

/-- The files of a disk that may be sources have proper names, and the sources have contents that
belong to the scope. -/
structure Scope.Knows (scope : Scope) (source : Location) (disk : Disk) : Prop where
  names : ∀ names bytes, (source ++ names, .file bytes) ∈ disk.nodes →
    ∀ config, scope.configs config → config.isSource names = true → SourceNames scope names
  contents : ∀ names, SourceNames scope names →
    ∀ bytes, disk.node? (source ++ names) = some (.file bytes) → scope.contents bytes

/-- A site that was set up by a layout and has kept to it, and to the scope. -/
structure Placed (scope : Scope) (layout : Layout) (state : SiteState) : Prop where
  fits : layout.Fits state.site state.session.disk
  configured : scope.configs state.site.config
  knows : scope.Knows layout.source state.session.disk

/-- What an entry of the cache stands for: all that stands at the location of the page was rendered
from contents with the digest of the entry. -/
structure Recorded (scope : Scope) (layout : Layout) (state : SiteState) (names : List String)
    (digest : Text) : Prop where
  clear : layout.Clear (layout.pageAt names)
  rendered : ∀ node, state.session.disk.node? (layout.pageAt names) = some node →
    ∃ source page, scope.contents source ∧ Md5.hexDigest source = digest ∧ node = .file page ∧
      state.site.Shows names source page

/-- All entries of the cache stand for what they should. -/
def Cached (scope : Scope) (layout : Layout) (state : SiteState) : Prop :=
  ∃ members, state.site.cache.content = .object members ∧
    ∀ names digest, SourceNames scope names →
      Pairs.get? (state.site.cacheKey names) members = some (.string digest) →
      Recorded scope layout state names digest

/-- What building does to a site: its rules and its places stay, and files are only written at
locations of one kind. -/
structure Moved (scope : Scope) (layout : Layout) (written : Location → Prop)
    (before after : SiteState) : Prop where
  site : ∃ content generated, after.site =
    { before.site with cache := { before.site.cache with content }, generated }
  disk : Grows (layout.Free scope) written before.session.disk after.session.disk

/-- The locations that building may write files at: those of pages, and the one of the cache. -/
def Layout.Output (layout : Layout) (scope : Scope) (location : Location) : Prop :=
  (∃ names, SourceNames scope names ∧ location = layout.pageAt names) ∨ location = layout.cacheAt

namespace Moved

/-- A site stays as it is when only the files grow. -/
theorem of_disk {state : SiteState} {session : Session}
    (grows : Grows (layout.Free scope) written state.session.disk session.disk) :
    Moved scope layout written state { state with session } :=
  ⟨⟨state.site.cache.content, state.site.generated, rfl⟩, grows⟩

/-- Doing nothing is such a change. -/
theorem refl {state : SiteState} : Moved scope layout written state state := of_disk .refl

/-- So are two of them, one after the other. -/
theorem trans {middle : SiteState} (first : Moved scope layout written before middle)
    (second : Moved scope layout written middle after) :
    Moved scope layout written before after := by
  obtain ⟨_, _, same⟩ := first.site
  obtain ⟨content, generated, same'⟩ := second.site
  exact ⟨⟨content, generated, by rw [same', same]⟩, first.disk.trans second.disk⟩

/-- It may be forgotten where exactly files were written. -/
theorem mono (moved : Moved scope layout written before after)
    (writes : ∀ location, written location → written' location) :
    Moved scope layout written' before after :=
  ⟨moved.site, moved.disk.mono (fun _ => id) writes⟩

/-- The configuration stays. -/
theorem config (moved : Moved scope layout written before after) :
    after.site.config = before.site.config := by
  obtain ⟨_, _, same⟩ := moved.site
  rw [same]

/-- A page shows a source afterwards if and only if it did so before. -/
theorem shows_iff (moved : Moved scope layout written before after) {source page : Bytes} :
    after.site.Shows names source page ↔ before.site.Shows names source page := by
  obtain ⟨_, _, same⟩ := moved.site
  rw [same]
  rfl

/-- The cache has the same name for a source. -/
theorem cacheKey (moved : Moved scope layout written before after) (names : List String) :
    after.site.cacheKey names = before.site.cacheKey names := by
  obtain ⟨_, _, same⟩ := moved.site
  rw [same]
  rfl

/-- The layout still fits. -/
theorem fits (moved : Moved scope layout written before after)
    (fits : layout.Fits before.site before.session.disk) :
    layout.Fits after.site after.session.disk := by
  obtain ⟨_, _, same⟩ := moved.site
  rw [same]
  exact ⟨fits.source, fits.output, fits.cache, moved.disk.current.trans fits.current⟩

end Moved

/-! ## Sources stay sources -/

/-- The sources that are found are the files that the configuration takes for sources. -/
theorem Site.mem_found {site : Site} :
    names ∈ site.found disk ↔
      (∃ bytes, (site.source.names ++ names, .file bytes) ∈ disk.nodes) ∧
        site.config.isSource names = true := by
  have listed : names ∈ (disk.filesBelow site.source.names).map (·.1) ↔
      ∃ bytes, (site.source.names ++ names, .file bytes) ∈ disk.nodes := by
    simp only [filesBelow, List.mem_map, List.mem_filterMap]
    constructor
    · rintro ⟨⟨_, bytes⟩, ⟨⟨there, node⟩, listed, isBelow⟩, rfl⟩
      cases node with
      | directory => cases isBelow
      | file found =>
        simp only [Option.ite_none_right_eq_some, List.isPrefixOf_iff_prefix] at isBelow
        obtain ⟨⟨below, rfl⟩, same⟩ := isBelow
        cases same
        exact ⟨bytes, by simpa using listed⟩
    · rintro ⟨bytes, listed⟩
      refine ⟨(names, bytes), ⟨_, listed, ?_⟩, rfl⟩
      simp
  rw [found, sourceNames, List.mem_mergeSort, List.mem_filter, listed]

/-- Building writes no sources. -/
theorem Layout.Output.not_source {config : Config} {location : Location}
    (output : layout.Output scope location) (allowed : scope.configs config)
    (isSource : config.isSource names = true) : location ≠ layout.sourceAt names := by
  rcases output with ⟨others, source, rfl⟩ | rfl
  · exact layout.pageAt_not_source (scope.quiet config allowed) source.fileNames isSource
  · exact (layout.source_ne_cache isSource).symm

namespace SourceNames

/-- Building writes no sources. -/
theorem unwritten (source : SourceNames scope names) :
    ¬ layout.Output scope (layout.sourceAt names) := by
  obtain ⟨config, allowed, isSource⟩ := source.watched
  exact fun output => output.not_source allowed isSource rfl

/-- A source is not where its page is. -/
theorem apart (source : SourceNames scope names) :
    layout.sourceAt names ≠ layout.pageAt names := fun same =>
  source.unwritten (.inl ⟨names, source, same⟩)

end SourceNames

/-- What is known of the sources stays known while files are written, if it is known of the sources
among these. -/
theorem Scope.Knows.grow {made : Location → Prop} {after : Disk}
    (knows : scope.Knows layout.source disk) (grows : Grows made written disk after)
    (new : ∀ names config, scope.configs config → config.isSource names = true →
      written (layout.sourceAt names) → SourceNames scope names ∧
        ∀ bytes, after.node? (layout.sourceAt names) = some (.file bytes) → scope.contents bytes) :
    scope.Knows layout.source after := by
  refine ⟨fun names bytes listed config allowed isSource => ?_, fun names source bytes found => ?_⟩
  · rcases grows.files _ bytes listed with old | isWritten
    · exact knows.names names bytes old config allowed isSource
    · exact (new names config allowed isSource isWritten).1
  · obtain ⟨config, allowed, isSource⟩ := source.watched
    by_cases isWritten : written (layout.sourceAt names)
    · exact (new names config allowed isSource isWritten).2 bytes found
    · rcases grows.nodes _ (layout.proper_sourceAt source.proper) isWritten with
        same | ⟨-, directory, -⟩
      · exact knows.contents names source bytes (same ▸ found)
      · rw [Layout.sourceAt, found] at directory
        cases directory

/-- The sources that are found belong to the scope. -/
theorem Placed.sourceNames {state : SiteState} (placed : Placed scope layout state)
    (found : names ∈ state.site.found state.session.disk) :
    SourceNames scope names := by
  obtain ⟨⟨bytes, listed⟩, isSource⟩ := Site.mem_found.mp found
  rw [placed.fits.source] at listed
  exact placed.knows.names names bytes listed _ placed.configured isSource

/-- Building adds no sources. -/
theorem Moved.sourceNames (moved : Moved scope layout (layout.Output scope) before after)
    (placed : Placed scope layout before)
    (found : names ∈ after.site.found after.session.disk) :
    names ∈ before.site.found before.session.disk := by
  obtain ⟨_, _, same⟩ := moved.site
  rw [same, Site.mem_found] at found
  obtain ⟨⟨bytes, listed⟩, isSource⟩ := found
  refine Site.mem_found.mpr ⟨⟨bytes, ?_⟩, isSource⟩
  rcases moved.disk.files _ bytes listed with old | output
  · exact old
  · rw [placed.fits.source] at output
    exact absurd rfl (output.not_source placed.configured isSource)

/-- Writing the page of a source is a part of building. -/
theorem Moved.output (moved : Moved scope layout (· = layout.pageAt names) before after)
    (source : SourceNames scope names) :
    Moved scope layout (layout.Output scope) before after :=
  moved.mono fun _ same => .inl ⟨names, source, same⟩

/-- Building keeps a site in its place. -/
theorem Placed.move (placed : Placed scope layout before)
    (moved : Moved scope layout (layout.Output scope) before after) :
    Placed scope layout after :=
  ⟨moved.fits placed.fits, moved.config ▸ placed.configured, placed.knows.grow moved.disk
    fun _ _ allowed isSource output => absurd rfl (output.not_source allowed isSource)⟩

/-! ## Records stay true -/

/-- An entry stands for what it should as long as nothing new stands at the location of the page. -/
theorem Recorded.of_nodes {digest : Text} (recorded : Recorded scope layout before names digest)
    (shows : ∀ source page, before.site.Shows names source page →
      after.site.Shows names source page)
    (nodes : ∀ node, after.session.disk.node? (layout.pageAt names) = some node →
      before.session.disk.node? (layout.pageAt names) = some node) :
    Recorded scope layout after names digest := by
  refine ⟨recorded.clear, fun node found => ?_⟩
  obtain ⟨source, page, inScope, digested, isFile, shown⟩ :=
    recorded.rendered node (nodes node found)
  exact ⟨source, page, inScope, digested, isFile, shows source page shown⟩

/-- A page that is not written stays what it was. -/
theorem Recorded.move {digest : Text} (recorded : Recorded scope layout before names digest)
    (source : SourceNames scope names) (moved : Moved scope layout written before after)
    (unwritten : ¬ written (layout.pageAt names)) :
    Recorded scope layout after names digest := by
  refine recorded.of_nodes (fun _ _ => moved.shows_iff.mpr) fun node found => ?_
  rcases moved.disk.nodes _ (layout.proper_pageAt source.fileNames) unwritten with same | ⟨-, -, free⟩
  · exact same ▸ found
  · exact absurd rfl (free names source recorded.clear)

/-- An entry of the cache stands for what it should. -/
theorem Cached.recorded {members : Pairs Json.Value} {digest : Text}
    (cached : Cached scope layout before)
    (isObject : before.site.cache.content = .object members) (source : SourceNames scope names)
    (found : Pairs.get? (before.site.cacheKey names) members = some (.string digest)) :
    Recorded scope layout before names digest := by
  obtain ⟨_, same, recorded⟩ := cached
  cases isObject.symm.trans same
  exact recorded names digest source found

/-- As long as no page is written, all entries stand for what they should. -/
theorem Cached.move (cached : Cached scope layout before)
    (moved : Moved scope layout written before after)
    (sameContent : after.site.cache.content = before.site.cache.content)
    (unwritten : ∀ names, SourceNames scope names → ¬ written (layout.pageAt names)) :
    Cached scope layout after := by
  obtain ⟨members, isObject, recorded⟩ := cached
  refine ⟨members, sameContent.trans isObject, fun names digest source found => ?_⟩
  rw [moved.cacheKey] at found
  exact (recorded names digest source found).move source moved (unwritten names source)

/-- A page that shows its source does so until one of them is written. -/
theorem Site.UpToDate.move (upToDate : before.site.UpToDate before.session.disk names)
    (placed : Placed scope layout before) (source : SourceNames scope names)
    (moved : Moved scope layout written before after)
    (sourceStays : ¬ written (layout.sourceAt names))
    (pageStays : ¬ written (layout.pageAt names)) :
    after.site.UpToDate after.session.disk names := by
  obtain ⟨bytes, page, read, readPage, shows⟩ := upToDate
  obtain ⟨_, _, same⟩ := moved.site
  refine ⟨bytes, page, ?_, ?_, moved.shows_iff.mpr shows⟩
  · rw [same]
    exact (placed.fits.reaches_source source.fileNames).read_kept (placed.fits.proper_start _) moved.disk
      sourceStays read
  · rw [same]
    exact (placed.fits.reaches_page source.fileNames).read_kept (placed.fits.proper_start _) moved.disk
      pageStays readPage

/-- A page that shows its source still does so after another page was written. -/
theorem Site.UpToDate.move_other (upToDate : before.site.UpToDate before.session.disk names)
    (placed : Placed scope layout before) (source : SourceNames scope names)
    (other : SourceNames scope others) (differ : names ≠ others)
    (moved : Moved scope layout (· = layout.pageAt others) before after) :
    after.site.UpToDate after.session.disk names := by
  have sourceStays : layout.sourceAt names ≠ layout.pageAt others := fun same =>
    source.unwritten (.inl ⟨others, other, same⟩)
  have pageStays : layout.pageAt names ≠ layout.pageAt others := fun same =>
    differ (layout.pageAt_injective source.fileNames other.fileNames same)
  exact upToDate.move placed source moved sourceStays pageStays

/-- The name that a cache has for a source. -/
def Layout.key (layout : Layout) (names : List String) : String :=
  String.ofList (Path.absolute (layout.source ++ names)).toText

/-- Different files have different names in a cache. -/
theorem Layout.key_injective (proper : Disk.Proper names) (other : Disk.Proper others)
    (same : layout.key names = layout.key others) : names = others := by
  have named {names : List String} (proper : Disk.Proper names) :
      ∀ name ∈ (Path.absolute (layout.source ++ names)).names, PieceName name :=
    fun name member => (layout.proper_sourceAt proper name member).toPieceName
  have sameNames := congrArg (fun text => (Path.ofText text).names) (String.ofList_injective same)
  simp only [Path.names_ofText_toText (named proper), Path.names_ofText_toText (named other)]
    at sameNames
  exact List.append_cancel_left sameNames

/-- A site that is laid out has these names in its cache. -/
theorem Layout.Fits.cacheKey {site : Site} (fits : layout.Fits site disk) (names : List String) :
    site.cacheKey names = layout.key names := by
  rw [Site.cacheKey, Site.sourcePath, fits.source]
  rfl

/-- Different files have different names in the cache of a site. -/
theorem cacheKey_injective {site : Site} (fits : layout.Fits site disk)
    (proper : Disk.Proper names) (other : Disk.Proper others)
    (same : site.cacheKey names = site.cacheKey others) : names = others := by
  rw [fits.cacheKey, fits.cacheKey] at same
  exact layout.key_injective proper other same

/-- An empty cache has nothing to stand for. -/
theorem cached_blank {state : SiteState} (blank : state.site.cache.content = Cache.blank) :
    Cached scope layout state :=
  ⟨[], blank, fun _ _ _ found => by cases found⟩

end TemplHighlight
