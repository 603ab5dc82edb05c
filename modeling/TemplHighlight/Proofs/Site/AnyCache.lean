import TemplHighlight.Proofs.Files.Making
import TemplHighlight.Proofs.Registry.Recomposing
import TemplHighlight.Proofs.Site.Opening
import TemplHighlight.Proofs.Site.Outcomes
import TemplHighlight.Proofs.Registry.Shipped
import TemplHighlight.Proofs.Site.Rendering
import Mathlib.Data.List.Infix

/-!
# Builds with whatever there is for a cache

A new site takes over the cache that it finds, if it is JSON, and starts with an empty one
otherwise. A build then goes well with any table: whatever its entries are, a source is only left
out if its digest is its entry, and in the end all digests are there. With JSON that is no table it
fails at the first source, before anything was done.
-/

namespace TemplHighlight

open Disk

/-- The entry of a cache for a source. -/
def Cache.entry? (cache : Cache) (key : String) : Option Json.Value :=
  match cache.content with
  | .object members => Pairs.get? key members
  | _ => none

namespace Site

variable {config : Config} {source : Text} {output : Option Text} {given : Option Registry}
  {registry : Registry} {session : Session} {site : Site} {disk : Disk}

/-! ## New sites -/

/-- The registry of a new site: the one that is given, which highlights every text, or one that is
made for the configuration. -/
def Supplied (config : Config) (registry : Registry) : Option Registry → Prop
  | some given => registry = given ∧
    ∀ text, ∃ items, registry.highlight text config.language = .ok items
  | none => ∃ log, Registry.create config = .ok (registry, log)

/-- A new site in a directory. -/
def opened (config : Config) (source : Text) (output : Option Text) (registry : Registry)
    (disk : Disk) : Site :=
  let source := Path.resolve disk.current (Path.ofText source)
  let file := (source.child ".templight").child "cache.json"
  { config, source, output := outputPath source output, registry
    cache := ⟨file, Cache.kept disk file⟩ }

/-- A new site can be made whatever its cache is. -/
theorem create_total (usable : '\x00' ∉ source) (supplied : Supplied config registry given)
    (session : Session) :
    ∃ logged, create config source output given session =
      .ok (opened config source output registry session.disk) { session with logged } := by
  obtain ⟨logged, makes⟩ : ∃ logged, registryFor config given session =
      .ok registry { session with logged } := by
    cases given with
    | some other =>
      obtain ⟨rfl, -⟩ := supplied
      exact ⟨session.logged, rfl⟩
    | none =>
      obtain ⟨log, created⟩ := supplied
      exact ⟨_, registryFor_of_create created⟩
  have checked : Session.ofExcept ((atPath source (checkPath source)).mapError .file) session =
      .ok () session := by
    have free : ¬ source.contains '\x00' = true := fun has => usable (List.contains_iff_mem.mp has)
    rw [checkPath, if_neg free]
    rfl
  let file := ((Path.resolve session.disk.current (Path.ofText source)).child ".templight").child
    "cache.json"
  obtain ⟨logged', loads⟩ := load_total file { session with logged }
  refine ⟨logged', ?_⟩
  unfold create
  rw [bind_of_ok _ _ checked, bind_of_ok session.disk.current session (by rfl),
    bind_of_ok _ _ makes]
  refine (bind_of_ok _ _ loads).trans ?_
  rcases output with _ | _ | _ <;> rfl

/-! ## Going over the sources -/

/-- The paths that a build writes files at. -/
def written (site : Site) (disk : Disk) : List Path :=
  (site.found disk).map site.pagePath ++ [site.cache.file]

/-- A site whose sources are texts, and whose files leave room for what a build writes: its pages,
none of which is one of the sources, and its cache. -/
structure Buildable (site : Site) (disk : Disk) : Prop where
  proper : ∀ names ∈ site.found disk, Proper names
  texts : ∀ names ∈ site.found disk, ∃ bytes text,
    disk.read (site.sourcePath names).toText = .ok bytes ∧ Utf8.decode? bytes = some text
  room : disk.Room (site.written disk)
  apart : ∀ names ∈ site.found disk, ∀ others ∈ site.found disk,
    disk.target (site.pagePath names) ≠ disk.target (site.sourcePath others)

/-- What has become of a source, with its bytes, that a build has come past: its digest is its entry,
its page is there, and if nothing was rendered for it both were so from the start. -/
structure Passed (site : Site) (disk : Disk) (names : List String) (bytes : Bytes) (built : Site)
    (after : Disk) : Prop where
  was : disk.read (site.sourcePath names).toText = .ok bytes
  still : after.read (site.sourcePath names).toText = .ok bytes
  recorded : built.cache.entry? (site.cacheKey names) = some (.string (Md5.hexDigest bytes))
  shown : after.has (site.pagePath names).toText = true
  skipped : site.pagePath names ∉ built.generated →
    site.cache.entry? (site.cacheKey names) = some (.string (Md5.hexDigest bytes)) ∧
      ∃ node, disk.node? (disk.target (site.pagePath names)) = some node

/-- A source is found by names that lead down to it. -/
theorem leadsDown_of_found {names : List String} (buildable : site.Buildable disk)
    (found : names ∈ site.found disk) : LeadsDown names := by
  refine ⟨buildable.proper names found, ?_⟩
  obtain ⟨-, isSource⟩ := mem_found.mp found
  obtain ⟨front, last, rfl, -⟩ := Config.isSource_last isSource
  simp

/-- How far a build has come that has started with the site and the files: the cache is a table, and
the sources are what they were. Every source was rendered, or its entry is what it was, and so is
what stands at the place of its page; those that were visited have their digests and pages. -/
structure Progress (site : Site) (disk : Disk) (done : List (List String)) (members : Pairs Json.Value)
    (state : SiteState) : Prop where
  isSite : ∃ generated, state.site =
    { site with cache.content := .object members, generated }
  room : state.session.disk.Room (site.written disk)
  grows : Grows (fun _ => True)
    (fun location => ∃ names ∈ site.found disk, location = disk.target (site.pagePath names))
    disk state.session.disk
  kept : ∀ names ∈ site.found disk, site.pagePath names ∉ state.site.generated →
    Pairs.get? (site.cacheKey names) members = site.cache.entry? (site.cacheKey names) ∧
      state.session.disk.node? (disk.target (site.pagePath names)) =
        disk.node? (disk.target (site.pagePath names))
  visited : ∀ names ∈ site.found disk, names ∈ done →
    ∀ bytes, disk.read (site.sourcePath names).toText = .ok bytes →
    Pairs.get? (site.cacheKey names) members = some (.string (Md5.hexDigest bytes)) ∧
      state.session.disk.has (site.pagePath names).toText = true

section

variable {layout : Layout} {state : SiteState} {done visited : List (List String)}
  {members : Pairs Json.Value} {names : List String} {bytes : Bytes}
  (fits : layout.Fits site disk) (grounded : disk.Grounded)
  (total : ∀ text, ∃ items, site.registry.highlight text site.config.language = .ok items)
  (buildable : site.Buildable disk)

include fits buildable in
/-- The paths that a build writes files at end in proper names. -/
theorem written_ends {path : Path} (member : path ∈ site.written disk) :
    EndsIn path path.names.dropLast path.name := by
  rcases List.mem_append.mp member with isPage | isCache
  · obtain ⟨names, found, rfl⟩ := List.mem_map.mp isPage
    exact ((fits.reaches_pageBelow (leadsDown_of_found buildable found)).target).1
  · obtain rfl := List.mem_singleton.mp isCache
    exact fits.reaches_cache.target.1

/-- The page of a source is one of these paths. -/
theorem pagePath_mem_written (found : names ∈ site.found disk) :
    site.pagePath names ∈ site.written disk :=
  List.mem_append_left _ (List.mem_map_of_mem found)

include fits grounded buildable in
/-- Sources stay what they are. -/
theorem Progress.read (progress : Progress site disk done members state)
    (found : names ∈ site.found disk) (read : disk.read (site.sourcePath names).toText = .ok bytes) :
    state.session.disk.read (site.sourcePath names).toText = .ok bytes := by
  have reaches := fits.reaches_below (leadsDown_of_found buildable found)
  refine reaches.read_kept (grounded.start _).1 progress.grows ?_ read
  rintro ⟨others, other, same⟩
  exact buildable.apart others other names found (same.symm.trans reaches.target.2.symm)

/-- A source that needs no rendering is passed. -/
theorem Progress.fresh (progress : Progress site disk done members state)
    (read : disk.read (site.sourcePath names).toText = .ok bytes)
    (current : Pairs.get? (site.cacheKey names) members = some (.string (Md5.hexDigest bytes)))
    (there : state.session.disk.has (site.pagePath names).toText = true) :
    Progress site disk (done ++ [names]) members state where
  isSite := progress.isSite
  room := progress.room
  grows := progress.grows
  kept := progress.kept
  visited := by
    intro other isOther member bytes' read'
    rcases List.mem_append.mp member with before | isNew
    · exact progress.visited other isOther before bytes' read'
    · obtain rfl := List.mem_singleton.mp isNew
      cases read.symm.trans read'
      exact ⟨current, there⟩

include fits grounded buildable in
/-- A source that is rendered is passed. -/
theorem Progress.rendered {after : Disk} {page : Bytes} {printed : Text}
    (progress : Progress site disk done members state) (found : names ∈ site.found disk)
    (read : disk.read (site.sourcePath names).toText = .ok bytes)
    (room : after.Room (site.written disk))
    (grows : Grows (state.session.disk.Passed (site.pagePath names).parent)
      (· = state.session.disk.target (site.pagePath names)) state.session.disk after)
    (isPage : after.node? (state.session.disk.target (site.pagePath names)) = some (.file page))
    (readPage : after.read (site.pagePath names).toText = .ok page) :
    Progress site disk (done ++ [names])
      (Pairs.put (site.cacheKey names) (.string (Md5.hexDigest bytes)) members)
      ⟨{ state.site with
        cache.content := .object
          (Pairs.put (site.cacheKey names) (.string (Md5.hexDigest bytes)) members)
        generated := state.site.generated ++ [site.pagePath names] },
        { state.session with disk := after, printed }⟩ where
  isSite := by
    obtain ⟨generated, same⟩ := progress.isSite
    exact ⟨state.site.generated ++ [site.pagePath names], by rw [same]⟩
  room
  grows := by
    have place := target_congr progress.grows.current (site.pagePath names)
    refine progress.grows.trans (grows.mono (fun _ _ => trivial) ?_)
    rintro _ rfl
    exact ⟨names, found, place⟩
  kept := by
    intro other isOther unwritten
    obtain ⟨before, notPage⟩ := not_or.mp (List.mem_append.not.mp unwritten)
    have differ : other ≠ names := by
      rintro rfl
      exact notPage (List.mem_singleton_self _)
    obtain ⟨entry, node⟩ := progress.kept other isOther before
    have otherDown := leadsDown_of_found buildable isOther
    have down := leadsDown_of_found buildable found
    refine ⟨?_, ?_⟩
    · have otherKey : site.cacheKey other ≠ site.cacheKey names := fun same =>
        differ (cacheKey_injective fits otherDown.proper down.proper same)
      rw [Pairs.get?_put_other otherKey, entry]
    · have groundedNow := grounded.grow progress.grows
      have ends : ∀ path ∈ site.written disk, EndsIn path path.names.dropLast path.name :=
        fun _ => written_ends fits buildable
      have isPath := pagePath_mem_written found
      have isOtherPath := pagePath_mem_written isOther
      have place (names : List String) := target_congr progress.grows.current (site.pagePath names)
      have elsewhere : state.session.disk.target (site.pagePath other) ≠
          state.session.disk.target (site.pagePath names) := by
        rw [place, place, (fits.reaches_pageBelow otherDown).target.2,
          (fits.reaches_pageBelow down).target.2]
        exact fun same => differ (layout.page_injective otherDown down same)
      rw [← node, ← place]
      rcases grows.nodes _ (proper_target groundedNow ends isOtherPath) elsewhere with
        same | ⟨-, -, passed⟩
      · exact same
      · exact absurd passed (progress.room.not_passed groundedNow ends isPath isOtherPath)
  visited := by
    intro other isOther member bytes' read'
    by_cases isNew : other = names
    · subst isNew
      cases read.symm.trans read'
      exact ⟨Pairs.get?_put_self .., has_of_read readPage⟩
    have before : other ∈ done := by simpa [isNew] using member
    obtain ⟨entry, there⟩ := progress.visited other isOther before bytes' read'
    have otherDown := leadsDown_of_found buildable isOther
    have down := leadsDown_of_found buildable found
    refine ⟨?_, ?_⟩
    · have otherKey : site.cacheKey other ≠ site.cacheKey names := fun same =>
        isNew (cacheKey_injective fits otherDown.proper down.proper same)
      rw [Pairs.get?_put_other otherKey, entry]
    · have reaches := (fits.reaches_pageBelow otherDown).of_current progress.grows.current
      exact reaches.has_grow ((grounded.grow progress.grows).start _).1 grows isPage there

include fits grounded total buildable in
/-- Every visit to a source goes well, and passes it. -/
theorem refresh_progress (progress : Progress site disk done members state)
    (found : names ∈ site.found disk) :
    ∃ rendered members after, refresh names state = .ok rendered after ∧
      Progress site disk (done ++ [names]) members after := by
  obtain ⟨bytes, text, isRead, isText⟩ := buildable.texts names found
  have readNow := progress.read fits grounded buildable found isRead
  have groundedNow := grounded.grow progress.grows
  have ends : ∀ path ∈ site.written disk, EndsIn path path.names.dropLast path.name :=
    fun _ => written_ends fits buildable
  have writes := progress.room.write groundedNow ends (pagePath_mem_written found)
  obtain ⟨now, session⟩ := state
  obtain ⟨generated, rfl⟩ : ∃ generated, now = { site with cache.content := .object members, generated } :=
    progress.isSite
  have reread {after : Disk} (grows : Grows (session.disk.Passed (site.pagePath names).parent)
      (· = session.disk.target (site.pagePath names)) session.disk after) :
      after.read (site.sourcePath names).toText = .ok bytes := by
    have reaches := (fits.reaches_below (leadsDown_of_found buildable found)).of_current
      progress.grows.current
    refine reaches.read_kept (groundedNow.start _).1 grows ?_ readNow
    rw [← reaches.target.2, target_congr progress.grows.current, target_congr progress.grows.current]
    exact (buildable.apart names found names found).symm
  have visited := visit names ⟨{ site with cache.content := .object members, generated }, session⟩
  generalize refresh names _ = result at visited
  cases visited with
  | unread failed => cases failed.symm.trans readNow
  | untabled _ noTable => exact absurd rfl (noTable members)
  | fresh read isObject current there =>
    cases read.symm.trans readNow
    cases isObject
    exact ⟨_, _, _, rfl, progress.fresh isRead (Cache.get?_of_isCurrent current) there⟩
  | undecodable stale noText =>
    cases stale.read.symm.trans readNow
    cases noText.symm.trans isText
  | unshown _ _ failed =>
    obtain ⟨page, shown⟩ := page_total total (site.sourcePath names).name _
    cases failed.symm.trans shown
  | unmade _ failed =>
    obtain ⟨middle, after, made, -⟩ := writes []
    cases failed.symm.trans made
  | @unwritten _ _ page _ _ _ made failed =>
    obtain ⟨middle, after, made', wrote, -⟩ := writes (Utf8.encode page)
    cases made.symm.trans made'
    cases failed.symm.trans wrote
  | @unnoted _ _ page _ _ _ _ made wrote failed =>
    obtain ⟨middle, after, made', wrote', -, grows, -⟩ := writes (Utf8.encode page)
    cases made.symm.trans made'
    cases wrote.symm.trans wrote'
    cases failed.symm.trans (reread grows)
  | @rendered digested _ _ page _ _ showable made wrote isReread =>
    obtain ⟨middle, after, made', wrote', room, grows, isPage, readPage⟩ :=
      writes (Utf8.encode page)
    cases made.symm.trans made'
    cases wrote.symm.trans wrote'
    cases isReread.symm.trans (reread grows)
    cases showable.isObject
    exact ⟨_, _, _, rfl, progress.rendered fits grounded buildable found isRead room grows isPage
      readPage⟩

include fits grounded total buildable in
/-- So does going over all sources. -/
theorem refreshAll_progress (progress : Progress site disk done members state)
    (found : ∀ names ∈ visited, names ∈ site.found disk) :
    ∃ count members after, refreshAll visited state = .ok count after ∧
      Progress site disk (done ++ visited) members after := by
  induction visited generalizing done members state with
  | nil => exact ⟨0, members, state, rfl, (List.append_nil done).symm ▸ progress⟩
  | cons names visited inductionHypothesis =>
    obtain ⟨isFound, later⟩ := List.forall_mem_cons.mp found
    obtain ⟨rendered, middleMembers, middle, visits, passed⟩ :=
      refresh_progress fits grounded total buildable progress isFound
    obtain ⟨count, lastMembers, after, visitsAll, passedAll⟩ := inductionHypothesis passed later
    refine ⟨if rendered then count else count + 1, lastMembers, after, ?_, ?_⟩
    · rw [refreshAll, bind_of_ok _ _ visits, bind_of_ok _ _ visitsAll]
      rfl
    · rwa [List.append_assoc] at passedAll

/-- At the start nothing has been done. -/
theorem progress_start (isTable : site.cache.content = .object members)
    (room : disk.Room (site.written disk)) (printed : Text) (logged : Log) :
    Progress site disk [] members ⟨{ site with generated := [] }, ⟨disk, printed, logged⟩⟩ where
  isSite := ⟨[], by rw [← isTable]⟩
  room
  grows := .refl
  kept names _ _ := ⟨by rw [Cache.entry?, isTable], rfl⟩
  visited _ _ := nofun

end

/-! ## Builds -/

/-- What a build has done when it is through: all sources are passed, and the cache is in its
file. -/
structure Through (site : Site) (disk : Disk) (built : Site) (after : Disk) : Prop where
  passed : ∀ names ∈ site.found disk, ∃ bytes, site.Passed disk names bytes built after
  saved : after.read site.cache.file.toText = .ok (Utf8.encode built.cache.content.toText)

variable {layout : Layout}

/-- Writing the cache goes well where there is room for it. -/
theorem save_total {state : SiteState} {paths : List Path} (grounded : state.session.disk.Grounded)
    (ends : ∀ path ∈ paths, EndsIn path path.names.dropLast path.name)
    (room : state.session.disk.Room paths) (member : state.site.cache.file ∈ paths) :
    ∃ after, SiteTask.ofTask state.site.cache.save state =
        .ok () { state with session.disk := after } ∧
      after.read state.site.cache.file.toText =
        .ok (Utf8.encode state.site.cache.content.toText) ∧
      Grows (fun _ => True) (· = state.session.disk.target state.site.cache.file)
        state.session.disk after ∧
      ∃ bytes, after.node? (state.session.disk.target state.site.cache.file) = some (.file bytes) := by
  obtain ⟨middle, after, made, wrote, -, grows, isFile, read⟩ :=
    room.write grounded ends member (Utf8.encode state.site.cache.content.toText)
  refine ⟨after, SiteTask.ofTask_of_ok ?_, read, grows.mono (fun _ _ => trivial) fun _ => id, _, isFile⟩
  have makes : Session.makeDirectories state.site.cache.file.parent state.session =
      .ok () { state.session with disk := middle } := by
    rw [Session.makeDirectories, Session.change_run, made]
  rw [Cache.save, bind_of_ok _ _ makes, Session.writeText, Session.change_run, wrote]

/-- A build that has come past all sources and has written the cache is through. -/
theorem build_of_saved {session : Session} {middle finish : SiteState} {count : Nat}
    (visits : refreshAll (site.found session.disk) ⟨{ site with generated := [] }, session⟩ =
      .ok count middle)
    (saves : SiteTask.ofTask middle.site.cache.save middle = .ok () finish) :
    ∃ logged, build false ⟨site, session⟩ =
      .ok () ⟨finish.site, { finish.session with logged }⟩ := by
  refine ⟨finish.session.logged ++ [⟨.debug, "Rendered ".toList ++
    Text.decimal middle.site.generated.length ++ " file(s), ".toList ++ Text.decimal count ++
      " unchanged".toList⟩], ?_⟩
  rw [build_of_sourceNames rfl, bind_of_ok () ⟨{ site with generated := [] }, session⟩ (by rfl),
    bind_of_ok _ _ visits, bind_of_ok middle.site middle (by rfl)]
  exact bind_of_ok _ _ saves

section

variable {session : Session} (fits : layout.Fits site session.disk)
  (grounded : session.disk.Grounded) (buildable : site.Buildable session.disk)

include fits grounded buildable

/-- When all sources were visited and the cache is written, they are passed. -/
theorem Progress.passed {members : Pairs Json.Value} {middle : SiteState} {after : Disk}
    {saved : Bytes} {names : List String}
    (progress : Progress site session.disk (site.found session.disk) members middle)
    (grows : Grows (fun _ => True) (· = layout.cacheAt) middle.session.disk after)
    (isFile : after.node? layout.cacheAt = some (.file saved))
    (found : names ∈ site.found session.disk) :
    ∃ bytes, site.Passed session.disk names bytes middle.site after := by
  obtain ⟨bytes, text, isRead, -⟩ := buildable.texts names found
  obtain ⟨entry, there⟩ := progress.visited names found found bytes isRead
  have groundedNow := grounded.grow progress.grows
  have down := leadsDown_of_found buildable found
  have reachesSource := (fits.reaches_below down).of_current progress.grows.current
  have reachesPage := (fits.reaches_pageBelow down).of_current progress.grows.current
  have isEntry : middle.site.cache.entry? (site.cacheKey names) =
      Pairs.get? (site.cacheKey names) members := by
    obtain ⟨generated, same⟩ := progress.isSite
    rw [same]
    rfl
  refine ⟨bytes, isRead, ?_, isEntry.trans entry, ?_, fun unwritten => ?_⟩
  · exact reachesSource.read_kept (groundedNow.start _).1 grows
      (layout.source_ne_cache (mem_found.mp found).2)
      (progress.read fits grounded buildable found isRead)
  · exact reachesPage.has_grow (groundedNow.start _).1 grows isFile there
  · obtain ⟨sameEntry, sameNode⟩ := progress.kept names found unwritten
    refine ⟨sameEntry.symm.trans entry, ?_⟩
    obtain ⟨-, node, isNode⟩ := reachesPage.has_iff.mp there
    refine ⟨node, ?_⟩
    rw [← sameNode, (fits.reaches_pageBelow down).target.2]
    exact isNode

/-- A build with a table for a cache goes through. -/
theorem build_through
    (total : ∀ text, ∃ items, site.registry.highlight text site.config.language = .ok items)
    (isTable : site.cache.IsTable) :
    ∃ built finish, build false ⟨site, session⟩ = .ok () ⟨built, finish⟩ ∧
      site.Through session.disk built finish.disk := by
  obtain ⟨members, isObject⟩ := isTable
  obtain ⟨count, members, middle, visits, progress⟩ :=
    refreshAll_progress fits grounded total buildable
      (progress_start isObject buildable.room session.printed session.logged) (fun _ => id)
  have sameFile : middle.site.cache.file = site.cache.file := by
    obtain ⟨generated, same⟩ := progress.isSite
    rw [same]
  have groundedNow := grounded.grow progress.grows
  have isPath : middle.site.cache.file ∈ site.written session.disk :=
    sameFile ▸ List.mem_append_right _ (List.mem_singleton_self _)
  obtain ⟨after, saves, read, grows, bytes, isFile⟩ :=
    save_total groundedNow (fun _ => written_ends fits buildable) progress.room isPath
  have place : middle.session.disk.target middle.site.cache.file = layout.cacheAt := by
    rw [sameFile, target_congr progress.grows.current, fits.reaches_cache.target.2]
  rw [place] at grows isFile
  obtain ⟨logged, builds⟩ := build_of_saved visits saves
  refine ⟨_, _, builds, fun names found => ?_, sameFile ▸ read⟩
  exact progress.passed fits grounded buildable grows isFile found

end

/-- A build that finds no sources goes through with any cache. -/
theorem build_idle {session : Session} (fits : layout.Fits site session.disk)
    (grounded : session.disk.Grounded) (buildable : site.Buildable session.disk)
    (idle : site.found session.disk = []) :
    ∃ built finish, build false ⟨site, session⟩ = .ok () ⟨built, finish⟩ ∧
      site.Through session.disk built finish.disk := by
  let start : SiteState := ⟨{ site with generated := [] }, session⟩
  have visits : refreshAll (site.found session.disk) start = .ok 0 start := by
    rw [idle]
    rfl
  have isPath : start.site.cache.file ∈ site.written session.disk :=
    List.mem_append_right _ (List.mem_singleton_self _)
  obtain ⟨after, saves, read, -⟩ :=
    @save_total start _ grounded (fun _ => written_ends fits buildable) buildable.room isPath
  obtain ⟨logged, builds⟩ := build_of_saved visits saves
  refine ⟨_, _, builds, fun names found => ?_, read⟩
  rw [idle] at found
  cases found

/-- With anything else than a table for a cache, a build fails at the first source and has changed
nothing. -/
theorem build_untabled {session : Session} {names : List String} {more : List (List String)}
    {bytes : Bytes} (found : site.found session.disk = names :: more)
    (read : session.disk.read (site.sourcePath names).toText = .ok bytes)
    (noTable : ¬ site.cache.IsTable) :
    build false ⟨site, session⟩ =
      .error .cacheLookup ⟨{ site with generated := [] }, session⟩ := by
  let start : SiteState := ⟨{ site with generated := [] }, session⟩
  have noMembers (members : Pairs Json.Value) : start.site.cache.content ≠ .object members :=
    fun same => noTable ⟨members, same⟩
  have visits : refresh names start = .error .cacheLookup start := by
    unfold refresh
    rw [bind_of_ok start.site start (by rfl)]
    exact bind_of_error (isFresh_untabled read noMembers)
  rw [build_of_sourceNames found, bind_of_ok () start (by rfl), refreshAll]
  exact bind_of_error (bind_of_error visits)

/-- A new site can be made whatever the file of its cache holds, and its first build goes well if
that is a table, or no JSON at all, or if there are no sources: then every source has its digest in
the cache, which is saved, and a page; a source for which nothing was rendered had its digest in the
cache before, and something in the place of its page. But if the file holds JSON that is no table and
there is a source, the build fails as soon as it looks up the first one.

Proof: no step on the way to a page can fail where the files leave room for it, and each of them
leaves room for the others. The cache is looked up before anything else is done for a source. -/
theorem build_of_any_cache (grounded : session.disk.Grounded) (usable : '\x00' ∉ source)
    (supplied : Supplied config registry given) (output : Option Text) :
    let site := opened config source output registry session.disk
    ∃ opening, create config source output given session = .ok site opening ∧
      opening.disk = session.disk ∧
      (site.Buildable session.disk →
        (site.cache.IsTable ∨ site.found session.disk = [] →
          ∃ built finish, build false ⟨site, opening⟩ = .ok () ⟨built, finish⟩ ∧
            site.Through session.disk built finish.disk) ∧
        (¬ site.cache.IsTable → site.found session.disk ≠ [] →
          build false ⟨site, opening⟩ =
            .error .cacheLookup ⟨{ site with generated := [] }, opening⟩)) := by
  intro site
  obtain ⟨logged, created⟩ := create_total usable supplied session
  obtain ⟨-, isOpened⟩ := (create_ends config source output given).of_ok created
  have fits := isOpened.fits grounded.proper
  have total : ∀ text, ∃ items, site.registry.highlight text site.config.language = .ok items := by
    cases given with
    | some other => exact supplied.2
    | none =>
      obtain ⟨log, made⟩ := supplied
      exact (Registry.composable_base.of_installTempl made).shows.highlight_total
  refine ⟨_, created, rfl, fun buildable => ⟨?_, fun noTable some => ?_⟩⟩
  · rintro (isTable | idle)
    · exact build_through fits grounded buildable total isTable
    · exact build_idle fits grounded buildable idle
  · obtain ⟨names, more, found⟩ := List.exists_cons_of_ne_nil some
    obtain ⟨bytes, -, read, -⟩ := buildable.texts names (found ▸ List.mem_cons_self)
    exact build_untabled found read noTable

/-- A directory with a source, and a file where the cache is kept. -/
def cacheFiles (kept : Bytes) : Disk :=
  ⟨[(["s"], .directory), (["s", "p.templ"], .file [120]), (["s", ".templight"], .directory),
    (["s", ".templight", "cache.json"], .file kept)], []⟩

/-- This source is all that is found, whatever the cache is. -/
theorem found_cacheFiles (kept : Bytes) (registry : Registry) :
    (opened {} ['/', 's'] none registry (cacheFiles kept)).found (cacheFiles kept) =
      [["p.templ"]] := by
  have isSource : Config.isSource {} ["p.templ"] = true := by decide
  show ((((cacheFiles kept).filesBelow ["s"]).map (·.1)).filter (Config.isSource {})).mergeSort
    visitsBefore = _
  simp [filesBelow, cacheFiles, isSource, cache_not_source]

/-- There is room for its page and for the cache. -/
theorem room_cacheFiles (kept : Bytes) : (cacheFiles kept).Room
    [.absolute ["s", "build", "p.templ.html"], .absolute ["s", ".templight", "cache.json"]] where
  usable := by
    simp only [Usable]
    decide
  unblocked := by
    simp only [Unblocked, ← List.mem_inits, List.forall_mem_cons]
    refine ⟨?_, ?_, nofun⟩ <;>
    · rintro _ (_ | ⟨_, _ | ⟨_, _ | ⟨_, _ | _⟩⟩⟩) bytes <;> exact nofun
  notDirectory := by
    simp only [List.forall_mem_cons]
    exact ⟨nofun, nofun, nofun⟩
  apart := by
    simp only [← List.mem_inits]
    -- Where paths lead does not depend on the contents of the files.
    have empty : ∀ path ∈ [Path.absolute ["s", "build", "p.templ.html"],
          .absolute ["s", ".templight", "cache.json"]],
        ∀ other ∈ [Path.absolute ["s", "build", "p.templ.html"],
          .absolute ["s", ".templight", "cache.json"]],
        ∀ front ∈ path.parent.names.inits,
          lead ((cacheFiles []).start path) front ≠ (cacheFiles []).target other := by decide
    exact empty

/-- So the site can be built. -/
theorem buildable_cacheFiles (kept : Bytes) (registry : Registry) :
    (opened {} ['/', 's'] none registry (cacheFiles kept)).Buildable (cacheFiles kept) := by
  have written : (opened {} ['/', 's'] none registry (cacheFiles kept)).written (cacheFiles kept) =
      [.absolute ["s", "build", "p.templ.html"], .absolute ["s", ".templight", "cache.json"]] := by
    rw [written, found_cacheFiles]
    rfl
  constructor
  case proper =>
    rw [found_cacheFiles]
    decide
  case texts =>
    rw [found_cacheFiles]
    exact List.forall_mem_singleton.mpr ⟨[120], ['x'], rfl, rfl⟩
  case room => exact written ▸ room_cacheFiles kept
  case apart =>
    rw [found_cacheFiles]
    simp only [List.forall_mem_singleton]
    show (["s", "build", "p.templ.html"] : Location) ≠ ["s", "p.templ"]
    decide

/-- The working directory is the root, which is there. -/
theorem grounded_cacheFiles (kept : Bytes) : (cacheFiles kept).Grounded where
  proper := List.forall_mem_nil _
  housed := (cacheFiles kept).housed_root

/-- A cache that is no JSON is no hindrance, but an empty list for a cache is. -/
theorem build_of_damaged_cache :
    ∃ registry log, Registry.create {} = .ok (registry, log) ∧
      let site (kept : Bytes) := opened {} ['/', 's'] none registry (cacheFiles kept)
      (∃ opening built finish,
        create {} ['/', 's'] none none ⟨cacheFiles [255], [], []⟩ = .ok (site [255]) opening ∧
        build false ⟨site [255], opening⟩ = .ok () ⟨built, finish⟩ ∧
        (site [255]).Through (cacheFiles [255]) built finish.disk) ∧
      ∃ opening,
        create {} ['/', 's'] none none ⟨cacheFiles [91, 93], [], []⟩ = .ok (site [91, 93]) opening ∧
        build false ⟨site [91, 93], opening⟩ =
          .error .cacheLookup ⟨{ site [91, 93] with generated := [] }, opening⟩ := by
  obtain ⟨registry, log, made, -⟩ := Registry.create_shipped {} 2
  have total (kept : Bytes) := @build_of_any_cache {} ['/', 's'] none registry
    ⟨cacheFiles kept, [], []⟩ (grounded_cacheFiles kept) (by decide) ⟨log, made⟩ none
  refine ⟨registry, log, made, ?_, ?_⟩
  · obtain ⟨opening, created, -, builds⟩ := total [255]
    obtain ⟨built, finish, builds, through⟩ :=
      (builds (buildable_cacheFiles _ _)).1 (.inl ⟨[], rfl⟩)
    exact ⟨opening, built, finish, created, builds, through⟩
  · obtain ⟨opening, created, -, builds⟩ := total [91, 93]
    have isList : Cache.contentOf? [91, 93] = some (.array []) := rfl
    refine ⟨opening, created, (builds (buildable_cacheFiles _ _)).2 ?_ ?_⟩
    · rintro ⟨members, isTable⟩
      have isKept : Cache.kept (cacheFiles [91, 93]) (.absolute ["s", ".templight", "cache.json"]) =
          (Cache.contentOf? [91, 93]).getD Cache.blank := rfl
      rw [isList] at isKept
      cases isKept.symm.trans isTable
    · exact fun none => nomatch (found_cacheFiles _ _).symm.trans none

end Site

end TemplHighlight
