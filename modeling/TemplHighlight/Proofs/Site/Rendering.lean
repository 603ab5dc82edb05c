import TemplHighlight.Proofs.Site.Outcomes
import TemplHighlight.Proofs.Site.Records

/-!
# What the parts of a build do

A build comes to a source either to find its digest in the cache and its page in place, and then
leaves all as it is, or to render it: the page is written from what the source is, directories are
made on the way to it, and the digest of the source is put into the cache. If it fails, it has done
no more than make directories. When it has come past all sources it writes the file of the cache.
-/

namespace TemplHighlight

open Disk

variable {layout : Layout} {made : Location → Prop} {state : SiteState} {session : Session}
  {names : List String} {path : Text}

namespace Cache

/-- A digest that is current is the one that the cache has. -/
theorem get?_of_isCurrent {members : Pairs Json.Value} {digest : Text}
    (current : isCurrent path digest members = true) :
    Pairs.get? (String.ofList path) members = some (.string digest) := by
  unfold isCurrent at current
  split at current
  · rename_i known found
    rw [found, beq_iff_eq.mp current]
  · cases current

end Cache

/-- What rendering a source does: its page is written from what the source is, and otherwise only
directories are made. -/
structure Rendered (layout : Layout) (made : Location → Prop) (site : Site) (names : List String)
    (before after : Disk) (source page : Bytes) : Prop where
  read : before.read (site.sourcePath names).toText = .ok source
  shows : site.Shows names source page
  entered : after.Entered (site.pagePath names)
  written : after.node? (layout.pageAt names) = some (.file page)
  grows : Grows made (· = layout.pageAt names) before after

/-- A source that was rendered is still what it was. -/
theorem Rendered.read_after {site : Site} {before after : Disk} {source page : Bytes}
    (rendered : Rendered layout made site names before after source page)
    (fits : layout.Fits site before) (file : FileNames names)
    (apart : layout.sourceAt names ≠ layout.pageAt names) :
    after.read (site.sourcePath names).toText = .ok source :=
  (fits.reaches_source file).read_kept (fits.proper_start _) rendered.grows apart rendered.read

namespace Site

/-- A source whose page is written is rendered. -/
theorem Showable.rendered {bytes : Bytes} {members : Pairs Json.Value} {page : Text}
    {middle disk : Disk} (showable : Showable names state bytes members page)
    (fits : layout.Fits state.site state.session.disk) (file : FileNames names)
    (grows : Grows made (fun _ => False) state.session.disk middle)
    (wrote : middle.write (state.site.pagePath names).toText (Utf8.encode page) = .ok disk) :
    Rendered layout made state.site names state.session.disk disk bytes (Utf8.encode page) := by
  obtain ⟨text, isText, isPage⟩ := showable.shown
  have reaches := (fits.reaches_page file).of_current grows.current
  obtain ⟨entered, written, writes⟩ := reaches.of_write wrote
  have start : Proper (middle.start (state.site.pagePath names)) :=
    start_congr grows.current _ ▸ fits.proper_start _
  exact
    { read := showable.read
      shows := ⟨text, page, isText, isPage, rfl⟩
      entered := reaches.entered start writes entered
      written
      grows := grows.then writes }

/-- Visiting a source that needs no rendering changes nothing. Otherwise it is rendered, and its
digest is put into the cache; between the two nothing can fail, as the source can still be read. -/
theorem refresh_ends (fits : layout.Fits state.site state.session.disk) (file : FileNames names)
    (apart : layout.sourceAt names ≠ layout.pageAt names)
    (makes : ∀ disk, state.session.disk.makeDirectories (state.site.pagePath names).parent =
      .ok disk → Grows made (fun _ => False) state.session.disk disk) :
    Ends (refresh names) state
      (fun rendered after => ∃ source members, state.site.cache.content = .object members ∧
        if rendered then ∃ disk page generated printed,
          Rendered layout made state.site names state.session.disk disk source page ∧
            after = ⟨{ state.site with
              cache.content := .object
                (Pairs.put (state.site.cacheKey names) (.string (Md5.hexDigest source)) members)
              generated }, { state.session with disk, printed }⟩
        else
          after = state ∧
            state.session.disk.read (state.site.sourcePath names).toText = .ok source ∧
            Pairs.get? (state.site.cacheKey names) members =
              some (.string (Md5.hexDigest source)) ∧
            state.session.disk.has (state.site.pagePath names).toText = true)
      fun after => ∃ disk, after = { state with session.disk := disk } ∧
        Grows made (fun _ => False) state.session.disk disk := by
  have stays : ∃ disk, state = { state with session.disk := disk } ∧
      Grows made (fun _ => False) state.session.disk disk := ⟨_, rfl, .refl⟩
  have visited := visit names state
  unfold Ends
  generalize refresh names state = result at visited
  cases visited with
  | fresh read isObject current there =>
    exact ⟨_, _, isObject, rfl, read, Cache.get?_of_isCurrent current, there⟩
  | rendered showable isMade wrote reread =>
    have rendered := showable.rendered fits file (makes _ isMade) wrote
    cases reread.symm.trans (rendered.read_after fits file apart)
    exact ⟨_, _, showable.isObject, _, _, _, _, rendered, rfl⟩
  | unwritten _ isMade => exact ⟨_, rfl, makes _ isMade⟩
  | unnoted showable isMade wrote reread =>
    have rendered := showable.rendered fits file (makes _ isMade) wrote
    cases reread.symm.trans (rendered.read_after fits file apart)
  | _ => exact stays

/-- Going over sources, one after the other: what every visit keeps holds in the end, and every
source that was visited has been settled, if later visits leave it so. -/
theorem refreshAll_ends_of (holds : SiteState → Prop) (settled : List String → SiteState → Prop)
    {visited : List (List String)}
    (visits : ∀ names ∈ visited, ∀ state, holds state → Ends (refresh names) state
      (fun _ after => holds after ∧ settled names after ∧
        ∀ others, settled others state → settled others after) holds)
    (start : holds state) :
    Ends (refreshAll visited) state
      (fun _ after => holds after ∧
        ∀ names, settled names state ∨ names ∈ visited → settled names after) holds := by
  induction visited generalizing state with
  | nil => exact .pure ⟨start, fun _ before => before.elim id nofun⟩
  | cons first visited inductionHypothesis =>
    obtain ⟨visit, visits⟩ := List.forall_mem_cons.mp visits
    refine .bind ((visit state start).mono ?_ fun _ => id)
    rintro _ middle ⟨holdsMiddle, settledFirst, stays⟩
    refine .bind ((inductionHypothesis visits holdsMiddle).mono ?_ fun _ => id)
    rintro _ after ⟨holdsAfter, settledAfter⟩
    refine .pure ⟨holdsAfter, fun names before => settledAfter names ?_⟩
    rcases before with before | visit
    · exact .inl (stays names before)
    · rcases List.mem_cons.mp visit with rfl | later
      · exact .inl settledFirst
      · exact .inr later

/-- Writing the cache writes its file, and otherwise only makes directories. -/
theorem save_ends (fits : layout.Fits state.site state.session.disk)
    (makes : ∀ disk, state.session.disk.makeDirectories state.site.cache.file.parent = .ok disk →
      Grows made (fun _ => False) state.session.disk disk) :
    Ends (SiteTask.ofTask state.site.cache.save) state
      (fun _ after => ∃ disk, after = { state with session.disk := disk } ∧
        Grows made (· = layout.cacheAt) state.session.disk disk ∧
        disk.node? layout.cacheAt =
          some (.file (Utf8.encode state.site.cache.content.toText)))
      fun after => ∃ disk, after = { state with session.disk := disk } ∧
        Grows made (fun _ => False) state.session.disk disk := by
  refine .ofTask (.bind (.makeDirectories (fun withDirectory isMade => ?_) ⟨_, rfl, .refl⟩))
  have grows := makes withDirectory isMade
  refine .writeText (fun withCache wrote => ?_) ⟨withDirectory, rfl, grows⟩
  obtain ⟨-, written, writes⟩ := (fits.reaches_cache.of_current grows.current).of_write wrote
  exact ⟨withCache, rfl, grows.then writes, written⟩

/-- A build goes over the sources that are found at its start. -/
theorem build_of_sourceNames {visited : List (List String)}
    (found : state.site.found state.session.disk = visited) :
    build false state = (do
      SiteTask.setSite fun site => { site with generated := [] }
      let fresh ← refreshAll visited
      let site ← SiteTask.site
      site.cache.save
      Session.log .debug
        ("Rendered ".toList ++ Text.decimal site.generated.length ++ " file(s), ".toList ++
          Text.decimal fresh ++ " unchanged".toList) : SiteTask Unit) state := by
  rw [← found]
  rfl

end Site

end TemplHighlight
