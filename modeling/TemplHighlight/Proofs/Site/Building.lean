import TemplHighlight.Proofs.Site.Rendering

/-!
# What a build does

A build goes over the sources one by one. A source that the cache has the digest of, and whose page
is there, needs nothing: the entry of the cache says that the page shows contents with that digest,
and these are the contents of the source. Any other source is rendered before its digest is taken.
So whether a build succeeds or fails somewhere, the entries of the cache stand for what they should,
and all sources that it has come past are up to date.
-/

namespace TemplHighlight

open Disk

variable {scope : Scope} {layout : Layout} {state : SiteState} {session : Session}
  {names : List String}

namespace Site

/-- A source that the cache knows is up to date if its page is there. -/
theorem upToDate_of_recorded {bytes : Bytes} {members : Pairs Json.Value}
    (placed : Placed scope layout state) (cached : Cached scope layout state)
    (source : SourceNames scope names)
    (read : state.session.disk.read (state.site.sourcePath names).toText = .ok bytes)
    (isObject : state.site.cache.content = .object members)
    (found : Pairs.get? (state.site.cacheKey names) members =
      some (.string (Md5.hexDigest bytes)))
    (there : state.session.disk.has (state.site.pagePath names).toText = true) :
    state.site.UpToDate state.session.disk names := by
  have reachesPage := placed.fits.reaches_page source.fileNames
  obtain ⟨-, rendered⟩ := cached.recorded isObject source found
  obtain ⟨entered, node, isPage⟩ := reachesPage.has_iff.mp there
  obtain ⟨old, page, inScope, digested, rfl, shows⟩ := rendered node isPage
  have nowInScope : scope.contents bytes :=
    placed.knows.contents names source bytes
      ((placed.fits.reaches_source source.fileNames).read_eq_ok.mp read).2
  -- The page shows contents with the digest that the source has now, so it shows the source.
  obtain rfl := scope.distinct old bytes inScope nowInScope digested
  exact ⟨old, page, read, reachesPage.read_eq_ok.mpr ⟨entered, isPage⟩, shows⟩

end Site

/-- A source that was rendered is up to date, and files were written nowhere but at its page. -/
theorem Rendered.kept {after : SiteState} {disk : Disk} {source page : Bytes}
    {content : Json.Value} {generated : List Path} {printed : Text}
    (rendered : Rendered layout (layout.Free scope) state.site names state.session.disk disk source
      page)
    (placed : Placed scope layout state) (isSource : SourceNames scope names)
    (isAfter : after = ⟨{ state.site with cache.content := content, generated },
      { state.session with disk, printed }⟩) :
    Moved scope layout (· = layout.pageAt names) state after ∧
      after.site.UpToDate after.session.disk names := by
  subst isAfter
  have file := isSource.fileNames
  have readPage := ((placed.fits.reaches_page file).of_current rendered.grows.current).read_eq_ok.mpr
    ⟨rendered.entered, rendered.written⟩
  exact ⟨⟨⟨content, generated, rfl⟩, rendered.grows⟩, source, page,
    rendered.read_after placed.fits file isSource.apart, readPage, rendered.shows⟩

/-- After a source was rendered, its digest can be taken note of. -/
theorem Cached.record {before after : SiteState} {bytes : Bytes} {members : Pairs Json.Value}
    (cached : Cached scope layout before) (placed : Placed scope layout before)
    (isObject : before.site.cache.content = .object members) (source : SourceNames scope names)
    (moved : Moved scope layout (· = layout.pageAt names) before after)
    (upToDate : after.site.UpToDate after.session.disk names)
    (read : after.session.disk.read (after.site.sourcePath names).toText = .ok bytes)
    (content : after.site.cache.content =
      .object (Pairs.put (after.site.cacheKey names) (.string (Md5.hexDigest bytes)) members)) :
    Cached scope layout after := by
  have placedAfter : Placed scope layout after := placed.move (moved.output source)
  have file := source.fileNames
  refine ⟨_, content, fun others digest other found => ?_⟩
  by_cases isNew : others = names
  · subst isNew
    rw [Pairs.get?_put_self] at found
    cases found
    obtain ⟨shown, page, readShown, readPage, shows⟩ := upToDate
    cases readShown.symm.trans read
    obtain ⟨enteredSource, isSource⟩ := (placedAfter.fits.reaches_source file).read_eq_ok.mp read
    obtain ⟨enteredPage, isPage⟩ := (placedAfter.fits.reaches_page file).read_eq_ok.mp readPage
    refine ⟨placedAfter.fits.clear_page source enteredSource enteredPage isPage, ?_⟩
    intro node there
    cases isPage.symm.trans there
    exact ⟨bytes, page, placedAfter.knows.contents others source bytes isSource, rfl, rfl, shows⟩
  · have otherKey : after.site.cacheKey others ≠ after.site.cacheKey names := fun same =>
      isNew (cacheKey_injective placedAfter.fits other.proper file.proper same)
    rw [Pairs.get?_put_other otherKey, moved.cacheKey] at found
    exact (cached.recorded isObject other found).move other moved fun same =>
      isNew (layout.pageAt_injective other.fileNames file same)

namespace Site

/-- A source that is visited is up to date then. -/
theorem refresh_cached (placed : Placed scope layout state) (cached : Cached scope layout state)
    (source : SourceNames scope names) :
    Ends (refresh names) state
      (fun _ after => Moved scope layout (· = layout.pageAt names) state after ∧
        Cached scope layout after ∧ after.site.UpToDate after.session.disk names)
      fun after => Moved scope layout (· = layout.pageAt names) state after ∧
        Cached scope layout after := by
  refine (refresh_ends placed.fits source.fileNames source.apart fun _ =>
    placed.fits.makes_page source).mono ?_ ?_
  · rintro rendered after ⟨bytes, members, isObject, done⟩
    cases rendered with
    | false =>
      obtain ⟨rfl, read, found, there⟩ := done
      exact ⟨.refl, cached, upToDate_of_recorded placed cached source read isObject found there⟩
    | true =>
      obtain ⟨disk, page, generated, printed, rendered, isAfter⟩ := done
      obtain ⟨moved, upToDate⟩ := rendered.kept placed source isAfter
      subst isAfter
      exact ⟨moved, cached.record placed isObject source moved upToDate
        (rendered.read_after placed.fits source.fileNames source.apart) rfl, upToDate⟩
  · rintro _ ⟨disk, rfl, grows⟩
    have moved : Moved scope layout (fun _ => False) state { state with session.disk := disk } :=
      .of_disk grows
    exact ⟨moved.mono fun _ => False.elim, cached.move moved rfl fun _ _ => id⟩

/-- After going over sources, these are up to date, and so is what was so before. -/
theorem refreshAll_ends {visited : List (List String)} (placed : Placed scope layout state)
    (cached : Cached scope layout state) (sources : ∀ names ∈ visited, SourceNames scope names) :
    Ends (refreshAll visited) state
      (fun _ after => Moved scope layout (layout.Output scope) state after ∧
        Cached scope layout after ∧ ∀ names, SourceNames scope names →
          state.site.UpToDate state.session.disk names ∨ names ∈ visited →
          after.site.UpToDate after.session.disk names)
      fun after => Moved scope layout (layout.Output scope) state after ∧
        Cached scope layout after := by
  refine (refreshAll_ends_of
    (fun after => Moved scope layout (layout.Output scope) state after ∧ Cached scope layout after)
    (fun names after => SourceNames scope names ∧ after.site.UpToDate after.session.disk names)
    ?_ ⟨.refl, cached⟩).mono ?_ fun _ => id
  · rintro names visit middle ⟨moved, cachedMiddle⟩
    have source := sources names visit
    have placedMiddle := placed.move moved
    refine (refresh_cached placedMiddle cachedMiddle source).mono ?_ ?_
    · rintro _ after ⟨movedOn, cachedAfter, upToDate⟩
      refine ⟨⟨moved.trans (movedOn.output source), cachedAfter⟩, ⟨source, upToDate⟩, ?_⟩
      rintro others ⟨other, before⟩
      by_cases same : others = names
      · exact ⟨other, same ▸ upToDate⟩
      · exact ⟨other, before.move_other placedMiddle other source same movedOn⟩
    · rintro after ⟨movedOn, cachedAfter⟩
      exact ⟨moved.trans (movedOn.output source), cachedAfter⟩
  · rintro _ after ⟨⟨moved, cachedAfter⟩, settled⟩
    exact ⟨moved, cachedAfter, fun names source before =>
      (settled names (before.imp (⟨source, ·⟩) id)).2⟩

/-- Writing the cache writes nothing else. -/
theorem save_moved (placed : Placed scope layout state) :
    Ends (SiteTask.ofTask state.site.cache.save) state
      (fun _ after => after.site = state.site ∧
        Moved scope layout (· = layout.cacheAt) state after)
      fun after => after.site = state.site ∧
        Moved scope layout (· = layout.cacheAt) state after := by
  have makes (disk : Disk)
      (isMade : state.session.disk.makeDirectories state.site.cache.file.parent = .ok disk) :
      Grows (layout.Free scope) (fun _ => False) state.session.disk disk :=
    placed.fits.makes_cache isMade
  refine (save_ends placed.fits makes).mono ?_ ?_
  · rintro _ _ ⟨disk, rfl, grows, -⟩
    exact ⟨rfl, .of_disk grows⟩
  · rintro _ ⟨disk, rfl, grows⟩
    exact ⟨rfl, .of_disk (grows.mono (fun _ => id) fun _ => False.elim)⟩

/-- When all sources were visited, writing the cache leaves them up to date. -/
theorem allUpToDate_of_saved {middle after : SiteState} (placed : Placed scope layout state)
    (moved : Moved scope layout (layout.Output scope) state middle)
    (cached : Cached scope layout middle)
    (upToDate : ∀ names ∈ state.site.found state.session.disk,
      middle.site.UpToDate middle.session.disk names)
    (same : after.site = middle.site)
    (saved : Moved scope layout (· = layout.cacheAt) middle after) :
    Moved scope layout (layout.Output scope) state after ∧ Cached scope layout after ∧
      after.site.AllUpToDate after.session.disk := by
  have output (location : Location) (isCache : location = layout.cacheAt) :
      layout.Output scope location := .inr isCache
  have movedAfter := moved.trans (saved.mono output)
  refine ⟨movedAfter, ?_, fun names found => ?_⟩
  · exact cached.move saved (by rw [same]) fun _ source same => layout.pageAt_ne_cacheAt source.fileNames same
  · have visited := movedAfter.sourceNames placed found
    have source := placed.sourceNames visited
    have sourceStays : layout.sourceAt names ≠ layout.cacheAt := fun same =>
      source.unwritten (output _ same)
    exact (upToDate names visited).move (placed.move moved) source saved sourceStays
      (layout.pageAt_ne_cacheAt source.fileNames)

/-- A forced build is one that starts with an empty cache. -/
theorem build_forced (state : SiteState) :
    build true state =
      build false { state with site := { state.site with cache := state.site.cache.clear } } := rfl

/-- After a build that succeeds, all sources are up to date. -/
theorem build_ends (placed : Placed scope layout state) (cached : Cached scope layout state) :
    Ends (build false) state
      (fun _ after => Moved scope layout (layout.Output scope) state after ∧
        Cached scope layout after ∧ after.site.AllUpToDate after.session.disk)
      fun after => Moved scope layout (layout.Output scope) state after ∧
        Cached scope layout after := by
  refine .bind (.setSite (.bind (.site (.bind (.ofTask (.look ?_))))))
  have started : Moved scope layout (fun _ => False) state
      { state with site := { state.site with generated := [] } } := ⟨⟨_, _, rfl⟩, .refl⟩
  have placedStart := placed.move (started.mono fun _ => False.elim)
  have cachedStart := cached.move started rfl fun _ _ => id
  refine .bind ((refreshAll_ends placedStart cachedStart fun _ => placed.sourceNames).mono ?_ ?_)
  · rintro _ middle ⟨moved, cachedMiddle, upToDate⟩
    have movedMiddle := (started.mono fun _ => False.elim).trans moved
    have saves {after : SiteState} (same : after.site = middle.site) :=
      allUpToDate_of_saved placed movedMiddle cachedMiddle
        (fun names visited => upToDate names (placed.sourceNames visited) (.inr visited)) same
    refine .bind (.site (.bind ((save_moved (placed.move movedMiddle)).mono ?_ ?_)))
    · rintro _ after ⟨same, saved⟩
      exact .ofTask (.logAll (saves same ⟨saved.site, saved.disk⟩))
    · rintro after ⟨same, saved⟩
      obtain ⟨movedAfter, cachedAfter, -⟩ := saves same saved
      exact ⟨movedAfter, cachedAfter⟩
  · rintro after ⟨moved, cachedAfter⟩
    exact ⟨(started.mono fun _ => False.elim).trans moved, cachedAfter⟩

end Site

end TemplHighlight
