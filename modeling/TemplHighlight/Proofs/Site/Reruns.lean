import TemplHighlight.Proofs.Site.Restarts

/-!
# What pages show when sites are made anew

Pages that were left by runs that have succeeded are up to date as long as the configuration is the
same. There are two ways for a page that a run leaves alone to be another one than it would make:
the page was changed by a run that has failed since its digest was taken, or by a run with another
configuration.
-/

namespace TemplHighlight

open Disk

variable {configs : Config → Prop} {config : Config} {session finish : Session} {site : Site}
  {deeds : List Deed}

/-! ## One configuration -/

/-- Different contents that a source has had at some runs have different digests. -/
def Layout.Distinct (layout : Layout) (configs : Config → Prop) (runs : List Run) : Prop :=
  ∀ run ∈ runs, ∀ other ∈ runs, ∀ names, Watched configs names → ∀ a b,
    run.after.node? (layout.sourceAt names) = some (.file a) →
    other.after.node? (layout.sourceAt names) = some (.file b) →
    Md5.hexDigest a = Md5.hexDigest b → a = b

/-- Sites are made and built again and again for one configuration, with edits of the files in
between. Whenever that succeeds, every source that is found has a page as one of the runs has left
it, and no run has changed it since. The page shows what the source was at that run. It is up to
date, unless that run has failed, and the source is again what it was at an earlier run that has
succeeded. -/
theorem Site.shown_across_restarts {source : Text} {output : Option Text} {finish : Session}
    {site : Site} {deeds : List Deed} (quiet : ".html" ∉ config.watchExtensions)
    (proper : Proper session.disk.current)
    (known : (Layout.of proper source output).Known (· = config) session.disk)
    (noCache : session.disk.node? (Layout.of proper source output).cacheAt = none)
    (allowed : Deed.AllAllowed (once source output) (Layout.of proper source output) (· = config)
      deeds session)
    (distinct : (Layout.of proper source output).Distinct (· = config)
      (Deed.runs (once source output) (deeds ++ [.run config]) session))
    (succeeds : once source output config (Deed.afterAll (once source output) deeds session) =
      .ok site finish) :
    ∀ names ∈ site.found finish.disk, ∃ earlier run old page,
      (Layout.of proper source output).LeftBy names
        (Deed.runs (once source output) (deeds ++ [.run config]) session) earlier run ∧
      run.after.node? ((Layout.of proper source output).sourceAt names) = some (.file old) ∧
      finish.disk.read (site.pagePath names).toText = .ok page ∧ site.Shows names old page ∧
      (site.UpToDate finish.disk names ∨
        run.succeeded = false ∧ ∃ other ∈ earlier, other.succeeded = true ∧
          other.after.node? ((Layout.of proper source output).sourceAt names) =
            finish.disk.node? ((Layout.of proper source output).sourceAt names)) := by
  have isQuiet : Quiet (· = config) := by
    rintro _ rfl
    exact quiet
  have builds := once_builds proper isQuiet source output
  obtain ⟨ofConfig, houses, shows⟩ :=
    shown_after_run isQuiet builds (.start rfl known noCache) allowed rfl succeeds
  intro names found
  obtain ⟨watched, now, page, read, readPage, shown⟩ := shows names found
  obtain ⟨earlier, run, old, left, isOld, rendered, recorded⟩ := shown
  have file := watched.toFileNames
  have shows' : site.Shows names old page := by
    have allAllowed : Deed.AllAllowed (once source output) (Layout.of proper source output)
        (· = config) (deeds ++ [.run config]) session := Deed.allAllowed_concat allowed rfl
    have sameConfig : run.config = config := Deed.config_of_runs allAllowed left.mem
    rw [houses.shows_iff file, ofConfig, ← sameConfig]
    exact rendered
  obtain ⟨-, isNow⟩ := (houses.reaches_source file).read_eq_ok.mp read
  -- What a run had recorded is what the source is now, as this run is one of the runs as well.
  have recordedNow {other : Run} (isRun : other ∈ Deed.runs (once source output)
      (deeds ++ [.run config]) session) (records : (Layout.of proper source output).Recorded names
        (Md5.hexDigest now) other) : other.succeeded = true ∧ other.after.node?
          ((Layout.of proper source output).sourceAt names) = some (.file now) := by
    obtain ⟨succeeded, content, isContent, same⟩ := records
    obtain rfl := distinct other isRun _ (Deed.run_last succeeds) names watched content now
      isContent isNow same
    exact ⟨succeeded, isContent⟩
  refine ⟨earlier, run, old, page, left, isOld, readPage, shows', ?_⟩
  rcases recorded with records | ⟨hasFailed, other, inEarlier, records⟩
  · obtain ⟨-, isNow'⟩ := recordedNow left.mem records
    cases isOld.symm.trans isNow'
    exact .inl ⟨_, page, read, readPage, shows'⟩
  · obtain ⟨succeeded, isNow'⟩ := recordedNow (left.mem_earlier inEarlier) records
    exact .inr ⟨hasFailed, other, inEarlier, succeeded, isNow'.trans isNow.symm⟩

namespace Site

/-- The source is no text at first. -/
def undecodable : Session := { disk := loneFiles [255] }

/-- A run fails, and then the source becomes a text. -/
def repaired : List Deed := [.run {}, .edit (loneFiles [120])]

section

variable {registry : Registry} {log : Log}

/-- The first run fails at the source. -/
theorem undecodable_fails (created : Registry.create {} = .ok (registry, log)) :
    once ['/', 's'] none {} undecodable =
      .error .undecodable { disk := loneFiles [255], logged := log } :=
  once_undecodable created

/-- All of this may be done. -/
theorem repaired_allowed (proper : Proper undecodable.disk.current)
    (created : Registry.create {} = .ok (registry, log)) :
    Deed.AllAllowed (once ['/', 's'] none) (Layout.of proper ['/', 's'] none) (· = {})
      repaired undecodable := by
  have quiet : Quiet (· = {}) := by
    rintro _ rfl
    decide
  have known : (Layout.of proper ['/', 's'] none).Known (· = {}) (loneFiles [120]) :=
    lone_known proper
  have edits : (Layout.of proper ['/', 's'] none).Edits (· = {}) (loneFiles [255])
      ((loneFiles [255]).put ((Layout.of proper ['/', 's'] none).sourceAt ["p.templ"])
        (.file [120])) := .put quiet (lone_watched rfl) known
  refine ⟨rfl, ?_, trivial⟩
  rw [Deed.Allowed, Deed.after, finalState, undecodable_fails created]
  exact edits

/-- The second run finds the source alone, which is a text now. -/
theorem repaired_after (created : Registry.create {} = .ok (registry, log)) :
    Deed.afterAll (once ['/', 's'] none) repaired undecodable =
      { disk := loneFiles [120], logged := log } := by
  show ({ finalState (once ['/', 's'] none {}) undecodable with disk := loneFiles [120] } :
    Session) = _
  rw [finalState, undecodable_fails created]

/-- The first run fails and changes no file, and the second one succeeds. -/
theorem repaired_runs (created : Registry.create {} = .ok (registry, log))
    (succeeds : once ['/', 's'] none {} (Deed.afterAll (once ['/', 's'] none) repaired
      undecodable) = .ok site finish) :
    Deed.runs (once ['/', 's'] none) (repaired ++ [.run {}]) undecodable =
      [⟨{}, loneFiles [255], loneFiles [255], false⟩,
        ⟨{}, loneFiles [120], finish.disk, true⟩] := by
  rw [Deed.runs_concat, Deed.run?, finalState, succeeds, repaired_after created]
  simp only [repaired, Deed.runs, Deed.run?, finalState, undecodable_fails created]
  rfl

end

/-- What the source is before and after a run that repairs it. -/
theorem repaired_contents {disk : Disk} {names : List String} {page : Text} {a : Bytes}
    (watched : Watched (· = {}) names)
    (isDisk : disk = loneFiles [255] ∨ disk = loneBuilt page loneEntries)
    (isSource : disk.node? (["s"] ++ names) = some (.file a)) : a ∈ [[255], [120]] := by
  obtain ⟨_, rfl, watched⟩ := watched.watched
  have listed := mem_of_node? isSource
  rcases isDisk with rfl | rfl
  · have only : names = ["p.templ"] ∧ a = [255] := by simpa [loneFiles] using listed
    rw [only.2]
    decide
  · have only : names = ["p.templ"] ∧ a = [120] ∨
        names = ["build", "p.templ.html"] ∧ a = Utf8.encode page ∨
        names = [".templight", "cache.json"] ∧
          a = Utf8.encode (Json.Value.table loneEntries).toText := by
      simpa [loneBuilt] using listed
    rcases only with ⟨-, rfl⟩ | ⟨rfl, -⟩ | ⟨rfl, -⟩
    · decide
    · exact absurd watched (by decide)
    · exact absurd watched (by decide)

/-- After a run that has failed, and an edit, a run that succeeds leaves the source up to date. -/
theorem shown_after_failed_run :
    ∃ site finish,
      once ['/', 's'] none {} (Deed.afterAll (once ['/', 's'] none) repaired undecodable) =
        .ok site finish ∧
      ["p.templ"] ∈ site.found finish.disk ∧ site.UpToDate finish.disk ["p.templ"] := by
  obtain ⟨registry, log, page, created, shows⟩ := lone_shows ['x']
  obtain ⟨printed, logged, built⟩ := build_lone shows
  have succeeds : once ['/', 's'] none {} (Deed.afterAll (once ['/', 's'] none) repaired
      undecodable) = .ok (loneRendered registry) ⟨loneBuilt page loneEntries, printed, logged⟩ := by
    rw [repaired_after created]
    exact once_of_ok (create_lone created) built
  have runs := repaired_runs created succeeds
  have proper : Proper undecodable.disk.current := List.forall_mem_nil _
  have digests : ∀ a ∈ [[255], [120]], ∀ b ∈ [[255], [120]],
      Md5.hexDigest a = Md5.hexDigest b → a = b := by decide +kernel
  have distinct : (Layout.of proper ['/', 's'] none).Distinct (· = {})
      (Deed.runs (once ['/', 's'] none) (repaired ++ [.run {}]) undecodable) := by
    rw [runs]
    have isDisk : ∀ run ∈ [⟨{}, loneFiles [255], loneFiles [255], false⟩,
        (⟨{}, loneFiles [120], loneBuilt page loneEntries, true⟩ : Run)],
          run.after = loneFiles [255] ∨ run.after = loneBuilt page loneEntries := by simp
    intro run isRun other isOther names watched a b isA isB
    exact digests a (repaired_contents watched (isDisk run isRun) isA) b
      (repaired_contents watched (isDisk other isOther) isB)
  have found : ["p.templ"] ∈ (loneRendered registry).found (loneBuilt page loneEntries) := by
    have visited : (lone {} registry loneEntries).found (loneBuilt page loneEntries) =
        [["p.templ"]] := lone_found (by decide) (by decide) (.inr rfl)
    exact visited ▸ List.mem_singleton_self _
  obtain ⟨earlier, run, _, _, ⟨later, all, -⟩, -, -, -, shown⟩ :=
    shown_across_restarts (by decide) proper (lone_known proper) rfl
      (repaired_allowed proper created) distinct succeeds ["p.templ"] found
  refine ⟨_, _, succeeds, found, shown.resolve_right ?_⟩
  rintro ⟨isFailed, other, inEarlier, -, -⟩
  rw [runs] at all
  -- A run that has failed is the first one, and there is none before it.
  cases earlier with
  | nil => cases inEarlier
  | cons first earlier =>
    rw [List.cons_append] at all
    obtain ⟨-, rest⟩ := List.cons.inj all
    have isLast : run ∈ earlier ++ run :: later := List.mem_append_right _ List.mem_cons_self
    rw [← rest] at isLast
    cases List.mem_singleton.mp isLast
    cases isFailed

end Site

/-! ## Many configurations -/

/-- The layout of the site of a directory that a command is given. -/
def Layout.ofDirectory {current : Location} (proper : Proper current) (directory : Text) : Layout :=
  Layout.of proper (Path.normalize current (Path.ofText directory)).toText none

/-- The pages of a directory are built again and again, with edits of the files in between and each
time with a configuration of its own. If all of that succeeds, every source that is found has a page
as one of the runs has left it, and no run has changed it since. The page is the one that the
configuration of that run makes of the source as it was then, and the source still has the digest
that it had. So it is up to date just if the last configuration makes the same page of it. -/
theorem Command.shown_after_builds {directory : Text} (quiet : Quiet configs)
    (proper : Proper session.disk.current)
    (known : (Layout.ofDirectory proper directory).Known configs session.disk)
    (noCache : session.disk.node? (Layout.ofDirectory proper directory).cacheAt = none)
    (allowed : Deed.AllAllowed (build · directory false) (Layout.ofDirectory proper directory)
      configs deeds session)
    (allowedLast : configs config)
    (succeeded : ∀ run ∈ Deed.runs (build · directory false) deeds session, run.succeeded = true)
    (succeeds : build config directory false
      (Deed.afterAll (build · directory false) deeds session) = .ok site finish) :
    ∀ names ∈ site.found finish.disk, ∃ earlier run old source page,
      (Layout.ofDirectory proper directory).LeftBy names
        (Deed.runs (build · directory false) (deeds ++ [.run config]) session) earlier run ∧
      run.after.node? ((Layout.ofDirectory proper directory).sourceAt names) = some (.file old) ∧
      finish.disk.read (site.sourcePath names).toText = .ok source ∧
      Md5.hexDigest old = Md5.hexDigest source ∧
      finish.disk.read (site.pagePath names).toText = .ok page ∧
      run.config.rendering? (names.getLast?.getD "") old = some page ∧
      (site.UpToDate finish.disk names ↔
        config.rendering? (names.getLast?.getD "") source = some page) := by
  obtain ⟨ofConfig, houses, shows⟩ := shown_after_run quiet (build_builds proper quiet directory)
    (.start rfl known noCache) allowed allowedLast succeeds
  intro names found
  obtain ⟨watched, source, page, read, readPage, shown⟩ := shows names found
  obtain ⟨earlier, run, old, left, isOld, rendered, recorded⟩ := shown
  have upToDate : site.UpToDate finish.disk names ↔
      config.rendering? (names.getLast?.getD "") source = some page := by
    rw [← ofConfig, ← houses.shows_iff watched.toFileNames]
    constructor
    · rintro ⟨source', page', read', readPage', shows'⟩
      cases read.symm.trans read'
      cases readPage.symm.trans readPage'
      exact shows'
    · exact fun shows' => ⟨source, page, read, readPage, shows'⟩
  -- As no run has failed, the digest was recorded by the run that has left the page.
  have hasSucceeded : run.succeeded = true := by
    have isRun := left.mem
    rw [Deed.runs_concat] at isRun
    rcases List.mem_append.mp isRun with inRuns | isLast
    · exact succeeded run inRuns
    · rw [Deed.run?, succeeds] at isLast
      obtain rfl := List.mem_singleton.mp isLast
      rfl
  rcases recorded with ⟨-, content, isContent, same⟩ | ⟨hasFailed, -⟩
  · cases isOld.symm.trans isContent
    exact ⟨earlier, run, old, source, page, left, isOld, read, same, readPage, rendered, upToDate⟩
  · rw [hasSucceeded] at hasFailed
    cases hasFailed

namespace Command

/-- A configuration with a keyword that a source holds. -/
def withKeyword : Config := { extraKeywords := ["x"] }

/-- When a directory is built a second time, with another configuration, a page is left as the first
one has made it. -/
theorem shown_after_new_config :
    ∃ site finish page,
      build withKeyword ['/', 's'] false (Deed.afterAll (build · ['/', 's'] false) [.run {}]
        { disk := loneFiles [120] }) = .ok site finish ∧
      ["p.templ"] ∈ site.found finish.disk ∧
      finish.disk.read (site.pagePath ["p.templ"]).toText = .ok page ∧
      (site.UpToDate finish.disk ["p.templ"] ↔
        withKeyword.rendering? "p.templ" [120] = some page) := by
  obtain ⟨registry, log, page, created, shows⟩ := lone_shows ['x']
  obtain ⟨registry', log', created', -⟩ := Registry.create_shipped withKeyword 2
  obtain ⟨printed, logged, built⟩ : ∃ printed logged,
      build {} ['/', 's'] false { disk := loneFiles [120] } =
        .ok (loneRendered registry) ⟨loneBuilt page loneEntries, printed, logged⟩ :=
    build_loneFiles created shows
  have start : Deed.afterAll (build · ['/', 's'] false) [.run {}] { disk := loneFiles [120] } =
      ⟨loneBuilt page loneEntries, printed, logged⟩ := by
    show finalState (build {} ['/', 's'] false) { disk := loneFiles [120] } = _
    rw [finalState, built]
  obtain ⟨printed', logged', builtAgain⟩ := build_loneBuilt (by decide) (by decide) created'
  have succeeds : build withKeyword ['/', 's'] false (Deed.afterAll (build · ['/', 's'] false)
      [.run {}] { disk := loneFiles [120] }) = .ok (lone withKeyword registry' loneEntries)
        ⟨loneBuilt page loneEntries, printed', logged'⟩ := by
    rw [start]
    exact builtAgain
  have succeeded : ∀ run ∈ Deed.runs (build · ['/', 's'] false) [.run {}]
      { disk := loneFiles [120] }, run.succeeded = true := by
    simp [Deed.runs, Deed.run?, built]
  have found : ["p.templ"] ∈
      (lone withKeyword registry' loneEntries).found (loneBuilt page loneEntries) := by
    rw [lone_found (by decide) (by decide) (.inr rfl)]
    exact List.mem_singleton_self _
  have quiet : Quiet fun config => config = {} ∨ config = withKeyword := by
    rintro _ (rfl | rfl) <;> decide
  have proper : Proper (Session.disk { disk := loneFiles [120] }).current :=
    List.forall_mem_nil _
  have known : (Layout.ofDirectory proper ['/', 's']).Known
      (fun config => config = {} ∨ config = withKeyword) (loneFiles [120]) := lone_known proper
  have allowed : Deed.AllAllowed (build · ['/', 's'] false) (Layout.ofDirectory proper ['/', 's'])
      (fun config => config = {} ∨ config = withKeyword) [.run {}] { disk := loneFiles [120] } :=
    ⟨.inl rfl, trivial⟩
  obtain ⟨_, _, _, source, page', -, -, read, -, readPage, -, upToDate⟩ :=
    shown_after_builds quiet proper known rfl allowed (.inr rfl) succeeded succeeds ["p.templ"]
      found
  have isSource : (loneBuilt page loneEntries).read
      ((lone withKeyword registry' loneEntries).sourcePath ["p.templ"]).toText = .ok [120] := rfl
  cases isSource.symm.trans read
  exact ⟨_, _, page', succeeds, found, readPage, upToDate⟩

end Command

end TemplHighlight
