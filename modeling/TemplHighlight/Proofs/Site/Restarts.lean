import TemplHighlight.Proofs.Site.Runs

/-!
# Sites that are made again and again

Each run makes a site anew and builds it, with the configuration that it is given, and may fail.
Between runs files are edited, all but the pages and the cache. What a page shows is known from the
last run that has changed it: it is the source as it was at that run, under the configuration of
that run. If that run has succeeded, its entry was kept, so the page is left alone only as long as
the source has that digest. If it has failed, the entry that was kept is one from an earlier run that
has succeeded; the page is then left alone when the source is what it was at that run, although the
page shows another one.
-/

namespace TemplHighlight

open Disk

/-- A run, as it is seen from outside. -/
structure Run where
  config : Config
  before : Disk
  after : Disk
  succeeded : Bool

/-- What happens from one run to the next. -/
inductive Deed where
  /-- Files are edited. -/
  | edit (disk : Disk)
  /-- A site is made for a configuration and built. -/
  | run (config : Config)

namespace Layout

/-- An edit of files: pages and the cache stay what they are, and the files that may be sources can
have pages. -/
structure Edits (layout : Layout) (configs : Config → Prop) (before after : Disk) : Prop where
  current : after.current = before.current
  pages : ∀ names, Watched configs names →
    after.node? (layout.pageAt names) = before.node? (layout.pageAt names)
  cache : after.node? layout.cacheAt = before.node? layout.cacheAt
  known : layout.Known configs after

/-- The page of a source is as one of some runs has left it, which came after others: no later one
has changed it. -/
def LeftBy (layout : Layout) (names : List String) (runs earlier : List Run) (run : Run) : Prop :=
  ∃ later, runs = earlier ++ run :: later ∧
    ∀ other ∈ later, other.after.node? (layout.pageAt names) =
      other.before.node? (layout.pageAt names)

/-- A run has succeeded, and a source had a digest at it. -/
def Recorded (layout : Layout) (names : List String) (digest : Text) (run : Run) : Prop :=
  run.succeeded = true ∧ ∃ source, run.after.node? (layout.sourceAt names) = some (.file source) ∧
    Md5.hexDigest source = digest

/-- A page is as one of some runs has left it, and shows what the source was at that run. A digest
was recorded by that run, or if it has failed by one before it. -/
def Shown (layout : Layout) (names : List String) (runs : List Run) (page : Bytes) (digest : Text) :
    Prop :=
  ∃ earlier run old, layout.LeftBy names runs earlier run ∧
    run.after.node? (layout.sourceAt names) = some (.file old) ∧
    run.config.rendering? (names.getLast?.getD "") old = some page ∧
    (layout.Recorded names digest run ∨
      run.succeeded = false ∧ ∃ other ∈ earlier, layout.Recorded names digest other)

/-- All that the file of the cache keeps is an entry of a source whose page is there and known from
the runs. -/
structure Recalls (layout : Layout) (configs : Config → Prop) (runs : List Run) (disk : Disk) :
    Prop where
  current : disk.current = layout.current
  known : layout.Known configs disk
  readable : layout.Readable disk
  entries : ∀ texts, layout.Keeps disk texts → ∀ names digest, Watched configs names →
    Pairs.get? (layout.key names) texts = some digest →
    ∃ page, disk.node? (layout.pageAt names) = some (.file page) ∧
      layout.Shown names runs page digest

end Layout

namespace Deed

variable (build : Config → SessionTask Site)

/-- The files and all else after something was done. -/
def after : Deed → Session → Session
  | edit disk, session => { session with disk }
  | run config, session => finalState (build config) session

/-- The run that was done, if it was one. -/
def run? : Deed → Session → Option Run
  | edit _, _ => none
  | run config, session => some {
      config
      before := session.disk
      after := (finalState (build config) session).disk
      succeeded := match build config session with
        | .ok _ _ => true
        | .error _ _ => false }

/-- The files and all else after things were done one after the other. -/
def afterAll (deeds : List Deed) (session : Session) : Session :=
  deeds.foldl (fun session deed => deed.after build session) session

/-- The runs among things that are done one after the other. -/
def runs : List Deed → Session → List Run
  | [], _ => []
  | deed :: deeds, session =>
    (deed.run? build session).toList ++ runs deeds (deed.after build session)

/-- A thing may be done: an edit leaves pages and the cache alone, and a run has one of some
configurations. -/
def Allowed (layout : Layout) (configs : Config → Prop) : Deed → Disk → Prop
  | edit edited, disk => layout.Edits configs disk edited
  | run config, _ => configs config

/-- Things may be done one after the other. -/
def AllAllowed (layout : Layout) (configs : Config → Prop) : List Deed → Session → Prop
  | [], _ => True
  | deed :: deeds, session =>
    deed.Allowed layout configs session.disk ∧
      AllAllowed layout configs deeds (deed.after build session)

end Deed

variable {layout : Layout} {configs : Config → Prop} {config : Config} {runs : List Run} {run : Run}
  {disk before after : Disk} {names : List String} {page : Bytes} {digest : Text}
  {texts texts' : Pairs Text} {session : Session} {build : Config → SessionTask Site}

/-- A source may be written. -/
theorem Layout.Edits.put {bytes : Bytes} (quiet : Quiet configs) (watched : Watched configs names)
    (known : layout.Known configs (disk.put (layout.sourceAt names) (.file bytes))) :
    layout.Edits configs disk (disk.put (layout.sourceAt names) (.file bytes)) where
  current := rfl
  pages _ other := node?_put_other (watched.ne_page quiet other.toFileNames).symm
  cache := node?_put_other watched.ne_cache.symm
  known

/-! ## What is known of pages -/

namespace Layout.LeftBy

variable {earlier : List Run}

/-- The run that left a page is one of the runs. -/
theorem mem (left : layout.LeftBy names runs earlier run) : run ∈ runs := by
  obtain ⟨later, rfl, -⟩ := left
  exact List.mem_append_right _ List.mem_cons_self

/-- So is every run before it. -/
theorem mem_earlier {other : Run} (left : layout.LeftBy names runs earlier run)
    (inEarlier : other ∈ earlier) : other ∈ runs := by
  obtain ⟨later, rfl, -⟩ := left
  exact List.mem_append_left _ inEarlier

end Layout.LeftBy

namespace Layout.Shown

/-- What a page shows is known until it is changed. -/
theorem later (shown : layout.Shown names runs page digest)
    (unchanged : run.after.node? (layout.pageAt names) = run.before.node? (layout.pageAt names)) :
    layout.Shown names (runs ++ [run]) page digest := by
  obtain ⟨earlier, first, old, ⟨later, rfl, left⟩, rest⟩ := shown
  refine ⟨earlier, first, old, ⟨later ++ [run], by simp, ?_⟩, rest⟩
  exact List.forall_mem_append.mpr ⟨left, List.forall_mem_singleton.mpr unchanged⟩

/-- It is known from the run that makes it. -/
theorem now {old : Bytes} (isSource : run.after.node? (layout.sourceAt names) = some (.file old))
    (shows : run.config.rendering? (names.getLast?.getD "") old = some page)
    (recorded : layout.Recorded names digest run ∨
      run.succeeded = false ∧ ∃ other ∈ runs, layout.Recorded names digest other) :
    layout.Shown names (runs ++ [run]) page digest :=
  ⟨runs, run, old, ⟨[], rfl, nofun⟩, isSource, shows, recorded⟩

/-- The digest was recorded by one of the runs. -/
theorem recorded (shown : layout.Shown names runs page digest) :
    ∃ run ∈ runs, layout.Recorded names digest run := by
  obtain ⟨earlier, run, old, ⟨later, rfl, -⟩, -, -, byRun | ⟨-, other, inEarlier, byOther⟩⟩ := shown
  · exact ⟨run, List.mem_append_right _ List.mem_cons_self, byRun⟩
  · exact ⟨other, List.mem_append_left _ inEarlier, byOther⟩

end Layout.Shown

/-- A run leaves the sources as they were. -/
theorem Layout.Ran.source (ran : layout.Ran configs config before after texts texts')
    (quiet : Quiet configs) (watched : Watched configs names) {source : Bytes}
    (isSource : before.node? (layout.sourceAt names) = some (.file source)) :
    after.node? (layout.sourceAt names) = some (.file source) := by
  refine ran.grows.keeps (layout.proper_sourceAt watched.proper) ?_ isSource
  exact not_or.mpr ⟨watched.not_pages quiet, watched.ne_cache⟩

namespace Layout.Recalls

/-- After an edit the same is known. -/
theorem edit (recalls : layout.Recalls configs runs before)
    (edits : layout.Edits configs before after) : layout.Recalls configs runs after where
  current := edits.current.trans recalls.current
  known := edits.known
  readable bytes isCache := recalls.readable bytes (edits.cache ▸ isCache)
  entries texts := fun ⟨bytes, isCache, content⟩ names digest watched entry => by
    rw [edits.pages names watched]
    exact recalls.entries texts ⟨bytes, edits.cache ▸ isCache, content⟩ names digest watched entry

/-- What was known of a page and its entry is known after a run that has left the page alone. -/
theorem left {succeeded : Bool} (recalls : layout.Recalls configs runs before)
    (watched : Watched configs names) (keeps : layout.Keeps before texts)
    (entry : Pairs.get? (layout.key names) texts = some digest)
    (stays : ∀ page, before.node? (layout.pageAt names) = some (.file page) →
      after.node? (layout.pageAt names) = some (.file page)) :
    ∃ page, after.node? (layout.pageAt names) = some (.file page) ∧
      layout.Shown names (runs ++ [⟨config, before, after, succeeded⟩]) page digest := by
  obtain ⟨page, isPage, shown⟩ := recalls.entries texts keeps names digest watched entry
  exact ⟨page, stays page isPage, shown.later ((stays page isPage).trans isPage.symm)⟩

/-- After a run that has failed, what is kept is what was kept before; but some of the pages may
show what the sources were at that run. -/
theorem fail (recalls : layout.Recalls configs runs before) (quiet : Quiet configs)
    (failed : layout.Failed configs config before after texts texts') :
    layout.Recalls configs (runs ++ [⟨config, before, after, false⟩]) after where
  current := failed.ran.grows.current.trans recalls.current
  known := recalls.known.grow failed.ran.grows fun _ _ allowed isSource =>
    not_or.mpr ⟨quiet.not_pages allowed isSource, layout.source_ne_cache isSource⟩
  readable bytes isCache := recalls.readable bytes (failed.cache bytes isCache)
  entries kept := fun ⟨bytes, isCache, content⟩ names digest watched entry => by
    have keeps : layout.Keeps before kept := ⟨bytes, failed.cache bytes isCache, content⟩
    cases failed.ran.visited names watched with
    | kept stays _ => exact recalls.left watched keeps entry stays
    | rendered source page isSource shows isPage _ =>
      obtain ⟨_, _, shown⟩ := recalls.entries kept keeps names digest watched entry
      exact ⟨page, isPage, .now (failed.ran.source quiet watched isSource) shows
        (.inr ⟨rfl, shown.recorded⟩)⟩

/-- After a run that has succeeded, what is kept are the entries that it has come to. -/
theorem succeed {site : Site} (recalls : layout.Recalls configs runs before)
    (quiet : Quiet configs) (starts : layout.StartsWith before texts)
    (succeeded : layout.Succeeded configs config before site after texts texts') :
    layout.Recalls configs (runs ++ [⟨config, before, after, true⟩]) after where
  current := succeeded.ran.grows.current.trans recalls.current
  known := succeeded.houses.known
  readable bytes isCache := by
    obtain ⟨_, isCache', content⟩ := succeeded.keeps
    cases isCache'.symm.trans isCache
    exact ⟨texts', content, succeeded.distinct⟩
  entries kept keeps names digest watched entry := by
    obtain rfl := keeps.unique succeeded.keeps
    cases succeeded.ran.visited names watched with
    | kept stays same =>
      rw [same] at entry
      have keepsBefore : layout.Keeps before texts := by
        refine starts.resolve_left ?_
        rintro rfl
        cases entry
      exact recalls.left watched keepsBefore entry stays
    | rendered source page isSource shows isPage isEntry =>
      have isSourceAfter := succeeded.ran.source quiet watched isSource
      rw [isEntry] at entry
      exact ⟨page, isPage, .now isSourceAfter shows
        (.inl ⟨rfl, source, isSourceAfter, Option.some.inj entry⟩)⟩

/-- Whatever is done, it is known what the pages show whose entries are kept. -/
theorem of_deed (deed : Deed) (recalls : layout.Recalls configs runs session.disk)
    (quiet : Quiet configs) (builds : layout.Builds configs build)
    (allowed : deed.Allowed layout configs session.disk) :
    layout.Recalls configs (runs ++ (deed.run? build session).toList)
      (deed.after build session).disk := by
  cases deed with
  | edit edited =>
    rw [Deed.run?, Option.toList, List.append_nil]
    exact recalls.edit allowed
  | run config =>
    have ends := builds config session allowed recalls.current recalls.known recalls.readable
    unfold Ends at ends
    rw [Deed.run?, Deed.after, finalState]
    cases result : build config session with
    | ok site after =>
      rw [result] at ends
      obtain ⟨texts, texts', starts, succeeded⟩ := ends
      exact recalls.succeed quiet starts succeeded
    | error failure after =>
      rw [result] at ends
      obtain ⟨texts, texts', -, failed⟩ := ends
      exact recalls.fail quiet failed

/-- However much is done. -/
theorem of_deeds {deeds : List Deed} (recalls : layout.Recalls configs runs session.disk)
    (quiet : Quiet configs) (builds : layout.Builds configs build)
    (allowed : Deed.AllAllowed build layout configs deeds session) :
    layout.Recalls configs (runs ++ Deed.runs build deeds session)
      (Deed.afterAll build deeds session).disk := by
  induction deeds generalizing runs session with
  | nil =>
    rw [Deed.runs, List.append_nil]
    exact recalls
  | cons deed deeds inductionHypothesis =>
    obtain ⟨first, later⟩ := allowed
    rw [Deed.runs, ← List.append_assoc]
    exact inductionHypothesis (recalls.of_deed deed quiet builds first) later

/-- At the beginning there is no cache, and nothing is known. -/
theorem start (current : disk.current = layout.current) (known : layout.Known configs disk)
    (noCache : disk.node? layout.cacheAt = none) : layout.Recalls configs [] disk where
  current
  known
  readable bytes isCache := by
    rw [noCache] at isCache
    cases isCache
  entries texts := fun ⟨bytes, isCache, _⟩ => by
    rw [noCache] at isCache
    cases isCache

end Layout.Recalls

/-! ## What a run that succeeds leaves -/

/-- The runs up to the last thing that was done. -/
theorem Deed.runs_concat (build : Config → SessionTask Site) (deeds : List Deed) (last : Deed)
    (session : Session) :
    Deed.runs build (deeds ++ [last]) session =
      Deed.runs build deeds session ++ (last.run? build (afterAll build deeds session)).toList := by
  induction deeds generalizing session with
  | nil => exact List.append_nil _
  | cons deed deeds inductionHypothesis =>
    rw [List.cons_append, Deed.runs, inductionHypothesis, Deed.runs, List.append_assoc]
    rfl

/-- After other things, there may always be a run. -/
theorem Deed.allAllowed_concat {deeds : List Deed}
    (allowed : AllAllowed build layout configs deeds session) (allowedLast : configs config) :
    AllAllowed build layout configs (deeds ++ [.run config]) session := by
  induction deeds generalizing session with
  | nil => exact ⟨allowedLast, trivial⟩
  | cons deed deeds inductionHypothesis =>
    obtain ⟨first, later⟩ := allowed
    exact ⟨first, inductionHypothesis later⟩

/-- A run that is done last and succeeds is one of the runs. -/
theorem Deed.run_last {deeds : List Deed} {site : Site} {finish : Session}
    (succeeds : build config (afterAll build deeds session) = .ok site finish) :
    ⟨config, (afterAll build deeds session).disk, finish.disk, true⟩ ∈
      Deed.runs build (deeds ++ [.run config]) session := by
  rw [Deed.runs_concat, Deed.run?, finalState, succeeds]
  exact List.mem_append_right _ (List.mem_singleton_self _)

/-- The configurations of runs are those that are allowed. -/
theorem Deed.config_of_runs {deeds : List Deed}
    (allowed : Deed.AllAllowed build layout configs deeds session)
    (isRun : run ∈ Deed.runs build deeds session) : configs run.config := by
  induction deeds generalizing session with
  | nil => cases isRun
  | cons deed deeds inductionHypothesis =>
    obtain ⟨first, later⟩ := allowed
    rcases List.mem_append.mp isRun with isFirst | isLater
    · cases deed with
      | edit edited => cases isFirst
      | run config =>
        obtain rfl := Option.mem_some_iff.mp (Option.mem_toList.mp isFirst)
        exact first
    · exact inductionHypothesis later isLater

/-- After a run that succeeds, every source that is found and its page can be read. The page is as
one of the runs has left it, this one or one before, and shows what the source was then. If that run
has succeeded, the source still has the digest that it had then; if not, it has one that it had at a
run before that one. -/
theorem shown_after_run {site : Site} {finish : Session} {deeds : List Deed}
    (quiet : Quiet configs) (builds : layout.Builds configs build)
    (start : layout.Recalls configs [] session.disk)
    (allowed : Deed.AllAllowed build layout configs deeds session) (allowedLast : configs config)
    (succeeds : build config (Deed.afterAll build deeds session) = .ok site finish) :
    site.config = config ∧ layout.Houses configs site finish.disk ∧
      ∀ names ∈ site.found finish.disk, Watched configs names ∧ ∃ source page,
        finish.disk.read (site.sourcePath names).toText = .ok source ∧
        finish.disk.read (site.pagePath names).toText = .ok page ∧
        layout.Shown names (Deed.runs build (deeds ++ [.run config]) session) page
          (Md5.hexDigest source) := by
  have recallsBefore := start.of_deeds quiet builds allowed
  have recalls := recallsBefore.of_deed (.run config) quiet builds allowedLast
  obtain ⟨texts, texts', -, succeeded⟩ := (builds config _ allowedLast recallsBefore.current
    recallsBefore.known recallsBefore.readable).of_ok succeeds
  have ended : (Deed.run config).after build (Deed.afterAll build deeds session) = finish := by
    rw [Deed.after, finalState, succeeds]
  rw [List.nil_append, ← Deed.runs_concat, ended] at recalls
  refine ⟨succeeded.ofConfig, succeeded.houses, fun names found => ?_⟩
  obtain ⟨watched, source, known, content, read, entry, there⟩ := succeeded.settled names found
  obtain rfl := Json.table_injective (content.symm.trans succeeded.content)
  obtain ⟨page, isPage, shown⟩ := recalls.entries _ succeeded.keeps names _ watched entry
  have reachesPage : finish.disk.Reaches (site.pagePath names) _ :=
    succeeded.houses.reaches_page watched.toFileNames
  exact ⟨watched, source, page, read,
    reachesPage.read_eq_ok.mpr ⟨(reachesPage.has_iff.mp there).1, isPage⟩, shown⟩

end TemplHighlight
