import TemplHighlight.Proofs.Config.Refusals
import TemplHighlight.Proofs.Registry.Shipped
import TemplHighlight.Proofs.Site.AnyCache
import TemplHighlight.Proofs.Site.Stumbling
import TemplHighlight.Proofs.Watch.Configurations

/-!
# Watching on after failed builds

A build that answers changes ends in one of three ways: it is done and says so, it fails and says so
in red, or it fails without words. The last happens only if it stumbles: the configuration file is
illegible, a source is no text, or the cache is no table. Whatever happens while a site is watched,
and wherever builds fail, the site stays sound, so the next build starts from a site like this one.
-/

namespace TemplHighlight

open Disk Site

namespace Watching

variable {watching after : Watching} {environment : Pairs Text} {configChanged : Bool}
  {failure : Failure} {origin : Site}

/-- What a build that answers changes stumbles over. -/
inductive Stumbles (watching : Watching) (environment : Pairs Text) : Bool → Failure → Prop where
  /-- The configuration file is illegible. -/
  | illegible {failure : Failure}
      (has : Config.HasIllegible watching.state.session.disk
        (some watching.state.site.source.toText) failure) :
      Stumbles watching environment true failure
  /-- A source is no text, when everything is rendered with a configuration that was taken over. -/
  | reloading {config : Config} {registry : Registry} {log : Log} {after : SiteState}
      (loaded : Config.load watching.state.session.disk (some watching.state.site.source.toText)
        environment = .ok config)
      (installed : watching.state.site.registry.installTempl config = .ok (registry, log))
      (stumbles : Site.Stumbles (anew watching.announced.state config registry log) .undecodable
        after) :
      Stumbles watching environment true .undecodable
  /-- A source is no text, or the cache is no table. -/
  | building {failure : Failure} {after : SiteState}
      (stumbles : Site.Stumbles watching.state failure after) :
      Stumbles watching environment false failure

section

variable (sound : Sound origin watching.state)

include sound

/-- A build that reads the configuration anew fails without words if and only if it stumbles. -/
theorem rebuild_stumbles_changed :
    (∃ after, rebuild environment true watching = .error failure after) ∧ failure.words? = none ↔
      Stumbles watching environment true failure := by
  have soundAnnounced : Sound origin watching.announced.state := sound.of_session sound.addressable
  rw [rebuild_run_changed]
  cases loaded : Config.load watching.state.session.disk
      (some watching.state.site.source.toText) environment with
  | error other =>
    constructor
    · rintro ⟨⟨_, ⟨⟩⟩, wordless⟩
      rcases Config.hasIllegible_of_load loaded with has | ⟨error, rfl⟩
      · exact .illegible has
      · cases wordless
    · rintro (has | ⟨loaded', -, -⟩)
      · cases loaded.symm.trans (Config.load_of_hasIllegible has environment)
        obtain ⟨_, _, _, _, illegible⟩ := has
        exact ⟨⟨_, rfl⟩, by cases illegible <;> rfl⟩
      · cases loaded.symm.trans loaded'
  | ok config =>
    have reloads := fun failure after =>
      @Sound.reload_stumbles _ after failure _ _ soundAnnounced (Config.natural_of_load loaded)
    constructor
    · rintro ⟨⟨after, failed⟩, wordless⟩
      dsimp only at failed
      split at failed
      · cases failed
      next other state fails =>
        cases failed
        obtain ⟨registry, log, installed, rfl, stumbles⟩ := (reloads _ _).mp ⟨fails, wordless⟩
        exact .reloading loaded installed stumbles
    · rintro (has | @⟨_, registry, log, after, loaded', installed, stumbles⟩)
      · cases loaded.symm.trans (Config.load_of_hasIllegible has environment)
      · cases loaded.symm.trans loaded'
        obtain ⟨fails, wordless⟩ := (reloads _ _).mpr ⟨registry, log, installed, rfl, stumbles⟩
        refine ⟨⟨⟨{ watching.handler with config }, after⟩, ?_⟩, wordless⟩
        dsimp only
        rw [fails]

/-- A build that answers changes fails without words if and only if it stumbles. -/
theorem rebuild_stumbles :
    (∃ after, rebuild environment configChanged watching = .error failure after) ∧
        failure.words? = none ↔
      Stumbles watching environment configChanged failure := by
  cases configChanged with
  | true => exact rebuild_stumbles_changed sound
  | false =>
    rw [rebuild_run]
    constructor
    · rintro ⟨⟨after, failed⟩, wordless⟩
      split at failed
      · cases failed
      next other state fails =>
        cases failed
        exact .building (sound.stumbles_iff.mp ⟨fails, wordless⟩)
    · intro stumbles
      cases stumbles with
      | @building _ after stumbles =>
        obtain ⟨fails, wordless⟩ := sound.stumbles_iff.mpr stumbles
        refine ⟨⟨{ watching with state := after }, ?_⟩, wordless⟩
        rw [fails]

/-- A build is passed on as failed if and only if it stumbles. -/
theorem runBuild_stumbles :
    (∃ after, runBuild environment configChanged watching = .error failure after) ↔
      Stumbles watching environment configChanged failure := by
  rw [← rebuild_stumbles sound, runBuild_run]
  constructor
  · rintro ⟨after, failed⟩
    split at failed
    · cases failed
    next other middle fails =>
      split at failed
      · cases failed
      next wordless =>
        cases failed
        exact ⟨⟨after, fails⟩, wordless⟩
  · rintro ⟨⟨after, fails⟩, wordless⟩
    refine ⟨after, ?_⟩
    simp only [fails, wordless]

/-- The site is sound after every build, wherever it ends. -/
theorem rebuild_sound :
    Ends (rebuild environment configChanged) watching (fun _ after => Sound origin after.state)
      fun after => Sound origin after.state := by
  have soundAnnounced : Sound origin watching.announced.state := sound.of_session sound.addressable
  refine .rebuild (fun _ => ?_) (fun _ _ _ => soundAnnounced) fun _ config _ => ?_
  · exact sound.build.mono (fun _ _ soundAfter => soundAfter.of_session soundAfter.addressable)
      fun _ => id
  · exact soundAnnounced.reload.mono
      (fun _ _ soundAfter => soundAfter.of_session soundAfter.addressable) fun _ => id

/-- It is so after the failure of a build was reported. -/
theorem runBuild_sound :
    Ends (runBuild environment configChanged) watching (fun _ after => Sound origin after.state)
      fun after => Sound origin after.state := by
  refine .runBuild ((rebuild_sound sound).mono (fun _ _ => id) ?_)
  intro after soundAfter
  refine ⟨soundAfter, fun failure words => ?_⟩
  cases failure <;> exact soundAfter.of_session soundAfter.addressable

/-- Taking note of a change leaves the site sound. -/
theorem notice_sound (path : Text) (isDirectory : Bool) :
    Ends (notice path isDirectory) watching (fun _ after => Sound origin after.state)
      fun after => Sound origin after.state := by
  have soundSession {session : Session} (same : session.disk = watching.state.session.disk) :
      Sound origin { watching.state with session } :=
    sound.of_session (same ▸ sound.addressable)
  refine .bind (show Ends get watching _ _ from ?_)
  refine .bind (.ofSiteTask (.ofTask ((watching.handler.notice_ends path isDirectory).mono ?_
    fun _ => soundSession)))
  exact fun handler session same => .setHandler (soundSession same.2)

end

end Watching

/-! ## Whatever happens -/

namespace Happening

variable {origin : Site} {watching : Watching}

/-- Whatever happens leaves the site sound, as long as all files can be named. -/
theorem sound_after (happening : Happening) (sound : Sound origin watching.state)
    (edits : ∀ disk, happening = .edit disk → disk.Addressable) :
    Sound origin (happening.after watching).state := by
  cases happening with
  | edit disk => exact sound.of_session (edits disk rfl)
  | notice path isDirectory => exact (Watching.notice_sound sound path isDirectory).final
  | build environment configChanged => exact (Watching.runBuild_sound sound).final

/-- So do happenings, one after the other. -/
theorem sound_run (happenings : List Happening) (sound : Sound origin watching.state)
    (edits : ∀ disk, .edit disk ∈ happenings → disk.Addressable) :
    Sound origin (run happenings watching).state := by
  induction happenings generalizing watching with
  | nil => exact sound
  | cons happening happenings inductionHypothesis =>
    have first := happening.sound_after sound fun disk same => edits disk (same ▸ List.mem_cons_self)
    exact inductionHypothesis first fun disk later => edits disk (List.mem_cons_of_mem _ later)

end Happening

namespace Watching

variable {watching : Watching} {environment : Pairs Text} {configChanged : Bool} {origin : Site}

/-- How a build that answers changes ends. -/
inductive Answered (watching : Watching) (environment : Pairs Text) (configChanged : Bool) :
    EStateM.Result Failure Watching Unit → Prop where
  /-- It is done and says so. -/
  | done {built : Watching}
      (builds : rebuild environment configChanged watching = .ok () built.finished) :
      Answered watching environment configChanged (.ok () built.finished)
  /-- It has failed and says so. -/
  | reported {failure : Failure} {words : Text} {after : Watching}
      (fails : rebuild environment configChanged watching = .error failure after)
      (worded : failure.words? = some words) :
      Answered watching environment configChanged (.ok () (after.reported failure words))
  /-- It has stumbled. -/
  | stumbled {failure : Failure} {after : Watching}
      (stumbles : Stumbles watching environment configChanged failure) :
      Answered watching environment configChanged (.error failure after)

/-- Every build that answers changes ends in one of these ways. -/
theorem answered (sound : Sound origin watching.state) :
    Answered watching environment configChanged (runBuild environment configChanged watching) := by
  cases ends : runBuild environment configChanged watching with
  | error failure after => exact .stumbled ((runBuild_stumbles sound).mp ⟨after, ends⟩)
  | ok value after =>
    rw [runBuild_run] at ends
    split at ends
    next builds =>
      cases ends
      obtain ⟨built, rfl⟩ := finished_of_rebuild builds
      exact .done builds
    next fails =>
      split at ends
      next worded =>
        cases ends
        exact .reported fails worded
      next => cases ends

end Watching

/-! ## From the start -/

namespace Site

variable {config : Config} {source : Text} {output : Option Text} {given : Option Registry}
  {registry : Registry} {disk : Disk}

/-- The registry of a new site serves its configuration: it is given one that does, or it makes
one. -/
def Served (config : Config) (registry : Registry) : Option Registry → Prop
  | some given => registry = given ∧ registry.Serves config
  | none => ∃ log, Registry.create config = .ok (registry, log)

/-- Wherever it comes from, the registry serves the configuration. -/
theorem Served.serves (served : Served config registry given) : registry.Serves config := by
  cases given with
  | some other => exact served.2
  | none =>
    obtain ⟨log, created⟩ := served
    exact Registry.composable_base.of_installTempl created

/-- So it shows every text. -/
theorem Served.supplied (served : Served config registry given) :
    Supplied config registry given := by
  cases given with
  | some other => exact ⟨served.1, served.serves.shows.highlight_total⟩
  | none => exact served

/-- A new site is sound. -/
theorem sound_opened (addressable : disk.Addressable) (usable : '\x00' ∉ source)
    (usableOutput : ∀ text, output = some text → '\x00' ∉ text)
    (serves : registry.Serves config) (printed : Text) (logged : Log) :
    Sound (opened config source output registry disk)
      ⟨opened config source output registry disk, disk, printed, logged⟩ := by
  have ofSource : ∀ name ∈ (Path.resolve disk.current (Path.ofText source)).names,
      UsableName name := by
    intro name member
    obtain ⟨isName, -⟩ := Path.mem_collapse member
    split at isName
    · rcases List.mem_append.mp isName with inCurrent | inPath
      · exact addressable.current name inCurrent
      · exact Path.usable_ofText usable name inPath
    · exact Path.usable_ofText usable name isName
  have ofChild {path : Path} {child : String} (free : ∀ name ∈ path.names, UsableName name)
      (usableChild : UsableName child) : ∀ name ∈ (path.child child).names, UsableName name :=
    List.forall_mem_append.mpr ⟨free, List.forall_mem_singleton.mpr usableChild⟩
  constructor
  case addressable => exact addressable
  case source => exact ⟨rfl, usable_iff.mpr ofSource⟩
  case output =>
    refine ⟨rfl, usable_iff.mpr ?_⟩
    show ∀ name ∈ (outputPath (Path.resolve disk.current (Path.ofText source)) output).names,
      UsableName name
    unfold outputPath
    split
    · exact ofChild ofSource (by decide)
    · exact ofChild ofSource (by decide)
    next text filled => exact Path.usable_ofText (usableOutput text rfl)
  case file => exact ⟨rfl, usable_iff.mpr (ofChild (ofChild ofSource (by decide)) (by decide))⟩
  case serves => exact serves
  case table => exact id

end Site

namespace Watching

/-- A new site that is watched is sound after whatever has happened: files were changed, whichever and
however, changes were noticed, and builds have succeeded or failed. So it can be built with its
configuration and its registry, which belong together. The build that then answers changes is done,
or has failed with words; it says so and ends as builds should. It is passed on as failed if and only
if it stumbles over an illegible configuration file, over a source that is no text, or over a cache
that was no table when the watching began.

Proof: every operation on a file fails with words, as no path has a NUL in it. A configuration that
was read has a natural depth, so its grammar is only refused for want of another one; the one that
was composed last highlights every text. -/
theorem runBuild_survives {config : Config} {source : Text} {output : Option Text}
    {given : Option Registry} {registry : Registry} {session : Session}
    (addressable : session.disk.Addressable) (usable : '\x00' ∉ source)
    (usableOutput : ∀ text, output = some text → '\x00' ∉ text)
    (served : Served config registry given) :
    let site := opened config source output registry session.disk
    ∃ opening, create config source output given session = .ok site opening ∧
      ∃ handler state, start ⟨site, opening⟩ = .ok handler state ∧
        ∀ happenings : List Happening, (∀ disk, .edit disk ∈ happenings → disk.Addressable) →
          let watching := Happening.run happenings ⟨handler, state⟩
          Sound site watching.state ∧
            ∀ environment configChanged,
              watching.Answered environment configChanged
                (runBuild environment configChanged watching) ∧
              ∀ failure, (∃ after, runBuild environment configChanged watching =
                  .error failure after) ↔
                watching.Stumbles environment configChanged failure := by
  intro site
  obtain ⟨logged, created⟩ := create_total usable served.supplied session
  obtain ⟨handler, printed, begins⟩ : ∃ handler printed,
      start ⟨site, { session with logged }⟩ = .ok handler ⟨site, session.disk, printed, logged⟩ :=
    ⟨_, _, rfl⟩
  refine ⟨_, created, _, _, begins, fun happenings edits => ?_⟩
  have opens := sound_opened addressable usable usableOutput served.serves printed logged
  have sound := @Happening.sound_run _ ⟨handler, _⟩ happenings opens edits
  exact ⟨sound, fun environment configChanged =>
    ⟨answered sound, fun failure => runBuild_stumbles sound⟩⟩

/-- Files without any source. -/
def noFiles : Disk := ⟨[], []⟩

/-- Files with a source of one byte that begins no character. -/
def oneByte : Disk := ⟨[(["a.templ"], .file [0xFF])], []⟩

/-- No source is found where there are no files. -/
theorem found_noFiles (site : Site) : site.found noFiles = [] := by
  simp [Site.found, sourceNames, filesBelow, noFiles]

/-- The one source is found. -/
theorem found_oneByte (registry : Registry) :
    (opened {} ['/'] none registry noFiles).found oneByte = [["a.templ"]] := by
  have isSource : Config.isSource {} ["a.templ"] = true := by decide
  show (((oneByte.filesBelow []).map (·.1)).filter (Config.isSource {})).mergeSort visitsBefore = _
  simp [filesBelow, oneByte, isSource]

/-- A build stumbles over the source, and the next one is done after the source was taken away. -/
theorem runBuild_survives_byte :
    ∃ registry log, Registry.create {} = .ok (registry, log) ∧
      let site := opened {} ['/'] none registry noFiles
      ∃ opening, create {} ['/'] none none ⟨noFiles, [], []⟩ = .ok site opening ∧
        ∃ handler state, start ⟨site, opening⟩ = .ok handler state ∧
          (∃ after, runBuild [] false (Happening.run [.edit oneByte] ⟨handler, state⟩) =
            .error .undecodable after) ∧
          ∃ after, runBuild [] false
              (Happening.run [.edit oneByte, .build [] false, .edit noFiles] ⟨handler, state⟩) =
            .ok () after := by
  obtain ⟨registry, log, made, -⟩ := Registry.create_shipped {} 2
  have addressable : noFiles.Addressable := ⟨nofun, nofun⟩
  have addressable' : oneByte.Addressable := by
    refine ⟨nofun, fun location node listed => ?_⟩
    cases List.mem_singleton.mp listed
    decide
  obtain ⟨opening, created, handler, state, begins, survives⟩ :=
    @runBuild_survives {} ['/'] none none registry ⟨noFiles, [], []⟩ addressable (by decide) nofun
      ⟨log, made⟩
  refine ⟨registry, log, made, opening, created, handler, state, begins, ?_, ?_⟩
  · obtain ⟨-, answers⟩ := survives [.edit oneByte] (by
      rintro disk (_ | ⟨_, ⟨⟩⟩)
      exact addressable')
    refine ((answers [] false).2 .undecodable).mpr ?_
    cases begins
    refine .building ⟨[], ["a.templ"], [], 0, found_oneByte registry, rfl, ?_⟩
    exact @Trips.undecodable _ _ [0xFF] [] ⟨rfl, rfl, rfl⟩ (by decide)
  · obtain ⟨-, answers⟩ := survives [.edit oneByte, .build [] false, .edit noFiles] (by
      rintro disk (_ | ⟨_, _ | ⟨_, _ | ⟨_, ⟨⟩⟩⟩⟩)
      · exact addressable'
      · exact addressable)
    cases ends : runBuild [] false (Happening.run [.edit oneByte, .build [] false, .edit noFiles]
        ⟨handler, state⟩) with
    | ok value after => exact ⟨after, rfl⟩
    | error failure after =>
      cases ((answers [] false).2 failure).mp ⟨after, ends⟩ with
      | building stumbles =>
        obtain ⟨front, names, back, count, found, -⟩ := stumbles
        exact absurd ((found_noFiles _).symm.trans found) (by simp)

end Watching

end TemplHighlight
