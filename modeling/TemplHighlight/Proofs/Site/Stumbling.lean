import TemplHighlight.Proofs.Files.Causes
import TemplHighlight.Proofs.Registry.Recomposing
import TemplHighlight.Proofs.Site.Outcomes
import TemplHighlight.Proofs.Site.Reloading
import TemplHighlight.Proofs.Site.Rendering

/-!
# What a build stumbles over

Most of what a build can fail with is to be expected, and there are words for it: a file cannot be
read or written, or a grammar is missing. A build of a sound site fails without words in two cases
only: it comes to a source that is no text, or the cache is no table. Whether it fails or not, the
site is as sound as it was.
-/

namespace TemplHighlight

open Disk

variable {state after : SiteState} {names : List String} {failure : Failure} {origin : Site}
  {config : Config}

/-- There are words for a failed file operation, unless its path cannot be used. -/
theorem Failure.words?_file {error : FileError} (cause : error.cause ≠ .unusable) :
    (file error).words? = some error.message := if_neg cause

namespace Site

/-- A site that has come of `origin` and is ready for a build: its files are where those of `origin`
are, all of them can be named, and its registry serves its configuration. Its cache is a table if
that of `origin` is. -/
structure Sound (origin : Site) (state : SiteState) : Prop where
  addressable : state.session.disk.Addressable
  source : state.site.source = origin.source ∧ Usable origin.source
  output : state.site.output = origin.output ∧ Usable origin.output
  file : state.site.cache.file = origin.cache.file ∧ Usable origin.cache.file
  serves : state.site.registry.Serves state.site.config
  table : origin.cache.IsTable → state.site.cache.IsTable

/-- A site that has taken over a configuration and is about to render everything. -/
def anew (state : SiteState) (config : Config) (registry : Registry) (log : Log) : SiteState :=
  let taken := takeOver state config registry log
  { taken with site.cache := taken.site.cache.clear }

/-- Once a configuration was taken over, a forced build is a build that starts with an empty
cache. -/
theorem build_takeOver (state : SiteState) (config : Config) (registry : Registry) (log : Log) :
    build true (takeOver state config registry log) =
      build false (anew state config registry log) := rfl

namespace Sound

/-- A sound site stays so as long as its files can be named and its cache is a table if it has to
be one. -/
theorem move (sound : Sound origin state) {content : Json.Value} {generated : List Path}
    (isSite : after.site = { state.site with cache.content := content, generated })
    (addressable : after.session.disk.Addressable)
    (table : origin.cache.IsTable → ∃ members, content = .object members) : Sound origin after := by
  obtain ⟨site, session⟩ := after
  cases isSite
  exact ⟨addressable, sound.source, sound.output, sound.file, sound.serves, table⟩

/-- Nothing else matters in its session. -/
theorem of_session (sound : Sound origin state) {session : Session}
    (addressable : session.disk.Addressable) : Sound origin { state with session } :=
  ⟨addressable, sound.source, sound.output, sound.file, sound.serves, sound.table⟩

/-- It has come of itself. -/
theorem self (sound : Sound origin state) : Sound state.site state where
  addressable := sound.addressable
  source := ⟨rfl, sound.source.1 ▸ sound.source.2⟩
  output := ⟨rfl, sound.output.1 ▸ sound.output.2⟩
  file := ⟨rfl, sound.file.1 ▸ sound.file.2⟩
  serves := sound.serves
  table := id

/-- The file of its cache can be used. -/
theorem usable_file (sound : Sound origin state) : Usable state.site.cache.file :=
  sound.self.file.2

/-- The names of sources that are found can be used. -/
theorem usable_found (sound : Sound origin state)
    (found : names ∈ state.site.found state.session.disk) : ∀ name ∈ names, UsableName name := by
  obtain ⟨⟨bytes, listed⟩, -⟩ := mem_found.mp found
  exact fun name member =>
    sound.addressable.nodes _ _ listed name (List.mem_append_right _ member)

section

variable (sound : Sound origin state) (usable : ∀ name ∈ names, UsableName name)

include sound usable

/-- The paths of such sources and of their pages can be used. -/
theorem usable_sourcePath : Usable (state.site.sourcePath names) :=
  usable_iff.mpr (List.forall_mem_append.mpr ⟨usable_iff.mp sound.self.source.2, usable⟩)

/-- The name of a page has `.html` behind that of its source, and so no NUL either. -/
theorem usable_pagePath : Usable (state.site.pagePath names) := by
  have last : UsableName (names.getLast?.getD "" ++ ".html") := by
    have free : UsableName (names.getLast?.getD "") := by
      cases same : names.getLast? with
      | none => decide
      | some name => exact usable name (List.mem_of_getLast? same)
    unfold UsableName at free ⊢
    rw [String.toList_append, List.mem_append, not_or]
    exact ⟨free, by decide⟩
  refine usable_iff.mpr (List.forall_mem_append.mpr ⟨usable_iff.mp sound.self.output.2, ?_⟩)
  exact List.forall_mem_append.mpr ⟨fun name member => usable name (List.dropLast_subset _ member),
    List.forall_mem_singleton.mpr last⟩

/-- A site is sound after a visit to a source, wherever it ends. -/
theorem refresh : Ends (refresh names) state (fun _ => Sound origin) (Sound origin) := by
  have usablePage := sound.usable_pagePath usable
  have visited := visit names state
  unfold Ends
  generalize Site.refresh names state = result at visited
  cases visited with
  | unwritten _ made =>
    exact sound.of_session (sound.addressable.makeDirectoriesWith usablePage.parent made)
  | unnoted _ made wrote =>
    exact sound.of_session
      ((sound.addressable.makeDirectoriesWith usablePage.parent made).write usablePage wrote)
  | rendered _ made wrote =>
    exact sound.move rfl
      ((sound.addressable.makeDirectoriesWith usablePage.parent made).write usablePage wrote)
      fun _ => ⟨_, rfl⟩
  | _ => exact sound

end

/-- So it is after several visits. -/
theorem refreshAll {visited : List (List String)} (sound : Sound origin state)
    (usable : ∀ names ∈ visited, ∀ name ∈ names, UsableName name) :
    Ends (refreshAll visited) state (fun _ => Sound origin) (Sound origin) :=
  (refreshAll_ends_of (Sound origin) (fun _ _ => True)
    (fun names visit _ sound => (sound.refresh (usable names visit)).mono
      (fun _ _ sound => ⟨sound, trivial, fun _ => id⟩) fun _ => id)
    sound).mono (fun _ _ => And.left) fun _ => id

/-- So it is after the cache is written. -/
theorem save (sound : Sound origin state) :
    Ends (SiteTask.ofTask state.site.cache.save) state (fun _ => Sound origin) (Sound origin) := by
  refine .ofTask (.bind (.makeDirectories (fun disk made => ?_) sound))
  have addressable := sound.addressable.makeDirectoriesWith sound.usable_file.parent made
  exact .writeText (fun _ wrote => sound.of_session (addressable.write sound.usable_file wrote))
    (sound.of_session addressable)

/-- A sound site is sound after every build, wherever it ends. -/
theorem build (sound : Sound origin state) :
    Ends (build false) state (fun _ => Sound origin) (Sound origin) := by
  refine .bind (.setSite (.bind (.site (.bind (.ofTask (.look ?_))))))
  have started : Sound origin { state with site := { state.site with generated := [] } } :=
    sound.move rfl sound.addressable sound.table
  refine .bind ((started.refreshAll fun _ => sound.usable_found).mono ?_ fun _ => id)
  intro _ middle soundMiddle
  refine .bind (.site (.bind (soundMiddle.save.mono ?_ fun _ => id)))
  exact fun _ _ soundAfter => .ofTask (.logAll (soundAfter.of_session soundAfter.addressable))

/-- A site that takes over a configuration is sound, and has an empty cache. -/
theorem anew (sound : Sound origin state) {registry : Registry} {log : Log}
    (installed : state.site.registry.installTempl config = .ok (registry, log)) :
    Sound origin (anew state config registry log) :=
  ⟨sound.addressable, sound.source, sound.output, sound.file,
    sound.serves.composable.of_installTempl installed, fun _ => ⟨[], rfl⟩⟩

/-- So it is sound after that and the build that follows, wherever this ends. -/
theorem reload (sound : Sound origin state) :
    Ends (reload config) state (fun _ => Sound origin) (Sound origin) := by
  refine .reload sound fun registry log installed => ?_
  rw [Ends, build_takeOver]
  exact (sound.anew installed).build

end Sound

/-! ## Failures without words -/

/-- A source that a build stumbles over. -/
inductive Trips (names : List String) (state : SiteState) : Failure → Prop where
  /-- It has to be rendered, but is no text. -/
  | undecodable {bytes : Bytes} {members : Pairs Json.Value}
      (stale : Stale names state bytes members) (noText : Utf8.decode? bytes = none) :
      Trips names state .undecodable
  /-- Nothing can be looked up for it. -/
  | untabled {bytes : Bytes}
      (read : state.session.disk.read (state.site.sourcePath names).toText = .ok bytes)
      (noTable : ¬ state.site.cache.IsTable) : Trips names state .cacheLookup

/-- There are no words for what a build stumbles over. -/
theorem Trips.wordless (trips : Trips names state failure) : failure.words? = none := by
  cases trips <;> rfl

/-- A build fails where it stumbles. -/
theorem Trips.refresh (trips : Trips names state failure) :
    refresh names state = .error failure state := by
  unfold Site.refresh
  rw [bind_of_ok state.site state (by rfl)]
  cases trips with
  | untabled read noTable =>
    exact bind_of_error (isFresh_untabled read fun members same => noTable ⟨members, same⟩)
  | undecodable stale noText =>
    have renders := render_run (state.site.pagePath names) stale.read
    simp only [noText] at renders
    rw [bind_of_ok _ _ (isFresh_tabled stale.read stale.isObject), stale.stale]
    exact bind_of_error renders

/-- A visit fails without words only where the build stumbles. -/
theorem Sound.trips (sound : Sound origin state) (usable : ∀ name ∈ names, UsableName name)
    (failed : Site.refresh names state = .error failure after) (wordless : failure.words? = none) :
    Trips names state failure ∧ after = state := by
  have usableSource := sound.usable_sourcePath usable
  have usablePage := sound.usable_pagePath usable
  have worded {error : FileError} (cause : error.cause ≠ .unusable)
      (wordless : (Failure.file error).words? = none) : False := by
    cases (Failure.words?_file cause).symm.trans wordless
  have visited := visit names state
  rw [failed] at visited
  cases visited with
  | unread read => exact (worded (read_cause usableSource read) wordless).elim
  | untabled read noTable =>
    exact ⟨.untabled read fun ⟨members, same⟩ => noTable members same, rfl⟩
  | undecodable stale noText => exact ⟨.undecodable stale noText, rfl⟩
  | unshown _ _ unshown =>
    obtain ⟨page, shown⟩ := page_total sound.serves.shows.highlight_total
      (state.site.sourcePath names).name _
    cases unshown.symm.trans shown
  | unmade _ made =>
    exact (worded (makeDirectoriesWith_cause usablePage.parent made) wordless).elim
  | unwritten _ _ wrote => exact (worded (write_cause usablePage wrote) wordless).elim
  | unnoted _ _ _ reread => exact (worded (read_cause usableSource reread) wordless).elim

/-- Going over sources fails at one of them, when those before it are done. -/
theorem refreshAll_eq_error {visited : List (List String)} :
    refreshAll visited state = .error failure after ↔
      ∃ front names back count middle, visited = front ++ names :: back ∧
        refreshAll front state = .ok count middle ∧
        refresh names middle = .error failure after := by
  induction visited generalizing state with
  | nil =>
    constructor
    · exact nofun
    · rintro ⟨front, names, back, count, middle, split, -⟩
      cases front <;> cases split
  | cons first visited inductionHypothesis =>
    rw [refreshAll, bind_eq_failure]
    constructor
    · rintro (failed | ⟨rendered, middle, done, failed⟩)
      · exact ⟨[], first, visited, 0, state, rfl, rfl, failed⟩
      · rcases bind_eq_failure.mp failed with failed | ⟨_, _, -, ⟨⟩⟩
        obtain ⟨front, names, back, count, last, rfl, doneAll, failed⟩ :=
          inductionHypothesis.mp failed
        refine ⟨first :: front, names, back, if rendered then count else count + 1, last, rfl, ?_,
          failed⟩
        rw [refreshAll, bind_of_ok _ _ done, bind_of_ok _ _ doneAll]
        rfl
    · rintro ⟨front, names, back, count, middle, split, done, failed⟩
      cases front with
      | nil =>
        cases split
        cases done
        exact .inl failed
      | cons visit front =>
        cases split
        rw [refreshAll] at done
        cases visits : refresh first state with
        | error other last => cases (bind_of_error visits).symm.trans done
        | ok rendered last =>
          rw [bind_of_ok _ _ visits] at done
          cases doneAll : refreshAll front last with
          | error other middle => cases (bind_of_error doneAll).symm.trans done
          | ok count others =>
            rw [bind_of_ok _ _ doneAll] at done
            cases done
            exact .inr ⟨rendered, last, rfl, bind_eq_failure.mpr (.inl
              (inductionHypothesis.mpr ⟨front, names, back, count, _, rfl, doneAll, failed⟩))⟩

/-- A build stumbles: it has done the sources before one that it stumbles over. -/
def Stumbles (state : SiteState) (failure : Failure) (after : SiteState) : Prop :=
  ∃ front names back count, state.site.found state.session.disk = front ++ names :: back ∧
    refreshAll front { state with site.generated := [] } = .ok count after ∧
    Trips names after failure

/-- With a table for a cache, a build stumbles over sources that are no text, and over nothing
else. -/
theorem Stumbles.undecodable (sound : Sound origin state) (isTable : state.site.cache.IsTable)
    (stumbles : Stumbles state failure after) : failure = .undecodable := by
  obtain ⟨front, names, back, count, found, done, trips⟩ := stumbles
  have started : Sound state.site { state with site.generated := [] } :=
    sound.self.move rfl sound.addressable id
  have usable : ∀ names ∈ front, ∀ name ∈ names, UsableName name := fun names member =>
    sound.usable_found (found ▸ List.mem_append_left _ member)
  cases trips with
  | undecodable => rfl
  | untabled _ noTable =>
    exact absurd (((started.refreshAll usable).of_ok done).table isTable) noTable

/-- Writing the cache fails with words. -/
theorem Sound.save_fails (sound : Sound origin state)
    (failed : SiteTask.ofTask state.site.cache.save state = .error failure after) :
    ∃ words, failure.words? = some words := by
  have saves : ∃ session, state.site.cache.save state.session = .error failure session := by
    unfold SiteTask.ofTask at failed
    split at failed
    · cases failed
    · cases failed
      exact ⟨_, ‹_›⟩
  obtain ⟨session, failed⟩ := saves
  rw [Cache.save, bind_eq_failure, Session.makeDirectories, Session.change_run] at failed
  rcases failed with failed | ⟨_, middle, -, failed⟩
  · split at failed
    · cases failed
    · cases failed
      exact ⟨_, Failure.words?_file (makeDirectoriesWith_cause sound.usable_file.parent ‹_›)⟩
  · rw [Session.writeText, Session.change_run] at failed
    split at failed
    · cases failed
    · cases failed
      exact ⟨_, Failure.words?_file (write_cause sound.usable_file ‹_›)⟩

/-- A build of a sound site fails without words if and only if it stumbles. -/
theorem Sound.stumbles_iff (sound : Sound origin state) :
    Site.build false state = .error failure after ∧ failure.words? = none ↔
      Stumbles state failure after := by
  let start : SiteState := { state with site.generated := [] }
  have started : Sound origin start := sound.move rfl sound.addressable sound.table
  rw [build_of_sourceNames rfl, bind_of_ok () start (by rfl), bind_eq_failure]
  constructor
  · rintro ⟨failed | ⟨count, middle, done, failed⟩, wordless⟩
    · obtain ⟨front, names, back, count, middle, found, done, failed⟩ :=
        refreshAll_eq_error.mp failed
      have usable : ∀ visit ∈ front ++ names :: back, ∀ name ∈ visit, UsableName name :=
        fun visit member => sound.usable_found (found ▸ member)
      obtain ⟨usableFront, usableRest⟩ := List.forall_mem_append.mp usable
      obtain ⟨usableNames, -⟩ := List.forall_mem_cons.mp usableRest
      have soundMiddle := (started.refreshAll usableFront).of_ok done
      obtain ⟨trips, rfl⟩ := soundMiddle.trips usableNames failed wordless
      exact ⟨front, names, back, count, found, done, trips⟩
    · have soundMiddle := (started.refreshAll fun _ => sound.usable_found).of_ok done
      rw [bind_of_ok middle.site middle (by rfl), bind_eq_failure] at failed
      rcases failed with failed | ⟨_, _, -, ⟨⟩⟩
      obtain ⟨words, worded⟩ := soundMiddle.save_fails failed
      cases worded.symm.trans wordless
  · rintro ⟨front, names, back, count, found, done, trips⟩
    exact ⟨.inl (refreshAll_eq_error.mpr ⟨front, names, back, count, after, found, done,
      trips.refresh⟩), trips.wordless⟩

/-- So does a site that takes over a configuration. Its cache is empty then, so what it stumbles over
is a source that is no text. -/
theorem Sound.reload_stumbles (sound : Sound origin state) (natural : 0 ≤ config.maxBraceDepth) :
    Site.reload config state = .error failure after ∧ failure.words? = none ↔
      ∃ registry log, state.site.registry.installTempl config = .ok (registry, log) ∧
        failure = .undecodable ∧ Stumbles (Site.anew state config registry log) failure after := by
  rw [reload_run]
  cases installed : state.site.registry.installTempl config with
  | error error =>
    obtain ⟨name, detail, rfl⟩ :=
      sound.serves.composable.missing_of_installTempl natural installed
    constructor
    · rintro ⟨⟨⟩, ⟨⟩⟩
    · rintro ⟨_, _, ⟨⟩, -⟩
  | ok installation =>
    obtain ⟨registry, log⟩ := installation
    have soundAnew := sound.anew installed
    dsimp only
    rw [build_takeOver, soundAnew.stumbles_iff]
    constructor
    · exact fun stumbles =>
        ⟨registry, log, rfl, stumbles.undecodable soundAnew ⟨[], rfl⟩, stumbles⟩
    · rintro ⟨_, _, ⟨⟩, -, stumbles⟩
      exact stumbles

end Site

end TemplHighlight
