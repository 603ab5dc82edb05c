import TemplHighlight.Proofs.Site.Building
import TemplHighlight.Proofs.Site.Reloading

/-!
# A site while its files change

While a site lives, sources are written, files are removed, and the site is built and given new
configurations, in any order. Each of these may fail, and then what it did until then stays done.
The cache can be relied on all the same, so whenever a build succeeds every source that there is has
a page that shows it.
-/

namespace TemplHighlight

open Disk

variable {scope : Scope} {layout : Layout} {state : SiteState}

/-- What happens to a site and its files. -/
inductive Event where
  /-- A source is written, with the names that lead to it from the directory of the sources. -/
  | write (names : List String) (bytes : Bytes)
  /-- A file, or a directory with everything below it, is removed. -/
  | remove (path : Text)
  | build (force : Bool)
  | reload (config : Config)

namespace Event

/-- What an event does. -/
def task : Event → SiteTask Unit
  | write names bytes => do
    let source := (← SiteTask.site).sourcePath names
    Session.makeDirectories source.parent
    Session.change (·.write source.toText bytes)
  | remove path => Session.change (·.remove path)
  | build force => Site.build force
  | reload config => Site.reload config

/-- Whether an event builds the site. -/
def builds : Event → Bool
  | build _ | reload _ => true
  | write .. | remove _ => false

/-- An event that keeps to a scope. -/
def Allowed (scope : Scope) : Event → Prop
  | write names bytes => SourceNames scope names ∧ scope.contents bytes
  | reload config => scope.configs config
  | remove _ | build _ => True

/-- The state after an event, whether it has succeeded or failed. -/
def after (event : Event) (state : SiteState) : SiteState :=
  match event.task state with
  | .ok _ finish | .error _ finish => finish

/-- The state after events, one after the other. -/
def run (events : List Event) (state : SiteState) : SiteState :=
  events.foldl (fun state event => event.after state) state

end Event

/-- A site whose cache can be relied on. -/
structure Reliable (scope : Scope) (layout : Layout) (state : SiteState) : Prop where
  placed : Placed scope layout state
  cached : Cached scope layout state

namespace Reliable

/-- Where the cache can be relied on, a build leaves one that can be, even if it fails. -/
theorem ended (placed : Placed scope layout state) (cached : Cached scope layout state) :
    Ends (Site.build false) state
      (fun _ after => Reliable scope layout after ∧ after.site.AllUpToDate after.session.disk)
      fun after => Reliable scope layout after := by
  refine (Site.build_ends placed cached).mono ?_ ?_
  · rintro _ after ⟨moved, cachedAfter, upToDate⟩
    exact ⟨⟨placed.move moved, cachedAfter⟩, upToDate⟩
  · rintro after ⟨moved, cachedAfter⟩
    exact ⟨placed.move moved, cachedAfter⟩

/-- A forced build leaves a cache that can be relied on, whatever was in it before, and even if it
fails. -/
theorem forced_ends (placed : Placed scope layout state) :
    Ends (Site.build true) state
      (fun _ after => Reliable scope layout after ∧ after.site.AllUpToDate after.session.disk)
      fun after => Reliable scope layout after := by
  have cleared : Moved scope layout (layout.Output scope) state
      { state with site := { state.site with cache := state.site.cache.clear } } :=
    ⟨⟨_, _, rfl⟩, .refl⟩
  rw [Ends, Site.build_forced]
  exact ended (placed.move cleared) (cached_blank rfl)

/-- So does any build that starts with a cache that can be relied on. -/
theorem build_ends (reliable : Reliable scope layout state) (force : Bool) :
    Ends (Site.build force) state
      (fun _ after => Reliable scope layout after ∧ after.site.AllUpToDate after.session.disk)
      fun after => Reliable scope layout after := by
  cases force with
  | false => exact ended reliable.placed reliable.cached
  | true => exact forced_ends reliable.placed

/-- So does taking over a configuration. Until the new grammar is there nothing changes, and then
the cache is emptied before anything can fail. -/
theorem reload_ends {config : Config} (reliable : Reliable scope layout state)
    (allowed : scope.configs config) :
    Ends (Site.reload config) state
      (fun _ after => Reliable scope layout after ∧ after.site.AllUpToDate after.session.disk)
      fun after => Reliable scope layout after := by
  -- The entries of the cache are about another configuration, but the build is forced.
  refine .reload reliable fun registry log _ => forced_ends ?_
  have fits := reliable.placed.fits
  exact ⟨⟨fits.source, fits.output, fits.cache, fits.current⟩, allowed, reliable.placed.knows⟩

/-- Files that are written elsewhere than pages leave the cache to be relied on, if the sources stay
known. -/
theorem of_grows {written : Location → Prop} {session : Session}
    (reliable : Reliable scope layout state)
    (grows : Grows (layout.Free scope) written state.session.disk session.disk)
    (unwritten : ∀ names, SourceNames scope names → ¬ written (layout.pageAt names))
    (knows : scope.Knows layout.source session.disk) :
    Reliable scope layout { state with session } := by
  have moved : Moved scope layout written state { state with session } := .of_disk grows
  exact ⟨⟨moved.fits reliable.placed.fits, reliable.placed.configured, knows⟩,
    reliable.cached.move moved rfl unwritten⟩

/-- Writing a source leaves the cache to be relied on. -/
theorem write_ends {names : List String} {bytes : Bytes} (reliable : Reliable scope layout state)
    (source : SourceNames scope names) (inScope : scope.contents bytes) :
    Ends (Event.write names bytes).task state (fun _ after => Reliable scope layout after)
      fun after => Reliable scope layout after := by
  have fits := reliable.placed.fits
  have knows := reliable.placed.knows
  refine .bind (.site (.bind (.ofTask (.makeDirectories (fun disk made => ?_) reliable))))
  have makes : Grows (layout.Free scope) _ _ _ := fits.makes_source source made
  refine .ofTask (.change (fun written wrote => ?_) ?_)
  · obtain ⟨-, found, writes⟩ :=
      ((fits.reaches_source source.fileNames).of_current makes.current).of_write wrote
    have grows := makes.then writes
    refine reliable.of_grows grows ?_ (knows.grow grows ?_)
    · intro others other same
      have unwritten : ¬ layout.Output scope (layout.sourceAt names) := source.unwritten
      exact unwritten (.inl ⟨others, other, same.symm⟩)
    · intro others config allowed isSource same
      obtain rfl : others = names := List.append_cancel_left same
      refine ⟨source, fun bytes' found' => ?_⟩
      cases found.symm.trans found'
      exact inScope
  · exact reliable.of_grows makes (fun _ _ => id) (knows.grow makes fun _ _ _ _ => False.elim)

/-- Removing files leaves the cache to be relied on. -/
theorem remove_ends {path : Text} (reliable : Reliable scope layout state) :
    Ends (Event.remove path).task state (fun _ after => Reliable scope layout after)
      fun after => Reliable scope layout after := by
  refine .ofTask (.change (fun disk removed => ?_) reliable)
  have shrinks := remove_shrinks removed
  obtain ⟨placed, members, isObject, recorded⟩ := reliable
  have still {location : Location} {node : Node} (there : disk.node? location = some node) :
      state.session.disk.node? location = some node := by
    rcases shrinks.nodes location with same | gone
    · exact same ▸ there
    · rw [gone] at there
      cases there
  have fits := placed.fits
  refine ⟨⟨⟨fits.source, fits.output, fits.cache, shrinks.current.trans fits.current⟩,
    placed.configured, ?_, ?_⟩, members, isObject, fun names digest source found => ?_⟩
  · exact fun names bytes listed => placed.knows.names names bytes (shrinks.files _ bytes listed)
  · exact fun names source bytes there => placed.knows.contents names source bytes (still there)
  · exact (recorded names digest source found).of_nodes (fun _ _ => id) fun _ => still

/-- Whatever happens to a site leaves a cache that can be relied on, whether it succeeds or fails;
and a build that succeeds leaves all sources up to date. -/
theorem event_ends {event : Event} (reliable : Reliable scope layout state)
    (allowed : event.Allowed scope) :
    Ends event.task state
      (fun _ after => Reliable scope layout after ∧
        (event.builds = true → after.site.AllUpToDate after.session.disk))
      fun after => Reliable scope layout after := by
  cases event with
  | write names bytes =>
    obtain ⟨source, inScope⟩ := allowed
    exact (reliable.write_ends source inScope).mono (fun _ _ kept => ⟨kept, nofun⟩) fun _ => id
  | remove path => exact reliable.remove_ends.mono (fun _ _ kept => ⟨kept, nofun⟩) fun _ => id
  | build force =>
    exact (reliable.build_ends force).mono (fun _ _ built => ⟨built.1, fun _ => built.2⟩)
      fun _ => id
  | reload config =>
    exact (reliable.reload_ends allowed).mono (fun _ _ built => ⟨built.1, fun _ => built.2⟩)
      fun _ => id

/-- The cache can be relied on after every event. -/
theorem after {event : Event} (reliable : Reliable scope layout state)
    (allowed : event.Allowed scope) : Reliable scope layout (event.after state) := by
  have ends : Ends event.task state (fun _ => Reliable scope layout) (Reliable scope layout) :=
    (reliable.event_ends allowed).mono (fun _ _ kept => kept.1) fun _ => id
  have same : event.after state = finalState event.task state := by
    unfold Event.after finalState
    cases event.task state <;> rfl
  rw [same]
  exact ends.final

/-- The cache can be relied on after any number of events. -/
theorem run {events : List Event} (reliable : Reliable scope layout state)
    (allowed : ∀ event ∈ events, event.Allowed scope) :
    Reliable scope layout (Event.run events state) := by
  induction events generalizing state with
  | nil => exact reliable
  | cons event events inductionHypothesis =>
    obtain ⟨first, later⟩ := List.forall_mem_cons.mp allowed
    exact inductionHypothesis (reliable.after first) later

end Reliable

end TemplHighlight
