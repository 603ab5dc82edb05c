import TemplHighlight.Proofs.Site.Tasks

/-!
# What building leaves alone

A build changes the files, the cache and the list of the pages that were written. Everything else of
a site stays as it is, whether the build succeeds or fails, so what holds of a site whatever is in
its cache holds of it after every build.
-/

namespace TemplHighlight

variable {α β : Type} {holds : Site → Prop}

/-- A task that keeps what holds of a site, whether it succeeds or fails. -/
def Keeps (holds : Site → Prop) (task : SiteTask α) : Prop :=
  ∀ state, holds state.site →
    Ends task state (fun _ after => holds after.site) fun after => holds after.site

namespace Keeps

/-- Giving back a value keeps everything. -/
theorem pure (value : α) : Keeps holds (Pure.pure value) := fun _ has => Ends.pure has

/-- Two tasks that keep something keep it one after the other. -/
theorem bind {task : SiteTask β} {next : β → SiteTask α} (first : Keeps holds task)
    (more : ∀ value, Keeps holds (next value)) : Keeps holds (task >>= next) := fun state has =>
  .bind ((first state has).mono (fun value middle => more value middle) fun _ => id)

/-- Work in a session does not touch the site. -/
theorem ofTask (task : SessionTask α) : Keeps holds (SiteTask.ofTask task) := by
  intro state has
  unfold Ends SiteTask.ofTask
  cases task state.session with
  | ok value session => exact has
  | error failure session => exact has

/-- Asking for the site keeps everything. -/
theorem site : Keeps holds SiteTask.site := fun _ has => Ends.site has

/-- A change of the site keeps what it leaves true of every site. -/
theorem setSite {change : Site → Site} (stays : ∀ site, holds site → holds (change site)) :
    Keeps holds (SiteTask.setSite change) := fun state has => Ends.setSite (stays state.site has)

end Keeps

namespace Site

/-- Asking whether a page is fresh keeps everything. -/
theorem isFresh_keeps (source target : Path) : Keeps holds (isFresh source target) :=
  .bind .site fun _ => .bind (.ofTask _) fun _ => .bind (.ofTask _) fun _ => .pure _

/-- So does rendering a source into its page. -/
theorem render_keeps (source target : Path) : Keeps holds (render source (some target)) :=
  .bind (.ofTask _) fun _ => .bind .site fun _ => .bind (.ofTask _) fun _ => .bind (.pure _) fun _ =>
    .bind (.ofTask _) fun _ => .bind (.ofTask _) fun _ => .pure _

section

variable (stays : ∀ site cache generated, holds site → holds { site with cache, generated })

include stays

/-- Looking after one page keeps what holds of a site whatever is in its cache. -/
theorem refresh_keeps (names : List String) : Keeps holds (refresh names) := by
  refine .bind .site fun _ => .bind (isFresh_keeps _ _) fun fresh => ?_
  cases fresh with
  | true => exact .pure _
  | false =>
    refine .bind (render_keeps _ _) fun _ => .bind .site fun _ => .bind (.ofTask _) fun cache => ?_
    refine .bind (.setSite fun site has => ?_) fun _ => .bind (.ofTask _) fun _ => .pure _
    exact stays site cache _ has

/-- So does looking after one page after the other. -/
theorem refreshAll_keeps (visited : List (List String)) : Keeps holds (refreshAll visited) := by
  induction visited with
  | nil => exact .pure _
  | cons names visited inductionHypothesis =>
    exact .bind (refresh_keeps stays names) fun _ => .bind inductionHypothesis fun _ => .pure _

/-- A build keeps what holds of a site whatever is in its cache. -/
theorem build_keeps (force : Bool) : Keeps holds (build force) := by
  have builds : Keeps holds (build false) :=
    .bind (.setSite fun site has => stays site site.cache [] has) fun _ => .bind .site fun _ =>
      .bind (.ofTask _) fun _ => .bind (refreshAll_keeps stays _) fun _ => .bind .site fun _ =>
        .bind (.ofTask _) fun _ => .ofTask _
  cases force with
  | false => exact builds
  | true => exact .bind (.setSite fun site has => stays site _ site.generated has) fun _ => builds

end

end Site

end TemplHighlight
