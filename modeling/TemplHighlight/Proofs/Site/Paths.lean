import TemplHighlight.Proofs.Files.Reaches
import TemplHighlight.Proofs.Site.Layout

/-!
# What the paths of a site lead to

A site that was set up by a layout names its sources, its pages and its cache by paths; each path
reaches the location that the layout has for it. Directories are made on the way to files of all
three kinds, and none of them takes the place of a page.
-/

namespace TemplHighlight

open Disk

/-- A site that was set up by a layout, and a disk that it is worked on with. -/
structure Layout.Fits (layout : Layout) (site : Site) (disk : Disk) : Prop where
  source : site.source = Path.absolute layout.source
  output : site.output = layout.output
  cache : site.cache.file = (site.source.child ".templight").child "cache.json"
  current : disk.current = layout.current

/-- A location that directories may be made at, as it is not the one of a page that can be
written. -/
def Layout.Free (layout : Layout) (scope : Scope) (location : Location) : Prop :=
  ∀ names, SourceNames scope names → layout.Clear (layout.pageAt names) →
    location ≠ layout.pageAt names

namespace Layout

variable {layout : Layout} {scope : Scope} {site : Site} {disk after : Disk} {path : Path}
  {location : Location} {names base directories : List String} {bytes : Bytes}

/-- What a path to the directory of the sources leads through is not clear. -/
theorem Clear.not_source (clear : layout.Clear location) {front : List String} {name : String}
    (isFront : front ++ [name] <+: layout.source) : location ≠ lead [] front ++ [name] := by
  rintro rfl
  have proper : Proper front := fun name member =>
    layout.properSource name (isFront.subset (List.mem_append_left _ member))
  rw [lead_proper proper] at clear
  exact clear.source isFront

/-- Directories are made where no page is, if those at the end of the path are not named like
pages. -/
theorem makes_free (layout : Layout) (split : path.names = base ++ directories)
    (named : ∀ name ∈ base, PieceName name) (proper : ∀ name ∈ directories, ProperName name)
    (unlike : ∀ name ∈ directories, ¬ ".html".toList <:+ name.toList)
    (apart : ∀ location, layout.Clear location → ∀ front name, front ++ [name] <+: base →
      location ≠ lead (disk.start path) front ++ [name])
    (made : disk.makeDirectories path = .ok after) :
    Grows (layout.Free scope) (fun _ => False) disk after := by
  have allNamed : ∀ name ∈ path.names, PieceName name := by
    rw [split]
    exact List.forall_mem_append.mpr
      ⟨named, fun name member => (proper name member).toPieceName⟩
  refine (makeDirectories_grows allNamed made).mono ?_ fun _ => id
  rintro _ passed names source clear rfl
  exact pageAt_not_passed source split unlike (apart _ clear) passed

end Layout

namespace Layout.Fits

variable {layout : Layout} {scope : Scope} {site : Site} {disk after : Disk}
  {names : List String} {bytes : Bytes} (fits : layout.Fits site disk)

include fits

/-- Every path starts at a location with proper names. -/
theorem proper_start (path : Path) : Proper (disk.start path) := by
  unfold start
  split
  · exact fits.current ▸ layout.properCurrent
  · nofun

/-- The path of a source has the names of the sources, and then its own. -/
theorem names_sourcePath (names : List String) :
    (site.sourcePath names).names = layout.source ++ names := by
  rw [Site.sourcePath, fits.source]
  rfl

/-- It starts at the root. -/
theorem start_sourcePath (names : List String) : disk.start (site.sourcePath names) = [] := by
  rw [Site.sourcePath, fits.source]
  rfl

/-- The path of a page has the names of the pages, those in front of the source, and that of the
page. -/
theorem names_pagePath (front : List String) (last : String) :
    (site.pagePath (front ++ [last])).names =
      layout.output.names ++ front ++ [pageName last] := by
  rw [Site.pagePath, fits.output, Path.append_names, List.dropLast_concat, List.getLast?_concat,
    List.append_assoc]
  rfl

/-- It starts where the path to the pages does. -/
theorem start_pagePath (names : List String) :
    disk.start (site.pagePath names) = layout.outputStart := by
  rw [start, outputStart, Site.pagePath, fits.output, fits.current, Path.append_names]

/-- Names that lead down from the sources make a path that leads there. -/
theorem reaches_below (down : LeadsDown names) :
    disk.Reaches (site.sourcePath names) (layout.sourceAt names) := by
  obtain ⟨front, last, rfl, properFront, properLast⟩ := down.split
  have proper : Proper (layout.source ++ front) :=
    List.forall_mem_append.mpr ⟨layout.properSource, properFront⟩
  have ends : EndsIn (site.sourcePath (front ++ [last])) (layout.source ++ front) last := by
    refine ⟨?_, fun name member => (proper name member).toPieceName, properLast⟩
    rw [fits.names_sourcePath, List.append_assoc]
  refine .of_ends ends ?_
  rw [fits.start_sourcePath, lead_proper proper, sourceAt, List.nil_append, List.append_assoc]

/-- The path of a source leads to where the source is. -/
theorem reaches_source (file : FileNames names) :
    disk.Reaches (site.sourcePath names) (layout.sourceAt names) :=
  fits.reaches_below file.leadsDown

/-- Names that lead down from the pages make a path to a page. -/
theorem reaches_pageBelow (down : LeadsDown names) :
    disk.Reaches (site.pagePath names) (layout.pageAt names) := by
  obtain ⟨front, last, rfl, properFront, properLast⟩ := down.split
  have named : ∀ name ∈ layout.output.names ++ front, PieceName name :=
    List.forall_mem_append.mpr
      ⟨layout.namedOutput, fun name member => (properFront name member).toPieceName⟩
  refine .of_ends ⟨fits.names_pagePath front last, named, proper_pageName properLast⟩ ?_
  rw [fits.start_pagePath, pageAt_concat, lead_append, lead_proper properFront]

/-- The path of a page leads to where the page is. -/
theorem reaches_page (file : FileNames names) :
    disk.Reaches (site.pagePath names) (layout.pageAt names) :=
  fits.reaches_pageBelow file.leadsDown

/-- The cache is kept in a directory of its own below the sources. -/
theorem cache_eq :
    site.cache.file = .absolute (layout.source ++ [".templight"] ++ ["cache.json"]) := by
  rw [fits.cache, fits.source]
  rfl

/-- The path of the cache leads to where the cache is kept. -/
theorem reaches_cache : disk.Reaches site.cache.file layout.cacheAt := by
  have proper : Proper (layout.source ++ [".templight"]) :=
    List.forall_mem_append.mpr ⟨layout.properSource, List.forall_mem_singleton.mpr (by decide)⟩
  rw [fits.cache_eq]
  refine .of_ends ⟨rfl, fun name member => (proper name member).toPieceName, by decide⟩ ?_
  show _ = lead [] _ ++ _
  rw [lead_proper proper, cacheAt]
  simp

/-- Directories that are made on the way to a source. -/
theorem makes_source (source : SourceNames scope names)
    (made : disk.makeDirectories (site.sourcePath names).parent = .ok after) :
    Grows (layout.Free scope) (fun _ => False) disk after := by
  obtain ⟨front, last, rfl, properFront, -, unlike, -⟩ := source.split
  have split : (site.sourcePath (front ++ [last])).parent.names = layout.source ++ front := by
    rw [Path.parent, fits.names_sourcePath, ← List.append_assoc, List.dropLast_concat]
  refine layout.makes_free split (fun name member => (layout.properSource name member).toPieceName)
    properFront unlike (fun _ clear _ _ isFront => ?_) made
  rw [start_parent, fits.start_sourcePath]
  exact clear.not_source isFront

/-- Directories that are made on the way to a page. -/
theorem makes_page (source : SourceNames scope names)
    (made : disk.makeDirectories (site.pagePath names).parent = .ok after) :
    Grows (layout.Free scope) (fun _ => False) disk after := by
  obtain ⟨front, last, rfl, properFront, -, unlike, -⟩ := source.split
  have split : (site.pagePath (front ++ [last])).parent.names = layout.output.names ++ front := by
    rw [Path.parent, fits.names_pagePath, List.dropLast_concat]
  refine layout.makes_free split layout.namedOutput properFront unlike
    (fun _ clear front name isFront => ?_) made
  rw [start_parent, fits.start_pagePath]
  exact clear.output front name isFront

/-- The directory that is made for the cache. -/
theorem makes_cache (made : disk.makeDirectories site.cache.file.parent = .ok after) :
    Grows (layout.Free scope) (fun _ => False) disk after := by
  have split : site.cache.file.parent.names = layout.source ++ [".templight"] := by
    rw [fits.cache_eq]
    exact List.dropLast_concat
  have unlike : ¬ ".html".toList <:+ ".templight".toList := by decide
  refine layout.makes_free split (fun name member => (layout.properSource name member).toPieceName)
    (List.forall_mem_singleton.mpr (by decide)) (List.forall_mem_singleton.mpr unlike)
    (fun _ clear _ _ isFront => ?_) made
  rw [fits.cache_eq]
  exact clear.not_source isFront

/-- When a source is read and its page is a file, the location of the page is clear. -/
theorem clear_page (source : SourceNames scope names)
    (enteredSource : disk.Entered (site.sourcePath names))
    (enteredPage : disk.Entered (site.pagePath names))
    (written : disk.node? (layout.pageAt names) = some (.file bytes)) :
    layout.Clear (layout.pageAt names) := by
  have proper := layout.proper_pageAt source.fileNames
  have notDirectory : disk.node? (layout.pageAt names) ≠ some .directory := by
    rw [written]
    nofun
  obtain ⟨front, last, rfl, -⟩ := source.split
  constructor
  · intro isFront
    obtain ⟨-, opens⟩ := enteredSource
    rw [fits.start_sourcePath, fits.names_sourcePath, ← List.append_assoc,
      List.dropLast_concat] at opens
    have there := opens _ (isFront.trans (List.prefix_append _ _))
    rw [lead_proper proper] at there
    exact notDirectory there
  · intro before name isFront same
    obtain ⟨-, opens⟩ := enteredPage
    rw [fits.start_pagePath, fits.names_pagePath, List.dropLast_concat] at opens
    have there := opens _ (isFront.trans (List.prefix_append _ _))
    have isName : ProperName name :=
      proper name (same ▸ List.mem_append_right _ (List.mem_singleton_self name))
    have down : lead layout.outputStart (before ++ [name]) =
        lead layout.outputStart before ++ [name] := by
      rw [lead_append]
      exact step_proper isName _
    rw [down, ← same] at there
    exact notDirectory there

end Layout.Fits

end TemplHighlight
