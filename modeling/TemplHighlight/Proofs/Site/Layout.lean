import TemplHighlight.Proofs.Files.Changes
import TemplHighlight.Site.Build

/-!
# Where a site keeps its files

The names that lead to a source lead to one location below the directory of the sources, and to one
location for its page. If no configuration takes pages for sources, and directories of sources are
not named like pages, these locations are apart: no page is written where a source stands, no two
sources have the same page, and no directory is made where a page stands.
-/

namespace TemplHighlight

/-- The configurations that a site is worked on with, none of which takes a page for a source, and
the contents that its sources ever have, all with their own digests. -/
structure Scope where
  configs : Config → Prop
  contents : Bytes → Prop
  quiet : ∀ config, configs config → ".html" ∉ config.watchExtensions
  distinct : ∀ a b, contents a → contents b → Md5.hexDigest a = Md5.hexDigest b → a = b

/-- The name of the page of a source with a name. -/
def pageName (name : String) : String := name ++ ".html"

/-- Names that lead to a source of one of the configurations. They are proper, no directory among
them is named like a page, and the source is not named with dots alone. -/
structure SourceNames (scope : Scope) (names : List String) : Prop where
  watched : ∃ config, scope.configs config ∧ config.isSource names = true
  proper : Disk.Proper names
  directories : ∀ name ∈ names.dropLast, ¬ ".html".toList <:+ name.toList
  notDots : ∀ last ∈ names.getLast?, ∃ c ∈ last.toList, c ≠ '.'

/-- Names that lead to a file that has a page. They are proper, and the file is not named with dots
alone. -/
structure FileNames (names : List String) : Prop where
  proper : Disk.Proper names
  notDots : ∃ last ∈ names.getLast?, ∃ c ∈ last.toList, c ≠ '.'

/-- Names that lead down to a file: there is one, and all of them are proper. -/
structure LeadsDown (names : List String) : Prop where
  proper : Disk.Proper names
  filled : names ≠ []

/-- Where a site is: the names that lead to the directory of its sources, the path to the directory
of its pages, and the directory that relative paths start from. -/
structure Layout where
  source : List String
  output : Path
  current : Location
  properSource : Disk.Proper source
  properCurrent : Disk.Proper current
  namedOutput : ∀ name ∈ output.names, PieceName name

variable {scope : Scope} {names others : List String}

/-! ## Names of pages -/

/-- The page of a source that is not named with dots alone has the extension of pages. -/
theorem extension_pageName {name : String} (notDots : ∃ c ∈ name.toList, c ≠ '.') :
    FileName.extension (pageName name) = ".html" := by
  obtain ⟨c, member, notDot⟩ := notDots
  have written : ".html".toList = ['.', 'h', 't', 'm', 'l'] := rfl
  have notAll : name.toList.all (· == '.') = false := by
    simp only [List.all_eq_false, beq_iff_eq]
    exact ⟨c, member, notDot⟩
  unfold FileName.extension FileName.splitLastDot? pageName
  simp [String.toList_append, written, notAll]

/-- Names of pages are distinct. -/
theorem pageName_injective {name other : String} (same : pageName name = pageName other) :
    name = other := by
  have chars := congrArg String.toList same
  simp only [pageName, String.toList_append] at chars
  exact String.toList_inj.mp (List.append_cancel_right chars)

/-- The names of a source end with a name. -/
theorem Config.isSource_last {config : Config} (isSource : config.isSource names = true) :
    ∃ front last, names = front ++ [last] ∧ config.entersAll front = true ∧
      FileName.extension last ∈ config.watchExtensions := by
  unfold Config.isSource at isSource
  split at isSource
  · rename_i last found
    obtain ⟨front, rfl⟩ := List.getLast?_eq_some_iff.mp found
    simp only [List.dropLast_concat, Bool.and_eq_true, decide_eq_true_eq] at isSource
    exact ⟨front, last, rfl, isSource⟩
  · cases isSource

/-- A configuration that does not take pages for sources does not take the page of a source for
one. -/
theorem page_not_source {config : Config} {front : List String} {last : String}
    (quiet : ".html" ∉ config.watchExtensions) (notDots : ∃ c ∈ last.toList, c ≠ '.') :
    config.isSource (front ++ [pageName last]) = false := by
  cases isSource : config.isSource (front ++ [pageName last]) with
  | false => rfl
  | true =>
    obtain ⟨otherFront, otherLast, split, -, watched⟩ := Config.isSource_last isSource
    obtain ⟨-, same⟩ := List.append_inj' split rfl
    cases same
    rw [extension_pageName notDots] at watched
    exact absurd watched quiet

/-- No configuration takes the file of the cache for a source. -/
theorem cache_not_source (config : Config) :
    config.isSource [".templight", "cache.json"] = false := by
  simp [Config.isSource, Config.entersAll]

/-- The names of a file that has a page, the last one set apart. -/
theorem FileNames.split (file : FileNames names) :
    ∃ front last, names = front ++ [last] ∧ (∀ name ∈ front, ProperName name) ∧ ProperName last ∧
      ∃ c ∈ last.toList, c ≠ '.' := by
  obtain ⟨proper, last, isLast, notDots⟩ := file
  obtain ⟨front, rfl⟩ := List.getLast?_eq_some_iff.mp isLast
  obtain ⟨properFront, properLast⟩ := List.forall_mem_append.mp proper
  exact ⟨front, last, rfl, properFront, properLast last (List.mem_singleton_self last), notDots⟩

/-- Names that lead down, the last one set apart. -/
theorem LeadsDown.split (down : LeadsDown names) :
    ∃ front last, names = front ++ [last] ∧ (∀ name ∈ front, ProperName name) ∧
      ProperName last := by
  obtain ⟨proper, filled⟩ := down
  obtain ⟨front, last, rfl⟩ := (List.eq_nil_or_concat names).resolve_left filled
  rw [List.concat_eq_append] at proper ⊢
  obtain ⟨properFront, properLast⟩ := List.forall_mem_append.mp proper
  exact ⟨front, last, rfl, properFront, properLast last (List.mem_singleton_self last)⟩

/-- The names of a file lead down to it. -/
theorem FileNames.leadsDown (file : FileNames names) : LeadsDown names := by
  obtain ⟨front, last, rfl, -⟩ := file.split
  exact ⟨file.proper, List.append_ne_nil_of_right_ne_nil front (List.cons_ne_nil last [])⟩

namespace SourceNames

/-- A source has a page. -/
theorem fileNames (source : SourceNames scope names) : FileNames names := by
  obtain ⟨config, -, isSource⟩ := source.watched
  obtain ⟨front, last, rfl, -, -⟩ := Config.isSource_last isSource
  have isLast : last ∈ (front ++ [last]).getLast? := List.getLast?_concat
  exact ⟨source.proper, last, isLast, source.notDots last isLast⟩

/-- The names of a source, the last one set apart. -/
theorem split (source : SourceNames scope names) :
    ∃ front last, names = front ++ [last] ∧ (∀ name ∈ front, ProperName name) ∧ ProperName last ∧
      (∀ name ∈ front, ¬ ".html".toList <:+ name.toList) ∧ ∃ c ∈ last.toList, c ≠ '.' := by
  obtain ⟨front, last, rfl, properFront, properLast, notDots⟩ := source.fileNames.split
  have directories := source.directories
  rw [List.dropLast_concat] at directories
  exact ⟨front, last, rfl, properFront, properLast, directories, notDots⟩

end SourceNames

/-- The name of a page is a proper one. -/
theorem proper_pageName {name : String} (proper : ProperName name) :
    ProperName (pageName name) := by
  have ending : (pageName name).toList = name.toList ++ ['.', 'h', 't', 'm', 'l'] := by
    rw [pageName, String.toList_append]
    rfl
  have differs {other : String} (short : other.toList.length < 5) : pageName name ≠ other := by
    rintro rfl
    rw [ending, List.length_append] at short
    simp only [List.length_cons, List.length_nil] at short
    omega
  refine ⟨⟨differs (by decide), differs (by decide), ?_⟩, differs (by decide)⟩
  rw [ending, List.mem_append]
  rintro (inName | inEnding)
  · exact proper.noSlash inName
  · exact absurd inEnding (by decide)

/-! ## Locations -/

namespace Layout

variable (layout : Layout)

/-- Where the path to the pages starts. -/
def outputStart : Location := if layout.output.slashes = 0 then layout.current else []

/-- The location of a source. -/
def sourceAt (names : List String) : Location := layout.source ++ names

/-- The location of the page of a source. -/
def pageAt (names : List String) : Location :=
  Disk.lead layout.outputStart layout.output.names ++
    (names.dropLast ++ [pageName (names.getLast?.getD "")])

/-- The location of the cache. -/
def cacheAt : Location := layout.source ++ [".templight", "cache.json"]

/-- A location that no path to the sources or to the pages leads through. -/
structure Clear (location : Location) : Prop where
  source : ¬ location <+: layout.source
  output : ∀ front name, front ++ [name] <+: layout.output.names →
    location ≠ Disk.lead layout.outputStart front ++ [name]

variable {layout}

/-- The page of a source is below the pages, where the source is below the sources. -/
theorem pageAt_concat (front : List String) (last : String) :
    layout.pageAt (front ++ [last]) =
      Disk.lead layout.outputStart layout.output.names ++ front ++ [pageName last] := by
  simp [pageAt]

/-- The name at the end of the location of a page is the name of the page. -/
theorem pageAt_eq_concat {front before : List String} {last name : String} :
    layout.pageAt (front ++ [last]) = before ++ [name] ↔
      Disk.lead layout.outputStart layout.output.names ++ front = before ∧ pageName last = name := by
  rw [pageAt_concat]
  constructor
  · intro same
    obtain ⟨sameFront, sameLast⟩ := List.append_inj' same rfl
    exact ⟨sameFront, List.singleton_inj.mp sameLast⟩
  · rintro ⟨rfl, rfl⟩
    rfl

/-- The path to the pages starts at a location with proper names. -/
theorem proper_outputStart : Disk.Proper layout.outputStart := by
  unfold outputStart
  split
  · exact layout.properCurrent
  · nofun

/-- A source with proper names has a location with proper names. -/
theorem proper_sourceAt (proper : Disk.Proper names) : Disk.Proper (layout.sourceAt names) :=
  List.forall_mem_append.mpr ⟨layout.properSource, proper⟩

/-- The location of a page has proper names. -/
theorem proper_pageAt (file : FileNames names) : Disk.Proper (layout.pageAt names) := by
  obtain ⟨front, last, rfl, properFront, properLast⟩ := file.leadsDown.split
  rw [pageAt_concat]
  exact List.forall_mem_append.mpr ⟨List.forall_mem_append.mpr
    ⟨Disk.proper_lead proper_outputStart layout.namedOutput, properFront⟩,
    List.forall_mem_singleton.mpr (proper_pageName properLast)⟩

/-- Different names lead to different pages. -/
theorem page_injective (down : LeadsDown names) (other : LeadsDown others)
    (same : layout.pageAt names = layout.pageAt others) : names = others := by
  obtain ⟨front, last, rfl, -⟩ := down.split
  obtain ⟨otherFront, otherLast, rfl, -⟩ := other.split
  rw [pageAt_concat otherFront] at same
  obtain ⟨sameFront, sameLast⟩ := pageAt_eq_concat.mp same
  rw [List.append_cancel_left sameFront, pageName_injective sameLast]

/-- Different files have different pages. -/
theorem pageAt_injective (file : FileNames names) (other : FileNames others)
    (same : layout.pageAt names = layout.pageAt others) : names = others :=
  page_injective file.leadsDown other.leadsDown same

/-- No page stands where a source may stand, if the configuration takes no pages for sources. -/
theorem pageAt_not_source {config : Config} (quiet : ".html" ∉ config.watchExtensions)
    (file : FileNames names) (isSource : config.isSource others = true) :
    layout.pageAt names ≠ layout.sourceAt others := by
  obtain ⟨front, last, rfl, -, -, notDots⟩ := file.split
  obtain ⟨otherFront, otherLast, rfl, -, -⟩ := Config.isSource_last isSource
  intro same
  rw [sourceAt, ← List.append_assoc] at same
  obtain ⟨-, rfl⟩ := pageAt_eq_concat.mp same
  rw [page_not_source quiet notDots] at isSource
  cases isSource

/-- No page stands where the cache is kept. -/
theorem pageAt_ne_cacheAt (file : FileNames names) :
    layout.pageAt names ≠ layout.cacheAt := by
  obtain ⟨front, last, rfl, -, -, notDots⟩ := file.split
  have split : layout.cacheAt = (layout.source ++ [".templight"]) ++ ["cache.json"] := by
    simp [cacheAt]
  intro same
  obtain ⟨-, sameLast⟩ := pageAt_eq_concat.mp (same.trans split)
  have extension := congrArg FileName.extension sameLast
  rw [extension_pageName notDots] at extension
  exact absurd extension (by decide)

/-- No source stands where the cache is kept. -/
theorem source_ne_cache {config : Config} (layout : Layout)
    (isSource : config.isSource names = true) : layout.sourceAt names ≠ layout.cacheAt := by
  intro same
  rw [List.append_cancel_left same, cache_not_source] at isSource
  cases isSource

/-- A page does not stand where a path leads through that goes on from the sources or the pages with
names of directories. -/
theorem pageAt_not_passed {disk : Disk} {path : Path} {base directories : List String}
    (source : SourceNames scope names) (split : path.names = base ++ directories)
    (unlike : ∀ name ∈ directories, ¬ ".html".toList <:+ name.toList)
    (clear : ∀ front name, front ++ [name] <+: base →
      layout.pageAt names ≠ Disk.lead (disk.start path) front ++ [name]) :
    ¬ disk.Passed path (layout.pageAt names) := by
  rintro ⟨front, name, passed, same⟩
  rw [split] at passed
  rcases List.prefix_or_prefix_of_prefix passed (List.prefix_append base directories) with
    inBase | ⟨more, further⟩
  · exact clear front name inBase same
  · rcases List.eq_nil_or_concat more with rfl | ⟨before, last, rfl⟩
    · rw [List.append_nil] at further
      exact clear front name (further ▸ List.prefix_rfl) same
    · rw [List.concat_eq_append] at further
      rw [← further, List.prefix_append_right_inj] at passed
      have inDirectories : last ∈ directories :=
        passed.subset (List.mem_append_right _ (List.mem_singleton_self last))
      rw [← List.append_assoc] at further
      obtain ⟨-, sameName⟩ := List.append_inj' further rfl
      obtain ⟨pageFront, pageLast, rfl, -⟩ := source.split
      obtain ⟨-, samePage⟩ := pageAt_eq_concat.mp same
      refine unlike last inDirectories ⟨pageLast.toList, ?_⟩
      rw [List.singleton_inj.mp sameName, ← samePage, pageName, String.toList_append]

end Layout

end TemplHighlight
