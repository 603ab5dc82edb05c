import TemplHighlight.Proofs.Files.Resolve
import TemplHighlight.Proofs.Site.Records
import TemplHighlight.Watch.Handler

/-!
# The changes that matter and the sources

Which files are rendered and which changes matter is decided in two ways. A build goes down the
directories from the root, leaves out those that are hidden or ignored, and takes the files with an
extension that is watched. A handler has nothing but the path of a file that has changed, and tests
its names. For every file below the root, however its path is written, both come to the same, except
that the handler takes the name of the file for that of a directory as well: the change of a source
does not matter if the source is named like a directory that is ignored.
-/

namespace TemplHighlight

variable {handler : Handler} {site : Site} {disk : Disk} {current : Location} {path : Text}
  {front names : List String} {name : String} {bytes : Bytes}

/-! ## Names below a directory -/

/-- A path is below another one if it is that path with names behind it. -/
theorem Path.below?_eq_some {base path : Path} :
    base.below? path = some names ↔ path = { base with names := base.names ++ names } := by
  unfold below?
  constructor
  · intro below
    split at below
    · rename_i prefixed
      simp only [Bool.and_eq_true, decide_eq_true_eq, List.isPrefixOf_iff_prefix] at prefixed
      obtain ⟨slashes, more, same⟩ := prefixed
      cases below
      rw [← same, List.drop_left, same]
      cases path
      cases slashes
      rfl
    · cases below
  · rintro rfl
    simp

/-- The way from a directory to what is below it are the names behind those of the directory. -/
theorem Path.wayBetween_append (start names : List String) :
    Path.wayBetween start (start ++ names) = names := by
  induction start with
  | nil => cases names <;> rfl
  | cons name start inductionHypothesis =>
    rw [List.cons_append, wayBetween, if_pos rfl, inductionHypothesis]

/-- A file that names lead to is a source of the site if its names are found. -/
theorem Site.mem_sources : site.sourcePath names ∈ site.sources disk ↔ names ∈ site.found disk := by
  constructor
  · intro listed
    obtain ⟨others, found, same⟩ := List.mem_map.mp listed
    have behind : site.source.names ++ others = site.source.names ++ names :=
      congrArg Path.names same
    exact List.append_cancel_left behind ▸ found
  · intro found
    exact List.mem_map.mpr ⟨names, found, rfl⟩

/-- Directories are entered if no name is ignored and no name is hidden. -/
theorem Config.entersAll_eq (config : Config) (directories : List String) :
    config.entersAll directories =
      (!directories.any (· ∈ config.ignoreDirs) &&
        !directories.any (·.toList.head? = some '.')) := by
  induction directories with
  | nil => rfl
  | cons name directories inductionHypothesis =>
    show (_ && config.entersAll directories) = _
    rw [inductionHypothesis]
    by_cases ignored : name ∈ config.ignoreDirs <;>
      by_cases hidden : name.toList.head? = some '.' <;> simp [ignored, hidden]

/-! ## What a handler sees -/

namespace Handler

/-- A handler watches the directory of a site, and has the configuration of the site. -/
structure Watches (handler : Handler) (site : Site) (current : Location) : Prop where
  config : handler.config = site.config
  root : Path.resolve current (Path.ofText handler.root) = site.source

/-- The names that a handler tests are those that lead down from the directory of the site. -/
theorem Watches.wayTo (watches : handler.Watches site current)
    (resolved : Path.resolve current (Path.ofText path) = site.sourcePath names)
    (filled : names ≠ []) : handler.wayTo current path = names := by
  have way : Path.wayBetween (Path.normalize current (Path.ofText handler.root)).names
      (Path.normalize current (Path.ofText path)).names = names := by
    show Path.wayBetween (Path.resolve current (Path.ofText handler.root)).names
      (Path.resolve current (Path.ofText path)).names = names
    rw [watches.root, resolved]
    exact Path.wayBetween_append site.source.names names
  unfold Handler.wayTo
  simp only [way]

/-- The change of a file that is no configuration file matters if its names make it a source and
its own name is not one that is ignored. -/
theorem Watches.isRelevant (watches : handler.Watches site current) (filled : path ≠ [])
    (resolved : Path.resolve current (Path.ofText path) = site.sourcePath (front ++ [name]))
    (last : (Path.pieces path).getLast? = some name) (other : name ≠ Config.fileName) :
    handler.isRelevant current path =
      .ok (site.config.isSource (front ++ [name]) && name ∉ site.config.ignoreDirs) := by
  have inside : (front ++ [name]).head? ≠ some ".." := by
    intro above
    have member : ".." ∈ (Path.resolve current (Path.ofText path)).names := by
      rw [resolved]
      exact List.mem_append_right _ (List.mem_of_head? above)
    exact (Path.mem_collapse member).2 rfl
  have notEmpty : path.isEmpty = false := by simpa using filled
  have source : site.config.isSource (front ++ [name]) =
      (site.config.entersAll front && FileName.extension name ∈ site.config.watchExtensions) := by
    simp [Config.isSource]
  rw [Handler.isRelevant, notEmpty, watches.wayTo resolved (by simp), source, Config.entersAll_eq,
    watches.config]
  simp only [Bool.false_eq_true, if_false, List.any_append, List.any_cons, List.any_nil,
    Bool.or_false, inside, decide_false, Bool.false_or, List.dropLast_concat, lastName,
    FileName.extensionOfText, last, Option.getD_some, other]
  by_cases ignored : name ∈ site.config.ignoreDirs <;>
    cases front.any (· ∈ site.config.ignoreDirs) <;>
    cases front.any (·.toList.head? = some '.') <;> simp [ignored]

/-- What comes of a change that matters, of a file that is no configuration file: it is printed, and
the timer of the next build starts anew. -/
def noticed (handler : Handler) (path : Text) (session : Session) :
    EStateM.Result Failure Session Handler :=
  .ok { handler with debouncer := handler.debouncer.change false }
    { session with printed := session.printed ++ ("File changed: ".toList ++ path ++ ['\n']) }

/-- A handler takes note of the change of a file if the change matters. -/
theorem notice_of_relevant {session : Session} {relevant : Bool}
    (relevance : handler.isRelevant session.disk.current path = .ok relevant)
    (other : lastName path ≠ Config.fileName) :
    handler.notice path false session =
      if relevant then handler.noticed path session else .ok handler session := by
  have looked : handler.notice path false session =
      (Session.ofExcept (handler.isRelevant session.disk.current path) >>= fun relevant => do
        if !relevant then return handler
        Session.printLine ("File changed: ".toList ++ path)
        return { handler with
          debouncer := handler.debouncer.change (lastName path = Config.fileName) }) session := rfl
  rw [looked, relevance]
  simp only [other, decide_false]
  cases relevant with
  | false => rfl
  | true => rfl

/-- The change of a file below the watched directory matters, and a build is called for, exactly if
the file is a source and its own name is not one that is ignored. -/
theorem relevant_iff_source (grounded : disk.Grounded) (watches : handler.Watches site disk.current)
    (isFile : disk.look path = .ok (.file bytes))
    (below : site.source.below? (Path.resolve disk.current (Path.ofText path)) =
      some (front ++ [name]))
    (other : name ≠ Config.fileName) :
    handler.isRelevant disk.current path =
        .ok (decide (Path.resolve disk.current (Path.ofText path) ∈ site.sources disk ∧
          name ∉ handler.config.ignoreDirs)) ∧
      ∀ session : Session, session.disk = disk →
        handler.notice path false session =
          if Path.resolve disk.current (Path.ofText path) ∈ site.sources disk ∧
              name ∉ handler.config.ignoreDirs then handler.noticed path session
          else .ok handler session := by
  have resolved : Path.resolve disk.current (Path.ofText path) =
      site.sourcePath (front ++ [name]) := Path.below?_eq_some.mp below
  obtain ⟨filled, found, last⟩ := Disk.resolve_of_file grounded isFile
  rw [resolved] at found last
  have lastPiece : (Path.pieces path).getLast? = some name := by
    rw [← last]
    show (site.source.names ++ (front ++ [name])).getLast? = _
    rw [← List.append_assoc, List.getLast?_concat]
  have isSource : site.sourcePath (front ++ [name]) ∈ site.sources disk ↔
      site.config.isSource (front ++ [name]) = true := by
    rw [Site.mem_sources, Site.mem_found]
    exact and_iff_right ⟨bytes, Disk.mem_of_node? found⟩
  have relevant : handler.isRelevant disk.current path =
      .ok (decide (Path.resolve disk.current (Path.ofText path) ∈ site.sources disk ∧
        name ∉ handler.config.ignoreDirs)) := by
    rw [watches.isRelevant filled resolved lastPiece other, resolved, watches.config]
    simp [isSource]
  refine ⟨relevant, ?_⟩
  rintro session rfl
  have named : lastName path ≠ Config.fileName := by
    rw [lastName, lastPiece]
    exact other
  rw [notice_of_relevant relevant named]
  simp only [decide_eq_true_eq]

/-! ## A source with the name of an ignored directory -/

/-- A directory with two sources, and the working directory beside it. -/
def twoSources : Disk where
  nodes := [(["w"], .directory), (["w", "a"], .directory), (["w", "a", "b.templ"], .file []),
    (["w", "a", "c.templ"], .file []), (["w", "d"], .directory)]
  current := ["w", "d"]

/-- The site of that directory; directories with the name of one of the sources are ignored. -/
def twoSourcesSite : Site where
  config := { ignoreDirs := ["b.templ"] }
  source := .absolute ["w"]
  output := .absolute ["w", "build"]
  registry := .base
  cache := ⟨.absolute ["w", ".templight", "cache.json"], Cache.blank⟩

/-- The handler of the site, which was given the directory as a relative path. -/
def twoSourcesHandler : Handler where
  config := twoSourcesSite.config
  root := ['.', '.']

/-- A build renders both sources, but only the change of the one calls for a build: the other has
the name of a directory that is ignored. -/
theorem ignored_source_not_relevant :
    twoSources.Grounded ∧ twoSourcesHandler.Watches twoSourcesSite twoSources.current ∧
      (Path.absolute ["w", "a", "b.templ"] ∈ twoSourcesSite.sources twoSources ∧
        twoSourcesHandler.isRelevant twoSources.current "../a/b.templ".toList = .ok false) ∧
      Path.absolute ["w", "a", "c.templ"] ∈ twoSourcesSite.sources twoSources ∧
        twoSourcesHandler.isRelevant twoSources.current "../d/..//a/./c.templ".toList =
          .ok true := by
  have grounded : twoSources.Grounded := by
    refine ⟨by decide, ?_⟩
    have top : twoSources.Housed ["w"] := (twoSources.housed_root).down rfl
    exact top.down rfl
  have watches : twoSourcesHandler.Watches twoSourcesSite twoSources.current := ⟨rfl, rfl⟩
  have isSource {last : String} (listed : (["w", "a", last], Node.file []) ∈ twoSources.nodes)
      (watched : twoSourcesSite.config.isSource ["a", last] = true) :
      twoSourcesSite.sourcePath ["a", last] ∈ twoSourcesSite.sources twoSources :=
    Site.mem_sources.mpr (Site.mem_found.mpr ⟨⟨[], listed⟩, watched⟩)
  have first := isSource (.tail _ (.tail _ (.head _))) rfl
  have second := isSource (.tail _ (.tail _ (.tail _ (.head _)))) rfl
  have belowFirst : twoSourcesSite.source.below? (Path.resolve twoSources.current
      (Path.ofText "../a/b.templ".toList)) = some (["a"] ++ ["b.templ"]) := by decide
  have belowSecond : twoSourcesSite.source.below? (Path.resolve twoSources.current
      (Path.ofText "../d/..//a/./c.templ".toList)) = some (["a"] ++ ["c.templ"]) := by decide
  refine ⟨grounded, watches, ⟨first, ?_⟩, second, ?_⟩
  · rw [(relevant_iff_source grounded watches rfl belowFirst (by decide)).1]
    exact congrArg Except.ok (decide_eq_false fun both => both.2 (List.mem_singleton_self _))
  · rw [(relevant_iff_source grounded watches rfl belowSecond (by decide)).1]
    have resolved := Path.below?_eq_some.mp belowSecond
    exact congrArg Except.ok (decide_eq_true ⟨resolved ▸ second, by decide⟩)

end Handler

end TemplHighlight
