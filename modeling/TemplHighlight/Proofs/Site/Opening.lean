import TemplHighlight.Proofs.Site.Paths
import TemplHighlight.Proofs.Site.Tasks

/-!
# New sites

A new site has its sources where the path to them leads, and its pages next to them or where it is
told. It starts with the cache that it finds in the files, and changes none of them.
-/

namespace TemplHighlight

open Disk

namespace Site

variable {config : Config} {source : Text} {output : Option Text} {session : Session}

/-- The directory of the sources has proper names, if the working directory has. -/
theorem proper_resolve {current : Location} {path : Path} (proper : Proper current)
    (named : ∀ name ∈ path.names, PieceName name) : Proper (Path.resolve current path).names := by
  intro name member
  obtain ⟨isName, notAbove⟩ := Path.mem_collapse member
  refine ⟨?_, notAbove⟩
  split at isName
  · rcases List.mem_append.mp isName with inCurrent | inPath
    · exact (proper name inCurrent).toPieceName
    · exact named name inPath
  · exact named name isName

/-- Where a site has its pages. -/
def outputPath (source : Path) : Option Text → Path
  | none | some [] => source.child "build"
  | some output => Path.ofText output

/-- The names of the path to the pages can stand between slashes, if those of the sources can. -/
theorem named_outputPath {source : Path} (proper : Proper source.names) :
    ∀ name ∈ (outputPath source output).names, PieceName name := by
  unfold outputPath
  have named : ∀ name ∈ (source.child "build").names, PieceName name :=
    List.forall_mem_append.mpr ⟨fun name member => (proper name member).toPieceName,
      List.forall_mem_singleton.mpr (by decide)⟩
  split
  · exact named
  · exact named
  · exact fun _ => Path.named_ofText

end Site

/-- The layout of a new site. -/
def Layout.of {current : Location} (proper : Proper current) (source : Text)
    (output : Option Text) : Layout where
  source := (Path.resolve current (Path.ofText source)).names
  output := Site.outputPath (Path.resolve current (Path.ofText source)) output
  current
  properSource := Site.proper_resolve proper fun _ => Path.named_ofText
  properCurrent := proper
  namedOutput := Site.named_outputPath (Site.proper_resolve proper fun _ => Path.named_ofText)

/-- The content that a cache takes over from its file: none, if there is no JSON. -/
def Cache.kept (disk : Disk) (file : Path) : Json.Value :=
  match disk.read file.toText with
  | .ok bytes => (contentOf? bytes).getD blank
  | .error _ => blank

namespace Site

variable {config : Config} {source : Text} {output : Option Text} {session : Session}

/-- What can be read at a path is there. -/
theorem has_of_read {disk : Disk} {path : Text} {bytes : Bytes} (read : disk.read path = .ok bytes) :
    disk.has path = true := by
  rw [Disk.read, atPath_eq_ok, Outcome.bind_eq_ok] at read
  obtain ⟨node, looked, -⟩ := read
  rw [Disk.has, looked]
  rfl

/-- A cache takes over what is in its file, and changes no files. -/
theorem load_total (file : Path) (session : Session) :
    ∃ logged, Cache.load file session =
      .ok ⟨file, Cache.kept session.disk file⟩ { session with logged } := by
  have looks : Session.look (·.has file.toText) session =
      .ok (session.disk.has file.toText) session := rfl
  have reads : Session.look (·.read file.toText) session =
      .ok (session.disk.read file.toText) session := rfl
  unfold Cache.load Cache.kept
  rw [bind_of_ok _ _ looks]
  cases there : session.disk.has file.toText with
  | false =>
    refine ⟨session.logged, ?_⟩
    cases read : session.disk.read file.toText with
    | error error => rfl
    | ok bytes =>
      rw [has_of_read read] at there
      cases there
  | true =>
    show ∃ logged, ((Session.look (·.read file.toText) >>= _ : SessionTask Cache) session) = _
    rw [bind_of_ok _ _ reads]
    cases session.disk.read file.toText with
    | error error => exact ⟨_, rfl⟩
    | ok bytes =>
      dsimp only
      cases Cache.contentOf? bytes with
      | none => exact ⟨_, rfl⟩
      | some content => exact ⟨session.logged, rfl⟩

/-- A new cache holds what is read from its file, or nothing. -/
theorem load_ends (file : Path) :
    Ends (Cache.load file) session
      (fun cache after => after.disk = session.disk ∧ cache.file = file ∧
        (cache.content = Cache.blank ∨ ∃ bytes, session.disk.read file.toText = .ok bytes ∧
          Cache.contentOf? bytes = some cache.content))
      fun after => after.disk = session.disk := by
  obtain ⟨logged, loads⟩ := load_total file session
  rw [Ends, loads]
  refine ⟨rfl, rfl, ?_⟩
  unfold Cache.kept
  cases session.disk.read file.toText with
  | error error => exact .inl rfl
  | ok bytes =>
    cases content : Cache.contentOf? bytes with
    | none => exact .inl (by simp [content])
    | some value => exact .inr ⟨bytes, rfl, by simp [content]⟩

/-- A cache that can be read is taken over. -/
theorem load_of_read {file : Path} {bytes : Bytes} {content : Json.Value}
    (read : session.disk.read file.toText = .ok bytes)
    (isContent : Cache.contentOf? bytes = some content) :
    Cache.load file session = .ok ⟨file, content⟩ session := by
  have there : Session.look (·.has file.toText) session = .ok true session := by
    rw [← has_of_read read]
    rfl
  have reads : Session.look (·.read file.toText) session = .ok (.ok bytes) session := by
    rw [← read]
    rfl
  unfold Cache.load
  rw [bind_of_ok _ _ there]
  refine (bind_of_ok _ _ reads).trans ?_
  dsimp only
  rw [isContent]
  rfl

/-- A site that is given no registry makes one for its configuration. -/
theorem registryFor_ends (config : Config) (given : Option Registry) :
    Ends (registryFor config given) session
      (fun registry after => after.disk = session.disk ∧
        (given = none → ∃ log, Registry.create config = .ok (registry, log)))
      fun after => after.disk = session.disk := by
  cases given with
  | some registry => exact .pure ⟨rfl, nofun⟩
  | none =>
    refine .bind (.ofExcept ?_ rfl)
    rintro ⟨registry, log⟩ created
    exact .bind (.logAll (.pure ⟨rfl, fun _ => ⟨log, Outcome.mapError_eq_ok.mp created⟩⟩))

/-- If one can be made, it is the registry of the site. -/
theorem registryFor_of_create {registry : Registry} {log : Log}
    (created : Registry.create config = .ok (registry, log)) :
    registryFor config none session =
      .ok registry { session with logged := session.logged ++ log } := by
  rw [registryFor, created]
  rfl

/-- What a new site is like. -/
structure Opened (config : Config) (source : Text) (output : Option Text)
    (given : Option Registry) (disk : Disk) (site : Site) : Prop where
  ofConfig : site.config = config
  ofSource : site.source = Path.resolve disk.current (Path.ofText source)
  ofOutput : site.output = outputPath site.source output
  ofRegistry : given = none → ∃ log, Registry.create config = .ok (site.registry, log)
  file : site.cache.file = (site.source.child ".templight").child "cache.json"
  content : site.cache.content = Cache.blank ∨
    ∃ bytes, disk.read site.cache.file.toText = .ok bytes ∧
      Cache.contentOf? bytes = some site.cache.content

/-- Making a site changes no files. -/
theorem create_ends (config : Config) (source : Text) (output : Option Text)
    (given : Option Registry) :
    Ends (create config source output given) session
      (fun site after => after.disk = session.disk ∧
        Opened config source output given session.disk site)
      fun after => after.disk = session.disk := by
  refine .bind (.ofExcept (fun _ _ => .bind (.look ?_)) rfl)
  refine .bind ((registryFor_ends config given).mono ?_ fun _ => id)
  rintro registry withRegistry ⟨sameDisk, isRegistry⟩
  refine .bind ((load_ends _).mono ?_ fun _ same => same.trans sameDisk)
  rintro cache after ⟨sameDisk', sameFile, content⟩
  rw [sameDisk, ← sameFile] at content
  exact .pure ⟨sameDisk'.trans sameDisk,
    { ofConfig := rfl
      ofSource := rfl
      ofOutput := by
        rcases output with _ | _ | _ <;> rfl
      ofRegistry := isRegistry
      file := sameFile
      content }⟩

/-- A new site is laid out as its paths say. -/
theorem Opened.fits {given : Option Registry} {disk : Disk} {site : Site}
    (opened : Opened config source output given disk site) (proper : Proper disk.current) :
    (Layout.of proper source output).Fits site disk where
  source := opened.ofSource
  output := by
    rw [opened.ofOutput, opened.ofSource]
    rfl
  cache := opened.file
  current := rfl

end Site

end TemplHighlight
