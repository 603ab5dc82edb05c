import TemplHighlight.Files.Disk
import TemplHighlight.Proofs.Files.Path
import TemplHighlight.Proofs.Outcome

/-!
# What files are read and written

Which location a path leads to is a matter of its names alone; whether it gets there depends on the
directories on the way. So a path is read, written or found to be there according to these
directories and to the node at one location. A change of the files is described by what it does to
the nodes: directories that are made are added where a path leads through, a file that is written
replaces one node, and what is removed is gone.
-/

namespace TemplHighlight.Disk

open Outcome

variable {disk after : Disk} {location there other : Location} {name last : String}
  {names front back blanks : List String} {path : Path} {bytes : Bytes} {node : Node}

/-! ## Where names lead -/

/-- The location that a name leads to from another one. -/
def step (location : Location) (name : String) : Location :=
  if name = "" || name = "." then location
  else if name = ".." then location.dropLast
  else location ++ [name]

/-- The location that names lead to, one after the other. -/
def lead (location : Location) (names : List String) : Location := names.foldl step location

/-- All that names lead through from a location is directories, what they lead to in the end among
it. -/
def Opens (disk : Disk) (location : Location) (names : List String) : Prop :=
  ∀ front, front <+: names → disk.node? (lead location front) = some .directory

/-- A proper name leads down. -/
theorem step_proper (proper : ProperName name) (location : Location) :
    step location name = location ++ [name] := by
  simp [step, proper.filled, proper.notDot, proper.notAbove]

/-- Proper names lead down. -/
theorem lead_proper (proper : ∀ name ∈ names, ProperName name) (location : Location) :
    lead location names = location ++ names := by
  induction names generalizing location with
  | nil => exact (List.append_nil location).symm
  | cons name names inductionHypothesis =>
    obtain ⟨isProper, later⟩ := List.forall_mem_cons.mp proper
    show lead (step location name) names = _
    rw [inductionHypothesis later, step_proper isProper, List.append_assoc]
    rfl

/-- Names lead on from where the names in front of them lead. -/
theorem lead_append (location : Location) (front back : List String) :
    lead location (front ++ back) = lead (lead location front) back :=
  List.foldl_append

/-- Blanks lead nowhere else. -/
theorem lead_blanks (areBlank : ∀ blank ∈ blanks, blank = "" ∨ blank = ".") (location : Location) :
    lead location blanks = location := by
  induction blanks with
  | nil => rfl
  | cons blank blanks inductionHypothesis =>
    obtain ⟨isBlank, later⟩ := List.forall_mem_cons.mp areBlank
    have stays : step location blank = location := by
      rcases isBlank with rfl | rfl <;> rfl
    show lead (step location blank) blanks = _
    rw [stays, inductionHypothesis later]

/-- A way through directories begins at one, and goes on from where its first name leads. -/
theorem opens_cons :
    disk.Opens location (name :: names) ↔
      disk.node? location = some .directory ∧ disk.Opens (step location name) names := by
  constructor
  · intro opens
    exact ⟨opens [] List.nil_prefix, fun front isFront =>
      opens (name :: front) ((List.prefix_cons_inj name).mpr isFront)⟩
  · rintro ⟨here, later⟩ front isFront
    cases front with
    | nil => exact here
    | cons first front =>
      obtain ⟨rfl, isLater⟩ := List.cons_prefix_cons.mp isFront
      exact later front isLater

/-- At the end of a way through directories there is one. -/
theorem Opens.end (opens : disk.Opens location names) :
    disk.node? (lead location names) = some .directory :=
  opens names List.prefix_rfl

/-- A way through directories can be taken in two parts. -/
theorem opens_append :
    disk.Opens location (front ++ back) ↔
      disk.Opens location front ∧ disk.Opens (lead location front) back := by
  induction front generalizing location with
  | nil =>
    refine ⟨fun opens => ⟨?_, opens⟩, And.right⟩
    intro front isFront
    rw [List.prefix_nil.mp isFront]
    exact opens [] List.nil_prefix
  | cons name front inductionHypothesis =>
    rw [List.cons_append, opens_cons, opens_cons, inductionHypothesis, and_assoc]
    rfl

/-- Blanks in front change nothing. -/
theorem opens_blanks (areBlank : ∀ blank ∈ blanks, blank = "" ∨ blank = ".") :
    disk.Opens location (blanks ++ names) ↔ disk.Opens location names := by
  rw [opens_append, lead_blanks areBlank]
  refine ⟨And.right, fun opens => ⟨?_, opens⟩⟩
  intro front isFront
  rw [lead_blanks fun blank member => areBlank blank (isFront.subset member)]
  exact opens [] List.nil_prefix

/-! ## Going along names -/

/-- A name can be followed from a directory. One that leads down has to lead to something. -/
theorem walk_cons_ok :
    disk.walk location (name :: names) = .ok there ↔
      disk.node? location = some .directory ∧
        (step location name = location ++ [name] →
          (disk.node? (location ++ [name])).isSome = true) ∧
        disk.walk (step location name) names = .ok there := by
  rw [walk]
  unfold step
  split
  · rename_i here
    by_cases blank : (name = "" || name = ".") = true
    · simp [blank, here]
    · by_cases above : name = ".."
      · have notDown : location.dropLast ≠ location ++ [".."] := by
          intro same
          have length := congrArg List.length same
          simp only [List.length_dropLast, List.length_append, List.length_singleton] at length
          omega
        simp [above, here, notDown]
      · by_cases isThere : (disk.node? (location ++ [name])).isSome = true <;>
          simp [blank, above, here, isThere]
  · rename_i isFile
    simp [isFile]
  · rename_i missing
    simp [missing]

/-- Going along names ends at the location that they lead to. -/
theorem walk_eq_lead (walked : disk.walk location names = .ok there) :
    there = lead location names := by
  induction names generalizing location with
  | nil =>
    cases walked
    rfl
  | cons name names inductionHypothesis => exact inductionHypothesis (walk_cons_ok.mp walked).2.2

/-- Where there are directories all the way, names can be followed. -/
theorem walk_of_opens (opens : disk.Opens location names) :
    disk.walk location names = .ok (lead location names) := by
  induction names generalizing location with
  | nil => rfl
  | cons name names inductionHypothesis =>
    obtain ⟨here, later⟩ := opens_cons.mp opens
    refine walk_cons_ok.mpr ⟨here, fun down => ?_, inductionHypothesis later⟩
    have next : disk.node? (step location name) = some .directory := later [] List.nil_prefix
    rw [← down, next]
    rfl

/-- Names that can be followed to a directory lead through directories only. -/
theorem opens_of_walk (walked : disk.walk location names = .ok there)
    (directory : disk.node? there = some .directory) : disk.Opens location names := by
  induction names generalizing location with
  | nil =>
    cases walked
    intro front isFront
    rw [List.prefix_nil.mp isFront]
    exact directory
  | cons name names inductionHypothesis =>
    obtain ⟨here, -, later⟩ := walk_cons_ok.mp walked
    exact opens_cons.mpr ⟨here, inductionHypothesis later⟩

/-- Names can be followed in two parts. -/
theorem walk_append (disk : Disk) (location : Location) (front back : List String) :
    disk.walk location (front ++ back) = .ok there ↔
      ∃ middle, disk.walk location front = .ok middle ∧ disk.walk middle back = .ok there := by
  induction front generalizing location with
  | nil =>
    constructor
    · exact fun walked => ⟨location, rfl, walked⟩
    · rintro ⟨_, ⟨⟩, walked⟩
      exact walked
  | cons name front inductionHypothesis =>
    simp only [List.cons_append, walk_cons_ok, inductionHypothesis]
    constructor
    · rintro ⟨here, isThere, middle, walked, rest⟩
      exact ⟨middle, ⟨here, isThere, walked⟩, rest⟩
    · rintro ⟨middle, ⟨here, isThere, walked⟩, rest⟩
      exact ⟨here, isThere, middle, walked, rest⟩

/-- Names with a proper one at the end are followed through directories to something that is
there. -/
theorem walk_concat (proper : ProperName last) :
    disk.walk location (front ++ [last]) = .ok there ↔
      disk.Opens location front ∧ there = lead location front ++ [last] ∧
        (disk.node? there).isSome = true := by
  rw [walk_append]
  constructor
  · rintro ⟨middle, walked, rest⟩
    obtain ⟨here, isThere, same⟩ := walk_cons_ok.mp rest
    rw [step_proper proper] at same
    cases same
    obtain rfl := walk_eq_lead walked
    exact ⟨opens_of_walk walked here, rfl, isThere (step_proper proper _)⟩
  · rintro ⟨opens, rfl, isThere⟩
    refine ⟨_, walk_of_opens opens, walk_cons_ok.mpr ⟨opens.end, fun _ => isThere, ?_⟩⟩
    rw [step_proper proper]
    rfl

/-! ## Where a path leads -/

/-- Where a path starts. -/
def start (disk : Disk) (path : Path) : Location := if path.slashes = 0 then disk.current else []

/-- Where a path starts depends on the working directory alone. -/
theorem start_congr (same : after.current = disk.current) (path : Path) :
    after.start path = disk.start path := by
  unfold start
  rw [same]

/-- A path and its directory start at the same location. -/
theorem start_parent (disk : Disk) (path : Path) : disk.start path.parent = disk.start path := rfl

/-- A path whose last name is a proper one. -/
structure EndsIn (path : Path) (front : List String) (last : String) : Prop where
  names : path.names = front ++ [last]
  named : ∀ name ∈ front, PieceName name
  proper : ProperName last

/-- The names of such a path can be read back from its text. -/
theorem EndsIn.all_named (ends : EndsIn path front last) : ∀ name ∈ path.names, PieceName name := by
  rw [ends.names]
  exact List.forall_mem_append.mpr ⟨ends.named,
    List.forall_mem_singleton.mpr ends.proper.toPieceName⟩

/-- The text of a path starts where the path starts. -/
theorem startOf_toText (named : ∀ name ∈ path.names, PieceName name) :
    disk.startOf path.toText = disk.start path := by
  have slashed := Path.head?_toText named
  by_cases relative : path.slashes = 0 <;> simp_all [startOf, start]

/-- The text of a path that ends in a name ends in the characters of that name. -/
theorem toText_ends (names : path.names = front ++ [last]) :
    ∃ before, path.toText = before ++ last.toList := by
  have joined (front : List String) :
      ∃ before, Text.join ['/'] ((front ++ [last]).map String.toList) = before ++ last.toList := by
    induction front with
    | nil => exact ⟨[], rfl⟩
    | cons name front inductionHypothesis =>
      obtain ⟨before, same⟩ := inductionHypothesis
      refine ⟨name.toList ++ ['/'] ++ before, ?_⟩
      cases front <;> simpa [Text.join] using same
  obtain ⟨before, same⟩ := joined front
  refine ⟨List.replicate path.slashes '/' ++ before, ?_⟩
  rw [Path.toText, names, same, if_neg (by simp), List.append_assoc]

/-- An operation fails with a cause or succeeds, whatever its errors name. -/
theorem atPath_eq_ok {α : Type} {text : Text} {result : Except FileCause α} {value : α} :
    atPath text result = .ok value ↔ result = .ok value := by
  cases result with
  | error cause => exact ⟨nofun, nofun⟩
  | ok found =>
    constructor <;>
    · rintro ⟨⟩
      rfl

/-- A path can be looked up if there is no NUL in it. -/
def Usable (path : Path) : Prop := '\x00' ∉ path.toText

/-- What follows the check of a path is done if there is no NUL in the path. -/
theorem checked_eq_ok {α : Type} {text : Text} {next : Unit → Except FileCause α} {value : α} :
    (checkPath text >>= next) = .ok value ↔ '\x00' ∉ text ∧ next () = .ok value := by
  unfold checkPath
  split
  · rename_i has
    exact ⟨nofun, fun ⟨free, _⟩ => absurd (List.contains_iff_mem.mp has) free⟩
  · rename_i free
    exact ⟨fun same => ⟨fun has => free (List.contains_iff_mem.mpr has), same⟩, And.right⟩

section

variable (ends : EndsIn path front last)
include ends

/-- The location that a path leads to. -/
theorem locate_eq_ok :
    disk.locate path.toText = .ok there ↔
      Usable path ∧ disk.Opens (disk.start path) front ∧
        there = lead (disk.start path) front ++ [last] ∧ (disk.node? there).isSome = true := by
  obtain ⟨blanks, areBlank, split⟩ := Path.pieces_toText ends.all_named
  have filled : path.toText.isEmpty = false := by
    simpa using Path.toText_filled ends.all_named
  unfold locate
  simp only [filled, startOf_toText ends.all_named, split, ends.names, Bool.false_eq_true, if_false]
  rw [checked_eq_ok, ← List.append_assoc, walk_concat ends.proper, opens_blanks areBlank,
    lead_append, lead_blanks areBlank]
  rfl

/-- What a path leads to. -/
theorem look_eq_ok :
    disk.look path.toText = .ok node ↔
      Usable path ∧ disk.Opens (disk.start path) front ∧
        disk.node? (lead (disk.start path) front ++ [last]) = some node := by
  simp only [look, bind_eq_ok, locate_eq_ok ends]
  constructor
  · rintro ⟨there, ⟨usable, opens, rfl, -⟩, found⟩
    split at found
    · cases found
      exact ⟨usable, opens, ‹_›⟩
    · cases found
  · rintro ⟨usable, opens, found⟩
    exact ⟨_, ⟨usable, opens, rfl, by rw [found]; rfl⟩, by rw [found]; rfl⟩

/-- Whether a path leads to something. -/
theorem has_iff :
    disk.has path.toText = true ↔
      ∃ node, Usable path ∧ disk.Opens (disk.start path) front ∧
        disk.node? (lead (disk.start path) front ++ [last]) = some node := by
  simp only [← look_eq_ok ends, has]
  cases disk.look path.toText with
  | error cause => simp [Except.isOk, Except.toBool]
  | ok node => simp [Except.isOk, Except.toBool]

/-- What is read at a path are the bytes of the file that it leads to. -/
theorem read_eq_ok :
    disk.read path.toText = .ok bytes ↔
      Usable path ∧ disk.Opens (disk.start path) front ∧
        disk.node? (lead (disk.start path) front ++ [last]) = some (.file bytes) := by
  rw [read, atPath_eq_ok, ← look_eq_ok ends, bind_eq_ok]
  constructor
  · rintro ⟨node, looked, same⟩
    cases node with
    | file found =>
      cases same
      exact looked
    | directory => cases same
  · exact fun looked => ⟨_, looked, rfl⟩

/-- The text of a path that ends in a name does not end in a slash. -/
theorem getLast?_toText : path.toText.getLast? ≠ some '/' := by
  obtain ⟨before, text⟩ := toText_ends ends.names
  intro slash
  rw [text, List.getLast?_append, Option.or_eq_some_iff] at slash
  rcases slash with slash | ⟨none, -⟩
  · exact ends.proper.noSlash (List.mem_of_getLast? slash)
  · exact ends.proper.filled (by simpa using none)

/-- The last piece of the text of a path that is not empty is the last name of the path. -/
theorem reverse_pieces :
    ∃ blanks, (∀ blank ∈ blanks, blank = "" ∨ blank = ".") ∧
      (Path.pieces path.toText).reverse.dropWhile (· == "") =
        last :: (blanks ++ front).reverse := by
  obtain ⟨blanks, areBlank, split⟩ := Path.pieces_toText ends.all_named
  have lastFilled : (last == "") = false := by
    simpa using ends.proper.filled
  refine ⟨blanks, areBlank, ?_⟩
  rw [split, ends.names, ← List.append_assoc, List.reverse_concat, List.dropWhile_cons, lastFilled]
  rfl

/-- The location of a file to be written. -/
theorem locateNew_eq_ok :
    disk.locateNew path.toText = .ok there ↔
      Usable path ∧ disk.Opens (disk.start path) front ∧
        there = lead (disk.start path) front ++ [last] := by
  obtain ⟨blanks, areBlank, reversed⟩ := reverse_pieces ends
  have filled : path.toText.isEmpty = false := by
    simpa using Path.toText_filled ends.all_named
  have isName : (decide (last = ".") || decide (last = "..") ||
      decide (path.toText.getLast? = some '/')) = false := by
    simp [ends.proper.notDot, ends.proper.notAbove, getLast?_toText ends]
  unfold locateNew
  simp only [filled, startOf_toText ends.all_named, reversed, Bool.false_eq_true, if_false,
    List.reverse_reverse]
  rw [checked_eq_ok, bind_eq_ok]
  constructor
  · rintro ⟨usable, directory, walked, placed⟩
    split at placed
    · rename_i isDirectory
      have opens := (opens_blanks areBlank).mp (opens_of_walk walked isDirectory)
      have place := walk_eq_lead walked
      rw [lead_append, lead_blanks areBlank] at place
      rw [isName, if_neg Bool.false_ne_true] at placed
      cases placed
      exact ⟨usable, opens, by rw [place]⟩
    · cases placed
  · rintro ⟨usable, opens, rfl⟩
    have opensAll := (opens_blanks areBlank).mpr opens
    refine ⟨usable, _, walk_of_opens opensAll, ?_⟩
    rw [opensAll.end, lead_append, lead_blanks areBlank]
    simp only [isName, Bool.false_eq_true, if_false]
    rfl

/-- Writing a file at a path puts it where the path leads to. -/
theorem of_write (written : disk.write path.toText bytes = .ok after) :
    Usable path ∧ disk.Opens (disk.start path) front ∧
      disk.node? (lead (disk.start path) front ++ [last]) ≠ some .directory ∧
      after = disk.put (lead (disk.start path) front ++ [last]) (.file bytes) := by
  rw [write, atPath_eq_ok, bind_eq_ok] at written
  obtain ⟨there, located, put⟩ := written
  obtain ⟨usable, opens, rfl⟩ := (locateNew_eq_ok ends).mp located
  split at put
  · cases put
  · rename_i notDirectory
    cases put
    exact ⟨usable, opens, notDirectory, rfl⟩

end

/-- A path whose last name is a proper one ends in it. -/
theorem ends_of_name (named : ∀ name ∈ path.names, PieceName name) (proper : ProperName path.name) :
    EndsIn path path.names.dropLast path.name := by
  refine ⟨?_, fun name member => named name (List.dropLast_subset _ member), proper⟩
  unfold Path.name at proper ⊢
  cases last? : path.names.getLast? with
  | none =>
    rw [last?] at proper
    exact absurd rfl proper.filled
  | some last =>
    obtain ⟨front, same⟩ := List.getLast?_eq_some_iff.mp last?
    rw [same, List.dropLast_concat]
    rfl

/-- Making a directory puts it where the path leads to. -/
theorem of_makeDirectory (named : ∀ name ∈ path.names, PieceName name)
    (made : disk.makeDirectory path.toText = .ok after) :
    Usable path ∧ disk.has path.toText = false ∧
      disk.Opens (disk.start path) path.names.dropLast ∧
      after = disk.put (lead (disk.start path) path.names.dropLast ++ [path.name]) .directory := by
  rw [makeDirectory, atPath_eq_ok, checked_eq_ok, Path.names_ofText_toText named] at made
  obtain ⟨usable, made⟩ := made
  split at made
  · cases made
  · rename_i absent
    simp only [bind_eq_ok, startOf_toText named] at made
    obtain ⟨directory, walked, made⟩ := made
    split at made
    · rename_i isDirectory
      obtain rfl := walk_eq_lead walked
      cases made
      exact ⟨usable, Bool.not_eq_true _ ▸ absent, opens_of_walk walked isDirectory, rfl⟩
    · cases made

end TemplHighlight.Disk
