import TemplHighlight.Proofs.Files.Reaches
import TemplHighlight.Proofs.Files.Resolve

/-!
# Making room for files

Directories can be made on the way to a file unless a file is in the way, whichever of them are
there already; then the file can be written unless a directory is in its place. Several files can be
written one after the other if this holds of each of them at the start, and none of them stands in
the way of another.
-/

namespace TemplHighlight.Disk

open Outcome

variable {disk after : Disk} {location : Location} {names blanks : List String} {path : Path}
  {bytes : Bytes}

/-! ## Paths that can be used -/

/-- A path can be used if there is no NUL in its names. -/
theorem usable_iff : Usable path ↔ ∀ name ∈ path.names, '\x00' ∉ name.toList := by
  have joined (texts : List Text) :
      '\x00' ∈ Text.join ['/'] texts ↔ ∃ text ∈ texts, '\x00' ∈ text := by
    induction texts with
    | nil => simp [Text.join]
    | cons text more inductionHypothesis =>
      cases more with
      | nil => simp [Text.join]
      | cons next more => simp [Text.join, inductionHypothesis]
  unfold Usable Path.toText
  split
  · rename_i nothing
    have none : path.names = [] := by
      simpa using (Bool.and_eq_true_iff.mp nothing).2
    simp [none]
  · simp [joined]

/-- The directory of a path that can be used. -/
theorem Usable.parent (usable : Usable path) : Usable path.parent :=
  usable_iff.mpr fun name member => usable_iff.mp usable name (List.dropLast_subset _ member)

/-! ## Following names where no file is in the way -/

/-- No file stands where names lead through. -/
def Unblocked (disk : Disk) (location : Location) (names : List String) : Prop :=
  ∀ front, front <+: names → ∀ bytes, disk.node? (lead location front) ≠ some (.file bytes)

/-- Nor on the first part of the way. -/
theorem Unblocked.front {front : List String} (unblocked : disk.Unblocked location names)
    (isFront : front <+: names) : disk.Unblocked location front :=
  fun before isBefore => unblocked before (isBefore.trans isFront)

/-- Nor on the rest of it. -/
theorem Unblocked.later {name : String} (unblocked : disk.Unblocked location (name :: names)) :
    disk.Unblocked (step location name) names :=
  fun front isFront => unblocked (name :: front) ((List.prefix_cons_inj name).mpr isFront)

/-- Going on to where something is. -/
theorem walk_cons {name : String} (here : disk.node? location = some .directory)
    (there : (disk.node? (step location name)).isSome = true) :
    disk.walk location (name :: names) = disk.walk (step location name) names := by
  rw [walk, here]
  unfold step at there ⊢
  by_cases blank : (name = "" || name = ".") = true
  · simp only [if_pos blank]
  · by_cases above : name = ".."
    · simp [above]
    · rw [if_neg blank, if_neg above] at there
      simp only [if_neg blank, if_neg above, if_pos there]

/-- Only a name that leads down can lead to nothing. -/
theorem step_of_missing {name : String} (housed : disk.Housed location)
    (missing : disk.node? (step location name) = none) :
    step location name = location ++ [name] := by
  unfold step at missing ⊢
  split
  · rename_i blank
    rw [if_pos blank, housed location List.prefix_rfl] at missing
    cases missing
  · split
    · rename_i notBlank above
      rw [if_neg notBlank, if_pos above, housed.dropLast _ List.prefix_rfl] at missing
      cases missing
    · rfl

/-- Where nothing is the way ends. -/
theorem walk_missing {name : String} (housed : disk.Housed location)
    (missing : disk.node? (step location name) = none) :
    disk.walk location (name :: names) = .error .notFound := by
  have here := housed location List.prefix_rfl
  have down := step_of_missing housed missing
  have length := congrArg List.length down
  rw [down] at missing
  rw [walk, here]
  unfold step at length
  split at length
  · simp at length
  · split at length
    · simp only [List.length_dropLast, List.length_append, List.length_singleton] at length
      omega
    · rename_i notBlank notAbove
      simp only [if_neg notBlank, if_neg notAbove, missing]
      rfl

/-- A directory that a name leads to has directories above it. -/
theorem Housed.step {name : String} (housed : disk.Housed location)
    (there : disk.node? (step location name) = some .directory) :
    disk.Housed (Disk.step location name) := by
  unfold Disk.step at there ⊢
  split
  · exact housed
  · split
    · exact housed.dropLast
    · rename_i notBlank notAbove
      rw [if_neg notBlank, if_neg notAbove] at there
      exact Housed.down (List.dropLast_concat.symm ▸ housed) there

/-- Names either lead through directories, or something on the way is missing. -/
theorem opens_or_missing (housed : disk.Housed location) (unblocked : disk.Unblocked location names) :
    disk.Opens location names ∨ disk.walk location names = .error .notFound := by
  induction names generalizing location with
  | nil =>
    refine .inl fun front isFront => ?_
    rw [List.prefix_nil.mp isFront]
    exact housed location List.prefix_rfl
  | cons name names inductionHypothesis =>
    have here := housed location List.prefix_rfl
    cases next : disk.node? (step location name) with
    | none => exact .inr (walk_missing housed next)
    | some node =>
      cases node with
      | file bytes => exact absurd next (unblocked [name] (List.prefix_append [name] names) bytes)
      | directory =>
        rw [walk_cons here (next ▸ rfl)]
        exact (inductionHypothesis (housed.step next) unblocked.later).imp_left
          fun opens => opens_cons.mpr ⟨here, opens⟩

/-- Pieces in front of the names that lead nowhere else make no difference in a directory. -/
theorem walk_blanks (areBlank : ∀ blank ∈ blanks, blank = "" ∨ blank = ".")
    (here : disk.node? location = some .directory) :
    disk.walk location (blanks ++ names) = disk.walk location names := by
  induction blanks with
  | nil => rfl
  | cons blank blanks inductionHypothesis =>
    obtain ⟨isBlank, later⟩ := List.forall_mem_cons.mp areBlank
    have stays : (blank = "" || blank = ".") = true := by simpa using isBlank
    rw [List.cons_append, walk, here]
    simp only [stays, if_true]
    exact inductionHypothesis later

section

variable (named : ∀ name ∈ path.names, PieceName name) (usable : Usable path)
  (housed : disk.Housed (disk.start path))

include named usable housed

/-- A path from a directory is looked up by its names. -/
theorem locate_eq_walk :
    disk.locate path.toText = disk.walk (disk.start path) path.names := by
  obtain ⟨blanks, areBlank, split⟩ := Path.pieces_toText named
  have filled : path.toText.isEmpty = false := by
    simpa using Path.toText_filled named
  have free : ¬ path.toText.contains '\x00' = true := fun has => usable (List.contains_iff_mem.mp has)
  unfold locate checkPath
  rw [if_neg free, filled, startOf_toText named, split]
  exact walk_blanks areBlank (housed _ List.prefix_rfl)

/-- A path through directories leads to a directory. -/
theorem look_of_opens (opens : disk.Opens (disk.start path) path.names) :
    disk.look path.toText = .ok .directory := by
  unfold look
  rw [locate_eq_walk named usable housed, walk_of_opens opens]
  simp only [bind, Except.bind, opens.end]
  rfl

/-- What a path leads to where no file is in the way: a directory, or nothing. -/
theorem look_of_unblocked (unblocked : disk.Unblocked (disk.start path) path.names) :
    disk.Opens (disk.start path) path.names ∨ disk.look path.toText = .error .notFound := by
  refine (opens_or_missing housed unblocked).imp_right fun missing => ?_
  unfold look
  rw [locate_eq_walk named usable housed, missing]
  rfl

end

/-! ## Making directories -/

/-- Where names lead through directories there are directories above. -/
theorem Housed.lead (housed : disk.Housed location) (opens : disk.Opens location names) :
    disk.Housed (Disk.lead location names) := by
  induction names generalizing location with
  | nil => exact housed
  | cons name names inductionHypothesis =>
    obtain ⟨-, later⟩ := opens_cons.mp opens
    exact inductionHypothesis (housed.step (later [] List.nil_prefix)) later

/-- A way through directories goes on by one name if and only if this leads to a directory. -/
theorem opens_concat {front : List String} {last : String} :
    disk.Opens location (front ++ [last]) ↔ disk.Opens location front ∧
      disk.node? (step (lead location front) last) = some .directory := by
  rw [opens_append]
  refine and_congr_right fun opens => ?_
  rw [opens_cons]
  refine ⟨fun ⟨_, there⟩ => there [] List.nil_prefix, fun there => ⟨opens.end, ?_⟩⟩
  intro before isBefore
  rw [List.prefix_nil.mp isBefore]
  exact there

/-- A directory is made in the one above it, unless there is something. -/
theorem makeDirectory_run (named : ∀ name ∈ path.names, PieceName name) (usable : Usable path) :
    disk.makeDirectory path.toText = atPath path.toText
      (match disk.look path.toText with
      | .ok _ => .error .exists
      | .error _ => do
        let above ← disk.walk (disk.start path) path.names.dropLast
        match disk.node? above with
        | some .directory => return disk.put (above ++ [path.name]) .directory
        | _ => throw .notDirectory) := by
  have free : ¬ path.toText.contains '\x00' = true := fun has => usable (List.contains_iff_mem.mp has)
  unfold makeDirectory checkPath has
  rw [if_neg free, Path.names_ofText_toText named, startOf_toText named]
  cases disk.look path.toText <;> rfl

/-- What comes of making a directory on a way that no file blocks. -/
inductive MakesDirectory (disk : Disk) (path : Path) : Except FileError Disk → Prop where
  /-- It is there already. -/
  | exists (opens : disk.Opens (disk.start path) path.names)
      (isDirectory : disk.hasDirectory path.toText = true) :
      MakesDirectory disk path (.error ⟨.exists, path.toText⟩)
  /-- It is made. -/
  | made {after : Disk} (opens : after.Opens (disk.start path) path.names) :
      MakesDirectory disk path (.ok after)
  /-- A directory above it is missing. -/
  | missing (above : ¬ disk.Opens (disk.start path) path.parent.names) (named : path.names ≠ []) :
      MakesDirectory disk path (.error ⟨.notFound, path.toText⟩)

/-- Growing leaves a way without files one, if no file is written on it. -/
theorem Unblocked.grow {made written : Location → Prop} {after : Disk}
    (unblocked : disk.Unblocked location names) (proper : Proper location)
    (named : ∀ name ∈ names, PieceName name) (grows : Grows made written disk after)
    (unwritten : ∀ front, front <+: names → ¬ written (Disk.lead location front)) :
    after.Unblocked location names := by
  intro front isFront bytes there
  have frontProper := proper_lead proper fun name member => named name (isFront.subset member)
  exact unblocked front isFront bytes (grows.was frontProper (unwritten front isFront) there)

/-- What is above a location stays directories while the files grow. -/
theorem Housed.grow {made written : Location → Prop} {after : Disk} (housed : disk.Housed location)
    (proper : Proper location) (grows : Grows made written disk after) : after.Housed location :=
  fun above isAbove =>
    grows.directories above (fun name member => proper name (isAbove.subset member))
      (housed above isAbove)

section

variable (proper : Proper (disk.start path)) (named : ∀ name ∈ path.names, PieceName name)
  (usable : Usable path) (housed : disk.Housed (disk.start path))
  (unblocked : disk.Unblocked (disk.start path) path.names)

include proper named usable housed unblocked

/-- A directory that was made is one. -/
theorem opens_of_made {after : Disk} (made : disk.makeDirectory path.toText = .ok after) :
    after.Opens (disk.start path) path.names := by
  obtain ⟨-, absent, opens, isAfter⟩ := of_makeDirectory named made
  have grows := makeDirectory_grows named made
  have notThere : ¬ disk.Opens (disk.start path) path.names := by
    intro opens
    rw [has, look_of_opens named usable housed opens] at absent
    cases absent
  rcases List.eq_nil_or_concat path.names with none | ⟨front, last, split⟩
  · rw [none] at notThere
    exact absurd (fun front isFront => List.prefix_nil.mp isFront ▸ housed _ List.prefix_rfl) notThere
  rw [List.concat_eq_append] at split
  have lastName : path.name = last := by
    rw [Path.name, split, List.getLast?_concat]
    rfl
  rw [split, List.dropLast_concat, lastName] at isAfter
  rw [split, List.dropLast_concat] at opens
  rw [split] at named unblocked notThere ⊢
  have opensAfter : after.Opens (disk.start path) front :=
    grows.opens proper (fun name member => named name (List.mem_append_left _ member)) opens
  refine opens_concat.mpr ⟨opensAfter, ?_⟩
  cases next : disk.node? (step (lead (disk.start path) front) last) with
  | some node =>
    cases node with
    | directory => exact absurd (opens_concat.mpr ⟨opens, next⟩) notThere
    | file bytes =>
      have place : lead (disk.start path) (front ++ [last]) = step (lead (disk.start path) front) last :=
        lead_append _ front [last]
      exact absurd next (place ▸ unblocked _ List.prefix_rfl bytes)
  | none =>
    have down := step_of_missing (housed.lead opens) next
    rw [down, isAfter]
    exact node?_put_self (by simp)

/-- Making a directory on a way that no file blocks fails only if it is there or one above it is
missing. -/
theorem makesDirectory : MakesDirectory disk path (disk.makeDirectory path.toText) := by
  cases made : disk.makeDirectory path.toText with
  | ok after => exact .made (opens_of_made proper named usable housed unblocked made)
  | error error =>
    rw [makeDirectory_run named usable] at made
    rcases look_of_unblocked named usable housed unblocked with opens | missing
    · have looked := look_of_opens named usable housed opens
      have isDirectory : disk.hasDirectory path.toText = true := by
        rw [hasDirectory, looked]
      rw [looked] at made
      cases made
      exact .exists opens isDirectory
    rw [missing] at made
    rcases opens_or_missing housed (unblocked.front (List.dropLast_prefix _)) with
      opens | missingAbove
    · simp only [walk_of_opens opens, bind, Except.bind, opens.end] at made
      cases made
    · rw [missingAbove] at made
      cases made
      refine .missing ?_ ?_
      · intro opens
        cases (walk_of_opens opens).symm.trans missingAbove
      · intro none
        rw [none] at missingAbove
        cases missingAbove

/-- On a way that no file blocks all directories can be made.

The induction is on the names: a directory that cannot be made for want of the one above it can be
made, or is there, once the one above it is. -/
theorem makeDirectoriesWith_total {fuel : Nat} (enough : path.names.length < fuel) :
    ∃ after, disk.makeDirectoriesWith path fuel = .ok after ∧
      after.Opens (disk.start path) path.names := by
  induction fuel generalizing path with
  | zero => omega
  | succ fuel inductionHypothesis =>
    rw [makeDirectoriesWith]
    have here := makesDirectory proper named usable housed unblocked
    generalize disk.makeDirectory path.toText = result at here
    cases here with
    | «exists» opens isDirectory =>
      refine ⟨disk, ?_, opens⟩
      simp [isDirectory]
    | made opens => exact ⟨_, rfl, opens⟩
    | missing above filled =>
      have hasParent : path.parent ≠ path := by
        intro same
        have length := congrArg (fun path => path.names.length) same
        have filled := List.length_pos_iff.mpr filled
        simp only [Path.parent, List.length_dropLast] at length
        omega
      have isParent : path.parent.names <+: path.names := List.dropLast_prefix _
      have namedAbove : ∀ name ∈ path.parent.names, PieceName name := fun name member =>
        named name (isParent.subset member)
      have shorter : path.parent.names.length < fuel := by
        have filled := List.length_pos_iff.mpr filled
        simp only [Path.parent, List.length_dropLast]
        omega
      obtain ⟨middle, madeAbove, opensAbove⟩ :=
        @inductionHypothesis path.parent proper namedAbove usable.parent housed
          (unblocked.front isParent) shorter
      have grows := makeDirectoriesWith_grows namedAbove madeAbove
      have start : middle.start path = disk.start path := start_congr grows.current path
      have there : MakesDirectory middle path (middle.makeDirectory path.toText) := by
        refine makesDirectory ?_ named usable ?_ ?_ <;> rw [start]
        · exact proper
        · exact housed.grow proper grows
        · exact unblocked.grow proper named grows fun _ _ => id
      have goesUp : (decide True && path.parent != path) = true := by simpa using hasParent
      simp only [goesUp, if_true, madeAbove, bind, Except.bind]
      generalize middle.makeDirectory path.toText = result at there
      cases there with
      | «exists» opens isDirectory =>
        refine ⟨middle, ?_, start ▸ opens⟩
        simp [isDirectory]
      | made opens => exact ⟨_, rfl, start ▸ opens⟩
      | missing above => exact absurd (start.symm ▸ opensAbove) above

end

/-! ## Room for files -/

/-- The location that a path leads to, if its last name leads down. -/
def target (disk : Disk) (path : Path) : Location :=
  lead (disk.start path) path.names.dropLast ++ [path.name]

/-- It depends on the working directory alone. -/
theorem target_congr (same : after.current = disk.current) (path : Path) :
    after.target path = disk.target path := by
  rw [target, start_congr same, target]

/-- This is the location that a path reaches. -/
theorem Reaches.target (reaches : disk.Reaches path location) :
    EndsIn path path.names.dropLast path.name ∧ disk.target path = location := by
  obtain ⟨last, ends, rfl⟩ := reaches
  have same : path.name = last := by
    rw [Path.name, ends.names, List.getLast?_concat]
    rfl
  rw [Disk.target, same]
  exact ⟨ends, rfl⟩

/-- What was there is there when a file was written. -/
theorem Reaches.has_grow {made : Location → Prop} {other : Location}
    (reaches : disk.Reaches path location) (start : Proper (disk.start path))
    (grows : Grows made (· = other) disk after) (isFile : after.node? other = some (.file bytes))
    (there : disk.has path.toText = true) : after.has path.toText = true := by
  obtain ⟨entered, node, isNode⟩ := reaches.has_iff.mp there
  refine (reaches.of_current grows.current).has_iff.mpr ⟨reaches.entered start grows entered, ?_⟩
  by_cases same : location = other
  · exact ⟨_, same ▸ isFile⟩
  · exact ⟨node, grows.keeps (reaches.proper start) same isNode⟩

/-- Files can be written at some paths, one after the other: no file stands on the way to them, no
directory in their place, and none of them is on the way to another. -/
structure Room (disk : Disk) (paths : List Path) : Prop where
  usable : ∀ path ∈ paths, Usable path
  unblocked : ∀ path ∈ paths, disk.Unblocked (disk.start path) path.parent.names
  notDirectory : ∀ path ∈ paths, disk.node? (disk.target path) ≠ some .directory
  apart : ∀ path ∈ paths, ∀ other ∈ paths, ∀ front, front <+: path.parent.names →
    lead (disk.start path) front ≠ disk.target other

/-- A path starts at a directory with proper names and directories above it. -/
theorem Grounded.start (grounded : disk.Grounded) (path : Path) :
    Proper (disk.start path) ∧ disk.Housed (disk.start path) := by
  unfold Disk.start
  split
  · exact ⟨grounded.proper, grounded.housed⟩
  · exact ⟨List.forall_mem_nil _, disk.housed_root⟩

/-- The working directory is still there when the files have grown. -/
theorem Grounded.grow {made written : Location → Prop} (grounded : disk.Grounded)
    (grows : Grows made written disk after) : after.Grounded where
  proper := grows.current.symm ▸ grounded.proper
  housed := grows.current.symm ▸ grounded.housed.grow grounded.proper grows

/-- A file can be written where all directories on the way are there and no directory is in its
place. -/
theorem write_total {front : List String} {last : String} (ends : EndsIn path front last)
    (usable : Usable path) (opens : disk.Opens (disk.start path) front)
    (notDirectory : disk.node? (lead (disk.start path) front ++ [last]) ≠ some .directory)
    (bytes : Bytes) : ∃ after, disk.write path.toText bytes = .ok after := by
  have located := (locateNew_eq_ok ends).mpr ⟨usable, opens, rfl⟩
  refine ⟨disk.put (lead (disk.start path) front ++ [last]) (.file bytes), ?_⟩
  rw [write, atPath_eq_ok, bind_eq_ok]
  refine ⟨_, located, ?_⟩
  split
  · exact absurd ‹_› notDirectory
  · rfl

section

variable {paths : List Path} (grounded : disk.Grounded)
  (ends : ∀ path ∈ paths, EndsIn path path.names.dropLast path.name)

include grounded ends

/-- The location that a path with a proper last name leads to has proper names. -/
theorem proper_target (member : path ∈ paths) : Proper (disk.target path) :=
  List.forall_mem_append.mpr ⟨proper_lead (grounded.start path).1 (ends path member).named,
    List.forall_mem_singleton.mpr (ends path member).proper⟩

/-- No file stands where a directory is made on the way to another. -/
theorem Room.not_passed {other : Path} (room : disk.Room paths) (member : path ∈ paths)
    (isOther : other ∈ paths) : ¬ disk.Passed path.parent (disk.target other) := by
  rintro ⟨front, name, passed, place⟩
  have isName : ProperName name := proper_target grounded ends isOther name
    (place ▸ List.mem_append_right _ (List.mem_singleton_self name))
  have down : lead (disk.start path) (front ++ [name]) = disk.target other := by
    rw [place, lead_append]
    exact step_proper isName _
  exact room.apart path member other isOther _ passed down

/-- Where there is room for files, there still is when one of them was written. -/
theorem Room.grow (room : disk.Room paths) (member : path ∈ paths)
    (grows : Grows (disk.Passed path.parent) (· = disk.target path) disk after)
    (isFile : after.node? (disk.target path) = some (.file bytes)) : after.Room paths := by
  have start (path : Path) : after.start path = disk.start path := start_congr grows.current path
  have target (path : Path) : after.target path = disk.target path := target_congr grows.current path
  constructor
  case usable => exact room.usable
  case unblocked =>
    intro other isOther
    rw [start]
    refine (room.unblocked other isOther).grow (grounded.start other).1 (ends other isOther).named
      grows fun front isFront => room.apart other isOther path member front isFront
  case notDirectory =>
    intro other isOther
    rw [target]
    by_cases same : disk.target other = disk.target path
    · rw [same, isFile]
      nofun
    rcases grows.nodes _ (proper_target grounded ends isOther) same with kept | ⟨-, -, passed⟩
    · rw [kept]
      exact room.notDirectory other isOther
    · exact absurd passed (room.not_passed grounded ends member isOther)
  case apart =>
    intro path member other isOther front isFront
    rw [start, target]
    exact room.apart path member other isOther front isFront

/-- Where there is room for files, each of them can be written, and leaves room for the others. -/
theorem Room.write (room : disk.Room paths) (member : path ∈ paths) (bytes : Bytes) :
    ∃ middle after, disk.makeDirectories path.parent = .ok middle ∧
      middle.write path.toText bytes = .ok after ∧ after.Room paths ∧
      Grows (disk.Passed path.parent) (· = disk.target path) disk after ∧
      after.node? (disk.target path) = some (.file bytes) ∧
      after.read path.toText = .ok bytes := by
  have pathEnds := ends path member
  obtain ⟨proper, housed⟩ := grounded.start path
  obtain ⟨middle, made, opens⟩ := @makeDirectoriesWith_total disk path.parent proper pathEnds.named
    (room.usable path member).parent housed (room.unblocked path member) _ (Nat.lt_succ_self _)
  have makes := makeDirectories_grows pathEnds.named made
  have start : middle.start path = disk.start path := start_congr makes.current path
  have place : middle.target path = disk.target path := target_congr makes.current path
  have notDirectory : middle.node? (middle.target path) ≠ some .directory := by
    rw [place]
    rcases makes.nodes _ (proper_target grounded ends member) id with kept | ⟨-, -, passed⟩
    · rw [kept]
      exact room.notDirectory path member
    · exact absurd passed (room.not_passed grounded ends member member)
  obtain ⟨after, wrote⟩ :=
    write_total pathEnds (room.usable path member) (start.symm ▸ opens) notDirectory bytes
  have writes : Grows _ (· = middle.target path) middle after := write_grows pathEnds wrote
  rw [place] at writes
  have isFile : after.node? (disk.target path) = some (.file bytes) := by
    obtain ⟨-, -, -, rfl⟩ := of_write pathEnds wrote
    rw [← place]
    exact node?_put_self (by simp)
  have grows := makes.then writes
  have startAfter : after.start path = disk.start path := start_congr grows.current path
  have opensAfter : after.Opens (disk.start path) path.parent.names :=
    writes.opens proper pathEnds.named opens
  have read : after.read path.toText = .ok bytes := by
    refine (read_eq_ok pathEnds).mpr ⟨room.usable path member, ?_, ?_⟩ <;> rw [startAfter]
    · exact opensAfter
    · exact isFile
  exact ⟨middle, after, made, wrote, room.grow grounded ends member grows isFile, grows, isFile,
    read⟩

end

end TemplHighlight.Disk
