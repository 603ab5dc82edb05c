import TemplHighlight.Proofs.Files.Disk

/-!
# How files change

Making directories adds some at locations that the path leads through, and changes nothing that is
there. Writing a file changes one node. Removing takes nodes away and changes none of the others.
-/

namespace TemplHighlight.Disk

open Outcome

variable {disk middle after : Disk} {location other : Location} {node : Node} {path : Path}
  {made written made' written' : Location → Prop}

/-! ## One node -/

/-- A location is looked up in the first entry, and then in the others. -/
theorem lookup_cons_if (there : Location) (old : Node) (nodes : List (Location × Node))
    (other : Location) :
    ((there, old) :: nodes).lookup other =
      if other = there then some old else nodes.lookup other := by
  rw [List.lookup_cons]
  by_cases same : other = there
  · simp [same]
  · have differ : (other == there) = false := by
      simpa using same
    simp [same, differ]

/-- Where a node was put it is found, and elsewhere what was found before. -/
theorem lookup_put (location : Location) (node : Node) (nodes : List (Location × Node))
    (other : Location) :
    (put.go location node nodes).lookup other =
      if other = location then some node else nodes.lookup other := by
  induction nodes with
  | nil => exact lookup_cons_if location node [] other
  | cons entry nodes inductionHypothesis =>
    obtain ⟨there, old⟩ := entry
    rw [put.go, lookup_cons_if there old]
    split
    · rename_i here
      rw [lookup_cons_if, here]
      split <;> rfl
    · rename_i elsewhere
      rw [lookup_cons_if, inductionHypothesis]
      split
      · rename_i same
        rw [if_neg (same ▸ elsewhere)]
      · rfl

/-- What was put at a location is there. -/
theorem node?_put_self (filled : location ≠ []) :
    (disk.put location node).node? location = some node := by
  simp [node?, put, filled, lookup_put]

/-- Nothing changes at other locations. -/
theorem node?_put_other (apart : other ≠ location) :
    (disk.put location node).node? other = disk.node? other := by
  simp [node?, put, apart, lookup_put]

/-- Only what was put is new. -/
theorem mem_put {entry : Location × Node} (listed : entry ∈ (disk.put location node).nodes) :
    entry = (location, node) ∨ entry ∈ disk.nodes := by
  have go (nodes : List (Location × Node)) (listed : entry ∈ put.go location node nodes) :
      entry = (location, node) ∨ entry ∈ nodes := by
    induction nodes with
    | nil => exact .inl (List.mem_singleton.mp listed)
    | cons first nodes inductionHypothesis =>
      rw [put.go] at listed
      split at listed
      · rename_i here
        rcases List.mem_cons.mp listed with rfl | later
        · exact .inl (by rw [here])
        · exact .inr (List.mem_cons_of_mem _ later)
      · rcases List.mem_cons.mp listed with rfl | later
        · exact .inr List.mem_cons_self
        · exact (inductionHypothesis later).imp_right (List.mem_cons_of_mem _)
  exact go disk.nodes listed

/-- A file that is found is listed. -/
theorem mem_of_node? {bytes : Bytes} (found : disk.node? location = some (.file bytes)) :
    (location, .file bytes) ∈ disk.nodes := by
  unfold node? at found
  split at found
  · cases found
  · obtain ⟨front, back, split, -⟩ := List.lookup_eq_some_iff.mp found
    rw [split]
    exact List.mem_append_right _ List.mem_cons_self

/-! ## Directories that are made -/

/-- All names on the way to a location are proper. -/
def Proper (location : Location) : Prop := ∀ name ∈ location, ProperName name

instance (location : Location) : Decidable (Proper location) :=
  inferInstanceAs (Decidable (∀ name ∈ location, ProperName name))

/-- The names of a path lead along proper names, if it starts at such a location. -/
theorem proper_lead {names : List String} (proper : Proper location)
    (named : ∀ name ∈ names, PieceName name) : Proper (lead location names) := by
  induction names generalizing location with
  | nil => exact proper
  | cons name names inductionHypothesis =>
    obtain ⟨isName, later⟩ := List.forall_mem_cons.mp named
    have next : Proper (step location name) := by
      unfold step
      split
      · exact proper
      · split
        · exact fun name member => proper name (List.dropLast_subset _ member)
        · rename_i notAbove
          exact List.forall_mem_append.mpr
            ⟨proper, List.forall_mem_singleton.mpr ⟨isName, notAbove⟩⟩
    exact inductionHypothesis next later

/-- A disk has grown into another one: new are directories at locations of one kind, and files that
were written at locations of another. All else is as it was, and directories stay directories. -/
structure Grows (made written : Location → Prop) (disk after : Disk) : Prop where
  current : after.current = disk.current
  nodes : ∀ location, Proper location → ¬ written location →
    after.node? location = disk.node? location ∨
      disk.node? location = none ∧ after.node? location = some .directory ∧ made location
  directories : ∀ location, Proper location → disk.node? location = some .directory →
    after.node? location = some .directory
  files : ∀ location bytes, (location, .file bytes) ∈ after.nodes →
    (location, .file bytes) ∈ disk.nodes ∨ written location

/-- A disk on which nothing happens has grown into itself. -/
theorem Grows.refl : Grows made written disk disk :=
  ⟨rfl, fun _ _ _ => .inl rfl, fun _ _ => id, fun _ _ => .inl⟩

/-- Growing twice is growing. -/
theorem Grows.trans (first : Grows made written disk middle)
    (second : Grows made written middle after) : Grows made written disk after := by
  refine ⟨second.current.trans first.current, fun location proper unwritten => ?_,
    fun location proper there => second.directories location proper
      (first.directories location proper there), fun location bytes listed => ?_⟩
  · rcases second.nodes location proper unwritten with same | ⟨absent, directory, isMade⟩
    · rw [same]
      exact first.nodes location proper unwritten
    · rcases first.nodes location proper unwritten with same | ⟨-, there, -⟩
      · exact .inr ⟨same ▸ absent, directory, isMade⟩
      · rw [absent] at there
        cases there
  · rcases second.files location bytes listed with old | new
    · exact first.files location bytes old
    · exact .inr new

/-- It may be forgotten where exactly something was made or written. -/
theorem Grows.mono (grows : Grows made written disk after)
    (makes : ∀ location, made location → made' location)
    (writes : ∀ location, written location → written' location) :
    Grows made' written' disk after := by
  refine ⟨grows.current, fun location proper unwritten => ?_, grows.directories,
    fun location bytes listed => (grows.files location bytes listed).imp_right (writes location)⟩
  have unwritten' : ¬ written location := fun isWritten => unwritten (writes location isWritten)
  exact (grows.nodes location proper unwritten').imp_right fun ⟨absent, directory, isMade⟩ => ⟨absent, directory, makes location isMade⟩

/-- Directories are made, and then files are written. -/
theorem Grows.then (makes : Grows made (fun _ => False) disk middle)
    (writes : Grows (fun _ => False) written middle after) : Grows made written disk after :=
  (makes.mono (fun _ => id) fun _ => False.elim).trans
    (writes.mono (fun _ => False.elim) fun _ => id)

/-- Where something is and nothing was written, nothing changes. -/
theorem Grows.keeps (grows : Grows made written disk after) (proper : Proper location)
    (unwritten : ¬ written location) (there : disk.node? location = some node) :
    after.node? location = some node := by
  rcases grows.nodes location proper unwritten with same | ⟨absent, -, -⟩
  · rw [same, there]
  · rw [absent] at there
    cases there

/-- A file that is where nothing was written was there before. -/
theorem Grows.was {bytes : Bytes} (grows : Grows made written disk after)
    (proper : Proper location) (unwritten : ¬ written location)
    (there : after.node? location = some (.file bytes)) :
    disk.node? location = some (.file bytes) := by
  rcases grows.nodes location proper unwritten with same | ⟨-, directory, -⟩
  · rw [← same, there]
  · rw [there] at directory
    cases directory

/-- A way through directories stays one. -/
theorem Grows.opens {names : List String} (grows : Grows made written disk after)
    (proper : Proper location) (named : ∀ name ∈ names, PieceName name)
    (opens : disk.Opens location names) : after.Opens location names := by
  intro front isFront
  exact grows.directories _ (proper_lead proper fun name member =>
    named name (isFront.subset member)) (opens front isFront)

/-- The locations that a path leads through, and the one that it leads to. -/
def Passed (disk : Disk) (path : Path) (location : Location) : Prop :=
  ∃ front name, front ++ [name] <+: path.names ∧ location = lead (disk.start path) front ++ [name]

/-- What the directory of a path leads through, the path leads through. -/
theorem Passed.of_parent (passed : disk.Passed path.parent location) :
    disk.Passed path location := by
  obtain ⟨front, name, isFront, place⟩ := passed
  exact ⟨front, name, isFront.trans (List.dropLast_prefix _), place⟩

/-- What a path leads through depends on the working directory alone. -/
theorem Passed.of_current (passed : after.Passed path location)
    (same : after.current = disk.current) : disk.Passed path location := by
  obtain ⟨front, name, isFront, place⟩ := passed
  exact ⟨front, name, isFront, start_congr same path ▸ place⟩

/-- Making a directory adds it where the path leads to. -/
theorem makeDirectory_grows (named : ∀ name ∈ path.names, PieceName name)
    (made : disk.makeDirectory path.toText = .ok after) :
    Grows (Passed disk path) (fun _ => False) disk after := by
  obtain ⟨usable, absent, opens, rfl⟩ := of_makeDirectory named made
  have filled : lead (disk.start path) path.names.dropLast ++ [path.name] ≠ [] := by simp
  refine ⟨rfl, fun location proper _ => ?_, fun location _ there => ?_,
    fun location bytes listed => ?_⟩
  · by_cases here : location = lead (disk.start path) path.names.dropLast ++ [path.name]
    · subst here
      have ends : EndsIn path path.names.dropLast path.name :=
        ends_of_name named (proper _ (List.mem_append_right _ (List.mem_singleton_self _)))
      refine .inr ⟨?_, node?_put_self filled, path.names.dropLast, path.name,
        ends.names ▸ List.prefix_rfl, rfl⟩
      refine Option.eq_none_iff_forall_ne_some.mpr fun node found => ?_
      rw [(has_iff ends).mpr ⟨node, usable, opens, found⟩] at absent
      cases absent
    · exact .inl (node?_put_other here)
  · by_cases here : location = lead (disk.start path) path.names.dropLast ++ [path.name]
    · rw [here]
      exact node?_put_self filled
    · rw [node?_put_other here, there]
  · rcases mem_put listed with same | old
    · cases same
    · exact .inl old

/-- Making the directories of a path adds some of those that it leads through. -/
theorem makeDirectoriesWith_grows {fuel : Nat} (named : ∀ name ∈ path.names, PieceName name)
    (made : disk.makeDirectoriesWith path fuel = .ok after) :
    Grows (Passed disk path) (fun _ => False) disk after := by
  induction fuel generalizing path after with
  | zero => cases made
  | succ fuel inductionHypothesis =>
    rw [makeDirectoriesWith] at made
    split at made
    · rename_i madeHere
      cases made
      exact makeDirectory_grows named madeHere
    · split at made
      · rw [bind_eq_ok] at made
        obtain ⟨middle, above, made⟩ := made
        have namedAbove : ∀ name ∈ path.parent.names, PieceName name := fun name member =>
          named name (List.dropLast_subset _ member)
        have firstGrows : Grows (Passed disk path) (fun _ => False) disk middle :=
          (inductionHypothesis namedAbove above).mono (fun _ => Passed.of_parent) fun _ => id
        split at made
        · rename_i madeHere
          cases made
          exact firstGrows.trans ((makeDirectory_grows named madeHere).mono
            (fun _ passed => passed.of_current firstGrows.current) fun _ => id)
        · split at made
          · cases made
            exact firstGrows
          · cases made
      · split at made
        · cases made
          exact .refl
        · cases made

/-- Making the directories of a path adds some of those that it leads through. -/
theorem makeDirectories_grows (named : ∀ name ∈ path.names, PieceName name)
    (made : disk.makeDirectories path = .ok after) :
    Grows (Passed disk path) (fun _ => False) disk after :=
  makeDirectoriesWith_grows named made

/-- Writing a file at a path adds it, or replaces the one that was there. -/
theorem write_grows {front : List String} {last : String} {bytes : Bytes}
    (ends : EndsIn path front last) (written : disk.write path.toText bytes = .ok after) :
    Grows (fun _ => False) (· = lead (disk.start path) front ++ [last]) disk after := by
  obtain ⟨-, -, notDirectory, rfl⟩ := of_write ends written
  refine ⟨rfl, fun location _ elsewhere => .inl (node?_put_other elsewhere),
    fun location _ there => ?_, fun location bytes listed => ?_⟩
  · have elsewhere : location ≠ lead (disk.start path) front ++ [last] := by
      rintro rfl
      exact notDirectory there
    rw [node?_put_other elsewhere, there]
  · rcases mem_put listed with same | old
    · cases same
      exact .inr rfl
    · exact .inl old

/-! ## What is removed -/

/-- A disk has shrunk to another one: what is left is as it was. -/
structure Shrinks (disk after : Disk) : Prop where
  current : after.current = disk.current
  nodes : ∀ location, after.node? location = disk.node? location ∨ after.node? location = none
  files : ∀ location bytes, (location, .file bytes) ∈ after.nodes →
    (location, .file bytes) ∈ disk.nodes

/-- The entries that are kept are found as before, and no others are. -/
theorem lookup_filter (keeps : Location → Bool) (nodes : List (Location × Node))
    (location : Location) :
    (nodes.filter fun entry => keeps entry.1).lookup location =
      if keeps location then nodes.lookup location else none := by
  induction nodes with
  | nil => simp
  | cons entry nodes inductionHypothesis =>
    obtain ⟨there, node⟩ := entry
    rw [List.filter_cons, lookup_cons_if]
    split
    · rename_i kept
      rw [lookup_cons_if, inductionHypothesis]
      split
      · rename_i same
        rw [if_pos (same ▸ kept)]
      · rfl
    · rename_i dropped
      rw [inductionHypothesis]
      split
      · rename_i kept
        have differ : location ≠ there := by
          rintro rfl
          exact dropped kept
        rw [if_neg differ]
      · rfl

/-- Removing only takes away. -/
theorem remove_shrinks {text : Text} (removed : disk.remove text = .ok after) :
    Shrinks disk after := by
  rw [remove, atPath_eq_ok, bind_eq_ok] at removed
  obtain ⟨-, -, removed⟩ := removed
  rw [bind_eq_ok] at removed
  obtain ⟨location, -, removed⟩ := removed
  cases removed
  refine ⟨rfl, fun other => ?_, fun other bytes listed => (List.mem_filter.mp listed).1⟩
  by_cases root : other = []
  · subst root
    exact .inl rfl
  · simp only [node?, List.isEmpty_iff, root, if_false]
    rw [lookup_filter fun there => !location.isPrefixOf there]
    split
    · exact .inl rfl
    · exact .inr rfl

end TemplHighlight.Disk
