import TemplHighlight.Proofs.Files.Changes
import TemplHighlight.Proofs.Files.Making

/-!
# Names without NUL

A file operation may fail for many causes, but for a NUL only if there is one in its path. No file
has one in its name, and none gets one: names come from paths, and a path with a NUL is refused.
-/

namespace TemplHighlight

namespace Text

/-- The characters of the pieces between marks are those of the text. -/
theorem mem_of_mem_splitAt {mark c : Char} {text piece : Text} (member : piece ∈ splitAt mark text)
    (inPiece : c ∈ piece) : c ∈ text := by
  induction text generalizing piece with
  | nil =>
    rw [List.mem_singleton.mp member] at inPiece
    cases inPiece
  | cons first text inductionHypothesis =>
    rw [splitAt] at member
    split at member
    · rcases List.mem_cons.mp member with rfl | later
      · cases inPiece
      · exact List.mem_cons_of_mem _ (inductionHypothesis later inPiece)
    · split at member
      · rw [List.mem_singleton.mp member, List.mem_singleton] at inPiece
        exact inPiece ▸ List.mem_cons_self
      · rename_i next more pieces
        rcases List.mem_cons.mp member with rfl | later
        · rcases List.mem_cons.mp inPiece with rfl | inNext
          · exact List.mem_cons_self
          · exact List.mem_cons_of_mem _
              (inductionHypothesis (pieces ▸ List.mem_cons_self) inNext)
        · exact List.mem_cons_of_mem _
            (inductionHypothesis (pieces ▸ List.mem_cons_of_mem _ later) inPiece)

end Text

/-- A name that a file can have: there is no NUL in it. -/
def UsableName (name : String) : Prop := '\x00' ∉ name.toList

instance (name : String) : Decidable (UsableName name) :=
  inferInstanceAs (Decidable ('\x00' ∉ name.toList))

/-- The pieces of a text without NUL. -/
theorem Path.usable_pieces {text : Text} (usable : '\x00' ∉ text) :
    ∀ name ∈ pieces text, UsableName name := by
  intro name member isNul
  obtain ⟨piece, isPiece, rfl⟩ := List.mem_map.mp member
  rw [String.toList_ofList] at isNul
  exact usable (Text.mem_of_mem_splitAt isPiece isNul)

/-- The names of a path that is read from such a text. -/
theorem Path.usable_ofText {text : Text} (usable : '\x00' ∉ text) :
    ∀ name ∈ (ofText text).names, UsableName name :=
  fun name member => usable_pieces usable name (List.mem_filter.mp member).1

namespace Disk

open Outcome

variable {α β : Type} {disk after : Disk} {location there : Location} {names : List String}
  {text : Text} {path : Path} {bytes : Bytes} {node : Node} {error : FileError}

/-! ## Causes -/

/-- A failure with the path as it was given. -/
theorem cause_of_atPath {result : Except FileCause α} (failed : atPath text result = .error error) :
    result = .error error.cause := by
  cases result with
  | ok value => cases failed
  | error cause =>
    cases failed
    rfl

/-- Steps that do not fail for a NUL, one after the other. -/
theorem bind_ne_unusable {step : Except FileCause β} {next : β → Except FileCause α}
    (first : step ≠ .error .unusable) (later : ∀ value, next value ≠ .error .unusable) :
    (step >>= next) ≠ .error .unusable := by
  cases step with
  | error cause =>
    rintro ⟨⟩
    exact first rfl
  | ok value => exact later value

/-- Going along names does not fail for a NUL. -/
theorem walk_ne_unusable : disk.walk location names ≠ .error .unusable := by
  induction names generalizing location with
  | nil => rintro ⟨⟩
  | cons name names inductionHypothesis =>
    rw [walk]
    split
    · split
      · exact inductionHypothesis
      · split
        · exact inductionHypothesis
        · split
          · exact inductionHypothesis
          · rintro ⟨⟩
    · rintro ⟨⟩
    · rintro ⟨⟩

section

variable (usable : '\x00' ∉ text)

include usable

/-- A path without NUL is not refused. -/
theorem checkPath_of_usable : checkPath text = .ok () :=
  if_neg fun has => usable (List.contains_iff_mem.mp has)

/-- Where a file is to be written, for a path without NUL. -/
theorem locateNew_eq :
    disk.locateNew text =
      if text.isEmpty then .error .notFound else
        match (Path.pieces text).reverse.dropWhile (· == "") with
        | [] => .error .isDirectory
        | name :: above => (do
          let directory ← disk.walk (disk.startOf text) above.reverse
          match disk.node? directory with
          | some .directory =>
            if name = "." || name = ".." || text.getLast? = some '/' then throw .isDirectory
            else return directory ++ [name]
          | _ => throw .notDirectory) := by
  unfold locateNew
  rw [checkPath_of_usable usable]
  rfl

/-- How a directory is made, for such a path. -/
theorem makeDirectory_eq :
    disk.makeDirectory text = atPath text
      (if disk.has text then .error .exists else do
        let names := (Path.ofText text).names
        let directory ← disk.walk (disk.startOf text) names.dropLast
        match disk.node? directory with
        | some .directory => .ok (disk.put (directory ++ [names.getLast?.getD ""]) .directory)
        | _ => .error .notDirectory) := by
  unfold makeDirectory
  rw [checkPath_of_usable usable]
  rfl

/-- Looking up a path without NUL does not fail for a NUL. -/
theorem look_ne_unusable : disk.look text ≠ .error .unusable := by
  unfold look locate
  rw [checkPath_of_usable usable]
  refine bind_ne_unusable (bind_ne_unusable (by rintro ⟨⟩) fun _ => ?_) fun found => ?_
  · split
    · rintro ⟨⟩
    · exact walk_ne_unusable
  · split <;> rintro ⟨⟩

/-- Nor does reading. -/
theorem read_cause (failed : disk.read text = .error error) : error.cause ≠ .unusable := by
  intro isNul
  have failed := cause_of_atPath failed
  rw [isNul] at failed
  refine bind_ne_unusable (look_ne_unusable usable) (fun node => ?_) failed
  cases node <;> rintro ⟨⟩

/-- Nor does writing. -/
theorem write_cause (failed : disk.write text bytes = .error error) : error.cause ≠ .unusable := by
  intro isNul
  have failed := cause_of_atPath failed
  rw [isNul] at failed
  refine bind_ne_unusable ?_ (fun there => ?_) failed
  · rw [locateNew_eq usable]
    split
    · rintro ⟨⟩
    · split
      · rintro ⟨⟩
      · refine bind_ne_unusable walk_ne_unusable fun directory => ?_
        split
        · split <;> rintro ⟨⟩
        · rintro ⟨⟩
  · split <;> rintro ⟨⟩

/-- Nor does making a directory. -/
theorem makeDirectory_cause (failed : disk.makeDirectory text = .error error) :
    error.cause ≠ .unusable := by
  intro isNul
  rw [makeDirectory_eq usable] at failed
  have failed := cause_of_atPath failed
  rw [isNul] at failed
  split at failed
  · cases failed
  · refine bind_ne_unusable walk_ne_unusable (fun directory => ?_) failed
    split <;> rintro ⟨⟩

end

/-- Nor does making all directories of a path. -/
theorem makeDirectoriesWith_cause {fuel : Nat} (usable : Usable path)
    (failed : disk.makeDirectoriesWith path fuel = .error error) : error.cause ≠ .unusable := by
  induction fuel generalizing path error with
  | zero =>
    cases failed
    rintro ⟨⟩
  | succ fuel inductionHypothesis =>
    rw [makeDirectoriesWith] at failed
    split at failed
    · cases failed
    · rename_i first notMade
      have ofFirst := makeDirectory_cause usable notMade
      split at failed
      · rcases bind_eq_error.mp failed with above | ⟨middle, -, failed⟩
        · exact inductionHypothesis usable.parent above
        · split at failed
          · cases failed
          · rename_i second notMade
            split at failed <;> cases failed
            exact makeDirectory_cause usable notMade
      · split at failed <;> cases failed
        exact ofFirst

/-! ## Names -/

/-- A disk on which every file can be named: there is no NUL in a name. -/
structure Addressable (disk : Disk) : Prop where
  current : ∀ name ∈ disk.current, UsableName name
  nodes : ∀ location node, (location, node) ∈ disk.nodes → ∀ name ∈ location, UsableName name

/-- Names lead to names that are among them or were there before. -/
theorem mem_lead {name : String} (member : name ∈ lead location names) :
    name ∈ location ∨ name ∈ names := by
  induction names generalizing location with
  | nil => exact .inl member
  | cons next names inductionHypothesis =>
    rcases inductionHypothesis member with before | later
    · unfold step at before
      split at before
      · exact .inl before
      · split at before
        · exact .inl (List.dropLast_subset _ before)
        · rcases List.mem_append.mp before with before | isNext
          · exact .inl before
          · exact .inr (List.mem_singleton.mp isNext ▸ List.mem_cons_self)
    · exact .inr (List.mem_cons_of_mem _ later)

namespace Addressable

/-- Where a path starts there is no NUL. -/
theorem startOf (addressable : disk.Addressable) (text : Text) :
    ∀ name ∈ disk.startOf text, UsableName name := by
  unfold Disk.startOf
  split
  · exact List.forall_mem_nil _
  · exact addressable.current

/-- Nor is there where a path without NUL leads to. -/
theorem walk (addressable : disk.Addressable) (usable : ∀ name ∈ names, UsableName name)
    (walked : disk.walk (disk.startOf text) names = .ok there) : ∀ name ∈ there, UsableName name := by
  intro name member
  rw [walk_eq_lead walked] at member
  rcases mem_lead member with before | isName
  · exact addressable.startOf text name before
  · exact usable name isName

/-- Putting something at a location without NUL brings none into a name. -/
theorem put (addressable : disk.Addressable) (usable : ∀ name ∈ location, UsableName name) :
    (disk.put location node).Addressable where
  current := addressable.current
  nodes other old listed := by
    rcases mem_put listed with same | before
    · cases same
      exact usable
    · exact addressable.nodes other old before

/-- Writing a file puts no NUL into a name. -/
theorem write (addressable : disk.Addressable) (usable : '\x00' ∉ text)
    (written : disk.write text bytes = .ok after) : after.Addressable := by
  rw [Disk.write, atPath_eq_ok, bind_eq_ok] at written
  obtain ⟨there, located, placed⟩ := written
  have fromPieces := Path.usable_pieces usable
  have usableThere : ∀ name ∈ there, UsableName name := by
    rw [locateNew_eq usable] at located
    split at located
    · cases located
    · split at located
      · cases located
      · rename_i last above reversed
        have kept : ∀ name ∈ last :: above, UsableName name := fun name member =>
          fromPieces name (List.mem_reverse.mp
            ((List.dropWhile_suffix _).subset (reversed ▸ member)))
        obtain ⟨ofLast, ofAbove⟩ := List.forall_mem_cons.mp kept
        obtain ⟨directory, walked, isThere⟩ := bind_eq_ok.mp located
        have ofDirectory := addressable.walk
          (fun name member => ofAbove name (List.mem_reverse.mp member)) walked
        split at isThere
        · split at isThere
          · cases isThere
          · cases isThere
            exact List.forall_mem_append.mpr ⟨ofDirectory, List.forall_mem_singleton.mpr ofLast⟩
        · cases isThere
  split at placed
  · cases placed
  · cases placed
    exact addressable.put usableThere

/-- Nor does making a directory. -/
theorem makeDirectory (addressable : disk.Addressable) (usable : '\x00' ∉ text)
    (made : disk.makeDirectory text = .ok after) : after.Addressable := by
  rw [makeDirectory_eq usable, atPath_eq_ok] at made
  have ofText := Path.usable_ofText usable
  split at made
  · cases made
  · obtain ⟨directory, walked, made⟩ := bind_eq_ok.mp made
    have ofDirectory := addressable.walk
      (fun name member => ofText name (List.dropLast_subset _ member)) walked
    have ofLast : UsableName ((Path.ofText text).names.getLast?.getD "") := by
      cases last : (Path.ofText text).names.getLast? with
      | none => decide
      | some name => exact ofText name (List.mem_of_getLast? last)
    split at made
    · cases made
      exact addressable.put
        (List.forall_mem_append.mpr ⟨ofDirectory, List.forall_mem_singleton.mpr ofLast⟩)
    · cases made

/-- Nor does making all directories of a path. -/
theorem makeDirectoriesWith {fuel : Nat} (addressable : disk.Addressable) (usable : Usable path)
    (made : disk.makeDirectoriesWith path fuel = .ok after) : after.Addressable := by
  induction fuel generalizing path after with
  | zero => cases made
  | succ fuel inductionHypothesis =>
    rw [Disk.makeDirectoriesWith] at made
    split at made
    · rename_i isMade
      cases made
      exact addressable.makeDirectory usable isMade
    · split at made
      · obtain ⟨middle, above, made⟩ := bind_eq_ok.mp made
        have ofMiddle := inductionHypothesis usable.parent above
        split at made
        · rename_i isMade
          cases made
          exact ofMiddle.makeDirectory usable isMade
        · split at made <;> cases made
          exact ofMiddle
      · split at made <;> cases made
        exact addressable

end Addressable

end Disk

end TemplHighlight
