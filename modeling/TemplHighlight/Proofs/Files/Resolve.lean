import TemplHighlight.Proofs.Files.Changes

/-!
# Paths that are resolved

A path can be resolved without the files: every `..` takes back the name in front of it. Followed on
a disk, the path goes from directory to directory instead; if it gets anywhere, it gets to where it
is resolved to. When that is a file, the last piece of the path is its name: an empty piece, a dot
and `..` lead to directories only.
-/

namespace TemplHighlight.Disk

open Outcome

variable {disk : Disk} {location there : Location} {name : String} {names : List String}
  {bytes : Bytes} {text : Text}

/-! ## Names that are taken back -/

/-- Taking names back one by one, as they are read from a path, leads to where the pieces of the
path lead. The names that are done are held in reverse. -/
theorem collapsed_eq_lead (location : Location) (names : List String) :
    (names.filter fun name => name != "" && name != ".").foldl
      (fun done name => if name = ".." then done.tail else name :: done) location.reverse =
      (lead location names).reverse := by
  induction names generalizing location with
  | nil => rfl
  | cons name names inductionHypothesis =>
    show _ = (lead (step location name) names).reverse
    rw [← inductionHypothesis, step, List.filter_cons]
    by_cases blank : name = "" ∨ name = "."
    · rcases blank with rfl | rfl <;> rfl
    · obtain ⟨filled, notDot⟩ := not_or.mp blank
      have kept : (name != "" && name != ".") = true := by simp [filled, notDot]
      have notBlank : ¬ (name = "" || name = ".") = true := by simp [filled, notDot]
      rw [if_pos kept, if_neg notBlank, List.foldl_cons]
      by_cases above : name = ".."
      · rw [if_pos above, if_pos above, List.tail_reverse]
      · rw [if_neg above, if_neg above, List.reverse_concat]

/-- The names of a location with proper names stay, when those behind them are taken back. -/
theorem collapse_append (proper : Proper location) (names : List String) :
    Path.collapse (location ++ names.filter fun name => name != "" && name != ".") =
      lead location names := by
  have kept : (location.filter fun name => name != "" && name != ".") = location := by
    refine List.filter_eq_self.mpr fun name member => ?_
    simp [(proper name member).filled, (proper name member).notDot]
  have down := collapsed_eq_lead [] location
  rw [kept, lead_proper proper, List.reverse_nil, List.nil_append] at down
  rw [Path.collapse, List.foldl_append, down, collapsed_eq_lead, List.reverse_reverse]

/-- A text starts with a slash or has none in front. -/
theorem leadingSlashes_eq_zero : Path.leadingSlashes text = 0 ↔ text.head? ≠ some '/' := by
  unfold Path.leadingSlashes
  split
  · simp
  · simp
  · simp
  · rename_i other
    refine iff_of_true rfl fun slashed => ?_
    obtain ⟨rest, same⟩ := List.head?_eq_some_iff.mp slashed
    exact other rest same

/-- A path is resolved to where its pieces lead. -/
theorem names_resolve (proper : Proper disk.current) (text : Text) :
    (Path.resolve disk.current (Path.ofText text)).names =
      lead (disk.startOf text) (Path.pieces text) := by
  unfold Path.resolve startOf
  by_cases slashed : text.head? = some '/'
  · have absolute : (Path.ofText text).slashes ≠ 0 := by
      intro relative
      exact leadingSlashes_eq_zero.mp relative slashed
    have fromRoot : Proper [] := nofun
    rw [if_neg absolute, if_pos slashed]
    exact collapse_append fromRoot (Path.pieces text)
  · have relative : (Path.ofText text).slashes = 0 := leadingSlashes_eq_zero.mpr slashed
    rw [if_pos relative, if_neg slashed]
    exact collapse_append proper (Path.pieces text)

/-! ## Directories above -/

/-- All that is above a location is directories, and so is what is there. -/
def Housed (disk : Disk) (location : Location) : Prop :=
  ∀ above, above <+: location → disk.node? above = some .directory

/-- The working directory is there, and its names lead down to it. -/
structure Grounded (disk : Disk) : Prop where
  proper : Proper disk.current
  housed : disk.Housed disk.current

/-- The root is a directory. -/
theorem housed_root (disk : Disk) : disk.Housed [] := by
  intro above isAbove
  rw [List.prefix_nil.mp isAbove]
  rfl

/-- What is above a directory with directories above it. -/
theorem Housed.dropLast (housed : disk.Housed location) : disk.Housed location.dropLast :=
  fun above isAbove => housed above (isAbove.trans (List.dropLast_prefix location))

/-- A directory in a directory that has directories above it. -/
theorem Housed.down (housed : disk.Housed location.dropLast)
    (directory : disk.node? location = some .directory) : disk.Housed location := by
  rcases List.eq_nil_or_concat location with rfl | ⟨front, last, rfl⟩
  · exact disk.housed_root
  · rw [List.concat_eq_append] at housed directory ⊢
    intro above isAbove
    rw [List.dropLast_concat] at housed
    rcases List.prefix_concat_iff.mp isAbove with rfl | isFront
    · exact directory
    · exact housed above isFront

/-- Going along names, one always has directories above. -/
theorem housed_of_walk (walked : disk.walk location names = .ok there)
    (housed : disk.Housed location.dropLast) : disk.Housed there.dropLast := by
  induction names generalizing location with
  | nil =>
    cases walked
    exact housed
  | cons name names inductionHypothesis =>
    obtain ⟨here, -, later⟩ := walk_cons_ok.mp walked
    have down := housed.down here
    refine inductionHypothesis later ?_
    unfold step
    split
    · exact housed
    · split
      · exact housed.dropLast
      · rw [List.dropLast_concat]
        exact down

/-- Names that lead to a file end in a name that leads down to it. -/
theorem file_of_walk (walked : disk.walk location names = .ok there)
    (housed : disk.Housed location) (isFile : disk.node? there = some (.file bytes)) :
    ∃ front last, names = front ++ [last] ∧ there = lead location names ∧
      there = lead location front ++ [last] := by
  have notDirectory {other : Location} (inside : disk.Housed other) : there ≠ other := by
    rintro rfl
    have directory := inside there List.prefix_rfl
    rw [isFile] at directory
    cases directory
  have place := walk_eq_lead walked
  rcases List.eq_nil_or_concat names with rfl | ⟨front, last, rfl⟩
  · exact absurd place (notDirectory housed)
  · rw [List.concat_eq_append] at walked place ⊢
    obtain ⟨middle, walkedFront, walkedLast⟩ := (walk_append disk location front [last]).mp walked
    obtain ⟨here, -, arrived⟩ := walk_cons_ok.mp walkedLast
    have above := housed_of_walk walkedFront housed.dropLast
    have same : there = step middle last := walk_eq_lead arrived
    obtain rfl := walk_eq_lead walkedFront
    refine ⟨front, last, rfl, place, ?_⟩
    unfold step at same
    split at same
    · exact absurd same (notDirectory (above.down here))
    · split at same
      · exact absurd same (notDirectory above)
      · exact same

/-- A path to a file leads to where the path is resolved to, and its last piece is the name of the
file. -/
theorem resolve_of_file (grounded : disk.Grounded) (looked : disk.look text = .ok (.file bytes)) :
    text ≠ [] ∧
      disk.node? (Path.resolve disk.current (Path.ofText text)).names = some (.file bytes) ∧
      (Path.resolve disk.current (Path.ofText text)).names.getLast? =
        (Path.pieces text).getLast? := by
  obtain ⟨there, located, found⟩ := bind_eq_ok.mp looked
  have isFile : disk.node? there = some (.file bytes) := by
    split at found
    · cases found
      assumption
    · cases found
  obtain ⟨-, walked⟩ := checked_eq_ok.mp located
  have filled : text ≠ [] := by
    rintro rfl
    cases walked
  have housed : disk.Housed (disk.startOf text) := by
    unfold startOf
    split
    · exact disk.housed_root
    · exact grounded.housed
  have walkedAll : disk.walk (disk.startOf text) (Path.pieces text) = .ok there := by
    simpa [filled] using walked
  obtain ⟨front, last, split, place, down⟩ := file_of_walk walkedAll housed isFile
  rw [names_resolve grounded.proper, ← place]
  exact ⟨filled, isFile, by rw [down, split, List.getLast?_concat, List.getLast?_concat]⟩

end TemplHighlight.Disk
