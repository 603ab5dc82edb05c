import TemplHighlight.Files.Path

/-!
# Paths as text

A path whose names have characters and no slash can be read back from its text: the pieces between
the slashes are its names, behind one empty piece for each slash in front.
-/

namespace TemplHighlight

namespace Text

/-- Pieces between marks, as they are cut out by the library. -/
theorem splitAt_eq_splitOn (mark : Char) (text : Text) : splitAt mark text = text.splitOn mark := by
  induction text with
  | nil => rfl
  | cons c text inductionHypothesis =>
    rw [splitAt, inductionHypothesis, List.splitOn_eq_splitOnP, List.splitOn_eq_splitOnP,
      List.splitOnP_cons_eq_if_modifyHead]
    by_cases isMark : c = mark
    · rw [if_pos isMark, if_pos (beq_iff_eq.mpr isMark)]
    · rw [if_neg isMark, if_neg (by simpa using isMark)]
      cases pieces : List.splitOnP (· == mark) text with
      | nil => exact absurd pieces (List.splitOnP_ne_nil _ _)
      | cons piece more => rfl

/-- There are no marks in the pieces between marks. -/
theorem not_mem_of_mem_splitAt {mark : Char} {text piece : Text}
    (member : piece ∈ splitAt mark text) : mark ∉ piece := by
  induction text generalizing piece with
  | nil =>
    rw [List.mem_singleton.mp member]
    exact List.not_mem_nil
  | cons c text inductionHypothesis =>
    rw [splitAt] at member
    split at member
    · rcases List.mem_cons.mp member with rfl | later
      · exact List.not_mem_nil
      · exact inductionHypothesis later
    · rename_i notMark
      split at member
      · rw [List.mem_singleton.mp member]
        exact fun isMark => notMark (List.mem_singleton.mp isMark).symm
      · rename_i first more pieces
        rcases List.mem_cons.mp member with rfl | later
        · rintro (_ | ⟨_, inFirst⟩)
          · exact notMark rfl
          · exact inductionHypothesis (pieces ▸ List.mem_cons_self) inFirst
        · exact inductionHypothesis (pieces ▸ List.mem_cons_of_mem _ later)

/-- Texts joined by a separator, as they are joined by the library. -/
theorem join_eq_intercalate (separator : Text) (texts : List Text) :
    join separator texts = separator.intercalate texts := by
  induction texts with
  | nil => rfl
  | cons text more inductionHypothesis =>
    cases more with
    | nil => simp [join]
    | cons next more =>
      rw [join, inductionHypothesis, List.intercalate_cons_cons]
      exact List.cons_ne_nil next more

/-- Marks in front of a text are as many empty pieces. -/
theorem splitAt_replicate (mark : Char) (count : Nat) (text : Text) :
    splitAt mark (List.replicate count mark ++ text) =
      List.replicate count [] ++ splitAt mark text := by
  induction count with
  | zero => rfl
  | succ count inductionHypothesis =>
    rw [List.replicate_succ, List.cons_append, splitAt, if_pos rfl, inductionHypothesis]
    rfl

end Text

/-- A name that can stand between the slashes of a path: it has characters, is not a single dot, and
has no slash in it. -/
structure PieceName (name : String) : Prop where
  filled : name ≠ ""
  notDot : name ≠ "."
  noSlash : '/' ∉ name.toList

/-- A name that a directory can hold: it does not lead back to the directory above. -/
structure ProperName (name : String) : Prop extends PieceName name where
  notAbove : name ≠ ".."

instance (name : String) : Decidable (PieceName name) :=
  decidable_of_iff (name ≠ "" ∧ name ≠ "." ∧ '/' ∉ name.toList)
    ⟨fun ⟨filled, notDot, noSlash⟩ => ⟨filled, notDot, noSlash⟩,
      fun named => ⟨named.filled, named.notDot, named.noSlash⟩⟩

instance (name : String) : Decidable (ProperName name) :=
  decidable_of_iff (PieceName name ∧ name ≠ "..")
    ⟨fun ⟨named, notAbove⟩ => ⟨named, notAbove⟩,
      fun proper => ⟨proper.toPieceName, proper.notAbove⟩⟩

namespace Path

variable {path : Path}

/-- Names behind a path. -/
theorem append_names (base : Path) (names : List String) :
    base ++ (⟨0, names⟩ : Path) = { base with names := base.names ++ names } := rfl

/-- The pieces of the text of a path are its names, behind pieces that are empty or a dot. -/
theorem pieces_toText (named : ∀ name ∈ path.names, PieceName name) :
    ∃ blanks, (∀ blank ∈ blanks, blank = "" ∨ blank = ".") ∧
      pieces path.toText = blanks ++ path.names := by
  have noSlash : ∀ word ∈ path.names.map String.toList, '/' ∉ word := by
    simp only [List.forall_mem_map]
    exact fun name member => (named name member).noSlash
  unfold toText
  split
  · rename_i nothing
    have none : path.names = [] := by
      simpa using (Bool.and_eq_true_iff.mp nothing).2
    exact ⟨["."], by simp, by rw [none]; rfl⟩
  · cases names : path.names with
    | nil =>
      refine ⟨List.replicate (path.slashes + 1) "", by simp, ?_⟩
      rw [pieces, Text.splitAt_replicate, List.replicate_succ']
      simp [Text.join, Text.splitAt]
    | cons name more =>
      rw [← names, pieces, Text.splitAt_replicate, Text.splitAt_eq_splitOn,
        Text.join_eq_intercalate, List.splitOn_intercalate '/' noSlash (by simp [names])]
      exact ⟨List.replicate path.slashes "", by simp, by simp⟩

/-- The text of a path starts with a slash if and only if the path has slashes in front. -/
theorem head?_toText (named : ∀ name ∈ path.names, PieceName name) :
    path.toText.head? = some '/' ↔ path.slashes ≠ 0 := by
  unfold toText
  split
  · rename_i nothing
    simp only [Bool.and_eq_true, decide_eq_true_eq] at nothing
    simp [nothing.1]
  · rename_i something
    cases slashes : path.slashes with
    | succ count => simp [List.replicate_succ]
    | zero =>
      cases names : path.names with
      | nil => simp [slashes, names] at something
      | cons name more =>
        have isName := named name (names ▸ List.mem_cons_self)
        have filled : name.toList ≠ [] := by
          simpa using isName.filled
        obtain ⟨c, rest, chars⟩ := List.exists_cons_of_ne_nil filled
        have notSlash : c ≠ '/' := by
          rintro rfl
          exact isName.noSlash (chars ▸ List.mem_cons_self)
        cases more <;> simp [Text.join, chars, notSlash]

/-- The text of a path has characters. -/
theorem toText_filled (named : ∀ name ∈ path.names, PieceName name) : path.toText ≠ [] := by
  unfold toText
  split
  · exact List.cons_ne_nil _ _
  · rename_i something
    cases slashes : path.slashes with
    | succ count => simp [List.replicate_succ]
    | zero =>
      cases names : path.names with
      | nil => simp [slashes, names] at something
      | cons name more =>
        have filled : name.toList ≠ [] := by
          simpa using (named name (names ▸ List.mem_cons_self)).filled
        cases more <;> simp [Text.join, filled]

/-- The names that are read from the text of a path are its names. -/
theorem names_ofText_toText (named : ∀ name ∈ path.names, PieceName name) :
    (ofText path.toText).names = path.names := by
  obtain ⟨blanks, areBlank, split⟩ := pieces_toText named
  have keeps : ∀ name ∈ path.names, (name != "" && name != ".") = true := by
    intro name member
    simp [(named name member).filled, (named name member).notDot]
  have drops : ∀ blank ∈ blanks, ¬ (blank != "" && blank != ".") = true := by
    intro blank member
    rcases areBlank blank member with rfl | rfl <;> decide
  rw [ofText, split, List.filter_append, List.filter_eq_self.mpr keeps,
    List.filter_eq_nil_iff.mpr drops]
  rfl

/-- The names of a path that is read from a text can stand between slashes. -/
theorem named_ofText {text : Text} {name : String} (member : name ∈ (ofText text).names) :
    PieceName name := by
  obtain ⟨isName, kept⟩ := List.mem_filter.mp member
  obtain ⟨piece, isPiece, rfl⟩ := List.mem_map.mp isName
  simp only [Bool.and_eq_true, bne_iff_ne] at kept
  refine ⟨kept.1, kept.2, ?_⟩
  rw [String.toList_ofList]
  exact Text.not_mem_of_mem_splitAt isPiece

/-- What is left when every `..` was taken back are names, and none of them is `..`. -/
theorem mem_collapse {names : List String} {name : String} (member : name ∈ collapse names) :
    name ∈ names ∧ name ≠ ".." := by
  have go (names done : List String) (kept : ∀ name ∈ done, name ≠ "..")
      (member : name ∈ names.foldl
        (fun done name => if name = ".." then done.tail else name :: done) done) :
      (name ∈ done ∨ name ∈ names) ∧ name ≠ ".." := by
    induction names generalizing done with
    | nil => exact ⟨.inl member, kept name member⟩
    | cons first names inductionHypothesis =>
      rw [List.foldl_cons] at member
      split at member
      · obtain ⟨origin, notAbove⟩ := inductionHypothesis done.tail
          (fun name inTail => kept name (List.mem_of_mem_tail inTail)) member
        exact ⟨origin.imp List.mem_of_mem_tail (List.mem_cons_of_mem _), notAbove⟩
      · rename_i notAbove
        obtain ⟨origin, notAbove⟩ := inductionHypothesis (first :: done)
          (List.forall_mem_cons.mpr ⟨notAbove, kept⟩) member
        refine ⟨?_, notAbove⟩
        rcases origin with inDone | later
        · rcases List.mem_cons.mp inDone with rfl | inDone
          · exact .inr List.mem_cons_self
          · exact .inl inDone
        · exact .inr (List.mem_cons_of_mem _ later)
  obtain ⟨inNames, notAbove⟩ := go names [] nofun (List.mem_reverse.mp member)
  exact ⟨inNames.resolve_left List.not_mem_nil, notAbove⟩

end Path

end TemplHighlight
