import TemplHighlight.Markup.Braces

/-!
# Texts between braces

`Braced levels` holds of the texts that may stand between the braces of a group: characters other
than braces and whole groups, which nest at most `levels` deep. The scan for the end of a group
counts the groups that are open; here it is shown to find exactly the braces that such a text
stands between. A count of `level` open groups leaves room for `depth - level` further ones, which
is the invariant that ties the count to the nesting.
-/

namespace TemplHighlight.TagLanguage

/-- Any number of characters other than braces and of groups, in any order. Where no level is left,
no group may occur. -/
inductive Braced : (levels : Nat) → Text → Prop where
  | done {levels : Nat} : Braced levels []
  | char {levels : Nat} {c : Char} {later : Text} (opensNone : c ≠ '{') (closesNone : c ≠ '}')
      (behind : Braced levels later) : Braced levels (c :: later)
  | group {levels : Nat} {inner later : Text} (nested : Braced levels inner)
      (behind : Braced (levels + 1) later) :
      Braced (levels + 1) ('{' :: (inner ++ '}' :: later))

/-- A text without braces may stand between braces. -/
theorem braced_of_plain {levels : Nat} {text : Text} (plain : ∀ c ∈ text, c ≠ '{' ∧ c ≠ '}') :
    Braced levels text := by
  induction text with
  | nil => exact .done
  | cons c later inductionHypothesis =>
    obtain ⟨first, behind⟩ := List.forall_mem_cons.mp plain
    exact .char first.1 first.2 (inductionHypothesis behind)

/-- A character that is no brace leaves the count of open groups as it is. -/
theorem afterClose_char (depth level : Nat) (c : Char) (later : Text) (opensNone : c ≠ '{')
    (closesNone : c ≠ '}') :
    Braces.afterClose? depth level (c :: later) = Braces.afterClose? depth level later := by
  cases level <;> simp [Braces.afterClose?, closesNone]

/-- The scan passes a whole text between braces and comes to the brace behind it with the count it
started with. Each group inside raises the count by one and its own closing brace lowers it again;
the levels left over keep the count within the depth. -/
theorem afterClose_braced {levels : Nat} {inner : Text} (braced : Braced levels inner)
    (depth level : Nat) (room : level + levels = depth) (rest : Text) :
    Braces.afterClose? depth level (inner ++ '}' :: rest) =
      Braces.afterClose? depth level ('}' :: rest) := by
  induction braced generalizing level rest with
  | done => rfl
  | @char levels c later opensNone closesNone behind inductionHypothesis =>
    rw [List.cons_append, afterClose_char depth level c _ opensNone closesNone]
    exact inductionHypothesis level room rest
  | @group levels inner later nested behind nestedHypothesis behindHypothesis =>
    have deeper : level < depth := by omega
    calc Braces.afterClose? depth level ('{' :: (inner ++ '}' :: later) ++ '}' :: rest)
        = Braces.afterClose? depth (level + 1) (inner ++ '}' :: (later ++ '}' :: rest)) := by
          cases level <;> simp [Braces.afterClose?, deeper]
      _ = Braces.afterClose? depth (level + 1) ('}' :: (later ++ '}' :: rest)) :=
          nestedHypothesis (level + 1) (by omega) _
      _ = Braces.afterClose? depth level (later ++ '}' :: rest) := rfl
      _ = Braces.afterClose? depth level ('}' :: rest) := behindHypothesis level room rest

/-- What a successful scan has passed before the first brace that closes more than was opened is a
text between braces. The induction is on the length: behind an opening brace the scan first passes
that group and then goes on from its closing brace, which is further than one step away. -/
theorem braced_of_afterClose {depth level : Nat} {text rest : Text}
    (closed : Braces.afterClose? depth level text = some rest) (bounded : level ≤ depth) :
    ∃ inner behind, Braced (depth - level) inner ∧ text = inner ++ '}' :: behind ∧
      Braces.afterClose? depth level ('}' :: behind) = some rest := by
  induction measured : text.length using Nat.strongRecOn generalizing level text with
  | ind size inductionHypothesis =>
    cases text with
    | nil => simp [Braces.afterClose?] at closed
    | cons c later =>
      have shorter : later.length < size := by simp at measured; omega
      by_cases closes : c = '}'
      · subst closes
        exact ⟨[], later, .done, rfl, closed⟩
      by_cases opens : c = '{'
      · subst opens
        have deeper : level < depth ∧ Braces.afterClose? depth (level + 1) later = some rest := by
          cases level <;> simpa [Braces.afterClose?] using closed
        obtain ⟨nested, behind, nestedBraced, split, goesOn⟩ :=
          inductionHypothesis later.length shorter deeper.2 deeper.1 rfl
        have stillShorter : behind.length < size := by
          rw [split] at shorter
          simp at shorter
          omega
        have onLevel : Braces.afterClose? depth level behind = some rest := goesOn
        obtain ⟨inner, last, innerBraced, splitBehind, ends⟩ :=
          inductionHypothesis behind.length stillShorter onLevel bounded rfl
        have levels : depth - level = depth - (level + 1) + 1 := by omega
        rw [levels] at innerBraced ⊢
        exact ⟨'{' :: (nested ++ '}' :: inner), last, .group nestedBraced innerBraced,
          by simp [split, splitBehind], ends⟩
      · rw [afterClose_char depth level c later opens closes] at closed
        obtain ⟨inner, behind, braced, split, ends⟩ :=
          inductionHypothesis later.length shorter closed bounded rfl
        exact ⟨c :: inner, behind, .char opens closes braced, by simp [split], ends⟩

/-- Behind the opening brace of an outer group, the scan finds exactly its closing brace. -/
theorem afterClose_exact (depth : Nat) (text rest : Text) :
    Braces.afterClose? depth 0 text = some rest ↔
      ∃ inner, Braced depth inner ∧ text = inner ++ '}' :: rest := by
  constructor
  · intro closed
    obtain ⟨inner, behind, braced, split, ends⟩ := braced_of_afterClose closed (Nat.zero_le depth)
    have same : behind = rest := by simpa [Braces.afterClose?] using ends
    exact ⟨inner, braced, same ▸ split⟩
  · rintro ⟨inner, braced, rfl⟩
    rw [afterClose_braced braced depth 0 (Nat.zero_add depth)]
    rfl

/-- The scan for a group finds exactly the text between the braces of a group. -/
theorem group_exact (depth : Nat) (text rest : Text) :
    Braces.after? depth text = some rest ↔
      ∃ inner, Braced depth inner ∧ text = '{' :: (inner ++ '}' :: rest) := by
  constructor
  · intro matched
    unfold Braces.after? at matched
    split at matched
    · obtain ⟨inner, braced, split⟩ := (afterClose_exact depth _ rest).mp matched
      exact ⟨inner, braced, congrArg ('{' :: ·) split⟩
    · cases matched
  · rintro ⟨inner, braced, rfl⟩
    exact (afterClose_exact depth _ rest).mpr ⟨inner, braced, rfl⟩

end TemplHighlight.TagLanguage
