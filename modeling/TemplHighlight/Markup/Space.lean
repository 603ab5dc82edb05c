import TemplHighlight.Text.Basic
import TemplHighlight.Text.CharClass

/-!
# Space inside a tag

Attributes are set apart by space: blanks, line comments and block comments, in any number and
order. One such piece is a unit; `skip` passes as many units as there are.
-/

namespace TemplHighlight.Space

/-- What follows the first `*/`. -/
def afterCommentEnd? : Text → Option Text
  | [] => none
  | '*' :: '/' :: rest => some rest
  | _ :: rest => afterCommentEnd? rest

/-- What follows one unit of space: a blank, a comment up to the end of its line, or a comment up to
its first `*/`. -/
def afterUnit? : Text → Option Text
  | [] => none
  | '/' :: '/' :: rest => some (rest.dropWhile (· != '\n'))
  | '/' :: '*' :: rest => afterCommentEnd? rest
  | c :: rest => if CharClass.isBlank c then some rest else none

/-- The end of a comment is never empty. -/
theorem length_of_afterCommentEnd? {text rest : Text} (ended : afterCommentEnd? text = some rest) :
    rest.length < text.length := by
  fun_induction afterCommentEnd? text with
  | case1 => cases ended
  | case2 rest => cases ended; simp only [List.length_cons]; omega
  | case3 c text _ ih => have shorter := ih ended; simp only [List.length_cons]; omega

/-- Dropping characters from the front makes no text longer. -/
theorem length_dropWhile_le (p : Char → Bool) (text : Text) :
    (text.dropWhile p).length ≤ text.length := by
  induction text with
  | nil => simp
  | cons c rest ih =>
    rw [List.dropWhile_cons]
    split
    · simp; omega
    · simp

/-- A unit is never empty, so passing units ends. -/
theorem length_of_afterUnit? {text rest : Text} (passed : afterUnit? text = some rest) :
    rest.length < text.length := by
  unfold afterUnit? at passed
  split at passed
  · cases passed
  · cases passed
    have shorter := length_dropWhile_le (· != '\n') ‹Text›
    simp; omega
  · have shorter := length_of_afterCommentEnd? passed
    simp; omega
  · split at passed
    · cases passed; simp
    · cases passed

/-- What follows all the units of space at the start of a text, and their number. -/
def skip (text : Text) : Text × Nat :=
  match _passed : afterUnit? text with
  | none => (text, 0)
  | some rest => match skip rest with
    | (behind, count) => (behind, count + 1)
termination_by text.length
decreasing_by exact length_of_afterUnit? _passed

/-- What follows the space at the start of a text is no longer than the text. -/
theorem length_skip_le (text : Text) : (skip text).1.length ≤ text.length := by
  fun_induction skip text with
  | case1 => simp
  | case2 text rest passed behind count skipped ih =>
    have shorter := length_of_afterUnit? passed
    rw [skipped] at ih
    simp at ih ⊢; omega

end TemplHighlight.Space
