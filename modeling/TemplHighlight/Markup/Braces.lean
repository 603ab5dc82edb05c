import TemplHighlight.Text.Basic

/-!
# Brace groups

`{ … }` with further groups inside, down to a greatest depth. The scan keeps the number of groups
open inside the outer one; a group that would go deeper than allowed makes the whole text no group.
-/

namespace TemplHighlight.Braces

/-- What follows the `}` that closes the outer group, when `level` groups are open inside it and at
most `depth` may be. -/
def afterClose? (depth : Nat) : (level : Nat) → Text → Option Text
  | _, [] => none
  | 0, '}' :: rest => some rest
  | level + 1, '}' :: rest => afterClose? depth level rest
  | level, '{' :: rest => if level < depth then afterClose? depth (level + 1) rest else none
  | level, _ :: rest => afterClose? depth level rest

/-- What follows a brace group with at most `depth` levels of groups inside. -/
def after? (depth : Nat) : Text → Option Text
  | '{' :: rest => afterClose? depth 0 rest
  | _ => none

/-- A closing brace is taken at least, so less text is left behind it. -/
theorem length_of_afterClose? {depth level : Nat} {text rest : Text}
    (closed : afterClose? depth level text = some rest) : rest.length < text.length := by
  fun_induction afterClose? depth level text with
  | case1 => cases closed
  | case2 rest => cases closed; simp
  | case3 level text ih => have shorter := ih closed; simp; omega
  | case4 level text _ ih => have shorter := ih closed; simp; omega
  | case5 => cases closed
  | case6 level c text _ _ _ ih => have shorter := ih closed; simp; omega

/-- A brace group is never empty. -/
theorem length_of_after? {depth : Nat} {text rest : Text}
    (matched : after? depth text = some rest) : rest.length < text.length := by
  unfold after? at matched
  split at matched
  · have shorter := length_of_afterClose? matched
    simp; omega
  · cases matched

end TemplHighlight.Braces
