import TemplHighlight.Markup.Braces
import TemplHighlight.Markup.Space

/-!
# Spread attributes

`{ ...expr }` spreads the attributes that an expression holds into a tag. Space may stand before the
dots, and the expression may hold brace groups.
-/

namespace TemplHighlight.Spread

/-- What follows a spread whose expression holds brace groups of at most `depth` further levels.
Such a group lies one level below the braces of the spread itself, hence `depth + 1`. -/
def after? (depth : Nat) : Text → Option Text
  | '{' :: rest =>
    match (Space.skip rest).1 with
    | '.' :: '.' :: '.' :: expr => Braces.afterClose? (depth + 1) 0 expr
    | _ => none
  | _ => none

/-- A spread is never empty. -/
theorem length_of_after? {depth : Nat} {text rest : Text}
    (matched : after? depth text = some rest) : rest.length < text.length := by
  unfold after? at matched
  split at matched
  · rename_i inner
    split at matched
    · rename_i expr skipped
      have shorter := Braces.length_of_afterClose? matched
      have passed := Space.length_skip_le inner
      rw [skipped] at passed
      simp at passed ⊢; omega
    · cases matched
  · cases matched

end TemplHighlight.Spread
