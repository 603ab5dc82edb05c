import TemplHighlight.Text.Basic
import TemplHighlight.Text.CharClass

/-!
# Integers as people write them

A sign if one is needed, and decimal digits of any script, with single underscores between digits
where that helps reading. Blanks around the number do not count.
-/

namespace TemplHighlight.Text

/-- The blanks that may stand around a number: all but the four information separators. -/
def isPadding (c : Char) : Bool := CharClass.isBlank c && !(0x1c ≤ c.toNat && c.toNat ≤ 0x1f)

/-- The text without the blanks at its two ends. -/
def unpadded (text : Text) : Text :=
  ((text.dropWhile isPadding).reverse.dropWhile isPadding).reverse

/-- The values of digits with single underscores between them. -/
def digitValues? : Text → Option (List Nat)
  | [] => none
  | c :: text => do
    let value ← CharClass.digitValue? c
    match text with
    | [] => return [value]
    | '_' :: text => return value :: (← digitValues? text)
    | text => return value :: (← digitValues? text)

/-- The greatest number of digits that are read. -/
def maxDigits : Nat := 4300

/-- The natural number that a text of digits writes. -/
def natural? (text : Text) : Option Nat := do
  let values ← digitValues? text
  if maxDigits < values.length then none
  else return values.foldl (fun number value => number * 10 + value) 0

/-- The integer that a text writes. -/
def integer? (text : Text) : Option Int :=
  match text.unpadded with
  | '-' :: digits => (natural? digits).map fun number => -(number : Int)
  | '+' :: digits => (natural? digits).map fun number => (number : Int)
  | digits => (natural? digits).map fun number => (number : Int)

end TemplHighlight.Text
