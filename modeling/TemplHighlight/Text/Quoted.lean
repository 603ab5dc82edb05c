import TemplHighlight.Text.Basic
import TemplHighlight.Text.CharClass

/-!
# Quoted text

The form in which a text is shown inside a message: on one line, between quotes, with every
character that would not be readable there written as an escape.
-/

namespace TemplHighlight.Text

/-- Single quotes are preferred; double quotes are used for a text that holds single quotes and no
double ones. -/
def quoteMark (text : Text) : Char :=
  if text.contains '\'' && !text.contains '"' then '"' else '\''

/-- A character between the quotes `mark`. -/
def escaped (mark : Char) (c : Char) : Text :=
  if c = mark || c = '\\' then ['\\', c]
  else if c = '\t' then ['\\', 't']
  else if c = '\n' then ['\\', 'n']
  else if c = '\r' then ['\\', 'r']
  else if CharClass.isPrintable c then [c]
  else if c.toNat < 0x100 then '\\' :: 'x' :: hex 2 c.toNat
  else if c.toNat < 0x10000 then '\\' :: 'u' :: hex 4 c.toNat
  else '\\' :: 'U' :: hex 8 c.toNat

/-- The text between quotes, with escapes. -/
def quoted (text : Text) : Text :=
  let mark := text.quoteMark
  mark :: text.flatMap (escaped mark) ++ [mark]

end TemplHighlight.Text
