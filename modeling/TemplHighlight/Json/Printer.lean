import TemplHighlight.Json.Basic

/-!
# Writing JSON

Values are written over several lines with an indent of two blanks per level, in ASCII: every other
character is escaped, those beyond the first 65536 as a pair of surrogates.
-/

namespace TemplHighlight.Json

/-- The escape of a code unit. -/
def unitEscape (unit : Nat) : Text := '\\' :: 'u' :: Text.hex 4 unit

/-- A character of a string. -/
def escapedChar (c : Char) : Text :=
  if c = '"' then ['\\', '"']
  else if c = '\\' then ['\\', '\\']
  else if c = '\n' then ['\\', 'n']
  else if c = '\r' then ['\\', 'r']
  else if c = '\t' then ['\\', 't']
  else if c = '\x08' then ['\\', 'b']
  else if c = '\x0c' then ['\\', 'f']
  else if 32 ≤ c.toNat ∧ c.toNat < 127 then [c]
  else if c.toNat < 0x10000 then unitEscape c.toNat
  else unitEscape (0xd800 + (c.toNat - 0x10000) / 0x400) ++
    unitEscape (0xdc00 + (c.toNat - 0x10000) % 0x400)

/-- A string. -/
def writtenString (text : Text) : Text := '"' :: text.flatMap escapedChar ++ ['"']

/-- A new line with the indent of a level. -/
def newLine (level : Nat) : Text := '\n' :: List.replicate (2 * level) ' '

mutual

/-- A value as text, on a level of nesting. -/
def written (level : Nat) : Value → Text
  | .null => "null".toList
  | .bool true => "true".toList
  | .bool false => "false".toList
  | .integer n => Text.decimalInt n
  | .real x => x.toText
  | .string text => writtenString text
  | .array [] => ['[', ']']
  | .array (item :: items) =>
    '[' :: newLine (level + 1) ++ written (level + 1) item ++ writtenItems (level + 1) items ++
      newLine level ++ [']']
  | .object [] => ['\x7b', '\x7d']
  | .object ((name, value) :: members) =>
    '\x7b' :: newLine (level + 1) ++ writtenString name.toList ++ ": ".toList ++
      written (level + 1) value ++ writtenMembers (level + 1) members ++ newLine level ++ ['\x7d']

/-- The items of an array behind the first. -/
def writtenItems (level : Nat) : List Value → Text
  | [] => []
  | item :: items => ',' :: newLine level ++ written level item ++ writtenItems level items

/-- The members of an object behind the first. -/
def writtenMembers (level : Nat) : List (String × Value) → Text
  | [] => []
  | (name, value) :: members =>
    ',' :: newLine level ++ writtenString name.toList ++ ": ".toList ++ written level value ++
      writtenMembers level members

end

/-- A value as text. -/
def Value.toText (value : Value) : Text := written 0 value

end TemplHighlight.Json
