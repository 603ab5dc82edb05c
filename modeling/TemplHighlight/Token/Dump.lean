import TemplHighlight.Json.Basic
import TemplHighlight.Token.Tree

/-!
# Token trees as data

The form in which a token tree is handed on: raw text is a string, a list is an array, and a token
an object with its type, its aliases if it has any, and its content.
-/

namespace TemplHighlight.Tree

mutual

/-- A tree as a JSON value. -/
def toJson : Tree → Json.Value
  | text chars => .string chars
  | token kind content aliases _ =>
    let type := ("type", Json.Value.string kind.name.toList)
    let content := ("content", content.toJson)
    if aliases.isEmpty then .object [type, content]
    else
      .object [type, ("alias", .array (aliases.map fun name => .string name.toList)), content]
  | list items => .array (toJsonAll items)

/-- The items of a list, one by one. -/
def toJsonAll : List Tree → List Json.Value
  | [] => []
  | item :: items => item.toJson :: toJsonAll items

end

end TemplHighlight.Tree
