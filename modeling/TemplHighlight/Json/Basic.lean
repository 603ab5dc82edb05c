import TemplHighlight.Number.Binary64
import TemplHighlight.Pairs

/-!
# JSON

The values of a JSON text. The members of an object keep their order, and a name that comes twice
keeps its first place and its last value.
-/

namespace TemplHighlight.Json

/-- A JSON value. -/
inductive Value where
  | null
  | bool (value : Bool)
  | integer (value : Int)
  | real (value : Real64)
  | string (value : Text)
  | array (items : List Value)
  | object (members : List (String × Value))

end TemplHighlight.Json
