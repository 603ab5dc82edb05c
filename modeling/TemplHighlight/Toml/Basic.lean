import TemplHighlight.Pairs
import TemplHighlight.Text.Basic

/-!
# TOML

The values of a TOML document. Of numbers with a fraction, dates and times only the kind is kept: no
setting has such a value, and reports name the kind alone.
-/

namespace TemplHighlight.Toml

/-- A TOML value. -/
inductive Value where
  | string (text : Text)
  | integer (value : Int)
  | float
  | bool (value : Bool)
  | dateTime
  | date
  | time
  | array (items : List Value)
  | table (entries : List (String × Value))

/-- How a value's kind is called in reports. -/
def Value.typeName : Value → String
  | string _ => "str"
  | integer _ => "int"
  | float => "float"
  | bool _ => "bool"
  | dateTime => "datetime"
  | date => "date"
  | time => "time"
  | array _ => "list"
  | table _ => "dict"

/-- Why a document could not be read. -/
inductive Error where
  /-- It is no TOML document. -/
  | malformed
  /-- It holds a whole number of more than 4300 decimal digits. -/
  | hugeInteger
  deriving DecidableEq

/-- A dotted key. -/
abbrev Key := List String

namespace Value

/-- Puts a value under a name in a table in which the name is not taken. -/
def putNew? (name : String) (value : Value) (entries : Pairs Value) : Option (Pairs Value) :=
  if Pairs.has name entries then none else some (Pairs.put name value entries)

/-- Changes the table that a key leads to; tables that are missing on the way are made. With
`throughArrays`, an array of tables stands for its last table. There is no such table behind any
other value. -/
def changeAt? (throughArrays : Bool) (change : Pairs Value → Option (Pairs Value)) :
    Key → Pairs Value → Option (Pairs Value)
  | [], entries => change entries
  | name :: key, entries => do
    let below ← match Pairs.get? name entries with
      | none => table <$> changeAt? throughArrays change key []
      | some (table inner) => table <$> changeAt? throughArrays change key inner
      | some (array items) =>
        if throughArrays then
          match items.getLast? with
          | some (table inner) =>
            let last ← changeAt? throughArrays change key inner
            pure (array (items.dropLast ++ [table last]))
          | _ => none
        else none
      | some _ => none
    return Pairs.put name below entries

/-- Adds an empty table to the array of tables under a name. -/
def addTable? (name : String) (entries : Pairs Value) : Option (Pairs Value) :=
  match Pairs.get? name entries with
  | none => some (Pairs.put name (array [table []]) entries)
  | some (array items) => some (Pairs.put name (array (items ++ [table []])) entries)
  | some _ => none

end Value

end TemplHighlight.Toml
