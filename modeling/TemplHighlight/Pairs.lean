/-!
# Ordered pairs

A table of values by name that remembers the order in which the names first came in. Putting a value
under a name that is there already leaves the name in its place.
-/

namespace TemplHighlight

/-- Values by name, in the order in which the names came in. -/
abbrev Pairs (α : Type) := List (String × α)

namespace Pairs

variable {α : Type}

/-- The names of a table, in order. -/
def names (pairs : Pairs α) : List String := pairs.map (·.1)

/-- The value under a name. -/
def get? (name : String) : Pairs α → Option α
  | [] => none
  | (key, value) :: rest => if key = name then some value else get? name rest

/-- Whether there is a value under a name. -/
def has (name : String) (pairs : Pairs α) : Bool := (get? name pairs).isSome

/-- Puts a value under a name: in the place of the old one, or at the end. -/
def put (name : String) (value : α) : Pairs α → Pairs α
  | [] => [(name, value)]
  | (key, old) :: rest =>
    if key = name then (key, value) :: rest else (key, old) :: put name value rest

/-- Puts every pair of a list, one after the other. -/
def putAll (pairs : Pairs α) : List (String × α) → Pairs α
  | [] => pairs
  | (name, value) :: more => putAll (put name value pairs) more

/-- The table of a list of pairs. A name that comes twice keeps its first place and its last
value. -/
def ofList (pairs : List (String × α)) : Pairs α := putAll [] pairs

/-- The table without a name. -/
def erase (name : String) (pairs : Pairs α) : Pairs α := pairs.filter (·.1 != name)

end Pairs

end TemplHighlight
