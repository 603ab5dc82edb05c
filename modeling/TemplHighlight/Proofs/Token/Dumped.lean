import TemplHighlight.Proofs.Token.Bare
import TemplHighlight.Token.Dump

/-!
# The dump of a tree

`Tree.ofJson?` reads a dump back. A string is raw text, an array a list, and an object a token whose
aliases are left out if there are none; what the token carries is in no dump. So reading a dump
gives the bare tree, and two trees have the same dump exactly if they are equal. That is so whether
or not the order of an object's members counts.
-/

namespace TemplHighlight

namespace TokenKind

/-- A kind is found by its name. -/
theorem ofName?_name (kind : TokenKind) : ofName? kind.name = some kind := by
  cases kind <;> decide

/-- Kinds with one name are one kind. -/
theorem name_injective {kind other : TokenKind} (same : kind.name = other.name) : kind = other :=
  Option.some.inj ((ofName?_name kind).symm.trans (same ▸ ofName?_name other))

end TokenKind

deriving instance DecidableEq for Real64

namespace Json.Value

mutual

/-- Whether two values say the same. The order of the members of an object does not count. -/
def agrees : Value → Value → Bool
  | null, null => true
  | bool a, bool b => a == b
  | integer a, integer b => a == b
  | real a, real b => decide (a = b)
  | string a, string b => a == b
  | array as, array bs => allAgree as bs
  | object as, object bs => as.length == bs.length && found as bs
  | _, _ => false

/-- Whether two arrays say the same, item by item. -/
def allAgree : List Value → List Value → Bool
  | [], [] => true
  | a :: as, b :: bs => a.agrees b && allAgree as bs
  | _, _ => false

/-- Whether every member of one object is in another one under its name. -/
def found : List (String × Value) → List (String × Value) → Bool
  | [], _ => true
  | (name, a) :: as, bs =>
    (match Pairs.get? name bs with
      | some b => a.agrees b
      | none => false) && found as bs

end

end Json.Value

namespace Tree

open Json (Value)

/-- The alias that a string of a dump stands for. -/
def aliasOf? : Value → Option String
  | .string name => some (String.ofList name)
  | _ => none

mutual

/-- The tree of a dump. -/
def ofJson? : Value → Option Tree
  | .string chars => some (text chars)
  | .array items => (ofJsonAll? items).map list
  | .object [("type", .string name), ("content", content)] => do
    return token (← TokenKind.ofName? (String.ofList name)) (← ofJson? content) [] none
  | .object [("type", .string name), ("alias", .array (first :: more)), ("content", content)] => do
    return token (← TokenKind.ofName? (String.ofList name)) (← ofJson? content)
      (← (first :: more).mapM aliasOf?) none
  | _ => none

/-- The items of an array of a dump. -/
def ofJsonAll? : List Value → Option (List Tree)
  | [] => some []
  | item :: items => do return (← ofJson? item) :: (← ofJsonAll? items)

end

/-! ## Reading a dump -/

/-- The names of aliases are read back. -/
theorem aliases_read (aliases : List String) :
    (aliases.map fun name => Value.string name.toList).mapM aliasOf? = some aliases := by
  induction aliases with
  | nil => rfl
  | cons name aliases inductionHypothesis =>
    rw [List.map_cons, List.mapM_cons, inductionHypothesis]
    simp [aliasOf?]

mutual

/-- Reading the dump of a tree gives the bare tree. -/
theorem ofJson?_toJson : (tree : Tree) → ofJson? tree.toJson = some tree.bare
  | text chars => rfl
  | token kind content aliases cached => by
    cases aliases with
    | nil => simp [toJson, ofJson?, TokenKind.ofName?_name, ofJson?_toJson content, bare]
    | cons first more =>
      have read := aliases_read (first :: more)
      rw [List.map_cons] at read
      simp [toJson, ofJson?, TokenKind.ofName?_name, ofJson?_toJson content, read, bare]
  | list items => by rw [toJson, ofJson?, ofJsonAll?_toJsonAll items, bare]; rfl

/-- Reading the dumps of items gives the bare items. -/
theorem ofJsonAll?_toJsonAll : (items : List Tree) → ofJsonAll? (toJsonAll items) = some (bareAll items)
  | [] => rfl
  | item :: items => by
    rw [toJsonAll, ofJsonAll?, ofJson?_toJson item, ofJsonAll?_toJsonAll items]
    rfl

end

mutual

/-- The dump does not show what tokens carry. -/
theorem toJson_bare : (tree : Tree) → tree.bare.toJson = tree.toJson
  | text chars => rfl
  | token kind content aliases cached => by simp only [bare, toJson, toJson_bare content]
  | list items => by simp only [bare, toJson, toJsonAll_bareAll items]

/-- The dumps of items do not show what tokens carry. -/
theorem toJsonAll_bareAll : (items : List Tree) → toJsonAll (bareAll items) = toJsonAll items
  | [] => rfl
  | item :: items => by simp only [bareAll, toJsonAll, toJson_bare item, toJsonAll_bareAll items]

end

/-- Two trees have one dump if and only if they are the same. -/
theorem toJson_eq_iff {a b : Tree} : a.toJson = b.toJson ↔ a.same b = true := by
  rw [same_iff]
  constructor
  · intro dumped
    exact Option.some.inj ((ofJson?_toJson a).symm.trans (dumped ▸ ofJson?_toJson b))
  · intro equal
    rw [← toJson_bare a, equal, toJson_bare b]

/-! ## Dumps that say the same -/

/-- The names of two kinds are the same string if and only if the kinds are. -/
theorem kinds_agree (kind other : TokenKind) :
    (kind.name.toList == other.name.toList) = (kind == other) := by
  rw [Bool.eq_iff_iff, beq_iff_eq, beq_iff_eq, String.toList_inj]
  exact ⟨TokenKind.name_injective, congrArg TokenKind.name⟩

/-- Two lists of aliases are dumped as the same array if and only if they are the same. -/
theorem aliases_agree (aliases others : List String) :
    Value.allAgree (aliases.map fun name => .string name.toList)
      (others.map fun name => .string name.toList) = (aliases == others) := by
  induction aliases generalizing others with
  | nil => cases others <;> rfl
  | cons name aliases inductionHypothesis =>
    cases others with
    | nil => rfl
    | cons other others =>
      have first : (name.toList == other.toList) = (name == other) := by
        rw [Bool.eq_iff_iff, beq_iff_eq, beq_iff_eq, String.toList_inj]
      rw [List.map_cons, List.map_cons, Value.allAgree, Value.agrees, first, inductionHypothesis]
      rfl

mutual

/-- The dumps of two trees say the same if and only if the trees are the same. -/
theorem agrees_toJson : (a b : Tree) → a.toJson.agrees b.toJson = a.same b
  | text chars, text chars' => by simp only [toJson, Value.agrees, same]
  | token kind content aliases _, token kind' content' aliases' _ => by
    have contents := agrees_toJson content content'
    have names := aliases_agree aliases aliases'
    cases aliases with
    | nil =>
      cases aliases' with
      | nil => simp [toJson, Value.agrees, Value.found, Pairs.get?, same, kinds_agree, contents]
      | cons other others => simp [toJson, Value.agrees, same]
    | cons name aliases =>
      cases aliases' with
      | nil => simp [toJson, Value.agrees, same]
      | cons other others =>
        rw [List.map_cons, List.map_cons] at names
        simp [toJson, Value.agrees, Value.found, Pairs.get?, same, kinds_agree, contents, names,
          Bool.and_comm, Bool.and_left_comm]
  | list items, list items' => by
    simp only [toJson, Value.agrees, same, allAgree_toJsonAll items items']
  | text _, token .. | token .., text _ | token .., list _ | list _, token .. => by
    simp only [toJson]
    split <;> rfl
  | text _, list _ | list _, text _ => rfl

/-- The same of the items of two lists. -/
theorem allAgree_toJsonAll : (as bs : List Tree) →
    Value.allAgree (toJsonAll as) (toJsonAll bs) = allSame as bs
  | [], [] | [], _ :: _ | _ :: _, [] => rfl
  | a :: as, b :: bs => by
    simp only [toJsonAll, Value.allAgree, allSame, agrees_toJson a b, allAgree_toJsonAll as bs]

end

/-- The dump of a tree loses nothing but what tokens carry. For all trees, at any depth and with any
kinds and aliases, two dumps are equal if and only if the trees are the same; and it does not matter
for that whether the order of members counts. From the dump of a tree, the tree can be read back as
the bare tree, which is the same tree.

Proof: reading a dump undoes each way in which an item is dumped. A string, an array and an object
are told apart; so are an object with and one without aliases, since no aliases are left out; and
kinds are told apart by their names. So the dump determines the bare tree, on which equality
depends. -/
theorem dump_lossless (a b : Tree) :
    (a.toJson = b.toJson ↔ a.same b = true) ∧
      (a.toJson.agrees b.toJson = true ↔ a.same b = true) ∧
      ofJson? a.toJson = some a.bare ∧ a.bare.same a = true :=
  ⟨toJson_eq_iff, by rw [agrees_toJson], ofJson?_toJson a, bare_same a⟩

end Tree

end TemplHighlight
