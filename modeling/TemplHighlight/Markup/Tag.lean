import TemplHighlight.Markup.Braces
import TemplHighlight.Markup.Space
import TemplHighlight.Markup.Spread

/-!
# Tags

A whole tag: `<` or `</`, a name, attributes and spreads set apart by space, and `>` or `/>`. The
value of an attribute is quoted, bare, or a brace group. The scan takes the longest name and as many
attributes as it can, and never goes back; the tags without a name are `<>` and `</>`.
-/

namespace TemplHighlight.Tag

/-- The characters of a tag's name. -/
def isNameChar (c : Char) : Bool :=
  CharClass.isWord c || c == '.' || c == ':' || c == '-'

/-- The characters of an attribute's name. -/
def isAttrNameChar (c : Char) : Bool :=
  CharClass.isWord c || c == '.' || c == ':' || c == '$' || c == '-'

/-- The characters of a value without quotes. -/
def isBareChar (c : Char) : Bool :=
  !(CharClass.isBlank c || c == '{' || c == '\'' || c == '"' || c == '/' || c == '>' || c == '=')

/-- What follows the quote that ends a value; a backslash takes the character behind it along. -/
def afterQuote? (quote : Char) : Text → Option Text
  | [] => none
  | ['\\'] => none
  | '\\' :: _ :: rest => afterQuote? quote rest
  | c :: rest => if c = quote then some rest else afterQuote? quote rest

/-- What follows the characters of a class at the start of a text, if there are any. -/
def afterRun? (isMember : Char → Bool) : Text → Option Text
  | [] => none
  | c :: rest => if isMember c then some (rest.dropWhile isMember) else none

/-- What follows an attribute's value. -/
def afterValue? (depth : Nat) : Text → Option Text
  | [] => none
  | '"' :: rest => afterQuote? '"' rest
  | '\'' :: rest => afterQuote? '\'' rest
  | '{' :: rest => Braces.after? depth ('{' :: rest)
  | c :: rest => afterRun? isBareChar (c :: rest)

/-- What follows an attribute's value after the `=`; without a value that can be read, the text
itself. -/
def afterAssignment (depth : Nat) : Text → Text
  | '=' :: rest => (afterValue? depth rest).getD ('=' :: rest)
  | text => text

/-- What follows an attribute or a spread. -/
def afterAttribute? (depth : Nat) (text : Text) : Option Text :=
  match afterRun? isAttrNameChar text with
  | some rest => some (afterAssignment depth rest)
  | none => Spread.after? depth text

/-- The end of a quoted value has its quote at least. -/
theorem length_of_afterQuote? {quote : Char} {text rest : Text}
    (ended : afterQuote? quote text = some rest) : rest.length < text.length := by
  fun_induction afterQuote? quote text with
  | case1 => cases ended
  | case2 => cases ended
  | case3 c text ih => have shorter := ih ended; simp; omega
  | case4 text _ _ => cases ended; simp
  | case5 c text _ _ _ ih => have shorter := ih ended; simp; omega

/-- A run of characters is never empty. -/
theorem length_of_afterRun? {isMember : Char → Bool} {text rest : Text}
    (taken : afterRun? isMember text = some rest) : rest.length < text.length := by
  unfold afterRun? at taken
  split at taken
  · cases taken
  · split at taken
    · cases taken
      have shorter := Space.length_dropWhile_le isMember ‹Text›
      simp; omega
    · cases taken

/-- A value is never empty. -/
theorem length_of_afterValue? {depth : Nat} {text rest : Text}
    (taken : afterValue? depth text = some rest) : rest.length < text.length := by
  unfold afterValue? at taken
  split at taken
  · cases taken
  · have shorter := length_of_afterQuote? taken
    simp; omega
  · have shorter := length_of_afterQuote? taken
    simp; omega
  · exact Braces.length_of_after? taken
  · exact length_of_afterRun? taken

/-- An assignment may be absent, and nothing is taken then. -/
theorem length_afterAssignment_le (depth : Nat) (text : Text) :
    (afterAssignment depth text).length ≤ text.length := by
  unfold afterAssignment
  split
  · rename_i rest
    cases taken : afterValue? depth rest with
    | none => simp
    | some behind => have shorter := length_of_afterValue? taken; simp; omega
  · exact Nat.le_refl _

/-- An attribute is never empty, so reading attributes ends. -/
theorem length_of_afterAttribute? {depth : Nat} {text rest : Text}
    (taken : afterAttribute? depth text = some rest) : rest.length < text.length := by
  unfold afterAttribute? at taken
  split at taken
  · rename_i behind named
    cases taken
    have shorter := length_of_afterRun? named
    have value := length_afterAssignment_le depth behind
    omega
  · exact Spread.length_of_after? taken

/-- What follows the attributes of a tag: as many as can be read, each with space before it. -/
def afterAttributes (depth : Nat) (text : Text) : Text :=
  match _skipped : Space.skip text with
  | (_, 0) => text
  | (inner, _ + 1) =>
    match _taken : afterAttribute? depth inner with
    | none => text
    | some rest => afterAttributes depth rest
termination_by text.length
decreasing_by
  have shorter := length_of_afterAttribute? _taken
  have passed := Space.length_skip_le text
  rw [_skipped] at passed
  simp at passed; omega

/-- The text without a slash at its start. -/
def dropSlash : Text → Text
  | '/' :: rest => rest
  | text => text

/-- What follows the name, the attributes and the slash before the end of a tag. -/
def afterInner (depth : Nat) (text : Text) : Text :=
  match afterRun? isNameChar text with
  | some rest => dropSlash (Space.skip (afterAttributes depth rest)).1
  | none => text

/-- What follows a whole tag. -/
def after? (depth : Nat) : Text → Option Text
  | '<' :: rest =>
    match afterInner depth (dropSlash rest) with
    | '>' :: behind => some behind
    | _ => none
  | _ => none

end TemplHighlight.Tag
