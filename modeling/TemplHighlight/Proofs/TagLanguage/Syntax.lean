import TemplHighlight.Markup.Tag
import TemplHighlight.Proofs.TagLanguage.Groups

/-!
# The language of tags

The grammar of tags, written down without reference to a scanner:

    Tag      = '<' '/'? (Name (Space+ (AttrName ('=' Value)? | Spread))* Space* '/'?)? '>'
    Value    = quoted text | bare characters | Group
    Spread   = '{' Space* '...' (character other than a brace | Group)* '}'
    Space    = blank | '//' up to the end of the line | '/*' up to the first '*/'

A derivation is a value of one of the types below. It holds the choices that lead to a text, and
the proofs that they are allowed, so that every value derives the text that its `text` says. On
paper the grammar is ambiguous: a slash can begin a comment or end a tag, and names, bare values
and comments can stand next to each other. Nothing here says which choice a reader should prefer.
-/

namespace TemplHighlight.TagLanguage

/-- A run of characters of a class can go on no further: nothing follows, or a character of another
class does. -/
def Stops (isMember : Char → Bool) (follow : Text) : Prop :=
  ∀ c ∈ follow.head?, isMember c = false

/-- The characters of a line that are left before its end. -/
def isInLine (c : Char) : Bool := c != '\n'

/-- One unit of space. -/
inductive SpaceUnit where
  | blank (c : Char) (isBlank : CharClass.isBlank c)
  /-- `//` and what is left of the line. -/
  | lineComment (body : Text) (inLine : ∀ c ∈ body, isInLine c)
  /-- The text between `/*` and the first `*/`: together with the star behind it, it holds no
  `*/`. -/
  | blockComment (body : Text) (endsFirst : ¬ ['*', '/'] <:+: body ++ ['*'])

namespace SpaceUnit

/-- The text of a unit. -/
def text : SpaceUnit → Text
  | blank c _ => [c]
  | lineComment body _ => '/' :: '/' :: body
  | blockComment body _ => '/' :: '*' :: (body ++ ['*', '/'])

/-- Whether a unit can stand in front of a text: a line comment reaches up to the end of its
line. -/
def Fits : SpaceUnit → (follow : Text) → Prop
  | lineComment _ _, follow => Stops isInLine follow
  | _, _ => True

end SpaceUnit

/-- The text of units of space, one after the other. -/
def spaceText : List SpaceUnit → Text
  | [] => []
  | unit :: units => unit.text ++ spaceText units

/-- Whether units of space, one after the other, can stand in front of a text. -/
def SpaceFits : List SpaceUnit → (follow : Text) → Prop
  | [], _ => True
  | unit :: units, follow => unit.Fits (spaceText units ++ follow) ∧ SpaceFits units follow

/-- One or more characters of a class. -/
structure Run (isMember : Char → Bool) where
  chars : Text
  filled : chars ≠ []
  members : ∀ c ∈ chars, isMember c

/-- The run of a text whose characters all belong to the class. -/
def Run.ofText {isMember : Char → Bool} (chars : Text) (filled : chars ≠ [])
    (all : chars.all isMember = true) : Run isMember :=
  ⟨chars, filled, List.all_eq_true.mp all⟩

/-- What may stand between two quotes: a backslash takes the character behind it along, and
elsewhere the quote does not occur. -/
inductive Escaped (mark : Char) : Text → Prop where
  | done : Escaped mark []
  | char {c : Char} {later : Text} (inside : c ≠ mark) (plain : c ≠ '\\')
      (behind : Escaped mark later) : Escaped mark (c :: later)
  | escape {c : Char} {later : Text} (behind : Escaped mark later) :
      Escaped mark ('\\' :: c :: later)

/-- The value of an attribute. -/
inductive Value (depth : Nat) where
  | quoted (mark : Char) (isQuote : mark = '"' ∨ mark = '\'') (body : Text)
      (escaped : Escaped mark body)
  | bare (run : Run Tag.isBareChar)
  | group (inner : Text) (braced : Braced depth inner)

/-- The text of a value. -/
def Value.text {depth : Nat} : Value depth → Text
  | quoted mark _ body _ => mark :: (body ++ [mark])
  | bare run => run.chars
  | group inner _ => '{' :: (inner ++ ['}'])

/-- A spread. The groups in its expression may be nested as deep as groups that are values, so the
expression itself stands one level above them. -/
structure SpreadDerivation (depth : Nat) where
  space : List SpaceUnit
  expr : Text
  braced : Braced (depth + 1) expr
  fits : SpaceFits space ('.' :: '.' :: '.' :: (expr ++ ['}']))

/-- The text of a spread. -/
def SpreadDerivation.text {depth : Nat} (spread : SpreadDerivation depth) : Text :=
  '{' :: (spaceText spread.space ++ '.' :: '.' :: '.' :: (spread.expr ++ ['}']))

/-- An attribute with or without a value, or a spread. -/
inductive Attribute (depth : Nat) where
  | named (name : Run Tag.isAttrNameChar) (value : Option (Value depth))
  | spread (inner : SpreadDerivation depth)

/-- The text of an attribute. -/
def Attribute.text {depth : Nat} : Attribute depth → Text
  | named name none => name.chars
  | named name (some value) => name.chars ++ '=' :: value.text
  | spread inner => inner.text

/-- An attribute with the space in front of it. -/
structure SpacedAttribute (depth : Nat) where
  space : List SpaceUnit
  separated : space ≠ []
  attr : Attribute depth
  fits : SpaceFits space attr.text

/-- The text of attributes with the space in front of each. -/
def attributesText {depth : Nat} : List (SpacedAttribute depth) → Text
  | [] => []
  | spaced :: later => spaceText spaced.space ++ spaced.attr.text ++ attributesText later

/-- The end of a tag. -/
def endMark (slash : Bool) : Text := if slash then ['/', '>'] else ['>']

/-- A tag's name and what follows it. -/
structure NamedPart (depth : Nat) where
  name : Run Tag.isNameChar
  attributes : List (SpacedAttribute depth)
  space : List SpaceUnit
  /-- Whether there is a slash right before the end. -/
  slash : Bool
  fits : SpaceFits space (endMark slash)

/-- The text of a name and what follows it, up to the end of the tag. -/
def NamedPart.text {depth : Nat} (part : NamedPart depth) : Text :=
  part.name.chars ++ attributesText part.attributes ++ spaceText part.space ++ endMark part.slash

/-- The text of a tag behind its opening mark. A tag without a name ends there. -/
def innerText {depth : Nat} : Option (NamedPart depth) → Text
  | some part => part.text
  | none => ['>']

/-- A tag, with a name or without. -/
structure TagDerivation (depth : Nat) where
  /-- Whether there is a slash behind the first character. -/
  closing : Bool
  named : Option (NamedPart depth)

namespace TagDerivation

variable {depth : Nat}

/-- The text of a tag. -/
def text (tag : TagDerivation depth) : Text :=
  '<' :: ((if tag.closing then ['/'] else []) ++ innerText tag.named)

/-- The name of a tag; a tag without one has the empty name. -/
def name (tag : TagDerivation depth) : Text :=
  match tag.named with
  | some part => part.name.chars
  | none => []

end TagDerivation

/-- The language of tags whose values hold groups nested at most `depth` deep. -/
def IsTag (depth : Nat) (text : Text) : Prop := ∃ tag : TagDerivation depth, tag.text = text

/-- The language of spreads. -/
def IsSpread (depth : Nat) (text : Text) : Prop :=
  ∃ spread : SpreadDerivation depth, spread.text = text

end TemplHighlight.TagLanguage
