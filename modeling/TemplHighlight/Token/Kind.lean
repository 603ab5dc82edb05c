/-!
# Token kinds

What a token can be. Each kind has a name, which is also the name of the grammar rule that makes
such tokens and the class that its HTML element carries.
-/

namespace TemplHighlight

/-- The kinds of tokens. -/
inductive TokenKind where
  /-- A whole tag: `<div class="x">`, `</div>`, `<br/>`. -/
  | tag
  /-- A tag up to the end of its name: `<div`. -/
  | tagName
  | attrName
  /-- The value of an attribute together with its `=`. -/
  | attrValue
  /-- `{ ...attrs }` -/
  | spread
  /-- `={ expr }` -/
  | script
  | specialAttr
  | comment
  | punctuation
  /-- Literal text in the body of a tag. -/
  | plainText
  | className
  /-- The part of a name up to its colon: `svg:`. -/
  | namespaceName
  | prolog
  | doctype
  | cdata
  /-- A character reference: `&amp;`. -/
  | entity
  | string
  | char
  | keyword
  | boolean
  | number
  | operator
  | function
  | builtin
  deriving DecidableEq

namespace TokenKind

/-- All kinds. -/
def all : List TokenKind :=
  [tag, tagName, attrName, attrValue, spread, script, specialAttr, comment, punctuation, plainText,
    className, namespaceName, prolog, doctype, cdata, entity, string, char, keyword, boolean,
    number, operator, function, builtin]

/-- The name of a kind. -/
def name : TokenKind → String
  | tag => "tag"
  | tagName => "tag-name"
  | attrName => "attr-name"
  | attrValue => "attr-value"
  | spread => "spread"
  | script => "script"
  | specialAttr => "special-attr"
  | comment => "comment"
  | punctuation => "punctuation"
  | plainText => "plain-text"
  | className => "class-name"
  | namespaceName => "namespace"
  | prolog => "prolog"
  | doctype => "doctype"
  | cdata => "cdata"
  | entity => "entity"
  | string => "string"
  | char => "char"
  | keyword => "keyword"
  | boolean => "boolean"
  | number => "number"
  | operator => "operator"
  | function => "function"
  | builtin => "builtin"

/-- The kind with a given name. -/
def ofName? (name : String) : Option TokenKind := all.find? (·.name == name)

/-- The name as a constant is written: capitals, with underscores between the words. -/
def constantName (kind : TokenKind) : String :=
  kind.name.map fun c => if c = '-' then '_' else c.toUpper

end TokenKind

end TemplHighlight
