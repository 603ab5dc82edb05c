import TemplHighlight.Token.Tree

/-!
# Text in tag bodies

What stands between an opening tag and its closing tag is literal text, although the rules of the
script language split it like any other text. `TagBody.mark` goes through a list of items with a
stack of the open tags, counts for each the braces that are open in its body, and merges everything
that lies directly in a body into plain-text tokens. Inside braces the items stay as they are.

Nothing is refused: a closing tag that fits no open tag is passed over, and a tag that is never
closed stays open up to the end of its list.
-/

namespace TemplHighlight.TagBody

/-- An open tag, with the number of braces that are open in its body. -/
structure OpenTag where
  name : Text
  openBraces : Nat
  deriving DecidableEq

/-- The parts of the tag-name token that a tag token starts with. A token without them counts as no
tag. -/
def head? : Tree → Option (List Tree)
  | .token .tag (.list (.token .tagName (.list parts) _ _ :: _)) _ _ => some parts
  | _ => none

/-- The name in a head: all of it but the opening mark. -/
def nameOf (head : List Tree) : Text := Tree.sources (head.drop 1)

/-- Whether a head starts with the mark of a closing tag. -/
def isClosing : List Tree → Bool
  | .token _ (.text mark) _ _ :: _ => mark == ['<', '/']
  | _ => false

/-- Whether a tag closes itself. -/
def isSelfClosing (tag : Tree) : Bool := ['/', '>'].isSuffixOf tag.source

/-- Whether an item is a given punctuation mark. -/
def isPunctuation (mark : Text) : Tree → Bool
  | .token .punctuation (.text text) _ _ => text == mark
  | _ => false

/-- Whether an item is raw text or a plain-text token. -/
def isText : Tree → Bool
  | .text _ => true
  | .token .plainText _ _ _ => true
  | _ => false

/-- The plain-text token for a text. -/
def plainText (text : Text) : Tree := .token .plainText (.text text) [] (some text)

/-- The token with a given source text written into it. -/
def carrying (raw : Text) : Tree → Tree
  | .token kind content aliases _ => .token kind content aliases (some raw)
  | tree => tree

/-- Adds text to the items that are done, the last of them first. Text at their end is merged with
it. -/
def addText (text : Text) : (done : List Tree) → List Tree
  | [] => [plainText text]
  | last :: done =>
    if isText last then plainText (last.source ++ text) :: done
    else plainText text :: last :: done

/-- Whether the next item lies directly in the body of the innermost open tag. -/
def inBody : (stack : List OpenTag) → Bool
  | [] => false
  | tag :: _ => tag.openBraces == 0

/-- The stack behind a tag: a closing tag takes the innermost open tag away if it has its name, and
any other tag that does not close itself is put on top. -/
def afterTag (tag : Tree) (head : List Tree) (stack : List OpenTag) : List OpenTag :=
  if isClosing head then
    match stack with
    | top :: below => if top.name = nameOf head then below else stack
    | [] => []
  else if isSelfClosing tag then stack
  else ⟨nameOf head, 0⟩ :: stack

/-- The stack behind a brace, if the brace counts: an opening brace counts in every body, a closing
one only where braces are open. -/
def afterBrace? (item : Tree) : (stack : List OpenTag) → Option (List OpenTag)
  | [] => none
  | top :: below =>
    if isPunctuation ['{'] item then some ({ top with openBraces := top.openBraces + 1 } :: below)
    else if isPunctuation ['}'] item && top.openBraces != 0 then
      some ({ top with openBraces := top.openBraces - 1 } :: below)
    else none

mutual

/-- Goes through the items with the tags that are open and the items that are done, the last of them
first. -/
def markFrom (stack : List OpenTag) (done : List Tree) : List Tree → List Tree
  | [] => done.reverse
  | item :: items =>
    match head? item with
    | some head =>
      let inner :=
        if isClosing head then markInside item else carrying item.source (markInside item)
      markFrom (afterTag item head stack) (inner :: done) items
    | none =>
      match afterBrace? item stack with
      | some stack' => markFrom stack' (item :: done) items
      | none =>
        if inBody stack then markFrom stack (addText item.source done) items
        else markFrom stack (markInside item :: done) items

/-- The token with the items of its own list marked, no tag being open at their start. -/
def markInside : Tree → Tree
  | .token kind (.list items) aliases cached =>
    .token kind (.list (markFrom [] [] items)) aliases cached
  | tree => tree

end

/-- The items with the text of tag bodies merged into plain-text tokens. -/
def mark (items : List Tree) : List Tree := markFrom [] [] items

end TemplHighlight.TagBody
