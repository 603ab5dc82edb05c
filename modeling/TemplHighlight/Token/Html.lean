import TemplHighlight.Token.Tree

/-!
# HTML

A token tree as nested `span` elements, and as a page of its own. The text of a leaf is what its
content says, and the characters that mean something in HTML are written as entities.
-/

namespace TemplHighlight.Html

/-- A character between tags. -/
def escapedChar (c : Char) : Text :=
  if c = '&' then "&amp;".toList
  else if c = '<' then "&lt;".toList
  else if c = '>' then "&gt;".toList
  else [c]

/-- A text between tags. -/
def escaped (text : Text) : Text := text.flatMap escapedChar

/-- A text in which quotes are written as entities too. -/
def escapedQuotes (text : Text) : Text :=
  text.flatMap fun c =>
    if c = '"' then "&quot;".toList
    else if c = '\'' then "&#x27;".toList
    else escapedChar c

/-- Adds to a list of classes what is not yet in it, in order. -/
def addClasses (classes : List String) : List String → List String
  | [] => classes
  | name :: names => addClasses (if name ∈ classes then classes else classes ++ [name]) names

/-- The classes of a token's element: `token`, the kind, and every alias once. -/
def classes (kind : TokenKind) (aliases : List String) : Text :=
  Text.join [' '] ((addClasses ["token", kind.name] aliases).map String.toList)

mutual

/-- A tree as HTML. -/
def render : Tree → Text
  | .text chars => escaped chars
  | .token kind content aliases _ =>
    "<span class=\"".toList ++ classes kind aliases ++ "\">".toList ++ render content ++
      "</span>".toList
  | .list items => renderAll items

/-- The items of a list, one after the other. -/
def renderAll : List Tree → Text
  | [] => []
  | item :: items => render item ++ renderAll items

end

/-- A page that shows a tree. Without a title, or with an empty one, the language is the title. -/
def document (tree : Tree) (language : Text) (title : Option Text) : Text :=
  let heading := match title with
    | some (c :: rest) => c :: rest
    | _ => language
  "<!DOCTYPE html>\n<html>\n<head><meta charset=\"utf-8\"><title>".toList ++
    escapedQuotes heading ++
    "</title></head>\n<body>\n<pre class=\"language-".toList ++ language ++
    "\"><code class=\"language-".toList ++ language ++ "\">".toList ++ render tree ++
    "</code></pre>\n</body>\n</html>\n".toList

end TemplHighlight.Html
