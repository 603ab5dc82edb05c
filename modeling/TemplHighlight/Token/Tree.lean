import TemplHighlight.Text.Quoted
import TemplHighlight.Token.Kind

/-!
# Token trees

The result of highlighting: raw text, tokens and lists of these. A token covers a piece of source
text; its content is that text, or the list of parts it was split into. A token may carry the source
text it was made from, which then stands for the text of its content.
-/

namespace TemplHighlight

/-- A token tree. -/
inductive Tree where
  /-- Text that no rule turned into a token. -/
  | text (chars : Text)
  /-- A token; `cached` is the source text it carries, if any. -/
  | token (kind : TokenKind) (content : Tree) (aliases : List String) (cached : Option Text)
  | list (items : List Tree)

namespace Tree

instance : Inhabited Tree := ⟨text []⟩

mutual

/-- The source text that a tree covers: what a token carries, or else the text of its content. -/
def source : Tree → Text
  | text chars => chars
  | token _ content _ cached =>
    match cached with
    | some raw => raw
    | none => content.source
  | list items => sources items

/-- The source text that the items of a list cover, one after the other. -/
def sources : List Tree → Text
  | [] => []
  | item :: items => item.source ++ sources items

end

/-- The text of two lists of items is the text of the one and then of the other. -/
theorem sources_append (front back : List Tree) :
    sources (front ++ back) = sources front ++ sources back := by
  induction front with
  | nil => rfl
  | cons item front inductionHypothesis => simp [sources, inductionHypothesis]

mutual

/-- Equality of trees, in which the text that tokens carry does not count: two tokens are the same
if their kinds, contents and aliases are. -/
def same : Tree → Tree → Bool
  | text a, text b => a == b
  | token kind content aliases _, token kind' content' aliases' _ =>
    kind == kind' && content.same content' && aliases == aliases'
  | list items, list items' => allSame items items'
  | _, _ => false

/-- Item by item equality of two lists. -/
def allSame : List Tree → List Tree → Bool
  | [], [] => true
  | a :: as, b :: bs => a.same b && allSame as bs
  | _, _ => false

end

/-- Whether the tree is a token. -/
def isToken : Tree → Bool
  | token .. => true
  | _ => false

/-- Whether the tree is a token whose content is a list. -/
def isNested : Tree → Bool
  | token _ (list _) _ _ => true
  | _ => false

/-- The token with its source text written into it; other trees are left as they are. -/
def remember : Tree → Tree
  | token kind content aliases cached => token kind content aliases
      (some (token kind content aliases cached).source)
  | tree => tree

/-- The token with another content. The text that it carries is kept, so it goes on covering the
same source. -/
def withContent : (tree content : Tree) → Tree
  | token kind _ aliases cached, content => token kind content aliases cached
  | tree, _ => tree

/-- What a set of tokens looks at before it compares two of them: kind, source text and aliases. -/
structure HashKey where
  kind : TokenKind
  source : Text
  aliases : List String
  deriving DecidableEq

/-- The hashed values of a token. -/
def hashKey? : Tree → Option HashKey
  | token kind content aliases cached =>
    some ⟨kind, (token kind content aliases cached).source, aliases⟩
  | _ => none

/-- The number of elements of a set that both tokens were put into: one if the set takes them for
the same, which needs equal hashed values as well as equality. -/
def distinctCount (a b : Tree) : Nat :=
  if a.same b && a.hashKey? == b.hashKey? then 1 else 2

mutual

/-- The form in which a tree is shown in messages. -/
def shown : Tree → Text
  | text chars => chars.quoted
  | token kind content _ _ =>
    "Token(".toList ++ kind.name.toList ++ ", ".toList ++ content.shown ++ [')']
  | list items => '[' :: shownItems items ++ [']']

/-- The items of a list as they are shown, with commas between them. -/
def shownItems : List Tree → Text
  | [] => []
  | [item] => item.shown
  | item :: items => item.shown ++ ", ".toList ++ shownItems items

end

end Tree

end TemplHighlight
