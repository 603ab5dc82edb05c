import TemplHighlight.Grammar.Markup

/-!
# The templ grammar

A templ source is markup with Go in it. Its grammar holds the markup rules followed by the Go rules;
the tag rule finds tags whose attributes may hold brace groups, and splits such values and spread
attributes with the whole grammar again. Further keywords are added to the Go grammar beforehand.
-/

namespace TemplHighlight

/-- Why a grammar could not be composed. -/
inductive ComposeError where
  /-- A grammar is not there, or it lacks what it is needed for. -/
  | missing (grammar : String) (detail : Option String)
  /-- A link to the root stands where a rule set is needed. -/
  | notRuleSet
  /-- The greatest depth of brace groups is no depth. -/
  | pattern (error : PatternError)
  /-- There is not exactly one rule under a name. -/
  | notSingle (name : String)
  /-- The tag rule has no rule set inside. -/
  | noInside
  /-- The rule set inside the tag rule lacks a rule. -/
  | noInsideRule (name : String)
  /-- The tag-name rule splits names with the root grammar, which cannot be added to. -/
  | openInside
  deriving DecidableEq

/-- The report of a missing grammar. -/
def missingGrammarMessage (grammar : String) (detail : Option String) : Text :=
  "Missing required grammar: '".toList ++ grammar.toList ++ "'".toList ++
    match detail with
    | some detail => " (".toList ++ detail.toList ++ ")".toList
    | none => []

namespace ComposeError

/-- The words for the errors that come with an explanation. -/
def message? : ComposeError → Option Text
  | missing grammar detail => some (missingGrammarMessage grammar detail)
  | pattern error => error.message?
  | _ => none

end ComposeError

namespace Grammar

/-- The keyword rule, which in addition finds any of the words as a whole word. -/
def widenKeyword (grammar : String) (words : List Text) (rule : Rule) : Except ComposeError Rule :=
  match rule.pattern with
  | .regex shape anyCase written =>
    .ok { rule with
      pattern := .regex (.alt shape (.wholeWord words)) anyCase
        ("(?:".toList ++ written ++ ")|\\b(?:".toList ++ Text.writtenChoice words ++
          ")\\b".toList) }
  | _ => .error (.missing grammar (some "keyword rule is not a regular expression"))

/-- The grammar with further keywords, which are whole words and have to be written as given. The
name `grammar` is the one to report when that cannot be done. -/
def extendKeywords (base : Link RuleSet) (keywords : List Text) (grammar : String) :
    Except ComposeError RuleSet := do
  match base with
  | .none => throw (.missing grammar none)
  | .root => throw .notRuleSet
  | .to base =>
    if !base.has "keyword" then throw (.missing grammar (some "grammar has no keyword rule"))
    if keywords.isEmpty then return base
    let widened ← (base.rules "keyword").mapM (widenKeyword grammar keywords)
    return base.extend [("keyword", widened)]

/-- A tag's opening mark and name; the name may be missing. -/
def templTagNamePattern : Pattern :=
  pattern
    (.sequence [.textStart, .word "<", .optional (.word "/"), .most (.one (.inkBut ">/"))])
    "^</?[^\\s>/]*"

/-- A component's name: capitalised words with dots between them. -/
def componentNamePattern : Pattern :=
  let capitalised := Regex.seq (.one (.range 'A' 'Z')) (.most (.one .word))
  pattern
    (.sequence [.textStart, capitalised, .most (.seq (.word ".") capitalised), .textEnd])
    "^[A-Z]\\w*(?:\\.[A-Z]\\w*)*$"

/-- What stands between two marks, together with the marks; a backslash takes the character behind
it along. -/
def escapedBetween (mark : String) : Regex :=
  .sequence [.among mark,
    .most (.alt (.seq (.word "\\") (.one .all)) (.notAmong ("\\" ++ mark))), .among mark]

/-- A value in quotes of either kind, in which a backslash escapes, or a bare one; not a brace
group. -/
def templAttrValuePattern : Pattern :=
  pattern
    (.sequence [.word "=", .ahead false (.word "\x7b"),
      .choice [escapedBetween "\"", escapedBetween "'", .plus (.one (.inkBut "'\"/>"))]])
    ("=(?!\\\x7b)(?:\"(?:\\\\[\\s\\S]|[^\\\\\"])*\"|'(?:\\\\[\\s\\S]|[^\\\\'])*'|" ++
      "[^\\s'\"/>]+)")

/-- The `=` in front of a brace group. -/
def scriptMarkPattern : Pattern :=
  pattern (.sequence [.textStart, .word "=", .ahead true (.word "\x7b")]) "^=(?=\\\x7b)"

/-- The rules for what only templ tags have: brace groups as values, and spread attributes. -/
def templTagRules (depth : Nat) : List (String × List Rule) :=
  [("script", [{
      pattern := .lead '=' [] (.braces depth)
      aliases := ["language-go"]
      inside := .to (.ofList "templ script"
        [("script-punctuation", [{
          pattern := scriptMarkPattern
          aliases := ["punctuation"]
          kind := some .punctuation }])]
        .root) }]),
    ("spread", [{ pattern := .spread depth, inside := .root }])]

/-- The one rule under a name of the rule set inside the tag rule. -/
def insideRule (inside : RuleSet) (name : String) : Except ComposeError Rule :=
  if inside.has name then
    match inside.rules name with
    | [rule] => .ok rule
    | _ => .error (.notSingle name)
  else .error (.noInsideRule name)

/-- The tag-name rule with the pattern for templ, splitting off the names of components. A set
without rules counts as no set. -/
def templTagName (rule : Rule) : Except ComposeError Rule := do
  let inside ← match rule.inside with
    | .none => .ok (RuleSet.empty "templ tag-name")
    | .root => .error .openInside
    | .to set => .ok (if set.entries.isEmpty then RuleSet.empty "templ tag-name" else set)
  return { rule with
    pattern := templTagNamePattern
    inside := .to (inside.extend [("class-name", [{ pattern := componentNamePattern }])]) }

/-- What a templ tag is made of: what a tag is made of, with the comments of the script language,
its values as brace groups, and spreads. -/
def templInside (depth : Nat) (comments : List Rule) (inside : RuleSet) :
    Except ComposeError RuleSet := do
  let tagName ← templTagName (← insideRule inside "tag-name")
  let attrValue ← insideRule inside "attr-value"
  let named := inside.extend [("tag-name", [tagName])]
  let valued := named.extend [("attr-value", [{ attrValue with pattern := templAttrValuePattern }])]
  let commented := if comments.isEmpty then valued else valued.extend [("comment", comments)]
  return commented.insertBefore "special-attr" (templTagRules depth)

/-- The templ grammar made of a markup grammar and a script grammar. Brace groups in tags hold at
most `depth` levels of groups inside. -/
def compose (markup script : Link RuleSet) (depth : Int) : Except ComposeError RuleSet := do
  let markup ← match markup with
    | .none => throw (.missing "markup" none)
    | .root => if script matches .none then throw (.missing "go" none) else throw .notRuleSet
    | .to markup => .ok markup
  if script matches .none then throw (.missing "go" none)
  if !markup.has "tag" then throw (.missing "markup" (some "grammar has no tag rule"))
  let depth ← match Pattern.checkDepth depth with
    | .ok depth => .ok depth
    | .error error => throw (.pattern error)
  let script ← match script with
    | .to script => .ok script
    | _ => throw .notRuleSet
  let joined := markup.extend script.entries
  let comments := script.rules "comment" ++ markup.rules "comment"
  let commented := if comments.isEmpty then joined else joined.extend [("comment", comments)]
  let tag ← match markup.rules "tag" with
    | [tag] => .ok tag
    | _ => throw (.notSingle "tag")
  let inside ← match tag.inside with
    | .to inside => templInside depth (script.rules "comment") inside
    | _ => throw .noInside
  return commented.extend [("tag", [{ tag with pattern := .tag depth, inside := .to inside }])]

end Grammar

end TemplHighlight
