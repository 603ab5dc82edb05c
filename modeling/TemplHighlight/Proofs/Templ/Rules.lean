import TemplHighlight.Grammar.Compose
import TemplHighlight.Grammar.Go
import TemplHighlight.Grammar.Split

/-!
# The rules of the templ grammar

What composing the shipped markup and Go grammars comes to, written out: the rule sets of a templ
grammar and the rules that are tried with each of them, in order. The further keywords and the depth
of brace groups remain open. Whatever is said of a text split with the templ grammar goes back to
these lists.
-/

namespace TemplHighlight.Templ

open Grammar

/-- What the name of a tag is made of, together with its opening mark. -/
def nameInside : RuleSet :=
  ⟨"markup tag-name",
    [("punctuation", [{ pattern := Markup.openingMark }]),
      ("namespace", [Markup.namespaceRule]),
      ("class-name", [{ pattern := componentNamePattern }])], .none⟩

/-- The rule for a tag's opening mark and name. -/
def nameRule : Rule :=
  { pattern := templTagNamePattern, inside := .to nameInside, kind := some .tagName }

/-- What a brace group is made of, together with the `=` in front of it. -/
def scriptInside : RuleSet :=
  ⟨"templ script",
    [("script-punctuation", [{
        pattern := scriptMarkPattern
        aliases := ["punctuation"]
        kind := some .punctuation }])],
    .root⟩

/-- The rule for brace groups that are values. -/
def scriptRule (depth : Nat) : Rule :=
  { pattern := .lead '=' [] (.braces depth)
    aliases := ["language-go"]
    inside := .to scriptInside }

/-- The rule for spreads. -/
def spreadRule (depth : Nat) : Rule := { pattern := .spread depth, inside := .root }

/-- What a value is made of that is no brace group. -/
def valueInside : RuleSet :=
  ⟨"markup attr-value",
    [("punctuation", [
      { pattern := pattern (.seq .textStart (.word "=")) "^=", aliases := ["attr-equals"] },
      { pattern := Markup.quoteMarkPattern, lookbehind := true }])], .none⟩

/-- What the name of an attribute is made of. -/
def attrNameInside : RuleSet :=
  ⟨"markup attr-name", [("namespace", [Markup.namespaceRule])], .none⟩

/-- The rule for block comments. -/
def blockComment : Rule :=
  { pattern := Clike.blockCommentPattern, lookbehind := true, greedy := true }

/-- The rule for comments up to the end of a line. -/
def lineComment : Rule :=
  { pattern := Clike.lineCommentPattern, lookbehind := true, greedy := true }

/-- The rules that are tried in a tag behind those for its name, brace groups and spreads. -/
def laterInTag : List (String × List Rule) :=
  [("special-attr", []),
    ("attr-value", [{ pattern := templAttrValuePattern, inside := .to valueInside }]),
    ("punctuation", [{ pattern := Markup.closingMark }]),
    ("attr-name", [{ pattern := Markup.attrNamePattern, inside := .to attrNameInside }]),
    ("comment", [blockComment, lineComment])]

/-- What a tag is made of. -/
def tagInside (depth : Nat) : RuleSet :=
  ⟨"markup tag",
    ("tag-name", [nameRule]) :: ("script", [scriptRule depth]) ::
      ("spread", [spreadRule depth]) :: laterInTag, .none⟩

/-- The rule for tags. -/
def tagRule (depth : Nat) : Rule :=
  { pattern := .tag depth, greedy := true, inside := .to (tagInside depth) }

/-- The rules that are tried on a text before the rule for tags. -/
def beforeTag : List (String × List Rule) :=
  [("comment", [
      blockComment, lineComment, { pattern := Markup.commentPattern, greedy := true }]),
    ("prolog", [{ pattern := Markup.prologPattern, greedy := true }]),
    ("doctype", [{
      pattern := Markup.doctypePattern
      greedy := true
      inside := .to Markup.insideDoctype }]),
    ("cdata", [{ pattern := Markup.cdataPattern, greedy := true }])]

/-- The rule for keywords, those of Go and further ones. -/
def keywordRule : (keywords : List Text) → Rule
  | [] => { pattern := .words (Go.keywords.map String.toList) }
  | keyword :: more =>
    { pattern := .regex
        (.alt (.wholeWord (Go.keywords.map String.toList)) (.wholeWord (keyword :: more))) false
        ("(?:".toList ++ ("\\b(?:".toList ++
          Text.writtenChoice (Go.keywords.map String.toList) ++ ")\\b".toList) ++
          ")|\\b(?:".toList ++ Text.writtenChoice (keyword :: more) ++ ")\\b".toList) }

/-- The rules that are tried on a text behind the rule for tags. -/
def behindTag (keywords : List Text) : List (String × List Rule) :=
  [("entity", [
      { pattern := Markup.namedEntityPattern, aliases := ["named-entity"] },
      { pattern := Markup.numericEntityPattern }]),
    ("char", [{ pattern := Go.charPattern, greedy := true }]),
    ("string", [{ pattern := Go.stringPattern, lookbehind := true, greedy := true }]),
    ("keyword", [keywordRule keywords]),
    ("boolean", [{ pattern := Go.booleanPattern }]),
    ("function", [{ pattern := Clike.functionPattern }]),
    ("number", [
      { pattern := Go.binaryPattern }, { pattern := Go.hexPattern },
      { pattern := Go.decimalPattern }]),
    ("operator", [{ pattern := Go.operatorPattern }]),
    ("punctuation", [{ pattern := Clike.punctuationPattern }]),
    ("builtin", [{ pattern := .words (Go.builtins.map String.toList) }])]

/-- The templ grammar. -/
def grammar (keywords : List Text) (depth : Nat) : RuleSet :=
  ⟨"markup", beforeTag ++ ("tag", [tagRule depth]) :: behindTag keywords, .none⟩

/-- Composing the shipped markup grammar with the shipped Go grammar, which has been given further
keywords. -/
def composed (keywords : List Text) (depth : Nat) : Except ComposeError RuleSet := do
  let script ← extendKeywords (.to go) keywords "go"
  compose (.to markup) (.to script) depth

/-- The templ grammar is what composing gives, at every depth and with all keywords. -/
theorem composed_grammar (keywords : List Text) (depth : Nat) :
    composed keywords depth = .ok (grammar keywords depth) := by
  cases keywords <;> rfl

/-- Rules with the names under which they stand. -/
def listed (entries : List (String × List Rule)) : List (String × Rule) :=
  entries.flatMap fun (name, rules) => rules.map (name, ·)

/-- The rules that are tried on a whole text, and on what a spread holds. -/
theorem rules_of_grammar (keywords : List Text) (depth : Nat) :
    RuleSet.chainRules (grammar keywords depth) (grammar keywords depth) =
      listed beforeTag ++ ("tag", tagRule depth) :: listed (behindTag keywords) :=
  rfl

/-- The rules that are tried on a brace group that is a value: one of its own, and then those for a
whole text. -/
theorem rules_of_scriptInside (keywords : List Text) (depth : Nat) :
    RuleSet.chainRules (grammar keywords depth) scriptInside =
      ("script-punctuation", {
        pattern := scriptMarkPattern
        aliases := ["punctuation"]
        kind := some .punctuation }) ::
      RuleSet.chainRules (grammar keywords depth) (grammar keywords depth) :=
  rfl

/-- The rules that are tried in a tag behind the rule for its name. -/
def behindName (depth : Nat) : List (String × Rule) :=
  ("script", scriptRule depth) :: ("spread", spreadRule depth) :: listed laterInTag

/-- The rules that are tried on a tag. -/
theorem rules_of_tagInside (root : RuleSet) (depth : Nat) :
    RuleSet.chainRules root (tagInside depth) = ("tag-name", nameRule) :: behindName depth :=
  rfl

/-- The rules that are tried on the name of a tag. -/
theorem rules_of_nameInside (root : RuleSet) :
    RuleSet.chainRules root nameInside =
      [("punctuation", { pattern := Markup.openingMark }),
        ("namespace", Markup.namespaceRule),
        ("class-name", { pattern := componentNamePattern })] :=
  rfl

end TemplHighlight.Templ
