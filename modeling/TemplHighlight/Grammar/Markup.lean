import TemplHighlight.Grammar.RuleSet

/-!
# The markup grammar

Comments, declarations, tags with their attributes, and character references of HTML and XML.
-/

namespace TemplHighlight.Grammar

open Regex

/-- A regular expression as a pattern. -/
def pattern (shape : Regex) (written : String) : Pattern := .regex shape false written.toList

/-- A regular expression that takes letters of either case for the same. -/
def patternAnyCase (shape : Regex) (written : String) : Pattern := .regex shape true written.toList

namespace Markup

/-- A name up to its colon. -/
def namespacePattern : Pattern :=
  pattern (sequence [textStart, plus (one (.inkBut ">/:")), word ":"]) "^[^\\s>/:]+:"

/-- `<` or `</` at the start. -/
def openingMark : Pattern :=
  pattern (sequence [textStart, word "<", optional (word "/")]) "^</?"

/-- A tag's opening mark and name. -/
def tagNamePattern : Pattern :=
  pattern (sequence [textStart, word "<", optional (word "/"), plus (one (.inkBut ">/"))])
    "^</?[^\\s>/]+"

/-- A value in quotes of either kind, or a bare one. -/
def attrValuePattern : Pattern :=
  pattern
    (sequence [word "=", most (one .blank),
      choice [between "\"", between "'", plus (one (.inkBut "'\">="))]])
    "=\\s*(?:\"[^\"]*\"|'[^']*'|[^\\s'\">=]+)"

/-- A quote, with blanks in front of it, at the start, or a quote at the end. -/
def quoteMarkPattern : Pattern :=
  pattern
    (choice [
      sequence [textStart, group (most (one .blank)), among "\"'"],
      sequence [among "\"'", textEnd]])
    "^(\\s*)[\"']|[\"']$"

/-- The end of a tag. -/
def closingMark : Pattern := pattern (sequence [optional (word "/"), word ">"]) "/?>"

/-- The name of an attribute. -/
def attrNamePattern : Pattern := pattern (plus (one (.inkBut ">/"))) "[^\\s>/]+"

/-- A comment up to its end, with no other one opened inside. -/
def commentPattern : Pattern :=
  pattern
    (sequence [word "<!--", least (seq (ahead false (word "<!--")) (one .all)), word "-->"])
    "<!--(?:(?!<!--)[\\s\\S])*?-->"

/-- A processing instruction. -/
def prologPattern : Pattern :=
  pattern (sequence [word "<?", plusLeast (one .all), word "?>"]) "<\\?[\\s\\S]+?\\?>"

/-- A document type declaration, with a part in brackets that may hold declarations and comments of
its own. -/
def doctypePattern : Pattern :=
  patternAnyCase
    (sequence [
      word "<!DOCTYPE",
      plus (choice [notAmong ">\"'[]", between "\"", between "'"]),
      optional (sequence [
        word "[",
        most (choice [
          notAmong "<\"']", between "\"", between "'",
          seq (word "<") (ahead false (word "!--")),
          sequence [
            word "<!--",
            most (choice [notAmong "-", seq (word "-") (ahead false (word "->"))]),
            word "-->"]]),
        word "]", most (one .blank)]),
      word ">"])
    ("<!DOCTYPE(?:[^>\"'\\[\\]]|\"[^\"]*\"|'[^']*')+" ++
      "(?:\\[(?:[^<\"'\\]]|\"[^\"]*\"|'[^']*'|<(?!!--)|<!--(?:[^-]|-(?!->))*-->)*\\]\\s*)?>")

/-- A section of characters that are not markup. -/
def cdataPattern : Pattern :=
  patternAnyCase (sequence [word "<![CDATA[", least (one .all), word "]]>"])
    "<!\\[CDATA\\[[\\s\\S]*?\\]\\]>"

/-- An attribute inside `tagPattern`: a name, and a value or the end of the name. -/
def tagAttribute : Regex :=
  sequence [
    most (one .blank), plus (one (.inkBut ">/=")),
    choice [
      sequence [
        most (one .blank), word "=", most (one .blank),
        choice [
          between "\"", between "'",
          seq (plus (one (.inkBut "'\">="))) (ahead true (one (.either .blank (.among ['>']))))]],
      ahead true (one (.either .blank (.among ['/', '>'])))]]

/-- A whole tag. -/
def tagPattern : Pattern :=
  pattern
    (sequence [
      word "<", optional (word "/"), ahead false (one .digit), plus (one (.inkBut ">/=$<%")),
      optional (seq (one .blank) (plus tagAttribute)),
      most (one .blank), optional (word "/"), word ">"])
    ("</?(?!\\d)[^\\s>/=$<%]+(?:\\s(?:\\s*[^\\s>/=]+" ++
      "(?:\\s*=\\s*(?:\"[^\"]*\"|'[^']*'|[^\\s'\">=]+(?=[\\s>]))|(?=[\\s/>])))+)?\\s*/?>")

/-- A character reference by name. -/
def namedEntityPattern : Pattern :=
  patternAnyCase
    (sequence [word "&", plusUpTo 8 (one (.either .digit (.range 'a' 'z'))), word ";"])
    "&[\\da-z]\x7b1,8\x7d;"

/-- A character reference by number. -/
def numericEntityPattern : Pattern :=
  patternAnyCase
    (sequence [
      word "&#", optional (word "x"), plusUpTo 8 (one (.either .digit (.range 'a' 'f'))), word ";"])
    "&#x?[\\da-f]\x7b1,8\x7d;"

/-- The rule for the part of a name up to its colon. -/
def namespaceRule : Rule := { pattern := namespacePattern, kind := some .namespaceName }

/-- What a tag is made of. -/
def insideTag : RuleSet :=
  .ofList "markup tag" [
    ("tag-name", [{
      pattern := tagNamePattern
      kind := some .tagName
      inside := .to (.ofList "markup tag-name" [
        ("punctuation", [{ pattern := openingMark }]),
        ("namespace", [namespaceRule])]) }]),
    ("special-attr", []),
    ("attr-value", [{
      pattern := attrValuePattern
      inside := .to (.ofList "markup attr-value" [
        ("punctuation", [
          { pattern := pattern (seq textStart (word "=")) "^=", aliases := ["attr-equals"] },
          { pattern := quoteMarkPattern, lookbehind := true }])]) }]),
    ("punctuation", [{ pattern := closingMark }]),
    ("attr-name", [{
      pattern := attrNamePattern
      inside := .to (.ofList "markup attr-name" [("namespace", [namespaceRule])]) }])]

/-- What a document type declaration is made of. -/
def insideDoctype : RuleSet :=
  .ofList "markup doctype" [
    ("string", [{
      pattern := pattern (choice [between "\"", between "'"]) "\"[^\"]*\"|'[^']*'" }]),
    ("punctuation", [{
      pattern := pattern
        (choice [seq textStart (word "<!"), seq (word ">") textEnd, among "[]"])
        "^<!|>$|[\\[\\]]" }])]

end Markup

open Markup in
/-- The markup grammar. -/
def markup : RuleSet :=
  .ofList "markup" [
    ("comment", [{ pattern := commentPattern, greedy := true }]),
    ("prolog", [{ pattern := prologPattern, greedy := true }]),
    ("doctype", [{ pattern := doctypePattern, greedy := true, inside := .to insideDoctype }]),
    ("cdata", [{ pattern := cdataPattern, greedy := true }]),
    ("tag", [{ pattern := tagPattern, greedy := true, inside := .to insideTag }]),
    ("entity", [
      { pattern := namedEntityPattern, aliases := ["named-entity"] },
      { pattern := numericEntityPattern }])]

end TemplHighlight.Grammar
