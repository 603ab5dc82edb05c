import TemplHighlight.Grammar.Markup

/-!
# The grammar of C-like languages

What many languages with braces have in common: comments, strings, numbers, operators and the most
frequent keywords. It is the ground on which the grammar of a language is built.
-/

namespace TemplHighlight.Grammar

open Regex

namespace Clike

/-- A block comment; one that is not closed goes on to the end of the text. -/
def blockCommentPattern : Pattern :=
  pattern
    (sequence [
      group (choice [textStart, notAmong "\\"]), word "/*", least (one .all),
      choice [word "*/", textEnd]])
    "(^|[^\\\\])/\\*[\\s\\S]*?(?:\\*/|$)"

/-- A comment up to the end of its line; the `//` of an address such as `http://` starts none. -/
def lineCommentPattern : Pattern :=
  pattern (sequence [group (choice [textStart, notAmong "\\:"]), word "//", most (one .inLine)])
    "(^|[^\\\\:])//.*"

/-- A string in quotes of either kind, on one line unless line ends are escaped. -/
def stringPattern : Pattern :=
  pattern
    (sequence [
      group (among "\"'"),
      most (choice [
        seq (word "\\") (choice [word "\r\n", one .all]),
        seq (ahead false again) (notAmong "\\\r\n")]),
      again])
    "([\"'])(?:\\\\(?:\\r\\n|[\\s\\S])|(?!\\1)[^\\\\\\r\\n])*\\1"

/-- A name behind one of the words that a class name follows. -/
def classNamePattern : Pattern :=
  patternAnyCase
    (sequence [
      group (choice [
        sequence [
          boundary true,
          choice (["class", "extends", "implements", "instanceof", "interface", "new", "trait"].map
            word),
          plus (one .blank)],
        sequence [boundary true, word "catch", plus (one .blank), word "("]]),
      plus (one (.either .word (.among ['.', '\\'])))])
    ("(\\b(?:class|extends|implements|instanceof|interface|new|trait)\\s+|\\bcatch\\s+\\()" ++
      "[\\w.\\\\]+")

/-- The keywords, as whole words. -/
def keywordPattern : Pattern :=
  pattern
    (sequence [
      boundary true,
      choice (["break", "catch", "continue", "do", "else", "finally", "for", "function", "if", "in",
        "instanceof", "new", "null", "return", "throw", "try", "while"].map word),
      boundary true])
    ("\\b(?:break|catch|continue|do|else|finally|for|function|if|in|instanceof|new|null|return|" ++
      "throw|try|while)\\b")

/-- The truth values, as whole words. -/
def booleanPattern : Pattern :=
  pattern (sequence [boundary true, choice [word "false", word "true"], boundary true])
    "\\b(?:false|true)\\b"

/-- A word right before an opening parenthesis. -/
def functionPattern : Pattern :=
  pattern (sequence [boundary true, plus (one .word), ahead true (word "(")]) "\\b\\w+(?=\\()"

/-- Hexadecimal numbers, and decimal ones with a fraction and an exponent. -/
def numberPattern : Pattern :=
  patternAnyCase
    (choice [
      sequence [
        boundary true, word "0x", plus (one (.either .digit (.range 'a' 'f'))), boundary true],
      seq
        (choice [
          sequence [
            boundary true, plus (one .digit), optional (seq (word ".") (most (one .digit)))],
          sequence [boundary false, word ".", plus (one .digit)]])
        (optional (sequence [word "e", optional (among "+-"), plus (one .digit)]))])
    "\\b0x[\\da-f]+\\b|(?:\\b\\d+(?:\\.\\d*)?|\\B\\.\\d+)(?:e[+-]?\\d+)?"

/-- The operators. -/
def operatorPattern : Pattern :=
  pattern
    (choice [
      seq (among "<>") (optional (word "=")),
      sequence [among "!=", optional (word "="), optional (word "=")],
      seq (word "-") (optional (word "-")),
      seq (word "+") (optional (word "+")),
      seq (word "&") (optional (word "&")),
      seq (word "|") (optional (word "|")),
      among "?*/~^%"])
    "[<>]=?|[!=]=?=?|--?|\\+\\+?|&&?|\\|\\|?|[?*/~^%]"

/-- Brackets and the marks between parts. -/
def punctuationPattern : Pattern :=
  pattern (among "\x7b\x7d[];(),.:") "[\x7b\x7d\\[\\];(),.:]"

end Clike

open Clike in
/-- The grammar of C-like languages. -/
def clike : RuleSet :=
  .ofList "clike" [
    ("comment", [
      { pattern := blockCommentPattern, lookbehind := true, greedy := true },
      { pattern := lineCommentPattern, lookbehind := true, greedy := true }]),
    ("string", [{ pattern := stringPattern, greedy := true }]),
    ("class-name", [{
      pattern := classNamePattern
      lookbehind := true
      inside := .to (.ofList "clike class-name" [
        ("punctuation", [{ pattern := pattern (among ".\\") "[.\\\\]" }])]) }]),
    ("keyword", [{ pattern := keywordPattern }]),
    ("boolean", [{ pattern := booleanPattern }]),
    ("function", [{ pattern := functionPattern }]),
    ("number", [{ pattern := numberPattern }]),
    ("operator", [{ pattern := operatorPattern }]),
    ("punctuation", [{ pattern := punctuationPattern }])]

end TemplHighlight.Grammar
