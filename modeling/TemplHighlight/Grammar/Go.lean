import TemplHighlight.Grammar.Clike

/-!
# The Go grammar

The grammar of C-like languages with the keywords, literals, operators and predeclared names of Go.
-/

namespace TemplHighlight.Grammar

open Regex

namespace Go

/-- The keywords of Go. -/
def keywords : List String :=
  ["break", "case", "chan", "const", "continue", "default", "defer", "else", "fallthrough", "for",
    "func", "go", "goto", "if", "import", "interface", "map", "package", "range", "return",
    "select", "struct", "switch", "type", "var"]

/-- The predeclared functions and types of Go. -/
def builtins : List String :=
  ["append", "bool", "byte", "cap", "close", "complex", "complex64", "complex128", "copy", "delete",
    "error", "float32", "float64", "imag", "int", "int8", "int16", "int32", "int64", "len", "make",
    "new", "panic", "print", "println", "real", "recover", "rune", "string", "uint", "uint8",
    "uint16", "uint32", "uint64", "uintptr"]

/-- A string in double quotes on one line, or a raw string in back quotes. -/
def stringPattern : Pattern :=
  pattern
    (choice [
      sequence [
        group (choice [textStart, notAmong "\\"]), word "\"",
        most (choice [seq (word "\\") (one .inLine), notAmong "\"\\\r\n"]), word "\""],
      between "`"])
    "(^|[^\\\\])\"(?:\\\\.|[^\"\\\\\\r\\n])*\"|`[^`]*`"

/-- A character literal of at most ten characters or escapes. -/
def charPattern : Pattern :=
  pattern
    (sequence [
      word "'", upTo 10 (choice [seq (word "\\") (one .inLine), notAmong "'\\\r\n"]), word "'"])
    "'(?:\\\\.|[^'\\\\\\r\\n])\x7b0,10\x7d'"

/-- The truth values, `nil`, `iota` and the blank name, as whole words. -/
def booleanPattern : Pattern :=
  pattern
    (sequence [
      boundary true, choice (["_", "false", "iota", "nil", "true"].map word), boundary true])
    "\\b(?:_|false|iota|nil|true)\\b"

/-- Binary and octal numbers. -/
def binaryPattern : Pattern :=
  patternAnyCase
    (sequence [
      boundary true, word "0",
      choice [
        seq (word "b") (plus (among "01_")),
        seq (word "o") (plus (one (.either (.range '0' '7') (.among ['_']))))],
      optional (word "i"), boundary true])
    "\\b0(?:b[01_]+|o[0-7_]+)i?\\b"

/-- A hexadecimal digit or an underscore. -/
def hexDigit : Regex := one (.either (.either (.range 'a' 'f') .digit) (.among ['_']))

/-- Hexadecimal numbers, with a fraction and a binary exponent. -/
def hexPattern : Pattern :=
  patternAnyCase
    (sequence [
      boundary true, word "0x",
      choice [
        seq (plus hexDigit) (optional (seq (word ".") (most hexDigit))),
        seq (word ".") (plus hexDigit)],
      optional (sequence [
        word "p", optional (among "+-"), plus (one .digit),
        most (seq (word "_") (plus (one .digit)))]),
      optional (word "i"), ahead false (one .word)])
    ("\\b0x(?:[a-f\\d_]+(?:\\.[a-f\\d_]*)?|\\.[a-f\\d_]+)" ++
      "(?:p[+-]?\\d+(?:_\\d+)*)?i?(?!\\w)")

/-- A decimal digit or an underscore. -/
def decimalDigit : Regex := one (.either .digit (.among ['_']))

/-- Decimal numbers, with a fraction and an exponent. -/
def decimalPattern : Pattern :=
  patternAnyCase
    (sequence [
      choice [
        sequence [
          boundary true, one .digit, most decimalDigit,
          optional (seq (word ".") (most decimalDigit))],
        sequence [boundary false, word ".", one .digit, most decimalDigit]],
      optional (sequence [word "e", optional (among "+-"), plus decimalDigit]),
      optional (word "i"), ahead false (one .word)])
    ("(?:\\b\\d[\\d_]*(?:\\.[\\d_]*)?|\\B\\.\\d[\\d_]*)" ++
      "(?:e[+-]?[\\d_]+)?i?(?!\\w)")

/-- The operators. -/
def operatorPattern : Pattern :=
  pattern
    (choice [
      seq (among "*/%^!=") (optional (word "=")),
      seq (word "+") (optional (among "=+")),
      seq (word "-") (optional (among "=-")),
      seq (word "|") (optional (among "=|")),
      seq (word "&") (optional (choice [
        word "=", word "&", seq (word "^") (optional (word "="))])),
      seq (word ">") (optional (choice [
        seq (word ">") (optional (word "=")), word "="])),
      seq (word "<") (optional (choice [
        seq (word "<") (optional (word "=")), word "=", word "-"])),
      word ":=",
      word "..."])
    ("[*/%^!=]=?|\\+[=+]?|-[=-]?|\\|[=|]?|&(?:=|&|\\^=?)?|>(?:>=?|=)?|<(?:<=?|=|-)?|:=|" ++
      "\\.\\.\\.")

end Go

open Go in
/-- The Go grammar. -/
def go : RuleSet :=
  let extended := clike.extend [
    ("string", [{ pattern := stringPattern, lookbehind := true, greedy := true }]),
    ("keyword", [{ pattern := .words (keywords.map String.toList) }]),
    ("boolean", [{ pattern := booleanPattern }]),
    ("number", [
      { pattern := binaryPattern }, { pattern := hexPattern }, { pattern := decimalPattern }]),
    ("operator", [{ pattern := operatorPattern }]),
    ("builtin", [{ pattern := .words (builtins.map String.toList) }])]
  let withChars :=
    extended.insertBefore "string" [("char", [{ pattern := charPattern, greedy := true }])]
  (withChars.without "class-name").relabel "go"

end TemplHighlight.Grammar
