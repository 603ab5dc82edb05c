import TemplHighlight.Regex.Basic

/-!
# Word lists as patterns

A list of words becomes the pattern that finds any of them as a whole word. Longer words are tried
before shorter ones, so a word wins over its own beginning; neither the order in which the words are
given nor a repetition makes a difference.
-/

namespace TemplHighlight

namespace Text

/-- Longer texts first, and texts of one length in the order of their characters. -/
def longestFirst (a b : Text) : Bool :=
  b.length < a.length || a.length == b.length && !b.lex a fun c d => c.val < d.val

/-- The different words of a list, longer ones first. -/
def orderedWords (words : List Text) : List Text :=
  words.eraseDups.mergeSort longestFirst

/-- A word as it is written inside a regular expression: every character that could mean something
there has a backslash in front. -/
def asPattern (word : Text) : Text :=
  word.flatMap fun c =>
    if "()[]\x7b\x7d?*+-|^$\\.&~# \t\n\r\x0b\x0c".toList.contains c then ['\\', c] else [c]

/-- The written form of a choice among words. -/
def writtenChoice (words : List Text) : Text :=
  join ['|'] ((orderedWords words).map asPattern)

end Text

namespace Regex

/-- Any of the words, with a word boundary on both sides. -/
def wholeWord (words : List Text) : Regex :=
  sequence [boundary true, choice ((Text.orderedWords words).map literal), boundary true]

end Regex

end TemplHighlight
