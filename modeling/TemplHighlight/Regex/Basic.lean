import TemplHighlight.Text.Basic
import TemplHighlight.Text.CharClass

/-!
# Regular expressions

The pattern language of the grammars: character sets, sequence, choice, greedy and lazy repetition,
looking ahead, anchors, word boundaries, and one capturing group with a reference back to it.
Choices are ordered: of all ways to match, the one that takes the earliest alternative at the first
place where they differ is *the* match.
-/

namespace TemplHighlight

/-- A set of characters. -/
inductive CharSet where
  /-- Every character. -/
  | all
  /-- Every character but the line feed. -/
  | inLine
  | word
  | digit
  | blank
  /-- The characters listed. -/
  | among (chars : Text)
  /-- The characters from `first` to `last`. -/
  | range (first last : Char)
  | either (a b : CharSet)
  /-- The characters that are not in the set. -/
  | outside (a : CharSet)

namespace CharSet

/-- Whether `c` is one of the characters from `first` to `last`, or the same letter as one. -/
def inRange (anyCase : Bool) (first last c : Char) : Bool :=
  (first ≤ c && c ≤ last) ||
    anyCase && (List.range (last.toNat + 1 - first.toNat)).any fun offset =>
      CharClass.sameLetter (Char.ofNat (first.toNat + offset)) c

/-- Membership; with `anyCase`, a listed letter stands for its whole case class. -/
def has (anyCase : Bool) : CharSet → Char → Bool
  | all, _ => true
  | inLine, c => c != '\n'
  | word, c => CharClass.isWord c
  | digit, c => CharClass.isDigit c
  | blank, c => CharClass.isBlank c
  | among chars, c => chars.any fun d => d == c || anyCase && CharClass.sameLetter d c
  | range first last, c => inRange anyCase first last c
  | either a b, c => has anyCase a c || has anyCase b c
  | outside a, c => !has anyCase a c

/-- The characters that are neither blank nor listed. -/
def inkBut (chars : String) : CharSet := outside (either blank (among chars.toList))

end CharSet

/-- A regular expression. -/
inductive Regex where
  /-- Matches without taking a character. -/
  | empty
  /-- One character of a set. -/
  | one (set : CharSet)
  | seq (first second : Regex)
  /-- `first` if it leads to a match, else `second`. -/
  | alt (first second : Regex)
  /-- Any number of times, as often as possible. -/
  | most (body : Regex)
  /-- Any number of times, as seldom as possible. -/
  | least (body : Regex)
  /-- What follows matches (or, if not `wanted`, does not match) `body`; nothing is taken. -/
  | ahead (wanted : Bool) (body : Regex)
  /-- The start of the text. -/
  | textStart
  /-- The end of the text, or the place before a line feed that ends it. -/
  | textEnd
  /-- A place with a word character on exactly one side (or, if not `wanted`, any other place). -/
  | boundary (wanted : Bool)
  /-- The capturing group. -/
  | group (body : Regex)
  /-- The text that the group took. -/
  | again

namespace Regex

/-- The characters of a text, one after the other. -/
def literal : Text → Regex
  | [] => empty
  | [c] => one (.among [c])
  | c :: text => seq (one (.among [c])) (literal text)

/-- The characters of a string, one after the other. -/
def word (text : String) : Regex := literal text.toList

/-- One of the characters listed. -/
def among (chars : String) : Regex := one (.among chars.toList)

/-- One character that is not listed. -/
def notAmong (chars : String) : Regex := one (.outside (.among chars.toList))

/-- All of them, one after the other. -/
def sequence : List Regex → Regex
  | [] => empty
  | [last] => last
  | part :: more => seq part (sequence more)

/-- The first of them that leads to a match. -/
def choice : List Regex → Regex
  | [] => empty
  | [last] => last
  | first :: more => alt first (choice more)

/-- Once, or else not at all. -/
def optional (body : Regex) : Regex := alt body empty

/-- At least once, as often as possible. -/
def plus (body : Regex) : Regex := seq body (most body)

/-- At least once, as seldom as possible. -/
def plusLeast (body : Regex) : Regex := seq body (least body)

/-- At most `count` times, as often as possible. -/
def upTo : (count : Nat) → (body : Regex) → Regex
  | 0, _ => empty
  | count + 1, body => optional (seq body (upTo count body))

/-- Between one and `count` times, as often as possible. -/
def plusUpTo : (count : Nat) → (body : Regex) → Regex
  | 0, body => body
  | count + 1, body => seq body (upTo count body)

/-- What stands between two marks, together with the marks. -/
def between (mark : String) : Regex := sequence [among mark, most (notAmong mark), among mark]

/-- Whether the expression has a capturing group. -/
def hasGroup : Regex → Bool
  | empty | one _ | textStart | textEnd | boundary _ | again => false
  | seq a b | alt a b => a.hasGroup || b.hasGroup
  | most a | least a | ahead _ a => a.hasGroup
  | group _ => true

end Regex

end TemplHighlight
