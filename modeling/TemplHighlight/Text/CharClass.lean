import TemplHighlight.Text.CharTable

/-!
# Character classes

The classes that patterns are made of, over all of Unicode: word characters, decimal digits and
blanks; the characters that quoted text shows as they are; and the case classes behind matching
without regard to case. ASCII characters are decided without a table.
-/

namespace TemplHighlight.CharClass

open CharTable

/-- Letters, numbers of every kind and the underscore. -/
def isWord (c : Char) : Bool :=
  if c.toNat < 128 then c.isAlphanum || c == '_' else inRanges c.toNat lettersAndNumbers

/-- The value of a decimal digit of any script, given the zeros of the scripts. -/
def digitOffset? (n : Nat) : List Nat → Option Nat
  | [] => none
  | first :: rest =>
    if n < first then none else if n < first + 10 then some (n - first) else digitOffset? n rest

/-- The value of a decimal digit of any script. -/
def digitValue? (c : Char) : Option Nat :=
  if c.toNat < 128 then if c.isDigit then some (c.toNat - 48) else none
  else digitOffset? c.toNat decimalZeros

/-- Decimal digits of any script. A number such as `²` that is not written with them is none. -/
def isDigit (c : Char) : Bool := (digitValue? c).isSome

/-- White space: the characters that separate words, lines and paragraphs, among them the four
information separators, the no-break space and the ideographic space, but not the zero-width
ones. -/
def isBlank (c : Char) : Bool :=
  inRanges c.toNat [(0x09, 0x0d), (0x1c, 0x20), (0x85, 0x85), (0xa0, 0xa0), (0x1680, 0x1680),
    (0x2000, 0x200a), (0x2028, 0x2029), (0x202f, 0x202f), (0x205f, 0x205f), (0x3000, 0x3000)]

/-- The characters that quoted text shows as they are. -/
def isPrintable (c : Char) : Bool :=
  if c.toNat < 128 then 32 ≤ c.toNat && c.toNat < 127 else inRanges c.toNat printable

/-- One character for all that differ from it in case only. -/
def caseClass (c : Char) : Char :=
  if c.toNat < 128 then if c.isUpper then Char.ofNat (c.toNat + 32) else c
  else match caseRun? c.toNat caseRuns with
    | some run => Char.ofNat (c.toNat + run.shift).toNat
    | none => c

/-- Whether two characters are the same letter, whatever their case. -/
def sameLetter (c d : Char) : Bool := caseClass c == caseClass d

end TemplHighlight.CharClass
