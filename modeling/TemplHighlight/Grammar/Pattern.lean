import TemplHighlight.Markup.Tag
import TemplHighlight.Regex.Match
import TemplHighlight.Regex.Words
import TemplHighlight.Text.Quoted

/-!
# Patterns

What a grammar rule looks for: a regular expression, or one of the scanners for the parts of a tag
that regular expressions cannot describe. Every pattern can be searched for in a text; the scanners
can also be asked what follows a match at the start of a text.
-/

namespace TemplHighlight

/-- A match: the places where it starts and stops, and what the capturing group took. -/
structure Found where
  start : Nat
  stop : Nat
  /-- `none` if the pattern has no capturing group, `some none` if the group took no part. -/
  group : Option (Option Text)

/-- Why a pattern could not be used. -/
inductive PatternError where
  /-- The group of a regular expression without a group was asked for. -/
  | noGroup
  /-- The group of a scanner's match was asked for; scanners have none. -/
  | noScannerGroup
  /-- A scanner was asked to go on with a pattern that is not a scanner. -/
  | notScanner
  /-- The greatest depth of a brace group is negative. -/
  | negativeDepth (depth : Int)
  /-- A lead without a character. -/
  | emptyLead
  /-- A scanner was to read what stands before the start of the text. -/
  | beforeStart
  /-- A regular expression was given a place of more than 64 bits. -/
  | hugePlace
  deriving DecidableEq

namespace PatternError

/-- The words for the errors that come with an explanation. -/
def message? : PatternError → Option Text
  | noScannerGroup => some "no such group".toList
  | negativeDepth depth => some ("max_depth must be >= 0, got ".toList ++ Text.decimalInt depth)
  | _ => none

end PatternError

/-- A pattern. -/
inductive Pattern where
  /-- A regular expression, with the form in which it is written. -/
  | regex (shape : Regex) (anyCase : Bool) (written : Text)
  /-- A brace group with at most `depth` levels of groups inside. -/
  | braces (depth : Nat)
  /-- A spread attribute. -/
  | spread (depth : Nat)
  /-- A whole tag. -/
  | tag (depth : Nat)
  /-- A literal text, the characters `c` and `lead`, and what a scanner matches right behind it. -/
  | lead (c : Char) (lead : Text) (inner : Pattern)
  /-- Any other search: the match in the text that lies behind a given place. -/
  | custom (search : Text → Option Found)

namespace Pattern

/-- The scanners are given their depth as an integer and refuse a negative one. -/
def checkDepth (depth : Int) : Except PatternError Nat :=
  if depth < 0 then .error (.negativeDepth depth) else .ok depth.toNat

/-- The pattern for a literal text followed by what `inner` matches. -/
def leadBy (text : Text) (inner : Pattern) : Except PatternError Pattern :=
  match text with
  | [] => .error .emptyLead
  | c :: more => .ok (.lead c more inner)

/-- The pattern for any of the words, with a word boundary on both sides. -/
def words (words : List Text) : Pattern :=
  .regex (.wholeWord words) false
    ("\\b(?:".toList ++ Text.writtenChoice words ++ ")\\b".toList)

/-- What follows a scanner's match at the start of a text. -/
def after? : Pattern → Text → Except PatternError (Option Text)
  | braces depth, text => .ok (Braces.after? depth text)
  | spread depth, text => .ok (Spread.after? depth text)
  | tag depth, text => .ok (Tag.after? depth text)
  | lead c more inner, text =>
    match Text.after? (c :: more) text with
    | some rest => inner.after? rest
    | none => .ok none
  | regex .., _ | custom _, _ => .error .notScanner

/-- The character that every match of a scanner starts with. -/
def trigger? : Pattern → Option Char
  | braces _ | spread _ => some '{'
  | tag _ => some '<'
  | lead c _ _ => some c
  | regex .. | custom _ => none

/-- Goes from trigger to trigger through `text`, which starts at `pos`, to the first match. -/
def scanFrom (pattern : Pattern) (trigger : Char) (pos : Nat) :
    Text → Except PatternError (Option Found)
  | [] => .ok none
  | c :: rest => do
    if c = trigger then
      if let some behind ← pattern.after? (c :: rest) then
        return some ⟨pos, pos + ((c :: rest).length - behind.length), none⟩
    scanFrom pattern trigger (pos + 1) rest

/-- The match of a regular expression from `start` to `place`. -/
def foundAt (shape : Regex) (start : Nat) (place : Cursor) : Found :=
  ⟨start, place.pos, if shape.hasGroup then some place.captured else none⟩

/-- The first match at or behind `pos`. A place behind the end of the text counts as its end for a
regular expression, and as too far for a scanner. -/
def searchFrom (pattern : Pattern) (text : Text) (pos : Nat) : Except PatternError (Option Found) :=
  match pattern with
  | regex shape anyCase _ =>
    let place := (Cursor.start text).advance pos
    .ok ((shape.searchFrom anyCase place.before place.pos place.rest).map fun (start, stop) =>
      foundAt shape start stop)
  | custom search =>
    .ok ((search (text.drop pos)).map fun found =>
      { found with start := found.start + pos, stop := found.stop + pos })
  | scanner =>
    match scanner.trigger? with
    | some trigger => scanner.scanFrom trigger pos (text.drop pos)
    | none => .ok none

/-- The first match in a text. -/
def search (pattern : Pattern) (text : Text) : Except PatternError (Option Found) :=
  pattern.searchFrom text 0

/-- The match that starts at `pos`. -/
def matchFrom (pattern : Pattern) (text : Text) (pos : Nat) : Except PatternError (Option Found) :=
  match pattern with
  | regex shape anyCase _ =>
    let place := (Cursor.start text).advance pos
    .ok ((shape.matchAt anyCase place).map (foundAt shape place.pos))
  | custom search =>
    .ok ((search (text.drop pos)).bind fun found =>
      if found.start = 0 then some { found with start := pos, stop := found.stop + pos } else none)
  | scanner => do
    return (← scanner.after? (text.drop pos)).map fun rest =>
      ⟨pos, pos + ((text.drop pos).length - rest.length), none⟩

/-- What the capturing group took, from what a match says about it. A pattern without a group
refuses the question. -/
def groupOf (pattern : Pattern) (group : Option (Option Text)) :
    Except PatternError (Option Text) :=
  match group with
  | some group => .ok group
  | none =>
    match pattern with
    | regex .. => .error .noGroup
    | custom _ | braces _ | spread _ | tag _ | lead .. => .error .noScannerGroup

/-- The form in which a pattern is shown in messages. -/
def shown : Pattern → Text
  | regex _ _ written => written.quoted
  | braces depth => "BraceMatcher(max_depth=".toList ++ Text.decimal depth ++ [')']
  | spread _ => "SpreadMatcher()".toList
  | tag _ => "TagMatcher()".toList
  | lead .. => "PrefixMatcher()".toList
  | custom _ => "Matcher()".toList

end Pattern

end TemplHighlight
