import TemplHighlight.Grammar.Pattern

/-!
# Places in a text

A pattern can be asked for a match at any place of a text. Places count from 0 at the start, or
backwards from the end, where -1 is the place of the last character.

The kinds of patterns see a place that counts from the end differently. A search begins there. A
scanner looks for a fixed mark in what stands between the place and the end, and takes a place
before the start for the start; but where it reads on character by character it comes to the end of
the text and then reads the text from its start, as the places count on from -1 to 0. Regular
expressions know no such places: for them the text begins at 0, and so do the blanks, comments and
names that a scanner finds inside a tag.
-/

namespace TemplHighlight

/-- A place in a text: negative places count from its end. -/
abbrev Place := Int

namespace Place

/-- The number of characters in front of a place. A place before the start counts as the start. -/
def fromStart (text : Text) (place : Place) : Nat :=
  if place < 0 then text.length - place.natAbs else place.toNat

/-- What stands at a place and behind it. -/
def behind (text : Text) (place : Place) : Text := text.drop (place.fromStart text)

/-- What is read from a place on, one character after the other. There is nothing to read before the
start. -/
def reading (text : Text) (place : Place) : Except PatternError Text :=
  if 0 ≤ place then .ok (behind text place)
  else if text.length < place.natAbs then .error .beforeStart
  else .ok (behind text place ++ text)

/-- The place from which on there is `rest` to be read. -/
def ofRest (text rest : Text) : Place := (text.length : Int) - rest.length

/-- Regular expressions are given places of 64 bits only. -/
def check (place : Place) : Except PatternError Unit :=
  if -(Nat.pow 2 63 : Nat) ≤ place ∧ place < (Nat.pow 2 63 : Nat) then .ok () else .error .hugePlace

/-- Where the units of space at a place end, and their number. -/
def skipSpace (text : Text) (place : Place) : Except PatternError (Place × Nat) :=
  if text.length ≤ place then .ok (place, 0)
  else do
    check place
    match Space.skip (text.drop place.toNat) with
    | (_, 0) => return (place, 0)
    | (rest, count) => return (ofRest text rest, count)

/-- Where the brace group at a place ends. -/
def afterBraces? (depth : Nat) (text : Text) (place : Place) :
    Except PatternError (Option Place) := do
  match behind text place with
  | '{' :: _ =>
    let inner ← reading text (place + 1)
    return (Braces.afterClose? depth 0 inner).map (ofRest text)
  | _ => return none

/-- Where the spread at a place ends. -/
def afterSpread? (depth : Nat) (text : Text) (place : Place) :
    Except PatternError (Option Place) := do
  match behind text place with
  | '{' :: _ =>
    let (dots, _) ← skipSpace text (place + 1)
    match behind text dots with
    | '.' :: '.' :: '.' :: _ =>
      let expr ← reading text (dots + 3)
      return (Braces.afterClose? (depth + 1) 0 expr).map (ofRest text)
    | _ => return none
  | _ => return none

/-- Where the tag at a place ends. -/
def afterTag? (depth : Nat) (text : Text) (place : Place) :
    Except PatternError (Option Place) := do
  match behind text place with
  | '<' :: _ =>
    let name := match behind text (place + 1) with
      | '/' :: _ => place + 2
      | _ => place + 1
    check name
    match Tag.afterRun? Tag.isNameChar (text.drop name.toNat) with
    | some _ =>
      match Tag.afterInner depth (text.drop name.toNat) with
      | '>' :: rest => return some (ofRest text rest)
      | _ => return none
    | none =>
      match behind text name with
      | '>' :: _ => return some (name + 1)
      | _ => return none
  | _ => return none

end Place

/-- A match, of which the start and the end may count from the end of the text. -/
structure Span where
  start : Place
  stop : Place
  /-- What the capturing group took, as in `Found`. -/
  group : Option (Option Text)

namespace Span

/-- A match that was found. -/
def ofFound (found : Found) : Span := ⟨found.start, found.stop, found.group⟩

/-- The text of a match: what stands between its start and its end. -/
def text (span : Span) (searched : Text) : Text :=
  (searched.take (span.stop.fromStart searched)).drop (span.start.fromStart searched)

end Span

namespace Pattern

/-- Where a scanner's match at a place ends. -/
def stopAt? : Pattern → Text → Place → Except PatternError (Option Place)
  | braces depth, text, place => Place.afterBraces? depth text place
  | spread depth, text, place => Place.afterSpread? depth text place
  | tag depth, text, place => Place.afterTag? depth text place
  | lead c more inner, text, place =>
    if (c :: more).isPrefixOf (Place.behind text place) then
      inner.stopAt? text (place + (c :: more).length)
    else .ok none
  | regex .., _, _ | custom _, _, _ => .error .notScanner

/-- The match that starts at a place. -/
def matchAt (pattern : Pattern) (text : Text) (place : Place) :
    Except PatternError (Option Span) := do
  match pattern with
  | regex .. =>
    Place.check place
    return (← pattern.matchFrom text place.toNat).map .ofFound
  | custom _ => return (← pattern.matchFrom text (place.fromStart text)).map .ofFound
  | scanner =>
    if 0 ≤ place then return (← scanner.matchFrom text place.toNat).map .ofFound
    else return (← scanner.stopAt? text place).map fun stop => ⟨place, stop, none⟩

/-- The first match at a place or behind it. -/
def searchAt (pattern : Pattern) (text : Text) (place : Place) :
    Except PatternError (Option Span) := do
  match pattern with
  | regex .. =>
    Place.check place
    return (← pattern.searchFrom text place.toNat).map .ofFound
  | _ => return (← pattern.searchFrom text (place.fromStart text)).map .ofFound

/-- A group of a match by its number: the whole match is group 0. -/
def groupAt (pattern : Pattern) (span : Span) (searched : Text) (index : Int) :
    Except PatternError (Option Text) :=
  if index = 0 then .ok (some (span.text searched))
  else pattern.groupOf (if index = 1 then span.group else none)

/-- The form in which a match is shown in messages. Of what a regular expression has matched, not
more than 50 characters are shown, quotes included. -/
def shownMatch (pattern : Pattern) (span : Span) (searched : Text) : Text :=
  let places := Text.decimalInt span.start ++ ", ".toList ++ Text.decimalInt span.stop
  let matched := (span.text searched).quoted
  match pattern with
  | regex .. =>
    "<re.Match object; span=(".toList ++ places ++ "), match=".toList ++ matched.take 50 ++ ['>']
  | _ => "Span(".toList ++ places ++ ", ".toList ++ matched ++ [')']

end Pattern

end TemplHighlight
