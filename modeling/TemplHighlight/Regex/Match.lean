import TemplHighlight.Regex.Basic

/-!
# Matching regular expressions

`Regex.run` tries the ways to match in their order and hands each one on; the first that the rest of
the match accepts is the match. A repetition goes round again only after a round that took a
character, so every run ends. `Regex.search` looks for the leftmost place with a match.
-/

namespace TemplHighlight

/-- A place in a text: the character before it, what follows it, how many characters were passed,
and what the capturing group took on the way. -/
structure Cursor where
  before : Option Char
  rest : Text
  pos : Nat
  captured : Option Text

namespace Cursor

/-- The start of a text. -/
def start (text : Text) : Cursor := ⟨none, text, 0, none⟩

/-- The place `count` characters on, or the end of the text if there are fewer. -/
def advance : (count : Nat) → Cursor → Cursor
  | 0, place => place
  | count + 1, place =>
    match place.rest with
    | [] => place
    | c :: rest => advance count { place with before := some c, rest, pos := place.pos + 1 }

/-- Whether the place has a word character on exactly one side. -/
def atBoundary (place : Cursor) : Bool :=
  place.before.any CharClass.isWord != place.rest.head?.any CharClass.isWord

/-- Whether the place is the end of the text or lies before a line feed that ends it. -/
def atEnd (place : Cursor) : Bool :=
  place.rest.isEmpty || place.rest == ['\n']

end Cursor

namespace Regex

/-- What remains to be matched from a place on. -/
abbrev Continuation := Cursor → Option Cursor

/-- Repeats `round` as often as possible. One character of `fuel` is used up per round, and a round
counts only if it moved, so the rest of the text is fuel enough. -/
def repeatMost (round : Cursor → Continuation → Option Cursor) :
    (fuel : Text) → Cursor → Continuation → Option Cursor
  | [], place, next => next place
  | _ :: fuel, place, next =>
    match round place fun after =>
      if place.pos < after.pos then repeatMost round fuel after next else none with
    | some found => some found
    | none => next place

/-- Repeats `round` as seldom as possible. -/
def repeatLeast (round : Cursor → Continuation → Option Cursor) :
    (fuel : Text) → Cursor → Continuation → Option Cursor
  | [], place, next => next place
  | _ :: fuel, place, next =>
    match next place with
    | some found => some found
    | none => round place fun after =>
      if place.pos < after.pos then repeatLeast round fuel after next else none

/-- The first way to match the expression at a place after which `next` succeeds too. -/
def run (anyCase : Bool) : Regex → Cursor → Continuation → Option Cursor
  | empty, place, next => next place
  | one set, place, next =>
    match place.rest with
    | [] => none
    | c :: rest =>
      if set.has anyCase c then next ⟨some c, rest, place.pos + 1, place.captured⟩ else none
  | seq a b, place, next => a.run anyCase place fun middle => b.run anyCase middle next
  | alt a b, place, next =>
    match a.run anyCase place next with
    | some found => some found
    | none => b.run anyCase place next
  | most body, place, next => repeatMost (body.run anyCase) place.rest place next
  | least body, place, next => repeatLeast (body.run anyCase) place.rest place next
  | ahead wanted body, place, next =>
    match body.run anyCase place some with
    | some after => if wanted then next { place with captured := after.captured } else none
    | none => if wanted then none else next place
  | textStart, place, next => if place.before.isNone then next place else none
  | textEnd, place, next => if place.atEnd then next place else none
  | boundary wanted, place, next => if place.atBoundary == wanted then next place else none
  | group body, place, next => body.run anyCase place fun after =>
      next { after with captured := some (place.rest.take (after.pos - place.pos)) }
  | again, place, next =>
    match place.captured with
    | none => none
    | some text => if text.isPrefixOf place.rest then next (place.advance text.length) else none

/-- The place behind the match at `place`. -/
def matchAt (anyCase : Bool) (regex : Regex) (place : Cursor) : Option Cursor :=
  regex.run anyCase place some

/-- Goes through `text`, which lies behind `before` at `pos`, to the first place with a match. -/
def searchFrom (anyCase : Bool) (regex : Regex) (before : Option Char) (pos : Nat) (text : Text) :
    Option (Nat × Cursor) :=
  match regex.matchAt anyCase ⟨before, text, pos, none⟩ with
  | some after => some (pos, after)
  | none =>
    match text with
    | [] => none
    | c :: rest => searchFrom anyCase regex (some c) (pos + 1) rest

end Regex

end TemplHighlight
