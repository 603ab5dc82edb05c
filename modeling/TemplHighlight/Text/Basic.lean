/-!
# Text

Source text, token text and written output are lists of characters, so every function that reads
text is a recursion on what is left of it, and a position is the number of characters before it.
Names of things (rules, languages, settings) are `String`s.
-/

namespace TemplHighlight

/-- A text, character by character. -/
abbrev Text := List Char

namespace Text

/-- What follows `lead` in a text that starts with it. -/
def after? : (lead : Text) → Text → Option Text
  | [], text => some text
  | _ :: _, [] => none
  | l :: lead, c :: text => if l = c then after? lead text else none

/-- The digit of base sixteen with value `n`, in lower case. -/
def hexDigit (n : Nat) : Char :=
  if n < 10 then Char.ofNat (48 + n) else Char.ofNat (87 + n)

/-- The last `width` hexadecimal digits of `n`, padded with zeros. -/
def hex : (width : Nat) → (n : Nat) → Text
  | 0, _ => []
  | width + 1, n => hex width (n / 16) ++ [hexDigit (n % 16)]

/-- The decimal digits of a natural number. -/
def decimal (n : Nat) : Text := (Nat.toDigits 10 n)

/-- The decimal form of an integer, with a minus sign in front of a negative one. -/
def decimalInt : Int → Text
  | .ofNat n => decimal n
  | .negSucc n => '-' :: decimal (n + 1)

/-- Texts joined with `separator` between each two. -/
def join (separator : Text) : List Text → Text
  | [] => []
  | [last] => last
  | text :: more => text ++ separator ++ join separator more

/-- The pieces between the occurrences of `mark`; always one more than there are marks. -/
def splitAt (mark : Char) : Text → List Text
  | [] => [[]]
  | c :: text =>
    if c = mark then [] :: splitAt mark text
    else match splitAt mark text with
      | [] => [[c]]
      | piece :: more => (c :: piece) :: more

/-- Line ends as a text file is read: a carriage return with or without a line feed behind it
becomes one line feed. -/
def unifyLineEnds : Text → Text
  | [] => []
  | '\r' :: '\n' :: text => '\n' :: unifyLineEnds text
  | c :: text => (if c = '\r' then '\n' else c) :: unifyLineEnds text

end Text

end TemplHighlight
