import TemplHighlight.Json.Parser
import TemplHighlight.Toml.Basic

/-!
# TOML scalars

Strings of the four kinds, numbers, dates and times. Each reader takes the text from where the value
starts and gives the value together with the text behind it.
-/

namespace TemplHighlight.Toml

/-- The end of a reading that found no value. -/
def malformed {α : Type} : Except Error α := .error .malformed

/-- Blanks and tabs. -/
def isSpace (c : Char) : Bool := c == ' ' || c == '\t'

/-- Blanks, tabs and line feeds. -/
def isSpaceOrLine (c : Char) : Bool := isSpace c || c == '\n'

/-- Control characters other than the tab, which stand neither in strings nor in comments. -/
def isControl (c : Char) : Bool := (c.toNat < 32 && c != '\t') || c.toNat == 127

/-- The text behind `lead`. -/
def expect (lead : String) (text : Text) : Except Error Text :=
  match Text.after? lead.toList text with
  | some rest => .ok rest
  | none => malformed

/-- The value of `count` hexadecimal digits, and the text behind them. -/
def hexDigits? : (count : Nat) → Nat → Text → Option (Nat × Text)
  | 0, value, text => some (value, text)
  | count + 1, value, c :: rest => do hexDigits? count (value * 16 + (← Json.hexValue? c)) rest
  | _ + 1, _, [] => none

/-- The character with a code that `count` hexadecimal digits name. -/
def codePoint (count : Nat) (text : Text) : Except Error (Char × Text) :=
  match hexDigits? count 0 text with
  | some (code, rest) =>
    if valid : code.isValidChar then .ok (Char.ofNatAux code valid, rest) else malformed
  | none => malformed

/-- What a backslash stands for together with what follows it: a character, or in a string of
several lines nothing, if only blanks follow up to the end of the line. -/
def escape (multiline : Bool) (text : Text) : Except Error (Text × Text) :=
  match text with
  | [] => malformed
  | c :: rest =>
    if multiline && isSpaceOrLine c then
      match text.dropWhile isSpace with
      | [] => .ok ([], [])
      | '\n' :: rest => .ok ([], rest.dropWhile isSpaceOrLine)
      | _ => malformed
    else if c = 'u' then (codePoint 4 rest).map fun (c, rest) => ([c], rest)
    else if c = 'U' then (codePoint 8 rest).map fun (c, rest) => ([c], rest)
    else if c = 'b' then .ok (['\x08'], rest)
    else if c = 't' then .ok (['\t'], rest)
    else if c = 'n' then .ok (['\n'], rest)
    else if c = 'f' then .ok (['\x0c'], rest)
    else if c = 'r' then .ok (['\r'], rest)
    else if c = '"' ∨ c = '\\' then .ok ([c], rest)
    else malformed

/-- A string in double quotes from behind the opening quotes on. `fuel` bounds its length. -/
def basicRest (multiline : Bool) : (fuel : Nat) → Text → Except Error (Text × Text)
  | 0, _ => malformed
  | _, [] => malformed
  | fuel + 1, c :: rest =>
    if c = '"' then
      if !multiline then .ok ([], rest)
      else match Text.after? ['"', '"'] rest with
        | some rest => .ok ([], rest)
        | none => (basicRest multiline fuel rest).map fun (more, rest) => ('"' :: more, rest)
    else if c = '\\' then do
      let (escaped, rest) ← escape multiline rest
      let (more, rest) ← basicRest multiline fuel rest
      return (escaped ++ more, rest)
    else if isControl c && !(multiline && c == '\n') then malformed
    else (basicRest multiline fuel rest).map fun (more, rest) => (c :: more, rest)

/-- A string in single quotes, `mark`, from behind the opening quotes on. -/
def literalRest (mark : Text) (multiline : Bool) : Text → Except Error (Text × Text)
  | [] => malformed
  | c :: rest =>
    match Text.after? mark (c :: rest) with
    | some behind => .ok ([], behind)
    | none =>
      if isControl c && !(multiline && c == '\n') then malformed
      else (literalRest mark multiline rest).map fun (more, rest) => (c :: more, rest)

/-- Up to two more quotes right behind the end of a string of several lines belong to it. -/
def withTrailing (quote : Char) (text : Text) : Text → Text × Text
  | a :: b :: rest =>
    if a = quote then if b = quote then (text ++ [a, b], rest) else (text ++ [a], b :: rest)
    else (text, a :: b :: rest)
  | [a] => if a = quote then (text ++ [a], []) else (text, [a])
  | [] => (text, [])

/-- The text without the line feed at its start. -/
def dropLineFeed : Text → Text
  | '\n' :: rest => rest
  | text => text

/-- A string in double quotes on one line, from its quote on. -/
def basicString (text : Text) : Except Error (Text × Text) := do
  basicRest false text.length (← expect "\"" text)

/-- A string in single quotes on one line, from its quote on. -/
def literalString (text : Text) : Except Error (Text × Text) := do
  literalRest ['\''] false (← expect "'" text)

/-- A string of any kind. -/
def string (text : Text) : Except Error (Text × Text) :=
  match text with
  | '"' :: '"' :: '"' :: rest => do
    let (found, behind) ← basicRest true (text.length) (dropLineFeed rest)
    return withTrailing '"' found behind
  | '\'' :: '\'' :: '\'' :: rest => do
    let (found, behind) ← literalRest ['\'', '\'', '\''] true (dropLineFeed rest)
    return withTrailing '\'' found behind
  | '"' :: _ => basicString text
  | _ => literalString text

/-- The digits behind a first one; single underscores may stand between digits. -/
def moreDigits (isDigit : Char → Bool) : Text → Text × Text
  | '_' :: c :: rest =>
    if isDigit c then
      match moreDigits isDigit rest with
      | (found, behind) => (c :: found, behind)
    else ([], '_' :: c :: rest)
  | c :: rest =>
    if isDigit c then
      match moreDigits isDigit rest with
      | (found, behind) => (c :: found, behind)
    else ([], c :: rest)
  | [] => ([], [])

/-- One or more digits. -/
def someDigits? (isDigit : Char → Bool) : Text → Option (Text × Text)
  | c :: rest =>
    if isDigit c then
      match moreDigits isDigit rest with
      | (found, behind) => some (c :: found, behind)
    else none
  | [] => none

/-- A number in another base than ten, with the mark of the base in front. -/
def basedNumber? : Text → Option (Value × Text)
  | '0' :: mark :: rest =>
    let isDigit? : Option (Nat × (Char → Bool)) :=
      if mark = 'x' then some (16, fun c => (Json.hexValue? c).isSome)
      else if mark = 'o' then some (8, fun c => '0' ≤ c && c ≤ '7')
      else if mark = 'b' then some (2, fun c => c == '0' || c == '1')
      else none
    match isDigit? with
    | some (base, isDigit) =>
      (someDigits? isDigit rest).map fun (digits, behind) =>
        (.integer (digits.foldl (fun n c => n * base + ((Json.hexValue? c).getD 0)) 0), behind)
    | none => none
  | _ => none

/-- The text without a sign, and whether the sign was a minus. -/
def sign : Text → Bool × Text
  | '-' :: rest => (true, rest)
  | '+' :: rest => (false, rest)
  | text => (false, text)

/-- The text behind a fraction, if there is one. -/
def afterFraction? : Text → Option Text
  | '.' :: rest => (someDigits? Char.isDigit rest).map (·.2)
  | _ => none

/-- The text behind an exponent, if there is one. -/
def afterExponent? : Text → Option Text
  | c :: rest =>
    if c = 'e' ∨ c = 'E' then (someDigits? Char.isDigit (sign rest).2).map (·.2) else none
  | [] => none

/-- A number in base ten. A whole number with more than one digit does not start with a zero. -/
def decimalNumber? (text : Text) : Option (Except Error (Value × Text)) := do
  let (negative, unsigned) := sign text
  let (digits, rest) ← match unsigned with
    | '0' :: rest => some (['0'], rest)
    | unsigned => someDigits? Char.isDigit unsigned
  let behindFraction := afterFraction? rest
  let behindExponent := afterExponent? (behindFraction.getD rest)
  match behindExponent <|> behindFraction with
  | some behind => return .ok (.float, behind)
  | none =>
    let value : Int := Json.digitsValue digits
    if 4300 < digits.length then return .error .hugeInteger
    else return .ok (.integer (if negative then -value else value), rest)

/-- A number of two digits between `least` and `most`. -/
def twoDigits? (least most : Nat) : Text → Option (Nat × Text)
  | a :: b :: rest =>
    let value := (a.toNat - 48) * 10 + (b.toNat - 48)
    if a.isDigit ∧ b.isDigit ∧ least ≤ value ∧ value ≤ most then some (value, rest) else none
  | _ => none

/-- The text behind a character. -/
def afterChar? (c : Char) : Text → Option Text := Text.after? [c]

/-- The text behind a time of day. -/
def afterTime? (text : Text) : Option Text := do
  let (_, rest) ← twoDigits? 0 23 text
  let (_, rest) ← twoDigits? 0 59 (← afterChar? ':' rest)
  let (_, rest) ← twoDigits? 0 59 (← afterChar? ':' rest)
  match Json.fraction rest with
  | (_, behind) => return behind

/-- The text behind the offset of a time, if there is one. -/
def afterOffset (text : Text) : Text :=
  match text with
  | 'Z' :: rest => rest
  | 'z' :: rest => rest
  | c :: rest =>
    if c = '+' ∨ c = '-' then
      let offset : Option Text := do
        let (_, rest) ← twoDigits? 0 23 rest
        let (_, rest) ← twoDigits? 0 59 (← afterChar? ':' rest)
        return rest
      offset.getD text
    else text
  | [] => text

/-- The number of days of a month. -/
def daysIn (year month : Nat) : Nat :=
  if month = 2 then
    if year % 4 = 0 ∧ (year % 100 ≠ 0 ∨ year % 400 = 0) then 29 else 28
  else if month = 4 ∨ month = 6 ∨ month = 9 ∨ month = 11 then 30
  else 31

/-- A date, alone or with a time of day. A date that the calendar does not have is refused. -/
def dateOrTime? (text : Text) : Option (Except Error (Value × Text)) := do
  let (high, rest) ← twoDigits? 0 99 text
  let (low, rest) ← twoDigits? 0 99 rest
  let (month, rest) ← twoDigits? 1 12 (← afterChar? '-' rest)
  let (day, rest) ← twoDigits? 1 31 (← afterChar? '-' rest)
  let timed : Option Text := match rest with
    | c :: rest => if c = 'T' ∨ c = 't' ∨ c = ' ' then afterTime? rest else none
    | [] => none
  let year := high * 100 + low
  if year = 0 ∨ daysIn year month < day then return malformed
  else match timed with
    | some behind => return .ok (.dateTime, afterOffset behind)
    | none => return .ok (.date, rest)

/-- A number, a date or a time. -/
def number (text : Text) : Except Error (Value × Text) :=
  match dateOrTime? text with
  | some found => found
  | none =>
    match afterTime? text with
    | some behind => .ok (.time, behind)
    | none =>
      match basedNumber? text with
      | some found => .ok found
      | none =>
        match decimalNumber? text with
        | some found => found
        | none =>
          let special := (sign text).2
          match Text.after? "inf".toList special <|> Text.after? "nan".toList special with
          | some behind => .ok (.float, behind)
          | none => malformed

end TemplHighlight.Toml
