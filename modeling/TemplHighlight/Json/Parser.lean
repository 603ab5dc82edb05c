import TemplHighlight.Json.Basic

/-!
# Reading JSON

`Json.parse?` reads a text that holds one value and nothing else but blanks around it. Strings hold
no control characters; besides the numbers of JSON, the names of the infinite numbers and of no
number are read.
-/

namespace TemplHighlight.Json

/-- The text behind the blanks at its start. -/
def skipBlanks (text : Text) : Text :=
  text.dropWhile fun c => c == ' ' || c == '\t' || c == '\n' || c == '\r'

/-- The value of a hexadecimal digit. -/
def hexValue? (c : Char) : Option Nat :=
  if '0' ≤ c ∧ c ≤ '9' then some (c.toNat - 48)
  else if 'a' ≤ c ∧ c ≤ 'f' then some (c.toNat - 87)
  else if 'A' ≤ c ∧ c ≤ 'F' then some (c.toNat - 55)
  else none

/-- The code unit that four hexadecimal digits name, and the text behind them. -/
def unit? : Text → Option (Nat × Text)
  | a :: b :: c :: d :: rest => do
    let high := (← hexValue? a) * 16 + (← hexValue? b)
    let low := (← hexValue? c) * 16 + (← hexValue? d)
    return (high * 256 + low, rest)
  | _ => none

/-- The character of an escape behind `\u`. Two surrogates name one character; one by itself names
none and is read as the replacement character. -/
def unicodeEscape? (text : Text) : Option (Char × Text) := do
  let (high, rest) ← unit? text
  if 0xd800 ≤ high ∧ high < 0xdc00 then
    match rest with
    | '\\' :: 'u' :: behind =>
      match unit? behind with
      | some (low, behind) =>
        if 0xdc00 ≤ low ∧ low < 0xe000 then
          return (Char.ofNat (0x10000 + (high - 0xd800) * 0x400 + (low - 0xdc00)), behind)
        else return ('\ufffd', rest)
      | none => return ('\ufffd', rest)
    | _ => return ('\ufffd', rest)
  else if 0xdc00 ≤ high ∧ high < 0xe000 then return ('\ufffd', rest)
  else return (Char.ofNat high, rest)

/-- The character that a backslash and `c` stand for. -/
def simpleEscape? (c : Char) : Option Char :=
  match c with
  | '"' => some '"'
  | '\\' => some '\\'
  | '/' => some '/'
  | 'b' => some '\x08'
  | 'f' => some '\x0c'
  | 'n' => some '\n'
  | 'r' => some '\r'
  | 't' => some '\t'
  | _ => none

/-- The characters up to the quote that ends a string, and the text behind it. Every character of
the string takes at least one off `fuel`. -/
def stringRest? : (fuel : Nat) → Text → Option (Text × Text)
  | 0, _ => none
  | _, [] => none
  | _ + 1, '"' :: rest => some ([], rest)
  | fuel + 1, '\\' :: 'u' :: rest => do
    let (c, rest) ← unicodeEscape? rest
    let (more, rest) ← stringRest? fuel rest
    return (c :: more, rest)
  | fuel + 1, '\\' :: c :: rest => do
    let c ← simpleEscape? c
    let (more, rest) ← stringRest? fuel rest
    return (c :: more, rest)
  | fuel + 1, c :: rest =>
    if c = '\\' ∨ c.toNat < 32 then none
    else do
      let (more, rest) ← stringRest? fuel rest
      return (c :: more, rest)

/-- The number that decimal digits write. -/
def digitsValue (digits : Text) : Nat :=
  digits.foldl (fun value c => value * 10 + (c.toNat - 48)) 0

/-- The digits at the start of a text, and what follows them. -/
def digits (text : Text) : Text × Text := (text.takeWhile Char.isDigit, text.dropWhile Char.isDigit)

/-- The part of a number behind its point, if there is one with digits. -/
def fraction : Text → Text × Text
  | '.' :: rest =>
    match digits rest with
    | ([], _) => ([], '.' :: rest)
    | found => found
  | text => ([], text)

/-- The exponent of a number, if there is one with digits. -/
def exponent? : Text → Option (Int × Text)
  | mark :: rest =>
    if mark = 'e' ∨ mark = 'E' then
      let (negative, unsigned) : Bool × Text := match rest with
        | '-' :: rest => (true, rest)
        | '+' :: rest => (false, rest)
        | rest => (false, rest)
      match digits unsigned with
      | ([], _) => none
      | (found, behind) =>
        some (if negative then -(digitsValue found : Int) else digitsValue found, behind)
    else none
  | [] => none

/-- A number without its sign. Whole numbers of more than 4300 digits are refused. -/
def number? (negative : Bool) (text : Text) : Option (Value × Text) :=
  let (whole, rest) := match text with
    | '0' :: rest => (['0'], rest)
    | text => digits text
  if whole.isEmpty then none
  else
    match fraction rest, exponent? (fraction rest).2 with
    | ([], _), none =>
      if 4300 < whole.length then none
      else
        some (.integer (if negative then -(digitsValue whole : Int) else digitsValue whole), rest)
    | (decimals, _), some (exponent, behind) =>
      some (.real (Real64.ofDecimal negative (digitsValue (whole ++ decimals))
        (exponent - decimals.length)), behind)
    | (decimals, behind), none =>
      some (.real (Real64.ofDecimal negative (digitsValue (whole ++ decimals)) (-decimals.length)),
        behind)

mutual

/-- A value and the text behind it. `fuel` bounds the depth of nesting and the number of items. -/
def value? : (fuel : Nat) → Text → Option (Value × Text)
  | 0, _ => none
  | fuel + 1, text =>
    match text with
    | '"' :: rest => (stringRest? text.length rest).map fun (s, rest) => (.string s, rest)
    | '\x7b' :: rest =>
      match skipBlanks rest with
      | '\x7d' :: rest => some (.object [], rest)
      | rest => (members? fuel [] rest).map fun (members, rest) => (.object members, rest)
    | '[' :: rest =>
      match skipBlanks rest with
      | ']' :: rest => some (.array [], rest)
      | rest => (items? fuel rest).map fun (items, rest) => (.array items, rest)
    | 'n' :: 'u' :: 'l' :: 'l' :: rest => some (.null, rest)
    | 't' :: 'r' :: 'u' :: 'e' :: rest => some (.bool true, rest)
    | 'f' :: 'a' :: 'l' :: 's' :: 'e' :: rest => some (.bool false, rest)
    | 'N' :: 'a' :: 'N' :: rest => some (.real .notANumber, rest)
    | '-' :: rest =>
      match Text.after? "Infinity".toList rest with
      | some rest => some (.real (.infinite true), rest)
      | none => number? true rest
    | text =>
      match Text.after? "Infinity".toList text with
      | some rest => some (.real (.infinite false), rest)
      | none => number? false text

/-- The items of an array from the start of one on, and the text behind the array. -/
def items? : (fuel : Nat) → Text → Option (List Value × Text)
  | 0, _ => none
  | fuel + 1, text => do
    let (item, rest) ← value? fuel text
    match skipBlanks rest with
    | ']' :: rest => return ([item], rest)
    | ',' :: rest =>
      let (more, rest) ← items? fuel (skipBlanks rest)
      return (item :: more, rest)
    | _ => none

/-- The members of an object from the start of one on, put behind those that are there, and the text
behind the object. -/
def members? : (fuel : Nat) → Pairs Value → Text → Option (Pairs Value × Text)
  | 0, _, _ => none
  | fuel + 1, before, text =>
    match text with
    | '"' :: rest => do
      let (name, rest) ← stringRest? text.length rest
      match skipBlanks rest with
      | ':' :: rest =>
        let (value, rest) ← value? fuel (skipBlanks rest)
        let members := Pairs.put (String.ofList name) value before
        match skipBlanks rest with
        | '\x7d' :: rest => return (members, rest)
        | ',' :: rest => members? fuel members (skipBlanks rest)
        | _ => none
      | _ => none
    | _ => none

end

/-- The value that a text holds. -/
def parse? (text : Text) : Option Value := do
  let (value, rest) ← value? (text.length + 1) (skipBlanks text)
  if (skipBlanks rest).isEmpty then return value else none

end TemplHighlight.Json
