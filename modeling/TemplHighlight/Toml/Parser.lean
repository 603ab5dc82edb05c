import TemplHighlight.Toml.Scalar

/-!
# Reading TOML

A document is read statement by statement. A table may be opened by its header only once, a value is
never replaced, and nothing is added to an array or a table that was written as a value. To see to
that, the reader marks keys: some as opened, so that no header and no dotted key may open them
again, and some as closed, together with everything below them.
-/

namespace TemplHighlight.Toml

/-- A mark on a key. -/
inductive Mark where
  | opened (key : Key)
  | closed (key : Key)

/-- The marks that were made. -/
abbrev Marks := List Mark

namespace Marks

/-- Whether a key was opened. -/
def isOpened (key : Key) (marks : Marks) : Bool :=
  marks.any fun
    | .opened other => other == key
    | .closed _ => false

/-- Whether a key or one above it was closed. -/
def isClosed (key : Key) (marks : Marks) : Bool :=
  marks.any fun
    | .opened _ => false
    | .closed other => other.isPrefixOf key

/-- The marks without those on a key and below it. -/
def clear (key : Key) (marks : Marks) : Marks :=
  marks.filter fun
    | .opened other => !key.isPrefixOf other
    | .closed other => !key.isPrefixOf other

end Marks

/-- What was read so far. -/
structure Document where
  entries : Pairs Value
  marks : Marks
  /-- The keys that dotted keys went through since the last header; they are opened with the next.
  -/
  pending : List Key
  /-- The table that keys are relative to. -/
  header : Key

/-- The text behind a comment, if one starts here. -/
def skipComment : Text → Except Error Text
  | '#' :: rest =>
    let (comment, behind) := rest.span (· != '\n')
    if comment.any isControl then malformed else .ok behind
  | text => .ok text

/-- The text behind blanks, line ends and comments. `fuel` bounds the number of comments. -/
def skipLines : (fuel : Nat) → Text → Except Error Text
  | 0, text => .ok text
  | fuel + 1, text => do
    match text.dropWhile isSpaceOrLine with
    | '#' :: rest => skipLines fuel (← skipComment ('#' :: rest))
    | rest => return rest

/-- The characters of keys without quotes. -/
def isBareKeyChar (c : Char) : Bool := c.isAlphanum || c == '-' || c == '_'

/-- One part of a key. -/
def keyPart (text : Text) : Except Error (String × Text) :=
  match text with
  | '"' :: _ => (basicString text).map fun (name, rest) => (String.ofList name, rest)
  | '\'' :: _ => (literalString text).map fun (name, rest) => (String.ofList name, rest)
  | text =>
    match text.span isBareKeyChar with
    | ([], _) => malformed
    | (name, rest) => .ok (String.ofList name, rest)

/-- A key of parts with dots between them, and the text behind it and the blanks that follow it. -/
def key : (fuel : Nat) → Text → Except Error (Key × Text)
  | 0, _ => malformed
  | fuel + 1, text => do
    let (part, rest) ← keyPart text
    match rest.dropWhile isSpace with
    | '.' :: rest =>
      let (more, rest) ← key fuel (rest.dropWhile isSpace)
      return (part :: more, rest)
    | rest => return ([part], rest)

/-- Whether a value is an array or a table, which nothing may be added to once it is written. -/
def isContainer : Value → Bool
  | .array _ | .table _ => true
  | _ => false

mutual

/-- A value. `fuel` bounds the depth of nesting and the number of items. -/
def value : (fuel : Nat) → Text → Except Error (Value × Text)
  | 0, _ => malformed
  | fuel + 1, text =>
    match text with
    | '"' :: _ => (string text).map fun (s, rest) => (.string s, rest)
    | '\'' :: _ => (string text).map fun (s, rest) => (.string s, rest)
    | 't' :: 'r' :: 'u' :: 'e' :: rest => .ok (.bool true, rest)
    | 'f' :: 'a' :: 'l' :: 's' :: 'e' :: rest => .ok (.bool false, rest)
    | '[' :: rest => do
      let (items, rest) ← items fuel (← skipLines rest.length rest)
      return (.array items, rest)
    | '\x7b' :: rest =>
      match rest.dropWhile isSpace with
      | '\x7d' :: rest => .ok (.table [], rest)
      | rest => (inlineEntries fuel [] [] rest).map fun (entries, rest) => (.table entries, rest)
    | text => number text

/-- The items of an array up to its end. -/
def items : (fuel : Nat) → Text → Except Error ((List Value) × Text)
  | 0, _ => malformed
  | fuel + 1, text =>
    match text with
    | ']' :: rest => .ok ([], rest)
    | text => do
      let (item, rest) ← value fuel text
      match ← skipLines rest.length rest with
      | ']' :: rest => return ([item], rest)
      | ',' :: rest =>
        let (more, rest) ← items fuel (← skipLines rest.length rest)
        return (item :: more, rest)
      | _ => malformed

/-- A key and its value. -/
def keyValue : (fuel : Nat) → Text → Except Error ((Key × Value) × Text)
  | 0, _ => malformed
  | fuel + 1, text => do
    let (key, rest) ← key text.length text
    let rest ← expect "=" rest
    let (value, rest) ← value fuel (rest.dropWhile isSpace)
    return ((key, value), rest)

/-- The entries of a table that is written as a value, up to its end. -/
def inlineEntries : (fuel : Nat) → Marks → Pairs Value → Text → Except Error ((Pairs Value) × Text)
  | 0, _, _, _ => malformed
  | fuel + 1, marks, entries, text => do
    let ((key, value), rest) ← keyValue fuel text
    if marks.isClosed key then malformed
    else
      let putLast := Value.putNew? (key.getLast?.getD "") value
      match Value.changeAt? false putLast key.dropLast entries with
      | none => malformed
      | some entries =>
        match rest.dropWhile isSpace with
        | '\x7d' :: rest => return (entries, rest)
        | ',' :: rest =>
          let marks := if isContainer value then .closed key :: marks else marks
          inlineEntries fuel marks entries (rest.dropWhile isSpace)
        | _ => malformed

end

/-- Puts a key and its value into the current table. -/
def Document.put? (document : Document) (key : Key) (value : Value) : Option Document := do
  let path := document.header ++ key
  let through := (List.range (key.length - 1)).map fun count =>
    document.header ++ key.take (count + 1)
  if through.any (document.marks.isOpened ·) then none
  if document.marks.isClosed path.dropLast then none
  let entries ← Value.changeAt? true (Value.putNew? (path.getLast?.getD "") value) path.dropLast
    document.entries
  return { document with
    entries
    pending := through ++ document.pending
    marks := if isContainer value then .closed path :: document.marks else document.marks }

/-- Opens the keys that are waiting for the next header. -/
def Document.finishPending (document : Document) : Document :=
  { document with marks := document.pending.map .opened ++ document.marks, pending := [] }

/-- Opens a table by its header. -/
def Document.open? (document : Document) (key : Key) : Option Document := do
  if document.marks.isOpened key || document.marks.isClosed key then none
  let entries ← Value.changeAt? true some key document.entries
  return { document with entries, marks := .opened key :: document.marks, header := key }

/-- Opens a new table at the end of an array of tables. What was said of the tables before does not
hold for it. -/
def Document.append? (document : Document) (key : Key) : Option Document := do
  if document.marks.isClosed key then none
  let entries ← Value.changeAt? true (Value.addTable? (key.getLast?.getD "")) key.dropLast
    document.entries
  return { document with entries, marks := .opened key :: document.marks.clear key, header := key }

/-- The header of a table or of an array of tables. -/
def header (document : Document) (text : Text) : Except Error (Document × Text) := do
  let document := document.finishPending
  match text with
  | '[' :: '[' :: rest =>
    let (key, rest) ← key text.length (rest.dropWhile isSpace)
    let rest ← expect "]]" rest
    match document.append? key with
    | some document => return (document, rest)
    | none => malformed
  | text =>
    let rest ← expect "[" text
    let (key, rest) ← key text.length (rest.dropWhile isSpace)
    let rest ← expect "]" rest
    match document.open? key with
    | some document => return (document, rest)
    | none => malformed

/-- A statement, if the line has one. -/
def statement (document : Document) (text : Text) : Except Error (Document × Text) :=
  match text with
  | [] => .ok (document, [])
  | c :: rest =>
    if c = '\n' ∨ c = '#' then .ok (document, c :: rest)
    else if c = '[' then header document text
    else if isBareKeyChar c || c == '"' || c == '\'' then do
      let ((key, value), rest) ← keyValue (text.length + 1) text
      match document.put? key value with
      | some document => return (document, rest)
      | none => malformed
    else malformed

/-- The lines of a document. `fuel` bounds their number. -/
def lines : (fuel : Nat) → Document → Text → Except Error Document
  | 0, _, _ => malformed
  | fuel + 1, document, text => do
    let (document, rest) ← statement document (text.dropWhile isSpace)
    match ← skipComment (rest.dropWhile isSpace) with
    | [] => return document
    | '\n' :: rest => lines fuel document rest
    | _ => malformed

/-- Carriage returns in front of line feeds do not count. -/
def unifyLineEnds : Text → Text
  | '\r' :: '\n' :: rest => '\n' :: unifyLineEnds rest
  | c :: rest => c :: unifyLineEnds rest
  | [] => []

/-- The table that a document holds. -/
def parse (text : Text) : Except Error (Pairs Value) :=
  let text := unifyLineEnds text
  (lines (text.length + 1) ⟨[], [], [], []⟩ text).map (·.entries)

end TemplHighlight.Toml
