import TemplHighlight.Text.Basic

/-!
# UTF-8

Texts as bytes. Decoding takes the shortest form of every character only, and no surrogates, so a
text has exactly one form in bytes.
-/

namespace TemplHighlight

/-- The bytes of a file. -/
abbrev Bytes := List UInt8

namespace Utf8

/-- The bytes of a text. -/
def encode (text : Text) : Bytes := text.flatMap String.utf8EncodeChar

/-- The value of a byte that goes on with a character. -/
def tail? (byte : UInt8) : Option Nat :=
  if 0x80 ≤ byte && byte < 0xc0 then some (byte.toNat - 0x80) else none

/-- The character with a code point that needs at least `least`. -/
def char? (least code : Nat) : Option Char :=
  if valid : least ≤ code ∧ code.isValidChar then some (Char.ofNatAux code valid.2) else none

/-- The text that bytes stand for, if they stand for one. -/
def decode? : Bytes → Option Text
  | [] => some []
  | a :: rest =>
    if a < 0x80 then do
      return Char.ofNat a.toNat :: (← decode? rest)
    else if a < 0xc0 then none
    else if a < 0xe0 then
      match rest with
      | b :: rest => do
        let code := (a.toNat - 0xc0) * 64 + (← tail? b)
        return (← char? 0x80 code) :: (← decode? rest)
      | _ => none
    else if a < 0xf0 then
      match rest with
      | b :: c :: rest => do
        let code := ((a.toNat - 0xe0) * 64 + (← tail? b)) * 64 + (← tail? c)
        return (← char? 0x800 code) :: (← decode? rest)
      | _ => none
    else
      match rest with
      | b :: c :: d :: rest => do
        let code := (((a.toNat - 0xf0) * 64 + (← tail? b)) * 64 + (← tail? c)) * 64 + (← tail? d)
        return (← char? 0x10000 code) :: (← decode? rest)
      | _ => none

end Utf8

end TemplHighlight
