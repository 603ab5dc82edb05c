import TemplHighlight.Json.Parser
import TemplHighlight.Json.Printer

/-!
# Texts in JSON

A text is written as a string of printable characters: every character as itself, or as an escape
that names it. Reading takes these back one by one, so a text that was written is read again,
whatever characters it has.
-/

namespace TemplHighlight.Json

variable {fuel unit : Nat} {c : Char} {text rest : Text}

/-! ## Code units -/

/-- A hexadecimal digit is read as what it was written for. -/
theorem hexValue?_hexDigit {n : Nat} (small : n < 16) : hexValue? (Text.hexDigit n) = some n := by
  have all : ∀ n < 16, hexValue? (Text.hexDigit n) = some n := by decide
  exact all n small

/-- Four hexadecimal digits are read as what they were written for. -/
theorem unit?_hex (small : unit < 0x10000) :
    unit? (Text.hex 4 unit ++ rest) = some (unit, rest) := by
  have digits : Text.hex 4 unit = [Text.hexDigit (unit / 16 / 16 / 16 % 16),
      Text.hexDigit (unit / 16 / 16 % 16), Text.hexDigit (unit / 16 % 16),
      Text.hexDigit (unit % 16)] := rfl
  have value : ((unit / 16 / 16 / 16 % 16) * 16 + unit / 16 / 16 % 16) * 256 +
      ((unit / 16 % 16) * 16 + unit % 16) = unit := by omega
  simp only [digits, List.cons_append, List.nil_append, unit?]
  rw [hexValue?_hexDigit (by omega), hexValue?_hexDigit (by omega), hexValue?_hexDigit (by omega),
    hexValue?_hexDigit (by omega)]
  exact congrArg (fun unit => some (unit, rest)) value

/-- A character is never a surrogate. -/
theorem not_surrogate (c : Char) : c.toNat < 0xd800 ∨ 0xe000 ≤ c.toNat ∧ c.toNat < 0x110000 := by
  rcases c.valid with low | ⟨above, below⟩
  · exact .inl low
  · exact .inr ⟨above, below⟩

/-- The escape of a code unit that is a character names that character. -/
theorem unicodeEscape?_hex (small : c.toNat < 0x10000) :
    unicodeEscape? (Text.hex 4 c.toNat ++ rest) = some (c, rest) := by
  have notSurrogate := not_surrogate c
  rw [unicodeEscape?, unit?_hex small]
  show (if _ then _ else _) = _
  rw [if_neg (by omega), if_neg (by omega), Char.ofNat_toNat]
  rfl

/-- The escapes of two surrogates name one character. -/
theorem unicodeEscape?_surrogates {high low : Nat} (rest : Text)
    (isHigh : 0xd800 ≤ high ∧ high < 0xdc00) (isLow : 0xdc00 ≤ low ∧ low < 0xe000) :
    unicodeEscape? (Text.hex 4 high ++ (unitEscape low ++ rest)) =
      some (Char.ofNat (0x10000 + (high - 0xd800) * 0x400 + (low - 0xdc00)), rest) := by
  rw [unicodeEscape?, unit?_hex (by omega), unitEscape]
  simp only [List.cons_append, Option.bind_eq_bind, Option.bind_some, isHigh, isLow, and_self,
    if_true, unit?_hex (show low < 0x10000 by omega)]
  rfl

/-! ## Strings -/

/-- A character that is escaped by code units is read as the character that these name. -/
theorem stringRest?_unicode {behind : Text} (names : unicodeEscape? text = some (c, behind)) :
    stringRest? (fuel + 1) ('\\' :: 'u' :: text) = do
      let (more, rest) ← stringRest? fuel behind
      return (c :: more, rest) := by
  rw [stringRest?, names]
  rfl

/-- A character that was written is read as that character. -/
theorem stringRest?_escapedChar (fuel : Nat) (c : Char) (rest : Text) :
    stringRest? (fuel + 1) (escapedChar c ++ rest) = do
      let (more, rest) ← stringRest? fuel rest
      return (c :: more, rest) := by
  have notSurrogate := not_surrogate c
  unfold escapedChar
  -- First the characters that have an escape of their own.
  iterate 7
    split
    · subst c
      rfl
  split
  next _ notBackslash _ _ _ _ _ printable =>
    have notControl : ¬c.toNat < 32 := by omega
    simp [stringRest?, notBackslash, notControl]
  next =>
    split
    next small => exact stringRest?_unicode (unicodeEscape?_hex small)
    next =>
      have value : 0x10000 + (0xd800 + (c.toNat - 0x10000) / 0x400 - 0xd800) * 0x400 +
          (0xdc00 + (c.toNat - 0x10000) % 0x400 - 0xdc00) = c.toNat := by omega
      have names := unicodeEscape?_surrogates rest
        (show 0xd800 ≤ 0xd800 + (c.toNat - 0x10000) / 0x400 ∧ _ by omega)
        (show 0xdc00 ≤ 0xdc00 + (c.toNat - 0x10000) % 0x400 ∧ _ by omega)
      rw [value, Char.ofNat_toNat, ← List.append_assoc] at names
      exact stringRest?_unicode names

/-- Every character takes room. -/
theorem escapedChar_ne_nil (c : Char) : escapedChar c ≠ [] := by
  unfold escapedChar
  repeat' split
  all_goals simp [unitEscape]

/-- So no text is longer than what is written for it. -/
theorem length_le_flatMap_escapedChar (text : Text) :
    text.length ≤ (text.flatMap escapedChar).length := by
  induction text with
  | nil => exact Nat.le_refl 0
  | cons c text inductionHypothesis =>
    have filled := List.length_pos_iff.mpr (escapedChar_ne_nil c)
    rw [List.flatMap_cons, List.length_append, List.length_cons]
    omega

/-- A text that was written is read up to the quote behind it. -/
theorem stringRest?_escaped (enough : text.length < fuel) :
    stringRest? fuel (text.flatMap escapedChar ++ '"' :: rest) = some (text, rest) := by
  induction text generalizing fuel with
  | nil =>
    obtain ⟨fuel, rfl⟩ := Nat.exists_eq_succ_of_ne_zero (Nat.ne_of_gt enough)
    rfl
  | cons c text inductionHypothesis =>
    obtain ⟨fuel, rfl⟩ := Nat.exists_eq_succ_of_ne_zero (Nat.ne_of_gt (Nat.zero_lt_of_lt enough))
    rw [List.flatMap_cons, List.append_assoc, stringRest?_escapedChar,
      inductionHypothesis (Nat.lt_of_succ_lt_succ enough)]
    rfl

/-- The room that a text takes is enough to read it. -/
theorem stringRest?_written (text rest : Text) :
    stringRest? (text.flatMap escapedChar ++ '"' :: rest).length.succ
      (text.flatMap escapedChar ++ '"' :: rest) = some (text, rest) := by
  refine stringRest?_escaped ?_
  have room := length_le_flatMap_escapedChar text
  rw [List.length_append]
  omega

end TemplHighlight.Json
