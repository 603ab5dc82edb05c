import TemplHighlight.Text.Utf8

/-!
# Plain text in files

A text of printable characters below 128 and line feeds takes one byte for every character, and is
read from these bytes as it was.
-/

namespace TemplHighlight.Text

variable {c : Char} {text front back : Text}

/-- A text of printable characters below 128 and of line feeds. -/
def Plain (text : Text) : Prop := ∀ c ∈ text, c = '\n' ∨ 32 ≤ c.toNat ∧ c.toNat < 127

/-- Whether a text is plain can be computed. -/
instance (text : Text) : Decidable (Plain text) :=
  decidable_of_iff (text.all fun c => c == '\n' || Nat.ble 32 c.toNat && Nat.blt c.toNat 127)
    (List.all_eq_true.trans (forall₂_congr fun c _ => by
      rw [Bool.or_eq_true, Bool.and_eq_true, beq_iff_eq, Nat.ble_eq, Nat.blt_eq]))

/-- Two texts are plain together if and only if each of them is. -/
theorem plain_append : Plain (front ++ back) ↔ Plain front ∧ Plain back := List.forall_mem_append

/-- A text is plain if and only if its first character and the others are. -/
theorem plain_cons :
    Plain (c :: text) ↔ (c = '\n' ∨ 32 ≤ c.toNat ∧ c.toNat < 127) ∧ Plain text :=
  List.forall_mem_cons

/-- A plain character is one byte. -/
theorem encode_plain (ascii : c.toNat < 128) :
    String.utf8EncodeChar c = [UInt8.ofNat c.toNat] := by
  unfold String.utf8EncodeChar
  exact if_pos (Nat.le_of_lt_succ ascii)

/-- A byte below 128 is decoded to the character with that number. -/
theorem decode?_ascii {byte : UInt8} (small : byte < 0x80) (rest : Bytes) :
    Utf8.decode? (byte :: rest) = do return Char.ofNat byte.toNat :: (← Utf8.decode? rest) := by
  rw [Utf8.decode?.eq_def]
  exact if_pos small

/-- Plain text is decoded to what it was. -/
theorem Plain.decode?_encode (plain : Plain text) : Utf8.decode? (Utf8.encode text) = some text := by
  induction text with
  | nil => rfl
  | cons c text inductionHypothesis =>
    obtain ⟨isPlain, later⟩ := plain_cons.mp plain
    have ascii : c.toNat < 128 := by
      rcases isPlain with rfl | ⟨-, below⟩
      · decide
      · omega
    have value : (UInt8.ofNat c.toNat).toNat = c.toNat := by
      rw [UInt8.toNat_ofNat']
      omega
    have small : UInt8.ofNat c.toNat < 0x80 := by
      rw [UInt8.lt_iff_toNat_lt, value]
      exact ascii
    rw [Utf8.encode, List.flatMap_cons, encode_plain ascii, List.singleton_append,
      decode?_ascii small, ← Utf8.encode, inductionHypothesis later, value, Char.ofNat_toNat]
    rfl

/-- The line ends of plain text are unified already. -/
theorem Plain.unifyLineEnds (plain : Plain text) : text.unifyLineEnds = text := by
  induction text with
  | nil => rfl
  | cons c text inductionHypothesis =>
    obtain ⟨isPlain, later⟩ := plain_cons.mp plain
    have notReturn : c ≠ '\r' := by
      rintro rfl
      revert isPlain
      decide
    simp [Text.unifyLineEnds, notReturn, inductionHypothesis later]

end TemplHighlight.Text
