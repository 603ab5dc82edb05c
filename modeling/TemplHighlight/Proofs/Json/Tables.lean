import TemplHighlight.Proofs.Json.Texts
import TemplHighlight.Proofs.Pairs
import TemplHighlight.Proofs.Text.Ascii

/-!
# Tables of texts in JSON

A table of texts is written as an object, one member to a line, in plain text. When the names of the
table are distinct, what is read again is that table.
-/

namespace TemplHighlight.Json

variable {fuel : Nat} {name : String} {text rest : Text} {texts : Pairs Text}

/-- The members of an object for a table of texts. -/
def members (texts : Pairs Text) : Pairs Value := texts.map (Prod.map id Value.string)

/-- A table of texts as an object. -/
def Value.table (texts : Pairs Text) : Value := .object (members texts)

/-- Different tables are different objects. -/
theorem table_injective {texts others : Pairs Text} (same : Value.table texts = .table others) :
    texts = others := by
  refine (List.map_inj_right ?_).mp (Value.object.inj same)
  rintro ⟨name, text⟩ ⟨other, otherText⟩ sameEntry
  obtain ⟨sameName, sameText⟩ := Prod.mk.inj sameEntry
  exact Prod.ext sameName (Value.string.inj sameText)

/-- What is found among the members. -/
theorem get?_members (name : String) (texts : Pairs Text) :
    Pairs.get? name (members texts) = (Pairs.get? name texts).map Value.string :=
  Pairs.get?_map Value.string name texts

/-- Putting a text among the members. -/
theorem put_members (name : String) (text : Text) (texts : Pairs Text) :
    Pairs.put name (.string text) (members texts) = members (Pairs.put name text texts) :=
  Pairs.put_map Value.string name text texts

/-! ## One member -/

/-- A written text opens with a quote, and its closing quote comes before what follows. -/
theorem writtenString_append (text rest : Text) :
    writtenString text ++ rest = '"' :: (text.flatMap escapedChar ++ '"' :: rest) := by
  simp [writtenString]

/-- A text that was written is read as a value. -/
theorem value?_written (fuel : Nat) (text rest : Text) :
    value? (fuel + 1) (writtenString text ++ rest) = some (.string text, rest) := by
  rw [writtenString_append, value?]
  exact congrArg (Option.map _) (stringRest?_written text rest)

/-- There are only blanks between a new line and what is written on it. -/
theorem skipBlanks_newLine (level : Nat) (rest : Text) :
    skipBlanks (newLine level ++ rest) = skipBlanks rest := by
  unfold newLine skipBlanks
  induction 2 * level with
  | zero => rfl
  | succ count inductionHypothesis => exact inductionHypothesis

/-- A member that was written is read, and put behind those that were read before. -/
theorem members?_written (fuel : Nat) (before : Pairs Value) (name : String) (text rest : Text) :
    members? (fuel + 2) before (writtenString name.toList ++ (": ".toList ++
        (writtenString text ++ rest))) =
      match skipBlanks rest with
      | '\x7d' :: rest => some (Pairs.put name (.string text) before, rest)
      | ',' :: rest => members? (fuel + 1) (Pairs.put name (.string text) before) (skipBlanks rest)
      | _ => none := by
  have value : value? (fuel + 1) (skipBlanks (' ' :: (writtenString text ++ rest))) =
      some (.string text, rest) := value?_written fuel text rest
  rw [writtenString_append, members?]
  have string := stringRest?_written name.toList (": ".toList ++ (writtenString text ++ rest))
  simp only [List.length_cons, Nat.succ_eq_add_one] at string ⊢
  rw [string]
  show value? (fuel + 1) (skipBlanks (' ' :: (writtenString text ++ rest))) >>= _ = _
  rw [value, String.ofList_toList]
  rfl

/-! ## All members -/

/-- The members behind the first stand on lines of their own. -/
theorem writtenMembers_cons (name : String) (text rest : Text) (texts : Pairs Text) :
    writtenMembers 1 (members ((name, text) :: texts)) ++ rest =
      ',' :: (newLine 1 ++ (writtenString name.toList ++ (": ".toList ++ (writtenString text ++
        (writtenMembers 1 (members texts) ++ rest))))) := by
  simp [members, writtenMembers, written]

/-- The members of an object that was written are read one after the other. -/
theorem members?_table (name : String) (text rest : Text) (texts : Pairs Text)
    (before : Pairs Value) (enough : texts.length < fuel) :
    members? (fuel + 1) before (writtenString name.toList ++ (": ".toList ++ (writtenString text ++
        (writtenMembers 1 (members texts) ++ (newLine 0 ++ '\x7d' :: rest))))) =
      some (Pairs.putAll (Pairs.put name (.string text) before) (members texts), rest) := by
  induction texts generalizing name text before fuel with
  | nil =>
    obtain ⟨fuel, rfl⟩ := Nat.exists_eq_succ_of_ne_zero (Nat.ne_of_gt enough)
    exact members?_written fuel before name text _
  | cons entry texts inductionHypothesis =>
    obtain ⟨next, nextText⟩ := entry
    obtain ⟨fuel, rfl⟩ := Nat.exists_eq_succ_of_ne_zero (Nat.ne_of_gt (Nat.zero_lt_of_lt enough))
    rw [writtenMembers_cons]
    refine (members?_written fuel before name text _).trans ?_
    show members? (fuel + 1) _ (skipBlanks (newLine 1 ++ (writtenString next.toList ++ _))) = _
    rw [skipBlanks_newLine]
    exact inductionHypothesis next nextText (Pairs.put name (.string text) before)
      (Nat.lt_of_succ_lt_succ enough)

/-- Every member takes room. -/
theorem length_le_writtenMembers (texts : Pairs Text) :
    texts.length ≤ (writtenMembers 1 (members texts)).length := by
  induction texts with
  | nil => exact Nat.le_refl 0
  | cons entry texts inductionHypothesis =>
    obtain ⟨name, text⟩ := entry
    rw [← List.append_nil (writtenMembers _ _), writtenMembers_cons]
    simp only [List.length_cons, List.length_append]
    omega

/-- An object with members is written on more than one line. -/
theorem toText_table (name : String) (text : Text) (texts : Pairs Text) :
    (Value.table ((name, text) :: texts)).toText =
      '\x7b' :: (newLine 1 ++ (writtenString name.toList ++ (": ".toList ++ (writtenString text ++
        (writtenMembers 1 (members texts) ++ (newLine 0 ++ ['\x7d'])))))) := by
  simp [Value.table, members, Value.toText, written]

/-- An object for a table of texts that was written is read as a value. -/
theorem value?_table (rest : Text) (distinct : (Pairs.names ((name, text) :: texts)).Nodup)
    (enough : texts.length < fuel) :
    value? (fuel + 2) ('\x7b' :: (newLine 1 ++ (writtenString name.toList ++ (": ".toList ++
        (writtenString text ++ (writtenMembers 1 (members texts) ++ (newLine 0 ++ '\x7d' :: rest))))))) =
      some (.table ((name, text) :: texts), rest) := by
  have read := members?_table name text rest texts [] enough
  have all : Pairs.putAll (Pairs.put name (.string text) []) (members texts) =
      members ((name, text) :: texts) := by
    have names : Pairs.names ([(name, Value.string text)] ++ members texts) =
        Pairs.names ((name, text) :: texts) :=
      congrArg (name :: ·) (Pairs.names_map Value.string texts)
    exact Pairs.putAll_distinct (names ▸ distinct)
  rw [all] at read
  rw [value?, skipBlanks_newLine]
  exact congrArg (Option.map _) read

/-- A table of texts that was written is read again, if its names are distinct. -/
theorem parse?_table (distinct : (Pairs.names texts).Nodup) :
    parse? (Value.table texts).toText = some (Value.table texts) := by
  cases texts with
  | nil => rfl
  | cons entry texts =>
    obtain ⟨name, text⟩ := entry
    have written := toText_table name text texts
    obtain ⟨fuel, isFuel, enough⟩ : ∃ fuel, (Value.table ((name, text) :: texts)).toText.length =
        fuel + 1 ∧ texts.length < fuel := by
      have room := length_le_writtenMembers texts
      refine ⟨_, congrArg List.length written, ?_⟩
      simp only [List.length_append, newLine, List.length_cons]
      omega
    have read := value?_table [] distinct enough
    have front : skipBlanks (Value.table ((name, text) :: texts)).toText =
        (Value.table ((name, text) :: texts)).toText := by
      rw [written]
      rfl
    rw [← written] at read
    rw [parse?, front, isFuel, read]
    rfl

/-! ## Plain text -/

open Text (Plain plain_append plain_cons)

/-- The digits of a number are plain. -/
theorem plain_hex (width n : Nat) : Plain (Text.hex width n) := by
  have digit (n : Nat) : Plain [Text.hexDigit (n % 16)] := by
    have all : ∀ n < 16, Plain [Text.hexDigit n] := by decide
    exact all (n % 16) (Nat.mod_lt n (by decide))
  induction width generalizing n with
  | zero => nofun
  | succ width inductionHypothesis =>
    exact plain_append.mpr ⟨inductionHypothesis (n / 16), digit n⟩

/-- An escape with a number is plain. -/
theorem plain_unitEscape (unit : Nat) : Plain (unitEscape unit) :=
  plain_cons.mpr ⟨.inr (by decide), plain_cons.mpr ⟨.inr (by decide), plain_hex 4 unit⟩⟩

/-- Every character is written in plain text. -/
theorem plain_escapedChar (c : Char) : Plain (escapedChar c) := by
  unfold escapedChar
  iterate 7
    split
    · decide
  split
  next printable => exact plain_cons.mpr ⟨.inr printable, nofun⟩
  split
  · exact plain_unitEscape c.toNat
  · exact plain_append.mpr ⟨plain_unitEscape _, plain_unitEscape _⟩

/-- A written text is plain, whatever the text. -/
theorem plain_writtenString (text : Text) : Plain (writtenString text) := by
  have escaped : Plain (text.flatMap escapedChar) := by
    intro c member
    obtain ⟨origin, -, isPart⟩ := List.mem_flatMap.mp member
    exact plain_escapedChar origin c isPart
  exact plain_cons.mpr ⟨.inr (by decide), plain_append.mpr ⟨escaped, by decide⟩⟩

/-- The start of a new line is plain. -/
theorem plain_newLine (level : Nat) : Plain (newLine level) := by
  refine plain_cons.mpr ⟨.inl rfl, fun c member => ?_⟩
  rw [List.eq_of_mem_replicate member]
  decide

/-- A written member is plain. -/
theorem plain_member (name : String) (text : Text) :
    Plain (writtenString name.toList ++ (": ".toList ++ writtenString text)) :=
  plain_append.mpr ⟨plain_writtenString _, plain_append.mpr ⟨by decide, plain_writtenString _⟩⟩

/-- So are all members of a table of texts. -/
theorem plain_writtenMembers (texts : Pairs Text) : Plain (writtenMembers 1 (members texts)) := by
  induction texts with
  | nil => nofun
  | cons entry texts inductionHypothesis =>
    obtain ⟨name, text⟩ := entry
    rw [← List.append_nil (writtenMembers _ _), writtenMembers_cons, List.append_nil]
    refine plain_cons.mpr ⟨.inr (by decide), plain_append.mpr ⟨plain_newLine 1, ?_⟩⟩
    have member := plain_append.mpr ⟨plain_member name text, inductionHypothesis⟩
    simpa only [List.append_assoc] using member

/-- A table of texts is written in plain text. -/
theorem plain_table (texts : Pairs Text) : Plain (Value.table texts).toText := by
  cases texts with
  | nil => decide
  | cons entry texts =>
    obtain ⟨name, text⟩ := entry
    rw [toText_table]
    refine plain_cons.mpr ⟨.inr (by decide), plain_append.mpr ⟨plain_newLine 1, ?_⟩⟩
    have ending : Plain (newLine 0 ++ ['\x7d']) := by decide
    have all := plain_append.mpr ⟨plain_append.mpr ⟨plain_member name text,
      plain_writtenMembers texts⟩, ending⟩
    simpa only [List.append_assoc] using all

end TemplHighlight.Json
