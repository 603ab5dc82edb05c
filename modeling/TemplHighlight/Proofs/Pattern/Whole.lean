import TemplHighlight.Proofs.Pattern.Answers
import TemplHighlight.Proofs.TagLanguage.Exact
import TemplHighlight.Proofs.Text.Leads

/-!
# Matches that stand by themselves

A scanner reads a text from left to right and stops behind its match. What it has read is a member
of a language that does not depend on what follows: so the text of a match, taken out of the text in
which it was found, is matched as a whole.
-/

namespace TemplHighlight.Pattern

/-- A pattern matches a text as a whole: the match that starts at the start of the text stops at its
end. -/
def Whole (pattern : Pattern) (text : Text) : Prop :=
  pattern.matchFrom text 0 = .ok (some ⟨0, text.length, none⟩)

/-- What a scanner has passed of a text, it passes by itself as well. -/
theorem after?_alone {pattern : Pattern} (scans : pattern.scans = true) {text rest : Text}
    (matched : pattern.after? text = .ok (some rest)) :
    ∃ part, text = part ++ rest ∧ pattern.after? part = .ok (some []) := by
  induction pattern generalizing text with
  | braces depth =>
    obtain ⟨inner, braced, split⟩ :=
      (TagLanguage.group_exact depth text rest).mp (Except.ok.inj matched)
    refine ⟨'\x7b' :: (inner ++ ['\x7d']), by simp [split], congrArg Except.ok ?_⟩
    exact (TagLanguage.group_exact depth _ []).mpr ⟨inner, braced, rfl⟩
  | spread depth =>
    obtain ⟨spread, split⟩ := (TagLanguage.spread_exact depth text rest).mp (Except.ok.inj matched)
    refine ⟨spread.text, split, congrArg Except.ok ?_⟩
    exact (TagLanguage.spread_exact depth _ []).mpr ⟨spread, (List.append_nil _).symm⟩
  | tag depth =>
    obtain ⟨tag, split⟩ := (TagLanguage.tag_exact depth text rest).mp (Except.ok.inj matched)
    refine ⟨tag.text, split, congrArg Except.ok ?_⟩
    exact (TagLanguage.tag_exact depth _ []).mpr ⟨tag, (List.append_nil _).symm⟩
  | lead c more inner inductionHypothesis =>
    rw [after?] at matched
    split at matched
    · rename_i behind led
      obtain ⟨part, split, alone⟩ := inductionHypothesis scans matched
      refine ⟨c :: more ++ part, by rw [Text.eq_append_of_after? led, split, List.append_assoc], ?_⟩
      rw [after?, Text.after?_append]
      exact alone
    · cases matched
  | regex | custom => cases scans

/-- A scanner's match at a place goes up to what the scanner leaves of the text behind it. -/
theorem matchFrom_of_after? {pattern : Pattern} {text : Text} {pos : Nat} {rest? : Option Text}
    (asked : pattern.after? (text.drop pos) = .ok rest?) :
    pattern.matchFrom text pos = .ok (rest?.map fun rest =>
      ⟨pos, pos + ((text.drop pos).length - rest.length), none⟩) := by
  have scanned : (do
      return (← pattern.after? (text.drop pos)).map fun rest =>
        (⟨pos, pos + ((text.drop pos).length - rest.length), none⟩ : Found)) =
      Except.ok (rest?.map fun rest =>
        ⟨pos, pos + ((text.drop pos).length - rest.length), none⟩) := by
    rw [asked]
    rfl
  cases pattern with
  | braces | spread | tag | lead => exact scanned
  | regex | custom => cases asked

/-- A scanner matches a text as a whole if nothing is left behind the match. -/
theorem whole_of_after? {pattern : Pattern} {text : Text}
    (matched : pattern.after? text = .ok (some [])) : pattern.Whole text := by
  have asked : pattern.after? (text.drop 0) = .ok (some []) := matched
  simp [Whole, matchFrom_of_after? asked]

/-- The text of a match is passed by itself. -/
theorem alone_of_passed {pattern : Pattern} (scans : pattern.scans = true) {text behind : Text}
    {start stop : Nat} (matched : pattern.after? (text.drop start) = .ok (some behind))
    (stops : stop = start + ((text.drop start).length - behind.length)) :
    pattern.after? ((text.take stop).drop start) = .ok (some []) := by
  obtain ⟨part, split, alone⟩ := after?_alone scans matched
  have width : stop - start = part.length := by
    rw [stops, split, List.length_append]
    omega
  rw [List.drop_take, width, split, List.take_left]
  exact alone

/-- What a scanner matches at a place of a text, it passes when it is taken out of the text. -/
theorem alone_of_matchFrom {pattern : Pattern} (scans : pattern.scans = true) {text : Text}
    {pos : Nat} {found : Found} (matched : pattern.matchFrom text pos = .ok (some found)) :
    pattern.after? ((text.take found.stop).drop found.start) = .ok (some []) := by
  obtain ⟨rest?, asked⟩ := after?_total scans (text.drop pos)
  rw [matchFrom_of_after? asked] at matched
  obtain ⟨behind, rfl, rfl⟩ := Option.map_eq_some_iff.mp (Except.ok.inj matched)
  exact alone_of_passed scans asked rfl

end TemplHighlight.Pattern
