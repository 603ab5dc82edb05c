import TemplHighlight.Proofs.Pattern.Start
import TemplHighlight.Proofs.Split.Front
import TemplHighlight.Proofs.TagLanguage.Exact
import TemplHighlight.Proofs.Templ.Rules
import TemplHighlight.Proofs.Text.Classes

/-!
# How a tag starts

The first characters of a tag are its opening mark and a name, or the end. None of the rules that
are tried before the rule for tags matches there: comments, declarations and the like start in other
ways. So such a rule may take something out of the middle of a tag, such as a comment in a quoted
value, but it leaves the first character raw.
-/

namespace TemplHighlight

namespace TagLanguage.TagDerivation

variable {depth : Nat} (tag : TagDerivation depth)

/-- The opening mark of a tag. -/
def mark : Text := if tag.closing then ['<', '/'] else ['<']

/-- What follows the name of a tag. -/
def behindName : Text :=
  match tag.named with
  | some part => attributesText part.attributes ++ (spaceText part.space ++ endMark part.slash)
  | none => ['>']

/-- A tag is its opening mark, its name and what follows the name. -/
theorem text_split : tag.text = tag.mark ++ (tag.name ++ tag.behindName) := by
  obtain ⟨closing, named⟩ := tag
  cases named with
  | none => cases closing <;> rfl
  | some part => cases closing <;> simp [text, mark, name, behindName, innerText, NamedPart.text]

/-- The name of a tag is made of name characters. -/
theorem name_members : ∀ c ∈ tag.name, Tag.isNameChar c = true := by
  obtain ⟨closing, named⟩ := tag
  cases named with
  | none => nofun
  | some part => exact part.name.members

/-- What follows the name of a tag starts where a part of a tag ends. -/
theorem behindName_ends : EndsPart tag.behindName := by
  obtain ⟨closing, named⟩ := tag
  cases named with
  | none =>
    rintro c ⟨⟩
    exact .inr (.inr rfl)
  | some part =>
    have ends := endMark_ends part.slash []
    rw [List.append_nil] at ends
    exact attributes_end part.attributes (space_ends part.space ends)

/-- Behind the opening mark stands a name character, or the end of the tag. -/
theorem head_behindMark : ∃ c rest, tag.name ++ tag.behindName = c :: rest ∧
    (Tag.isNameChar c = true ∨ c = '>') := by
  obtain ⟨closing, named⟩ := tag
  cases named with
  | none => exact ⟨'>', [], rfl, .inr rfl⟩
  | some part =>
    obtain ⟨c, later, split, first⟩ := run_head part.name
    refine ⟨c, later ++ (⟨closing, some part⟩ : TagDerivation depth).behindName, ?_, .inl first⟩
    simp only [name, split, List.cons_append]

/-- Every tag starts with the same character. -/
theorem text_head : ∃ rest, tag.text = '<' :: rest := ⟨_, rfl⟩

/-- The second character of a tag. -/
theorem second_char {first c : Char} {rest : Text} (split : tag.text = first :: c :: rest) :
    c = '/' ∨ Tag.isNameChar c = true ∨ c = '>' := by
  obtain ⟨d, behind, head, isInner⟩ := tag.head_behindMark
  rw [text_split, head] at split
  unfold mark at split
  split at split
  · cases split
    exact .inl rfl
  · cases split
    exact .inr isInner

end TagLanguage.TagDerivation

namespace Templ

open Regex Split TagLanguage

/-- A character in front of the letters stands for itself, also without regard to case. -/
theorem has_mark {anyCase : Bool} {mark c : Char} (notLetter : 0 < mark.toNat ∧ mark.toNat < 65)
    (listed : (CharSet.among [mark]).has anyCase c = true) : c = mark := by
  simp only [CharSet.has, List.any_cons, List.any_nil, Bool.or_false, Bool.or_eq_true,
    beq_iff_eq, Bool.and_eq_true] at listed
  rcases listed with same | ⟨-, same⟩
  · exact same.symm
  · exact CharClass.mark_of_sameLetter notLetter same

variable {rule : Rule} {first second : Char} {more : Text} {tail : Regex} {written text : Text}
  {start stop : Nat}

/-- The token of a rule for a literal text and what follows it starts with that text. -/
theorem findWith_literal {anyCase : Bool}
    (pattern : rule.pattern = .regex (.seq (literal (first :: second :: more)) tail) anyCase written)
    (plain : rule.lookbehind = false)
    (notLetters : (0 < first.toNat ∧ first.toNat < 65) ∧ 0 < second.toNat ∧ second.toNat < 65)
    (found : findWith rule text = .ok (some (start, stop))) :
    ∃ rest, text.drop start = first :: second :: rest := by
  obtain ⟨result, searched, -, -, same⟩ := search_of_findWith found
  rw [pattern] at searched
  obtain ⟨⟨place, after⟩, matched, rfl⟩ := Option.map_eq_some_iff.mp (Except.ok.inj searched)
  obtain ⟨last, matched⟩ := searchFrom_matched matched
  obtain ⟨c, d, rest, split, isFirst, isSecond⟩ := run_literal matched
  have starts : place = start := same plain
  rw [has_mark notLetters.1 isFirst, has_mark notLetters.2 isSecond, starts] at split
  exact ⟨rest, split⟩

/-- The token of a rule that leaves out what its group took starts with the literal text behind. -/
theorem findWith_led {set : CharSet}
    (pattern : rule.pattern = .regex (.seq (.group (.alt .textStart (.one set)))
      (.seq (literal (first :: second :: more)) tail)) false written)
    (lookbehind : rule.lookbehind = true) (noGroup : tail.hasGroup = false)
    (found : findWith rule text = .ok (some (start, stop))) :
    ∃ rest, text.drop start = first :: second :: rest := by
  have answered : rule.find text = .ok (some (start, stop)) := by
    unfold findWith at found
    split at found
    · rename_i bounds answered
      cases found
      exact answered
    · cases found
  simp only [Rule.find, Outcome.bind_eq_ok] at answered
  obtain ⟨result?, searched, same⟩ := answered
  cases result? with
  | none => cases same
  | some result =>
    rw [pattern] at searched
    obtain ⟨⟨place, after⟩, matched, rfl⟩ := Option.map_eq_some_iff.mp (Except.ok.inj searched)
    obtain ⟨last, matched⟩ := searchFrom_matched matched
    obtain ⟨lead, rest, split, captured⟩ := matchAt_led matched
    simp only [if_pos lookbehind, Outcome.bind_eq_ok] at same
    obtain ⟨group, taken, same⟩ := same
    have groupLead : group = some lead := by
      rw [← captured noGroup]
      exact (Except.ok.inj taken).symm
    cases same
    have front : text.drop place = lead ++ first :: second :: rest := split
    rw [groupLead, Pattern.foundAt, Option.getD_some, ← List.drop_drop, front, List.drop_left]
    exact ⟨rest, rfl⟩

/-- The rules that are tried before the rule for tags find nothing but comments and declarations. -/
theorem beforeTag_starts :
    ∀ entry ∈ listed beforeTag, ∀ text start stop,
      findWith entry.2 text = .ok (some (start, stop)) →
        ∃ first second rest, text.drop start = first :: second :: rest ∧
          (first = '/' ∧ (second = '*' ∨ second = '/') ∨
            first = '<' ∧ (second = '!' ∨ second = '?')) := by
  refine List.forall_mem_cons.mpr ⟨?blockComment, List.forall_mem_cons.mpr ⟨?lineComment,
    List.forall_mem_cons.mpr ⟨?markupComment, List.forall_mem_cons.mpr ⟨?prolog,
      List.forall_mem_cons.mpr ⟨?doctype, List.forall_mem_cons.mpr ⟨?cdata, nofun⟩⟩⟩⟩⟩⟩
  case blockComment =>
    intro text start stop found
    obtain ⟨rest, split⟩ := findWith_led rfl rfl rfl found
    exact ⟨_, _, rest, split, .inl ⟨rfl, .inl rfl⟩⟩
  case lineComment =>
    intro text start stop found
    obtain ⟨rest, split⟩ := findWith_led rfl rfl rfl found
    exact ⟨_, _, rest, split, .inl ⟨rfl, .inr rfl⟩⟩
  case markupComment | doctype | cdata =>
    intro text start stop found
    obtain ⟨rest, split⟩ := findWith_literal rfl rfl (by decide) found
    exact ⟨_, _, rest, split, .inr ⟨rfl, .inl rfl⟩⟩
  case prolog =>
    intro text start stop found
    obtain ⟨rest, split⟩ := findWith_literal rfl rfl (by decide) found
    exact ⟨_, _, rest, split, .inr ⟨rfl, .inr rfl⟩⟩

/-- So they find nothing at the start of a tag. -/
theorem beforeTag_misses {depth : Nat} (tag : TagDerivation depth) :
    ∀ entry ∈ listed beforeTag, ∀ stop, findWith entry.2 tag.text ≠ .ok (some (0, stop)) := by
  intro entry member stop found
  obtain ⟨first, second, rest, split, pair⟩ := beforeTag_starts entry member _ _ _ found
  rw [List.drop_zero] at split
  obtain ⟨behind, head⟩ := tag.text_head
  rcases pair with ⟨rfl, -⟩ | ⟨rfl, declared⟩
  · rw [head] at split
    cases split
  · have notInner : ¬ (second = '/' ∨ Tag.isNameChar second = true ∨ second = '>') := by
      rcases declared with rfl | rfl <;> decide
    exact notInner (tag.second_char split)

end Templ

end TemplHighlight
