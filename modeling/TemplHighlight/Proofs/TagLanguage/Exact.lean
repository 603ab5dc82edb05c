import TemplHighlight.Grammar.Pattern
import TemplHighlight.Proofs.TagLanguage.Scan

/-!
# The scanners read the tag language exactly

`tag_exact` says that the scanner of tags stops behind a text if and only if a derivation has that
text. The main statement puts this in terms of places: at every place of every text, a match of the
tag pattern ends exactly where a member of the tag language ends that starts there, there is at most
one such end, and without one there is no match. The same holds of spreads.
-/

namespace TemplHighlight.TagLanguage

/-- What follows the opening mark of a tag with a name is passed up to the end of the tag. -/
theorem afterInner_named {depth : Nat} (part : NamedPart depth) (rest : Text) :
    Tag.afterInner depth (part.text ++ rest) = '>' :: rest := by
  obtain ⟨name, attributes, space, slash, fits⟩ := part
  have ends : EndsPart (attributesText attributes ++
      (spaceText space ++ (endMark slash ++ rest))) :=
    attributes_end attributes (space_ends space (endMark_ends slash rest))
  have stops := ends.stops nameChar_of_blank (by decide) (by decide)
  have skipped := skip_before_end fits rest
  simp only [NamedPart.text, List.append_assoc, Tag.afterInner, afterRun_run name stops,
    afterAttributes_attributes attributes fits rest, skipped]
  cases slash <;> rfl

/-- The end of a tag is left when a slash has been dropped in front of `>`. -/
theorem endMark_of_dropSlash {text rest : Text} (dropped : Tag.dropSlash text = '>' :: rest) :
    ∃ slash, text = endMark slash ++ rest := by
  unfold Tag.dropSlash at dropped
  split at dropped
  · exact ⟨true, congrArg ('/' :: ·) dropped⟩
  · exact ⟨false, dropped⟩

/-- Where the scan comes to the end of a tag, it has passed a name and what may follow it, or there
was nothing to pass. -/
theorem named_of_afterInner {depth : Nat} {text rest : Text}
    (passed : Tag.afterInner depth text = '>' :: rest) :
    (∃ part : NamedPart depth, text = part.text ++ rest) ∨ text = '>' :: rest := by
  unfold Tag.afterInner at passed
  split at passed
  · rename_i behind named
    left
    obtain ⟨name, nameSplit, -⟩ := run_of_afterRun named
    obtain ⟨attributes, attributesSplit⟩ := attributes_of_afterAttributes depth behind
    obtain ⟨space, fits, spaceSplit, -, -⟩ := space_of_skip (Tag.afterAttributes depth behind)
    obtain ⟨slash, endSplit⟩ := endMark_of_dropSlash passed
    rw [endSplit] at fits spaceSplit
    have fitsEnd : SpaceFits space (endMark slash) :=
      (spaceFits_append (endMark_filled slash) rest).mp fits
    refine ⟨⟨name, attributes, space, slash, fitsEnd⟩, ?_⟩
    rw [nameSplit, attributesSplit, spaceSplit]
    simp [NamedPart.text]
  · exact .inr passed

/-- The first character behind the opening mark of a tag is no slash. -/
theorem dropSlash_inner {depth : Nat} (named : Option (NamedPart depth)) (rest : Text) :
    Tag.dropSlash (innerText named ++ rest) = innerText named ++ rest := by
  cases named with
  | none => rfl
  | some part =>
    obtain ⟨c, later, split, first⟩ := run_head part.name
    have notSlash : c ≠ '/' := ne_of_member first (by decide)
    simp [innerText, NamedPart.text, split, Tag.dropSlash, notSlash]

/-- The scanner of tags finds exactly the tags and stops behind them. -/
theorem tag_exact (depth : Nat) (text rest : Text) :
    Tag.after? depth text = some rest ↔ ∃ tag : TagDerivation depth, text = tag.text ++ rest := by
  constructor
  · intro matched
    unfold Tag.after? at matched
    split at matched
    · rename_i later
      split at matched
      · rename_i behind passed
        cases matched
        have derive (closing : Bool) (inner : Text)
            (mark : later = (if closing then ['/'] else []) ++ inner)
            (scanned : Tag.afterInner depth inner = '>' :: rest) :
            ∃ tag : TagDerivation depth, '<' :: later = tag.text ++ rest := by
          rcases named_of_afterInner scanned with ⟨part, split⟩ | split
          · exact ⟨⟨closing, some part⟩, by simp [TagDerivation.text, innerText, mark, split]⟩
          · exact ⟨⟨closing, none⟩, by simp [TagDerivation.text, innerText, mark, split]⟩
        unfold Tag.dropSlash at passed
        split at passed
        · exact derive true _ rfl passed
        · exact derive false _ rfl passed
      · cases matched
    · cases matched
  · rintro ⟨⟨closing, named⟩, rfl⟩
    have scanned : Tag.afterInner depth (innerText named ++ rest) = '>' :: rest := by
      cases named with
      | none => rfl
      | some part => exact afterInner_named part rest
    cases closing with
    | false =>
      simp only [TagDerivation.text, Bool.false_eq_true, if_false, List.nil_append,
        List.cons_append, Tag.after?, dropSlash_inner named rest, scanned]
    | true =>
      simp only [TagDerivation.text, if_true, List.cons_append, List.nil_append, Tag.after?,
        Tag.dropSlash, scanned]

/-! ## Places -/

/-- The text from `start` up to `stop` is a member of a language. -/
def EndsAt (language : Text → Prop) (text : Text) (start stop : Nat) : Prop :=
  start ≤ stop ∧ stop ≤ text.length ∧ language ((text.take stop).drop start)

/-- A pattern reads a language at a place: a match ends where a member of the language ends, and
there is none without a member. No two members start at the place. -/
structure Reads (pattern : Pattern) (language : Text → Prop) (text : Text) (start : Nat) :
    Prop where
  found : ∀ stop, pattern.matchFrom text start = .ok (some ⟨start, stop, none⟩) ↔
    EndsAt language text start stop
  missed : pattern.matchFrom text start = .ok none ↔ ∀ stop, ¬ EndsAt language text start stop
  unique : ∀ stop other, EndsAt language text start stop → EndsAt language text start other →
    stop = other

/-- A scan that passes exactly the members of a language, none of them empty, stops where a member
ends. -/
theorem stop_iff_endsAt {scan : Text → Option Text} {language : Text → Prop}
    (exact : ∀ text rest, scan text = some rest ↔ ∃ part, language part ∧ text = part ++ rest)
    (filled : ¬ language []) (text : Text) (start stop : Nat) :
    (scan (text.drop start)).map (fun rest => start + ((text.drop start).length - rest.length)) =
      some stop ↔ EndsAt language text start stop := by
  rw [Option.map_eq_some_iff]
  constructor
  · rintro ⟨rest, scanned, rfl⟩
    obtain ⟨part, member, split⟩ := (exact _ rest).mp scanned
    have partFilled : part.length ≠ 0 := by
      intro empty
      exact filled (List.length_eq_zero_iff.mp empty ▸ member)
    have lengths : text.length - start = part.length + rest.length := by
      simpa using congrArg List.length split
    refine ⟨by omega, by simp only [List.length_drop]; omega, ?_⟩
    have width : start + ((text.drop start).length - rest.length) - start = part.length := by
      simp only [List.length_drop]
      omega
    rw [List.drop_take, width, split, List.take_left]
    exact member
  · rintro ⟨ordered, inside, member⟩
    refine ⟨text.drop stop, (exact _ _).mpr ⟨_, member, ?_⟩, by simp only [List.length_drop]; omega⟩
    rw [List.drop_take]
    have behind : text.drop stop = (text.drop start).drop (stop - start) := by
      rw [List.drop_drop, Nat.add_sub_cancel' ordered]
    rw [behind, List.take_append_drop]

/-- Passing exactly the members of a language, none of them empty, is reading the language at every
place. -/
theorem reads_of_members {pattern : Pattern} {language : Text → Prop} (scan : Text → Option Text)
    (scans : ∀ text start, pattern.matchFrom text start = .ok ((scan (text.drop start)).map
      fun rest => ⟨start, start + ((text.drop start).length - rest.length), none⟩))
    (members : ∀ text rest, scan text = some rest ↔ ∃ part, language part ∧ text = part ++ rest)
    (filled : ¬ language []) (text : Text) (start : Nat) : Reads pattern language text start := by
  have stops := stop_iff_endsAt members filled text start
  have found (stop : Nat) : pattern.matchFrom text start = .ok (some ⟨start, stop, none⟩) ↔
      EndsAt language text start stop := by
    rw [← stops, scans]
    cases scan (text.drop start) <;> simp
  refine ⟨found, ?_, ?_⟩
  · simp only [← stops, scans]
    cases scan (text.drop start) <;> simp
  · intro stop other first second
    have same := ((stops stop).mpr first).symm.trans ((stops other).mpr second)
    exact Option.some.inj same

/-- Passing exactly the texts of derivations is reading the language of these texts at every
place. -/
theorem reads_of_exact {pattern : Pattern} {Derivation : Type} {textOf : Derivation → Text}
    (scan : Text → Option Text)
    (scans : ∀ text start, pattern.matchFrom text start = .ok ((scan (text.drop start)).map
      fun rest => ⟨start, start + ((text.drop start).length - rest.length), none⟩))
    (exact : ∀ text rest, scan text = some rest ↔ ∃ derived, text = textOf derived ++ rest)
    (filled : ∀ derived, textOf derived ≠ []) (text : Text) (start : Nat) :
    Reads pattern (fun part => ∃ derived, textOf derived = part) text start := by
  have members (text rest : Text) : scan text = some rest ↔
      ∃ part, (∃ derived, textOf derived = part) ∧ text = part ++ rest := by
    rw [exact]
    constructor
    · rintro ⟨derived, split⟩
      exact ⟨textOf derived, ⟨derived, rfl⟩, split⟩
    · rintro ⟨_, ⟨derived, rfl⟩, split⟩
      exact ⟨derived, split⟩
  exact reads_of_members scan scans members
    (fun ⟨derived, empty⟩ => filled derived empty) text start

/-- At every place of every text, tags and spreads are found exactly where the grammar of tags has a
member, and there is never a choice of where it ends.

Proof: the scanners pass exactly the texts of derivations, followed by anything. Since a scan has
one result, two members that start at one place leave the same text behind. -/
theorem tag_language_exact (depth : Nat) (text : Text) (start : Nat) :
    Reads (.tag depth) (IsTag depth) text start ∧
      Reads (.spread depth) (IsSpread depth) text start := by
  constructor
  · refine reads_of_exact (Tag.after? depth) (fun _ _ => rfl) (tag_exact depth) ?_ text start
    intro tag empty
    cases empty
  · refine reads_of_exact (Spread.after? depth) (fun _ _ => rfl) (spread_exact depth) ?_ text start
    intro spread empty
    cases empty

end TemplHighlight.TagLanguage
