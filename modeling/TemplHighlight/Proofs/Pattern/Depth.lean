import TemplHighlight.Grammar.Place
import TemplHighlight.Proofs.Outcome
import TemplHighlight.Proofs.Pattern.Whole
import TemplHighlight.Proofs.TagLanguage.Nesting

/-!
# Greater depths

A scanner that may go deeper finds at least what it found before, and at the same place. Of brace
groups this is clear, but a scan for a tag has choices that depend on the depth: where a value or a
spread cannot be read, the attribute or the tag goes on without it. No choice of this kind is left
in a tag that was passed, as a derivation of a tag is one for every greater depth, and every
derivation is found.
-/

namespace TemplHighlight

namespace Pattern

variable {pattern : Pattern} {text : Text} {place : Place}

/-- The pattern with a depth in place of its own. -/
def withDepth (depth : Nat) : Pattern → Pattern
  | braces _ => braces depth
  | spread _ => spread depth
  | tag _ => tag depth
  | lead c more inner => lead c more (inner.withDepth depth)
  | pattern => pattern

/-- Whether a pattern scans does not depend on its depth. -/
theorem scans_withDepth (depth : Nat) (pattern : Pattern) :
    (pattern.withDepth depth).scans = pattern.scans := by
  induction pattern with
  | lead c more inner inductionHypothesis => exact inductionHypothesis
  | _ => rfl

/-- A pattern that does not scan has no depth. -/
theorem withDepth_of_not_scans (depth : Nat) (blind : pattern.scans = false) :
    pattern.withDepth depth = pattern := by
  induction pattern with
  | regex | custom => rfl
  | lead c more inner inductionHypothesis => rw [withDepth, inductionHypothesis blind]
  | braces | spread | tag => cases blind

/-- At a place that is counted from the start a scanner matches as at a position. -/
theorem matchAt_fromStart (scans : pattern.scans = true) (fromStart : 0 ≤ place) :
    pattern.matchAt text place = (·.map .ofFound) <$> pattern.matchFrom text place.toNat := by
  cases pattern with
  | braces | spread | tag | lead => exact if_pos fromStart
  | regex | custom => cases scans

/-- At a place that is counted from the end it stops where its scan does. -/
theorem matchAt_fromEnd (scans : pattern.scans = true) (fromEnd : ¬ 0 ≤ place) :
    pattern.matchAt text place =
      (·.map fun stop => ⟨place, stop, none⟩) <$> pattern.stopAt? text place := by
  cases pattern with
  | braces | spread | tag | lead => exact if_neg fromEnd
  | regex | custom => cases scans

end Pattern

section

variable {least greatest : Nat} (deeper : least ≤ greatest)

include deeper

/-! ## Derivations -/

namespace TagLanguage

/-- What is nested up to a depth is nested up to every greater one. -/
theorem Braced.deepened {inner : Text} (braced : Braced least inner) : Braced greatest inner := by
  obtain ⟨nesting, bounded, same⟩ := braced_iff_nesting.mp braced
  exact braced_iff_nesting.mpr ⟨nesting, Nat.le_trans bounded deeper, same⟩

/-- A value can be derived at every greater depth. -/
theorem Value.deepened (value : Value least) :
    ∃ other : Value greatest, other.text = value.text := by
  cases value with
  | quoted mark isQuote body escaped => exact ⟨.quoted mark isQuote body escaped, rfl⟩
  | bare run => exact ⟨.bare run, rfl⟩
  | group inner braced => exact ⟨.group inner (braced.deepened deeper), rfl⟩

/-- So can a spread. -/
theorem SpreadDerivation.deepened (spread : SpreadDerivation least) :
    ∃ other : SpreadDerivation greatest, other.text = spread.text :=
  ⟨⟨spread.space, spread.expr, spread.braced.deepened (Nat.succ_le_succ deeper), spread.fits⟩, rfl⟩

/-- So can an attribute. -/
theorem Attribute.deepened (attr : Attribute least) :
    ∃ other : Attribute greatest, other.text = attr.text := by
  cases attr with
  | named name value =>
    cases value with
    | none => exact ⟨.named name none, rfl⟩
    | some value =>
      obtain ⟨other, same⟩ := value.deepened deeper
      exact ⟨.named name (some other), by rw [Attribute.text, Attribute.text, same]⟩
  | spread inner =>
    obtain ⟨other, same⟩ := inner.deepened deeper
    exact ⟨.spread other, same⟩

/-- So can attributes, one after the other. -/
theorem attributes_deepened (attributes : List (SpacedAttribute least)) :
    ∃ others : List (SpacedAttribute greatest),
      attributesText others = attributesText attributes := by
  induction attributes with
  | nil => exact ⟨[], rfl⟩
  | cons spaced later inductionHypothesis =>
    obtain ⟨others, sameLater⟩ := inductionHypothesis
    obtain ⟨space, separated, attr, fits⟩ := spaced
    obtain ⟨other, same⟩ := attr.deepened deeper
    exact ⟨⟨space, separated, other, same.symm ▸ fits⟩ :: others, by
      simp only [attributesText, same, sameLater]⟩

/-- So can what stands in a tag that has a name. -/
theorem NamedPart.deepened (part : NamedPart least) :
    ∃ other : NamedPart greatest, other.text = part.text := by
  obtain ⟨name, attributes, space, slash, fits⟩ := part
  obtain ⟨others, same⟩ := attributes_deepened deeper attributes
  exact ⟨⟨name, others, space, slash, fits⟩, by simp only [NamedPart.text, same]⟩

/-! ## Scans -/

/-- The brace that closes a group is found at a greater depth where it was found before. -/
theorem afterClose_deeper {text rest : Text}
    (closed : Braces.afterClose? least 0 text = some rest) :
    Braces.afterClose? greatest 0 text = some rest := by
  obtain ⟨inner, braced, split⟩ := (afterClose_exact least text rest).mp closed
  exact (afterClose_exact greatest text rest).mpr ⟨inner, braced.deepened deeper, split⟩

/-- The end of a tag is reached at a greater depth from wherever it was reached before. -/
theorem afterInner_deeper {text rest : Text} (passed : Tag.afterInner least text = '>' :: rest) :
    Tag.afterInner greatest text = '>' :: rest := by
  rcases named_of_afterInner passed with ⟨part, split⟩ | split
  · obtain ⟨other, same⟩ := part.deepened deeper
    rw [split, ← same]
    exact afterInner_named other rest
  · rw [split]
    rfl

/-- A brace group ends at a greater depth where it ended before. -/
theorem after_deeper {text rest : Text} (matched : Braces.after? least text = some rest) :
    Braces.after? greatest text = some rest := by
  obtain ⟨part, ⟨inner, bounded, same⟩, split⟩ := (after_group least text rest).mp matched
  exact (after_group greatest text rest).mpr
    ⟨part, ⟨inner, Nat.le_trans bounded deeper, same⟩, split⟩

/-- So does a spread. -/
theorem spread_deeper {text rest : Text} (matched : Spread.after? least text = some rest) :
    Spread.after? greatest text = some rest := by
  obtain ⟨spread, split⟩ := (spread_exact least text rest).mp matched
  obtain ⟨other, same⟩ := spread.deepened deeper
  exact (spread_exact greatest text rest).mpr ⟨other, by rw [split, same]⟩

/-- So does a tag. -/
theorem tag_deeper {text rest : Text} (matched : Tag.after? least text = some rest) :
    Tag.after? greatest text = some rest := by
  obtain ⟨⟨closing, named⟩, split⟩ := (tag_exact least text rest).mp matched
  have others : ∃ named' : Option (NamedPart greatest), innerText named' = innerText named := by
    cases named with
    | none => exact ⟨none, rfl⟩
    | some part =>
      obtain ⟨other, same⟩ := part.deepened deeper
      exact ⟨some other, same⟩
  obtain ⟨others, same⟩ := others
  exact (tag_exact greatest text rest).mpr
    ⟨⟨closing, others⟩, by rw [split, TagDerivation.text, TagDerivation.text, same]⟩

end TagLanguage

namespace Place

open TagLanguage Outcome

variable {text : Text} {place stop : Place}

/-- Where the closing brace of a group is, if it was found before. -/
theorem closed_deeper {inner : Text}
    (closed : (Braces.afterClose? least 0 inner).map (ofRest text) = some stop) :
    (Braces.afterClose? greatest 0 inner).map (ofRest text) = some stop := by
  obtain ⟨rest, found, same⟩ := Option.map_eq_some_iff.mp closed
  exact Option.map_eq_some_iff.mpr ⟨rest, afterClose_deeper deeper found, same⟩

/-- From any place on, a brace group ends at a greater depth where it ended before. -/
theorem afterBraces_deeper (matched : afterBraces? least text place = .ok (some stop)) :
    afterBraces? greatest text place = .ok (some stop) := by
  unfold afterBraces? at matched ⊢
  split at matched
  · obtain ⟨inner, read, closed⟩ := bind_eq_ok.mp matched
    refine bind_eq_ok.mpr ⟨inner, read, ?_⟩
    exact congrArg Except.ok (closed_deeper deeper (Except.ok.inj closed))
  · cases matched

/-- So does a spread. -/
theorem afterSpread_deeper (matched : afterSpread? least text place = .ok (some stop)) :
    afterSpread? greatest text place = .ok (some stop) := by
  unfold afterSpread? at matched ⊢
  split at matched
  · obtain ⟨⟨dots, count⟩, skipped, matched⟩ := bind_eq_ok.mp matched
    refine bind_eq_ok.mpr ⟨(dots, count), skipped, ?_⟩
    simp only at matched ⊢
    split at matched
    · obtain ⟨expr, read, closed⟩ := bind_eq_ok.mp matched
      refine bind_eq_ok.mpr ⟨expr, read, ?_⟩
      exact congrArg Except.ok (closed_deeper (Nat.succ_le_succ deeper) (Except.ok.inj closed))
    · cases matched
  · cases matched

/-- So does a tag. -/
theorem afterTag_deeper (matched : afterTag? least text place = .ok (some stop)) :
    afterTag? greatest text place = .ok (some stop) := by
  unfold afterTag? at matched ⊢
  split at matched
  · obtain ⟨_, checked, matched⟩ := bind_eq_ok.mp matched
    refine bind_eq_ok.mpr ⟨_, checked, ?_⟩
    split at matched
    · split at matched
      · rename_i passed
        rw [afterInner_deeper deeper passed]
        exact matched
      · cases matched
    · exact matched
  · cases matched

end Place

namespace Pattern

open TagLanguage Outcome

variable {pattern : Pattern} {text : Text}

/-- What follows a match at the start of a text still follows it at a greater depth. -/
theorem after?_deeper {rest : Text}
    (matched : (pattern.withDepth least).after? text = .ok (some rest)) :
    (pattern.withDepth greatest).after? text = .ok (some rest) := by
  induction pattern generalizing text with
  | braces depth => exact congrArg Except.ok (after_deeper deeper (Except.ok.inj matched))
  | spread depth => exact congrArg Except.ok (spread_deeper deeper (Except.ok.inj matched))
  | tag depth => exact congrArg Except.ok (tag_deeper deeper (Except.ok.inj matched))
  | lead c more inner inductionHypothesis =>
    rw [withDepth, after?] at matched ⊢
    split at matched
    · exact inductionHypothesis matched
    · cases matched
  | regex | custom => cases matched

/-- The same of a place that counts from the end of a text. -/
theorem stopAt?_deeper {place stop : Place}
    (matched : (pattern.withDepth least).stopAt? text place = .ok (some stop)) :
    (pattern.withDepth greatest).stopAt? text place = .ok (some stop) := by
  induction pattern generalizing place with
  | braces depth => exact Place.afterBraces_deeper deeper matched
  | spread depth => exact Place.afterSpread_deeper deeper matched
  | tag depth => exact Place.afterTag_deeper deeper matched
  | lead c more inner inductionHypothesis =>
    rw [withDepth, stopAt?] at matched ⊢
    split at matched
    · rename_i led
      rw [if_pos led]
      exact inductionHypothesis matched
    · cases matched
  | regex | custom => cases matched

/-- A match at a place that counts from the start is one at a greater depth. -/
theorem matchFrom_deeper (scans : pattern.scans = true) {pos : Nat} {found : Found}
    (matched : (pattern.withDepth least).matchFrom text pos = .ok (some found)) :
    (pattern.withDepth greatest).matchFrom text pos = .ok (some found) := by
  obtain ⟨rest?, asked⟩ := after?_total ((scans_withDepth least pattern).trans scans)
    (text.drop pos)
  rw [matchFrom_of_after? asked] at matched
  obtain ⟨rest, rfl, same⟩ := Option.map_eq_some_iff.mp (Except.ok.inj matched)
  rw [matchFrom_of_after? (after?_deeper deeper asked), Option.map_some, same]

/-- A match of a pattern is a match of the same pattern with a greater depth, at every place of
every text: it starts and ends where it did. -/
theorem match_kept_deeper {place : Place} {span : Span}
    (matched : (pattern.withDepth least).matchAt text place = .ok (some span)) :
    (pattern.withDepth greatest).matchAt text place = .ok (some span) := by
  cases scans : pattern.scans with
  | false =>
    rw [withDepth_of_not_scans _ scans] at matched ⊢
    exact matched
  | true =>
    have scansAt (depth : Nat) : (pattern.withDepth depth).scans = true :=
      (scans_withDepth depth pattern).trans scans
    by_cases fromStart : 0 ≤ place
    · rw [matchAt_fromStart (scansAt _) fromStart] at matched ⊢
      obtain ⟨found?, matchedFrom, same⟩ := map_eq_ok.mp matched
      obtain ⟨found, rfl, rfl⟩ := Option.map_eq_some_iff.mp same
      exact map_eq_ok.mpr ⟨some found, matchFrom_deeper deeper scans matchedFrom, rfl⟩
    · rw [matchAt_fromEnd (scansAt _) fromStart] at matched ⊢
      obtain ⟨stop?, stopped, same⟩ := map_eq_ok.mp matched
      obtain ⟨stop, rfl, rfl⟩ := Option.map_eq_some_iff.mp same
      exact map_eq_ok.mpr ⟨some stop, stopAt?_deeper deeper stopped, rfl⟩

end Pattern

end

namespace Pattern

open TagLanguage

/-- There is a tag with a group and a spread in which no group of a value holds another one. -/
theorem shallow_tag : ∃ tag : TagDerivation 0,
    tag.text = "<a b=\x7by\x7d \x7b...f(\x7bz\x7d)\x7d/>".toList :=
  ⟨{ closing := false
     named := some {
      name := .ofText ['a'] (by decide) (by decide)
      attributes := [
        { space := [.blank ' ' (by decide)]
          separated := List.cons_ne_nil _ _
          attr := .named (.ofText ['b'] (by decide) (by decide))
            (some (.group ['y'] (.char (by decide) (by decide) .done)))
          fits := ⟨trivial, trivial⟩ },
        { space := [.blank ' ' (by decide)]
          separated := List.cons_ne_nil _ _
          attr := .spread {
            space := []
            expr := ['f', '(', '{', 'z', '}', ')']
            braced := .char (by decide) (by decide) (.char (by decide) (by decide)
              (@Braced.group 0 ['z'] [')'] (.char (by decide) (by decide) .done)
                (.char (by decide) (by decide) .done)))
            fits := trivial }
          fits := ⟨trivial, trivial⟩ }]
      space := []
      slash := true
      fits := trivial } }, rfl⟩

/-- This tag is found at depth 2 as it is at depth 0. -/
theorem match_kept_deeper_tag :
    0 ≤ 2 ∧
      ((tag 1).withDepth 0).matchAt "<a b=\x7by\x7d \x7b...f(\x7bz\x7d)\x7d/>".toList 0 =
        .ok (some ⟨0, 22, none⟩) ∧
      ((tag 1).withDepth 2).matchAt "<a b=\x7by\x7d \x7b...f(\x7bz\x7d)\x7d/>".toList 0 =
        .ok (some ⟨0, 22, none⟩) := by
  obtain ⟨shallow, text⟩ := shallow_tag
  have passed : (tag 0).after? shallow.text = .ok (some []) :=
    congrArg Except.ok ((tag_exact 0 _ []).mpr ⟨shallow, (List.append_nil _).symm⟩)
  have whole := whole_of_after? passed
  rw [text] at whole
  have matched : ((tag 1).withDepth 0).matchAt
      "<a b=\x7by\x7d \x7b...f(\x7bz\x7d)\x7d/>".toList 0 = .ok (some ⟨0, 22, none⟩) := by
    rw [matchAt_fromStart rfl (Int.le_refl 0)]
    exact congrArg _ whole
  exact ⟨by decide, matched, match_kept_deeper (by decide) matched⟩

end Pattern

end TemplHighlight
