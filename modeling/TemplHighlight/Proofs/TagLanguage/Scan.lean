import TemplHighlight.Proofs.TagLanguage.Leaves

/-!
# Scanning tags

The scanner of tags takes the longest names and as much space as there is, reads an attribute
without a value if the value cannot be read, and never goes back. Nevertheless it accepts exactly
the language of tags. A part of a tag can only be followed by a blank, a slash or the end of the
tag, none of which could belong to it; a slash in front of another slash or a star is always a
comment, since a slash that ends a tag is followed by `>`; and behind `=` a value must come.
-/

namespace TemplHighlight.TagLanguage

/-- What can follow a name, an attribute or a spread in a tag starts with one of these. -/
def EndsPart (follow : Text) : Prop :=
  ∀ c ∈ follow.head?, CharClass.isBlank c ∨ c = '/' ∨ c = '>'

/-- A run of a class without blanks, slashes and `>` ends where a part of a tag ends. -/
theorem EndsPart.stops {isMember : Char → Bool} {follow : Text} (ends : EndsPart follow)
    (noBlank : ∀ c, CharClass.isBlank c → isMember c = false) (noSlash : isMember '/' = false)
    (noEnd : isMember '>' = false) : Stops isMember follow := by
  intro c first
  rcases ends c first with blank | rfl | rfl
  · exact noBlank c blank
  · exact noSlash
  · exact noEnd

/-- A blank cannot stand in the name of a tag. -/
theorem nameChar_of_blank (c : Char) (blank : CharClass.isBlank c) : Tag.isNameChar c = false := by
  simpa using CharClass.blank_cases (fun c => !Tag.isNameChar c) (by decide +kernel)
    blank

/-- A blank cannot stand in the name of an attribute. -/
theorem attrNameChar_of_blank (c : Char) (blank : CharClass.isBlank c) :
    Tag.isAttrNameChar c = false := by
  simpa using CharClass.blank_cases (fun c => !Tag.isAttrNameChar c)
    (by decide +kernel) blank

/-- A blank cannot stand in a value without quotes. -/
theorem bareChar_of_blank (c : Char) (blank : CharClass.isBlank c) :
    Tag.isBareChar c = false := by
  simp [Tag.isBareChar, blank]

/-! ## Values and attributes -/

/-- The scan of a value passes all of it. Only a value without quotes could have gone on. -/
theorem afterValue_value {depth : Nat} (value : Value depth) {follow : Text}
    (ends : EndsPart follow) : Tag.afterValue? depth (value.text ++ follow) = some follow := by
  cases value with
  | quoted mark isQuote body escaped =>
    have scanned (notEscape : mark ≠ '\\') :
        Tag.afterQuote? mark (body ++ [mark] ++ follow) = some follow := by
      rw [List.append_assoc]
      exact afterQuote_escaped notEscape escaped follow
    rcases isQuote with rfl | rfl
    · exact scanned (by decide)
    · exact scanned (by decide)
  | bare run =>
    have stops : Stops Tag.isBareChar follow :=
      ends.stops bareChar_of_blank (by decide) (by decide)
    have scanned := afterRun_run run stops
    obtain ⟨c, later, split, first⟩ := run_head run
    rw [Value.text]
    rw [split, List.cons_append] at scanned ⊢
    rw [Tag.afterValue?]
    · exact scanned
    -- A bare value starts with neither of the quotes nor a brace.
    · exact ne_of_member first (by decide)
    · exact ne_of_member first (by decide)
    · exact ne_of_member first (by decide)
  | group inner braced =>
    change Braces.after? depth ('{' :: (inner ++ ['}'] ++ follow)) = some follow
    exact (group_exact depth _ follow).mpr ⟨inner, braced, by simp⟩

/-- What the scan of a value has passed is a value. -/
theorem value_of_afterValue {depth : Nat} {text rest : Text}
    (taken : Tag.afterValue? depth text = some rest) :
    ∃ value : Value depth, text = value.text ++ rest := by
  unfold Tag.afterValue? at taken
  split at taken
  · cases taken
  · obtain ⟨body, escaped, split⟩ := escaped_of_afterQuote taken
    exact ⟨.quoted '"' (.inl rfl) body escaped, by simp [Value.text, split]⟩
  · obtain ⟨body, escaped, split⟩ := escaped_of_afterQuote taken
    exact ⟨.quoted '\'' (.inr rfl) body escaped, by simp [Value.text, split]⟩
  · obtain ⟨inner, braced, split⟩ := (group_exact depth _ rest).mp taken
    exact ⟨.group inner braced, by simp [Value.text, split]⟩
  · obtain ⟨run, split, -⟩ := run_of_afterRun taken
    exact ⟨.bare run, split⟩

/-- The scanner of spreads finds exactly the spreads. The dots cannot belong to the space in front
of them, so all of the space can be passed first. -/
theorem spread_exact (depth : Nat) (text rest : Text) :
    Spread.after? depth text = some rest ↔
      ∃ spread : SpreadDerivation depth, text = spread.text ++ rest := by
  constructor
  · intro matched
    unfold Spread.after? at matched
    split at matched
    · rename_i inside
      split at matched
      · rename_i expr skipped
        obtain ⟨units, fits, spaceSplit, -, -⟩ := space_of_skip inside
        obtain ⟨inner, braced, exprSplit⟩ := (afterClose_exact (depth + 1) expr rest).mp matched
        rw [skipped, exprSplit] at fits spaceSplit
        have fitsInside : SpaceFits units ('.' :: '.' :: '.' :: (inner ++ ['}'])) :=
          (spaceFits_append (by simp) rest).mp (by simpa using fits)
        exact ⟨⟨units, inner, braced, fitsInside⟩, by simp [SpreadDerivation.text, spaceSplit]⟩
      · cases matched
    · cases matched
  · rintro ⟨⟨units, inner, braced, fits⟩, rfl⟩
    have skipped : Space.skip (spaceText units ++ '.' :: '.' :: '.' :: (inner ++ '}' :: rest)) =
        ('.' :: '.' :: '.' :: (inner ++ '}' :: rest), units.length) := by
      refine skip_space ?_ ((afterUnit_blank _ (by decide)).trans (if_neg (by decide)))
      simpa using (spaceFits_append (by simp) rest).mpr fits
    simp only [SpreadDerivation.text, List.cons_append, List.append_assoc, List.nil_append,
      Spread.after?, skipped]
    exact (afterClose_exact (depth + 1) _ rest).mpr ⟨inner, braced, rfl⟩

/-- Behind the name of an attribute, `=` is only passed together with a value. -/
theorem afterAssignment_ends {depth : Nat} {follow : Text} (ends : EndsPart follow) :
    Tag.afterAssignment depth follow = follow := by
  unfold Tag.afterAssignment
  split
  · exact absurd (ends '=' rfl) (by decide)
  · rfl

/-- The scan of an attribute passes all of it. -/
theorem afterAttribute_attribute {depth : Nat} (attr : Attribute depth) {follow : Text}
    (ends : EndsPart follow) : Tag.afterAttribute? depth (attr.text ++ follow) = some follow := by
  have stops : Stops Tag.isAttrNameChar follow :=
    ends.stops attrNameChar_of_blank (by decide) (by decide)
  cases attr with
  | named name value =>
    cases value with
    | none =>
      simp only [Attribute.text, Tag.afterAttribute?, afterRun_run name stops,
        afterAssignment_ends ends]
    | some value =>
      have stopsAtEquals : Stops Tag.isAttrNameChar ('=' :: (value.text ++ follow)) :=
        stops_cons (by decide) _
      simp only [Attribute.text, List.append_assoc, List.cons_append, Tag.afterAttribute?,
        afterRun_run name stopsAtEquals, Tag.afterAssignment, afterValue_value value ends,
        Option.getD_some]
  | spread inner =>
    have noName : Tag.afterRun? Tag.isAttrNameChar (inner.text ++ follow) = none :=
      afterRun_none (stops_cons (by decide) _)
    simp only [Attribute.text, Tag.afterAttribute?, noName]
    exact (spread_exact depth _ follow).mpr ⟨inner, rfl⟩

/-- What the scan of an attribute has passed is an attribute. Where a value could not be read, this
is the name alone. -/
theorem attribute_of_afterAttribute {depth : Nat} {text rest : Text}
    (taken : Tag.afterAttribute? depth text = some rest) :
    ∃ attr : Attribute depth, text = attr.text ++ rest := by
  unfold Tag.afterAttribute? at taken
  split at taken
  · rename_i behind named
    cases taken
    obtain ⟨name, split, -⟩ := run_of_afterRun named
    unfold Tag.afterAssignment
    split
    · rename_i later
      cases read : Tag.afterValue? depth later with
      | none => exact ⟨.named name none, split⟩
      | some last =>
        obtain ⟨value, valueSplit⟩ := value_of_afterValue read
        exact ⟨.named name (some value), by simp [Attribute.text, split, valueSplit]⟩
    · exact ⟨.named name none, split⟩
  · obtain ⟨inner, split⟩ := (spread_exact depth text rest).mp taken
    exact ⟨.spread inner, split⟩

/-! ## Whole tags -/

/-- An attribute starts neither with a blank nor with a slash, so it starts no unit of space. -/
theorem no_unit_at_attribute {depth : Nat} (attr : Attribute depth) (follow : Text) :
    Space.afterUnit? (attr.text ++ follow) = none := by
  have named (name : Run Tag.isAttrNameChar) (behind : Text) :
      Space.afterUnit? (name.chars ++ behind) = none := by
    obtain ⟨c, later, split, first⟩ := run_head name
    have notSlash : c ≠ '/' := ne_of_member first (by decide)
    have notBlank : ¬ CharClass.isBlank c = true := by
      intro blank
      rw [attrNameChar_of_blank c blank] at first
      cases first
    rw [split]
    exact (afterUnit_blank _ notSlash).trans (if_neg notBlank)
  cases attr with
  | named name value =>
    cases value with
    | none => exact named name follow
    | some value =>
      simp only [Attribute.text, List.append_assoc]
      exact named name _
  | spread inner => exact (afterUnit_blank _ (by decide)).trans (if_neg (by decide))

/-- An attribute has a text. -/
theorem attribute_text_filled {depth : Nat} (attr : Attribute depth) : attr.text ≠ [] := by
  cases attr with
  | named name value =>
    cases value with
    | none => exact name.filled
    | some value => simp [Attribute.text]
  | spread inner => simp [Attribute.text, SpreadDerivation.text]

/-- The end of a tag starts no unit of space: its slash is followed by neither slash nor star. -/
theorem no_unit_at_end (slash : Bool) (rest : Text) :
    Space.afterUnit? (endMark slash ++ rest) = none := by
  cases slash with
  | false => exact (afterUnit_blank rest (by decide)).trans (if_neg (by decide))
  | true => simp [endMark, Space.afterUnit?, show CharClass.isBlank '/' = false by decide]

/-- The end of a tag starts no attribute. -/
theorem no_attribute_at_end (depth : Nat) (slash : Bool) (rest : Text) :
    Tag.afterAttribute? depth (endMark slash ++ rest) = none := by
  have noName : Tag.afterRun? Tag.isAttrNameChar (endMark slash ++ rest) = none := by
    refine afterRun_none ?_
    cases slash with
    | false => exact stops_cons (by decide) rest
    | true => exact stops_cons (by decide) ('>' :: rest)
  simp only [Tag.afterAttribute?, noName]
  cases slash <;> rfl

/-- The end of a tag has a character. -/
theorem endMark_filled (slash : Bool) : endMark slash ≠ [] := by
  cases slash <;> simp [endMark]

/-- The end of a tag ends the part in front of it. -/
theorem endMark_ends (slash : Bool) (rest : Text) : EndsPart (endMark slash ++ rest) := by
  cases slash <;> simp [EndsPart, endMark]

/-- A unit of space ends the part in front of it. -/
theorem unit_ends (unit : SpaceUnit) (follow : Text) : EndsPart (unit.text ++ follow) := by
  obtain ⟨c, later, split, starts⟩ := unit_head unit
  rw [split]
  rintro d ⟨⟩
  rcases starts with blank | slash
  · exact .inl blank
  · exact .inr (.inl slash)

/-- Space ends the part in front of it, and so does its absence where a part has ended. -/
theorem space_ends (units : List SpaceUnit) {follow : Text} (ends : EndsPart follow) :
    EndsPart (spaceText units ++ follow) := by
  cases units with
  | nil => exact ends
  | cons unit units =>
    rw [spaceText, List.append_assoc]
    exact unit_ends unit _

/-- Attributes with space in front of each end the part in front of them. -/
theorem attributes_end {depth : Nat} (attributes : List (SpacedAttribute depth)) {follow : Text}
    (ends : EndsPart follow) : EndsPart (attributesText attributes ++ follow) := by
  cases attributes with
  | nil => exact ends
  | cons spaced later =>
    obtain ⟨units, separated, attr, fits⟩ := spaced
    cases units with
    | nil => exact absurd rfl separated
    | cons unit units =>
      simp only [attributesText, spaceText, List.append_assoc]
      exact unit_ends unit _

/-- Before the end of a tag all the space is skipped. -/
theorem skip_before_end {space : List SpaceUnit} {slash : Bool}
    (fits : SpaceFits space (endMark slash)) (rest : Text) :
    Space.skip (spaceText space ++ (endMark slash ++ rest)) =
      (endMark slash ++ rest, space.length) :=
  skip_space ((spaceFits_append (endMark_filled slash) rest).mpr fits) (no_unit_at_end slash rest)

/-- Where only space and the end of a tag follow, no attribute is passed. -/
theorem afterAttributes_none {depth : Nat} {space : List SpaceUnit} {slash : Bool}
    (fits : SpaceFits space (endMark slash)) (rest : Text) :
    Tag.afterAttributes depth (spaceText space ++ (endMark slash ++ rest)) =
      spaceText space ++ (endMark slash ++ rest) := by
  have skipped := skip_before_end fits rest
  rw [Tag.afterAttributes]
  split
  · rfl
  · rename_i inner count counted
    rw [skipped] at counted
    obtain ⟨rfl, -⟩ := Prod.mk.inj counted
    split
    · rfl
    · rename_i taken
      rw [no_attribute_at_end] at taken
      cases taken

/-- All the attributes are passed, and what follows them is left. -/
theorem afterAttributes_attributes {depth : Nat} (attributes : List (SpacedAttribute depth))
    {space : List SpaceUnit} {slash : Bool} (fits : SpaceFits space (endMark slash))
    (rest : Text) :
    Tag.afterAttributes depth
        (attributesText attributes ++ (spaceText space ++ (endMark slash ++ rest))) =
      spaceText space ++ (endMark slash ++ rest) := by
  induction attributes with
  | nil => exact afterAttributes_none fits rest
  | cons spaced later inductionHypothesis =>
    obtain ⟨units, separated, attr, attrFits⟩ := spaced
    let behind := attributesText later ++ (spaceText space ++ (endMark slash ++ rest))
    have ends : EndsPart behind := attributes_end later (space_ends space (endMark_ends slash rest))
    have skipped : Space.skip (spaceText units ++ (attr.text ++ behind)) =
        (attr.text ++ behind, units.length) :=
      skip_space ((spaceFits_append (attribute_text_filled attr) behind).mpr attrFits)
        (no_unit_at_attribute attr behind)
    have counted : units.length ≠ 0 := by simpa using separated
    have shape : attributesText (⟨units, separated, attr, attrFits⟩ :: later) ++
        (spaceText space ++ (endMark slash ++ rest)) =
          spaceText units ++ (attr.text ++ behind) := by
      simp [attributesText, behind]
    rw [shape, Tag.afterAttributes]
    split
    · rename_i none
      rw [skipped] at none
      exact absurd (Prod.mk.inj none).2 counted
    · rename_i inner count found
      rw [skipped] at found
      obtain ⟨rfl, -⟩ := Prod.mk.inj found
      split
      · rename_i failed
        rw [afterAttribute_attribute attr ends] at failed
        cases failed
      · rename_i left taken
        rw [afterAttribute_attribute attr ends] at taken
        cases taken
        exact inductionHypothesis

/-- What the scan of attributes has passed are attributes, each with space before it. -/
theorem attributes_of_afterAttributes (depth : Nat) (text : Text) :
    ∃ attributes : List (SpacedAttribute depth),
      text = attributesText attributes ++ Tag.afterAttributes depth text := by
  fun_induction Tag.afterAttributes depth text with
  | case1 => exact ⟨[], rfl⟩
  | case2 => exact ⟨[], rfl⟩
  | case3 text inner count skipped rest taken inductionHypothesis =>
    obtain ⟨later, laterSplit⟩ := inductionHypothesis
    obtain ⟨attr, attrSplit⟩ := attribute_of_afterAttribute taken
    obtain ⟨units, fits, split, counted, -⟩ := space_of_skip text
    rw [skipped] at fits split counted
    have separated : units ≠ [] := by
      rintro rfl
      cases counted
    have attrFits : SpaceFits units attr.text := by
      rw [attrSplit] at fits
      exact (spaceFits_append (attribute_text_filled attr) rest).mp fits
    refine ⟨⟨units, separated, attr, attrFits⟩ :: later, ?_⟩
    simp only [attributesText, List.append_assoc, ← laterSplit, ← attrSplit]
    exact split

end TemplHighlight.TagLanguage
