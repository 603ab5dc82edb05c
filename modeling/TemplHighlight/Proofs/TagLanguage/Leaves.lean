import TemplHighlight.Proofs.TagLanguage.Syntax
import TemplHighlight.Proofs.Text.Classes

/-!
# Scanning runs, quotes and space

For each small part of a tag there are two statements about its scanner. Given the text of a
derivation, with anything behind it that does not carry the part on, the scanner stops right behind
that text. And what a successful scan has passed is the text of some derivation. The condition on
what follows is where a scanner that takes as much as it can could differ from the grammar.
-/

namespace TemplHighlight.TagLanguage

/-! ## Runs of characters of a class -/

/-- A character that belongs to a class is another one than a character that does not. -/
theorem ne_of_member {isMember : Char → Bool} {c other : Char} (member : isMember c = true)
    (outside : isMember other = false) : c ≠ other := by
  rintro rfl
  rw [outside] at member
  cases member

/-- A run starts with a character of its class. -/
theorem run_head {isMember : Char → Bool} (run : Run isMember) :
    ∃ c later, run.chars = c :: later ∧ isMember c = true := by
  obtain ⟨chars, filled, members⟩ := run
  cases chars with
  | nil => exact absurd rfl filled
  | cons c later => exact ⟨c, later, rfl, members c List.mem_cons_self⟩

/-- A run cannot go on where a character of another class stands. -/
theorem stops_cons {isMember : Char → Bool} {c : Char} (other : isMember c = false)
    (later : Text) : Stops isMember (c :: later) := by
  rintro d ⟨⟩
  exact other

/-- Where something stands, what stands behind it does not decide whether a run can go on. -/
theorem stops_append {isMember : Char → Bool} {follow : Text} (filled : follow ≠ [])
    (rest : Text) : Stops isMember (follow ++ rest) ↔ Stops isMember follow := by
  cases follow with
  | nil => exact absurd rfl filled
  | cons c later => exact Iff.rfl

/-- All of a run is dropped, and nothing of what follows. -/
theorem dropWhile_run {isMember : Char → Bool} {run follow : Text}
    (members : ∀ c ∈ run, isMember c) (stops : Stops isMember follow) :
    (run ++ follow).dropWhile isMember = follow := by
  rw [List.dropWhile_append_of_pos members]
  cases follow with
  | nil => rfl
  | cons c later =>
    have other : ¬ isMember c = true := by simpa using stops c rfl
    exact List.dropWhile_cons_of_neg other

/-- Dropping characters of a class leaves a text with which no run of them goes on. -/
theorem stops_dropWhile (isMember : Char → Bool) (text : Text) :
    Stops isMember (text.dropWhile isMember) := by
  induction text with
  | nil => simp [Stops]
  | cons c later inductionHypothesis =>
    by_cases member : isMember c = true
    · rw [List.dropWhile_cons_of_pos member]
      exact inductionHypothesis
    · rw [List.dropWhile_cons_of_neg member]
      simpa [Stops] using member

/-- The scan of a run passes all of it. -/
theorem afterRun_run {isMember : Char → Bool} (run : Run isMember) {follow : Text}
    (stops : Stops isMember follow) :
    Tag.afterRun? isMember (run.chars ++ follow) = some follow := by
  obtain ⟨chars, filled, members⟩ := run
  cases chars with
  | nil => exact absurd rfl filled
  | cons c later =>
    have first : isMember c = true := members c List.mem_cons_self
    have behind : ∀ d ∈ later, isMember d := fun d within =>
      members d (List.mem_cons_of_mem c within)
    simp only [List.cons_append, Tag.afterRun?, first, if_true, dropWhile_run behind stops]

/-- What the scan of a run has passed is a run, and none goes on behind it. -/
theorem run_of_afterRun {isMember : Char → Bool} {text rest : Text}
    (taken : Tag.afterRun? isMember text = some rest) :
    ∃ run : Run isMember, text = run.chars ++ rest ∧ Stops isMember rest := by
  cases text with
  | nil => cases taken
  | cons c later =>
    by_cases first : isMember c = true
    · have same : later.dropWhile isMember = rest := by simpa [Tag.afterRun?, first] using taken
      have members : ∀ d ∈ c :: later.takeWhile isMember, isMember d := by
        intro d within
        rcases List.mem_cons.mp within with rfl | behind
        · exact first
        · exact List.all_eq_true.mp (List.all_takeWhile (l := later)) d behind
      refine ⟨⟨c :: later.takeWhile isMember, by simp, members⟩, ?_, same ▸ stops_dropWhile _ _⟩
      simp [← same, List.takeWhile_append_dropWhile]
    · simp [Tag.afterRun?, first] at taken

/-- There is no run where a character of another class stands. -/
theorem afterRun_none {isMember : Char → Bool} {text : Text} (stops : Stops isMember text) :
    Tag.afterRun? isMember text = none := by
  cases text with
  | nil => rfl
  | cons c later =>
    have other : isMember c = false := stops c rfl
    simp [Tag.afterRun?, other]

/-! ## Quoted text -/

/-- A text without the quote and without backslashes may stand between quotes. -/
theorem escaped_of_plain {mark : Char} {body : Text}
    (plain : ∀ c ∈ body, c ≠ mark ∧ c ≠ '\\') : Escaped mark body := by
  induction body with
  | nil => exact .done
  | cons c later inductionHypothesis =>
    obtain ⟨first, behind⟩ := List.forall_mem_cons.mp plain
    exact .char first.1 first.2 (inductionHypothesis behind)

/-- A quote is no backslash, so a quoted text is over at the first quote that is not escaped. -/
theorem afterQuote_escaped {mark : Char} (isQuote : mark ≠ '\\') {body : Text}
    (escaped : Escaped mark body) (rest : Text) :
    Tag.afterQuote? mark (body ++ mark :: rest) = some rest := by
  induction escaped with
  | done => simp [Tag.afterQuote?, isQuote]
  | @char c later inside plain behind inductionHypothesis =>
    rw [List.cons_append]
    simpa [Tag.afterQuote?, inside, plain] using inductionHypothesis
  | escape behind inductionHypothesis =>
    simpa [Tag.afterQuote?] using inductionHypothesis

/-- What a successful scan for a quote has passed is text that may stand between quotes. -/
theorem escaped_of_afterQuote {mark : Char} {text rest : Text}
    (ended : Tag.afterQuote? mark text = some rest) :
    ∃ body, Escaped mark body ∧ text = body ++ mark :: rest := by
  fun_induction Tag.afterQuote? mark text with
  | case1 => cases ended
  | case2 => cases ended
  | case3 c later inductionHypothesis =>
    obtain ⟨body, escaped, split⟩ := inductionHypothesis ended
    exact ⟨'\\' :: c :: body, .escape escaped, by simp [split]⟩
  | case4 later notLast notEscape =>
    cases ended
    exact ⟨[], .done, rfl⟩
  | case5 c later notLast notEscape inside inductionHypothesis =>
    obtain ⟨body, escaped, split⟩ := inductionHypothesis ended
    -- A backslash would have been followed by another character, or have ended the text.
    have plain : c ≠ '\\' := by
      rintro rfl
      cases later with
      | nil => exact notLast rfl rfl
      | cons d behind => exact notEscape d behind rfl rfl
    exact ⟨c :: body, .char inside plain escaped, by simp [split]⟩

/-! ## Space -/

/-- The scan for the end of a comment stops behind the first `*/`. That the body and the star
behind it hold no `*/` keeps it from stopping earlier. -/
theorem afterCommentEnd_body {body : Text} (endsFirst : ¬ ['*', '/'] <:+: body ++ ['*'])
    (rest : Text) : Space.afterCommentEnd? (body ++ '*' :: '/' :: rest) = some rest := by
  induction body with
  | nil => rfl
  | cons c later inductionHypothesis =>
    rw [List.cons_append, List.infix_cons_iff, not_or] at endsFirst
    have noEarlier : ∀ tail, c = '*' → later ++ '*' :: '/' :: rest = '/' :: tail → False := by
      rintro tail rfl split
      apply endsFirst.1
      cases later with
      | nil => simp at split
      | cons d behind => simpa using (List.cons.inj split).1.symm
    rw [List.cons_append, Space.afterCommentEnd?.eq_3 _ _ noEarlier]
    exact inductionHypothesis endsFirst.2

/-- What the scan for the end of a comment has passed ends with the first `*/`. -/
theorem body_of_afterCommentEnd {text rest : Text}
    (ended : Space.afterCommentEnd? text = some rest) :
    ∃ body, (¬ ['*', '/'] <:+: body ++ ['*']) ∧ text = body ++ '*' :: '/' :: rest := by
  fun_induction Space.afterCommentEnd? text with
  | case1 => cases ended
  | case2 rest =>
    cases ended
    exact ⟨[], by decide, rfl⟩
  | case3 c later noEarlier inductionHypothesis =>
    obtain ⟨body, endsFirst, split⟩ := inductionHypothesis ended
    refine ⟨c :: body, ?_, by simp [split]⟩
    rw [List.cons_append, List.infix_cons_iff, not_or]
    refine ⟨?_, endsFirst⟩
    intro begins
    obtain ⟨star, behind⟩ := List.cons_prefix_cons.mp begins
    cases body with
    | nil => simp at behind
    | cons d tail =>
      have slash : '/' = d := by simpa using behind
      exact noEarlier (tail ++ '*' :: '/' :: rest) star.symm (by rw [split, ← slash]; rfl)

/-- A unit of space starts with a blank or a slash. -/
theorem unit_head (unit : SpaceUnit) :
    ∃ c later, unit.text = c :: later ∧ (CharClass.isBlank c ∨ c = '/') := by
  cases unit with
  | blank c isBlank => exact ⟨c, [], rfl, .inl isBlank⟩
  | lineComment body inLine => exact ⟨'/', '/' :: body, rfl, .inr rfl⟩
  | blockComment body endsFirst => exact ⟨'/', '*' :: (body ++ ['*', '/']), rfl, .inr rfl⟩

/-- A blank is passed as a unit of its own. -/
theorem afterUnit_blank {c : Char} (later : Text) (notSlash : c ≠ '/') :
    Space.afterUnit? (c :: later) = if CharClass.isBlank c then some later else none := by
  simp [Space.afterUnit?, notSlash]

/-- The scan of a unit of space passes all of it. -/
theorem afterUnit_unit (unit : SpaceUnit) {follow : Text} (fits : unit.Fits follow) :
    Space.afterUnit? (unit.text ++ follow) = some follow := by
  cases unit with
  | blank c isBlank =>
    have notSlash : c ≠ '/' := ne_of_member isBlank (by decide)
    change Space.afterUnit? (c :: follow) = some follow
    rw [afterUnit_blank follow notSlash, if_pos isBlank]
  | lineComment body inLine =>
    change some ((body ++ follow).dropWhile isInLine) = some follow
    rw [dropWhile_run inLine fits]
  | blockComment body endsFirst =>
    change Space.afterCommentEnd? (body ++ ['*', '/'] ++ follow) = some follow
    rw [List.append_assoc]
    exact afterCommentEnd_body endsFirst follow

/-- What the scan of a unit has passed is a unit of space that can stand where it stands. -/
theorem unit_of_afterUnit {text rest : Text} (passed : Space.afterUnit? text = some rest) :
    ∃ unit : SpaceUnit, unit.Fits rest ∧ text = unit.text ++ rest := by
  unfold Space.afterUnit? at passed
  split at passed
  · cases passed
  · rename_i later
    have same : later.dropWhile isInLine = rest := Option.some.inj passed
    have inLine : ∀ c ∈ later.takeWhile isInLine, isInLine c :=
      List.all_eq_true.mp List.all_takeWhile
    refine ⟨.lineComment (later.takeWhile isInLine) inLine, same ▸ stops_dropWhile _ _, ?_⟩
    simp [SpaceUnit.text, ← same, List.takeWhile_append_dropWhile]
  · obtain ⟨body, endsFirst, split⟩ := body_of_afterCommentEnd passed
    exact ⟨.blockComment body endsFirst, trivial, by simp [SpaceUnit.text, split]⟩
  · rename_i c later _ _
    by_cases isBlank : CharClass.isBlank c = true
    · rw [if_pos isBlank] at passed
      cases passed
      exact ⟨.blank c isBlank, trivial, rfl⟩
    · rw [if_neg isBlank] at passed
      cases passed

/-- Where something follows a unit of space, what stands behind that does not matter to it. -/
theorem unit_fits_append (unit : SpaceUnit) {follow : Text} (filled : follow ≠ []) (rest : Text) :
    unit.Fits (follow ++ rest) ↔ unit.Fits follow := by
  cases unit with
  | lineComment body inLine => exact stops_append filled rest
  | blank => exact Iff.rfl
  | blockComment => exact Iff.rfl

/-- Where something follows space, what stands behind that does not matter to it. -/
theorem spaceFits_append {units : List SpaceUnit} {follow : Text} (filled : follow ≠ [])
    (rest : Text) : SpaceFits units (follow ++ rest) ↔ SpaceFits units follow := by
  induction units with
  | nil => exact Iff.rfl
  | cons unit units inductionHypothesis =>
    simp only [SpaceFits, ← List.append_assoc, inductionHypothesis]
    rw [unit_fits_append unit (by simp [filled])]

/-- All the units in front of a text that starts no further unit are passed, and counted. -/
theorem skip_space {units : List SpaceUnit} {follow : Text} (fits : SpaceFits units follow)
    (ends : Space.afterUnit? follow = none) :
    Space.skip (spaceText units ++ follow) = (follow, units.length) := by
  induction units with
  | nil =>
    change Space.skip follow = (follow, 0)
    unfold Space.skip
    split
    · rfl
    · rename_i rest passed
      rw [ends] at passed
      cases passed
  | cons unit units inductionHypothesis =>
    have first : Space.afterUnit? (unit.text ++ (spaceText units ++ follow)) =
        some (spaceText units ++ follow) := afterUnit_unit unit fits.1
    rw [spaceText, List.append_assoc, Space.skip]
    split
    · rename_i failed
      rw [first] at failed
      cases failed
    · rename_i rest passed
      rw [first] at passed
      cases passed
      rw [inductionHypothesis fits.2]
      rfl

/-- What is skipped are units of space, as many as are counted, and no unit follows them. -/
theorem space_of_skip (text : Text) :
    ∃ units, SpaceFits units (Space.skip text).1 ∧ text = spaceText units ++ (Space.skip text).1 ∧
      units.length = (Space.skip text).2 ∧ Space.afterUnit? (Space.skip text).1 = none := by
  fun_induction Space.skip text with
  | case1 text ends => exact ⟨[], trivial, rfl, rfl, ends⟩
  | case2 text rest passed behind count skipped inductionHypothesis =>
    rw [skipped] at inductionHypothesis
    obtain ⟨units, fits, split, counted, ends⟩ := inductionHypothesis
    obtain ⟨unit, unitFits, unitSplit⟩ := unit_of_afterUnit passed
    exact ⟨unit :: units, ⟨split ▸ unitFits, fits⟩, by simp [spaceText, unitSplit, split],
      by simp [counted], ends⟩

end TemplHighlight.TagLanguage
