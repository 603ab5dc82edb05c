import TemplHighlight.Proofs.Pattern.First
import TemplHighlight.Proofs.Templ.TagParts
import TemplHighlight.Proofs.Templ.TagToken

/-!
# How the rules in a tag read its parts

For each kind of part there is a rule, and the rules are tried in a fixed order. Each takes the
parts of its kind as a whole, whatever follows them in a tag. Most of the other parts hold no
character that a match could start with. Quoted values and spreads can hold anything, however, and
the rules for brace groups and spreads come first. That no match of these starts there is a
condition, and the only one.
-/

namespace TemplHighlight

namespace Regex

/-- One round over what stands between two quotes: over what a backslash takes along, or over another
character. -/
def escapeRound (plain : CharSet) : Regex := alt (seq (word "\\") (one .all)) (one plain)

section

variable {mark : Char} {plain : CharSet}
  (isPlain : ∀ c, plain.has false c = (c != '\\' && c != mark))
  {place : Cursor} {later : Text} (next : Continuation)

/-- Nothing is taken along without a backslash. -/
theorem run_escape_none {c : Char} (split : place.rest = c :: later) (other : c ≠ '\\') :
    (seq (word "\\") (one .all)).run false place next = none := by
  have isOne : word "\\" = one (.among ['\\']) := rfl
  rw [isOne, run]
  refine run_one_none ?_ _
  rw [split]
  rintro _ ⟨⟩
  simp [CharSet.has, other.symm]

include isPlain

/-- There is no round over the quote. -/
theorem run_escapeRound_mark (notEscape : mark ≠ '\\') (split : place.rest = mark :: later) :
    (escapeRound plain).run false place next = none := by
  rw [escapeRound, run, run_escape_none next split notEscape]
  refine run_one_none ?_ next
  rw [split]
  rintro _ ⟨⟩
  simp [isPlain]

/-- A round takes a backslash together with the character behind it. -/
theorem run_escapeRound_escape {c : Char} (split : place.rest = '\\' :: c :: later) :
    (escapeRound plain).run false place next =
      next ⟨some c, later, place.pos + 2, place.captured⟩ := by
  have noPlain : (one plain).run false place next = none := by
    refine run_one_none ?_ next
    rw [split]
    rintro _ ⟨⟩
    simp [isPlain]
  have both : (seq (word "\\") (one .all)).run false place next =
      next ⟨some c, later, place.pos + 2, place.captured⟩ := by
    simp [run, word, literal, split, CharSet.has]
  rw [escapeRound, run, both, noPlain]
  cases next ⟨some c, later, place.pos + 2, place.captured⟩ <;> rfl

/-- A round takes another character by itself. -/
theorem run_escapeRound_char {c : Char} (inside : c ≠ mark) (other : c ≠ '\\')
    (split : place.rest = c :: later) :
    (escapeRound plain).run false place next =
      next ⟨some c, later, place.pos + 1, place.captured⟩ := by
  have member : plain.has false c = true := by simp [isPlain, inside, other]
  rw [escapeRound, run, run_escape_none next split other]
  exact run_one_cons split member next

/-- As many characters as may stand in front of a quote are taken. -/
theorem repeatMost_escaped (notEscape : mark ≠ '\\') {body follow : Text}
    (escaped : TagLanguage.Escaped mark body) {fuel : Text} {stop : Nat}
    (split : place.rest = body ++ mark :: follow) (enough : body.length ≤ fuel.length)
    (goesOn : ∀ before, ∃ after,
      next ⟨before, mark :: follow, place.pos + body.length, place.captured⟩ = some after ∧
        after.pos = stop) :
    ∃ after, repeatMost ((escapeRound plain).run false) fuel place next = some after ∧
      after.pos = stop := by
  induction escaped generalizing fuel place with
  | done =>
    obtain ⟨after, ended, stops⟩ := goesOn place.before
    refine ⟨after, ?_, stops⟩
    rw [repeatMost_stops fun next => run_escapeRound_mark isPlain next notEscape split]
    cases place
    cases split
    exact ended
  | @char c later inside other behind inductionHypothesis =>
    cases fuel with
    | nil => cases enough
    | cons d fuel =>
      have counted : place.pos + 1 + later.length = place.pos + (c :: later).length := by
        simp only [List.length_cons]
        omega
      have behindRound : ∃ after, repeatMost ((escapeRound plain).run false) fuel
          ⟨some c, later ++ mark :: follow, place.pos + 1, place.captured⟩ next = some after ∧
            after.pos = stop :=
        inductionHypothesis rfl (Nat.le_of_succ_le_succ enough) (counted ▸ goesOn)
      obtain ⟨after, rest, stops⟩ := behindRound
      have goes next := run_escapeRound_char isPlain next inside other split
      exact ⟨after, repeatMost_goes goes (Nat.lt_succ_self _) rest d, stops⟩
  | @escape c later behind inductionHypothesis =>
    cases fuel with
    | nil => cases enough
    | cons d fuel =>
      have counted : place.pos + 2 + later.length = place.pos + ('\\' :: c :: later).length := by
        simp only [List.length_cons]
        omega
      have enoughLater : later.length ≤ fuel.length := by
        simp only [List.length_cons] at enough
        omega
      have behindRound : ∃ after, repeatMost ((escapeRound plain).run false) fuel
          ⟨some c, later ++ mark :: follow, place.pos + 2, place.captured⟩ next = some after ∧
            after.pos = stop :=
        inductionHypothesis rfl enoughLater (counted ▸ goesOn)
      obtain ⟨after, rest, stops⟩ := behindRound
      have goes next := run_escapeRound_escape isPlain next split
      have moved : place.pos < place.pos + 2 := by omega
      exact ⟨after, repeatMost_goes goes moved rest d, stops⟩

end

end Regex

namespace Templ

open Grammar Split TagLanguage

/-! ## What each rule takes -/

/-- The finder of brace groups that are values takes each with its `=`. -/
theorem script_takes {depth : Nat} {inner : Text} (braced : Braced depth inner) (follow : Text) :
    (scriptRule depth).pattern.Takes ('=' :: '{' :: (inner ++ ['}'])) follow := by
  have after : Braces.after? depth ('{' :: (inner ++ '}' :: follow)) = some follow :=
    (group_exact depth _ follow).mpr ⟨inner, braced, rfl⟩
  refine ⟨⟨'=', rfl, rfl⟩, ?_⟩
  show Except.ok (Braces.after? depth ('{' :: (inner ++ ['}'] ++ follow))) = _
  rw [List.append_assoc]
  exact congrArg Except.ok after

/-- It scans from `=` to `=`. -/
theorem script_scanner (depth : Nat) : (scriptRule depth).pattern.Scanner '=' :=
  Pattern.scanner_of_scans rfl rfl

/-- The finder of spreads takes each as a whole. -/
theorem spread_takes {depth : Nat} (spread : SpreadDerivation depth) (follow : Text) :
    (spreadRule depth).pattern.Takes spread.text follow :=
  ⟨⟨'{', rfl, rfl⟩, congrArg Except.ok ((spread_exact depth _ follow).mpr ⟨spread, rfl⟩)⟩

/-- It scans from `{` to `{`. -/
theorem spread_scanner (depth : Nat) : (spreadRule depth).pattern.Scanner '{' :=
  Pattern.scanner_of_scans rfl rfl

/-- What may stand between two quotes besides escapes, as the rule for values has it. -/
def plainSet (written : String) : CharSet := .outside (.among ("\\" ++ written).toList)

/-- Text between quotes is looked for from one quote to the next. -/
theorem escapedBetween_parts (written : String) :
    escapedBetween written = .seq (.one (.among written.toList))
      (.seq (.most (Regex.escapeRound (plainSet written))) (.one (.among written.toList))) :=
  rfl

/-- Text between two quotes is taken together with the quotes. -/
theorem run_escapedBetween {mark : Char} {written : String} (isMark : written.toList = [mark])
    (notEscape : mark ≠ '\\') {body follow : Text} (escaped : Escaped mark body) {place : Cursor}
    (front : place.rest = mark :: (body ++ mark :: follow)) :
    ∃ after, (escapedBetween written).run false place some = some after ∧
      after.pos = place.pos + (body.length + 2) := by
  have isQuote : (CharSet.among written.toList).has false mark = true := by
    simp [isMark, CharSet.has]
  have isPlain (c : Char) : (plainSet written).has false c = (c != '\\' && c != mark) := by
    simp [plainSet, isMark, CharSet.has, bne, Bool.beq_comm]
  have between : ∃ after, Regex.repeatMost ((Regex.escapeRound (plainSet written)).run false)
      (body ++ mark :: follow)
      ⟨some mark, body ++ mark :: follow, place.pos + 1, place.captured⟩
      (fun middle => (Regex.one (.among written.toList)).run false middle some) = some after ∧
        after.pos = place.pos + (body.length + 2) := by
    refine Regex.repeatMost_escaped isPlain _ notEscape escaped rfl (by simp) ?_
    intro before
    refine ⟨_, Regex.run_one_cons rfl isQuote some, ?_⟩
    simp only
    omega
  rw [escapedBetween_parts, Regex.run, Regex.run_one_cons front isQuote]
  exact between

/-- Text between two quotes is not found where another character stands. -/
theorem run_escapedBetween_none {mark c : Char} {written : String} (isMark : written.toList = [mark])
    (other : mark ≠ c) {place : Cursor} {rest : Text} (front : place.rest = c :: rest)
    (next : Regex.Continuation) : (escapedBetween written).run false place next = none := by
  rw [escapedBetween_parts, Regex.run]
  refine Regex.run_one_none ?_ _
  rw [front]
  rintro _ ⟨⟩
  simp [isMark, CharSet.has, other]

/-- The characters of a value without quotes, as the rule for values has them. -/
def bareSet : CharSet := .inkBut "'\"/>"

/-- The forms of a value. -/
def valueForms : Regex :=
  .alt (escapedBetween "\"") (.alt (escapedBetween "'") (.seq (.one bareSet) (.most (.one bareSet))))

/-- A quoted text is taken as a value. -/
theorem run_valueForms_quoted {mark : Char} (isQuote : mark = '"' ∨ mark = '\'')
    {body follow : Text}
    (escaped : Escaped mark body) {place : Cursor}
    (front : place.rest = mark :: (body ++ mark :: follow)) :
    ∃ after, valueForms.run false place some = some after ∧
      after.pos = place.pos + (body.length + 2) := by
  have isDouble : "\"".toList = ['"'] := rfl
  have isSingle : "'".toList = ['\''] := rfl
  rcases isQuote with rfl | rfl
  · obtain ⟨after, taken, stop⟩ := run_escapedBetween isDouble (by decide) escaped front
    refine ⟨after, ?_, stop⟩
    rw [valueForms, Regex.run, taken]
  · obtain ⟨after, taken, stop⟩ := run_escapedBetween isSingle (by decide) escaped front
    have notDouble : '"' ≠ '\'' := by decide
    refine ⟨after, ?_, stop⟩
    rw [valueForms, Regex.run, run_escapedBetween_none isDouble notDouble front, Regex.run, taken]

/-- A character of a value without quotes is one as the rule has them. -/
theorem bareSet_member {c : Char} (member : Tag.isBareChar c = true) :
    bareSet.has false c = true := by
  simp only [Tag.isBareChar, Bool.not_eq_true', Bool.or_eq_false_iff, beq_eq_false_iff_ne] at member
  obtain ⟨⟨⟨⟨⟨⟨notBlank, -⟩, notSingle⟩, notDouble⟩, notSlash⟩, notEnd⟩, -⟩ := member
  simp [bareSet, CharSet.inkBut, CharSet.has, notBlank, notSingle.symm, notDouble.symm,
    notSlash.symm, notEnd.symm]

/-- What follows a part of a tag is no such character. -/
theorem bareSet_stops {follow : Text} (ends : EndsPart follow) :
    ∀ c ∈ follow.head?, bareSet.has false c = false := by
  intro c first
  rcases ends c first with blank | rfl | rfl
  · simp [bareSet, CharSet.inkBut, CharSet.has, blank]
  · decide
  · decide

/-- A text without quotes is taken as a value. -/
theorem run_valueForms_bare (run : Run Tag.isBareChar) {follow : Text} (ends : EndsPart follow)
    {place : Cursor} (front : place.rest = run.chars ++ follow) :
    ∃ after, valueForms.run false place some = some after ∧
      after.pos = place.pos + run.chars.length := by
  obtain ⟨c, later, split, first⟩ := run_head run
  rw [split] at front ⊢
  have isBare (d : Char) (member : d ∈ c :: later) : bareSet.has false d = true :=
    bareSet_member (run.members d (split ▸ member))
  have other {d : Char} (outside : Tag.isBareChar d = false) : d ≠ c :=
    (ne_of_member first outside).symm
  have rest : ∃ last, Regex.repeatMost ((Regex.one bareSet).run false) (later ++ follow)
      ⟨some c, later ++ follow, place.pos + 1, place.captured⟩ some =
        some ⟨last, follow, place.pos + 1 + later.length, place.captured⟩ :=
    Regex.repeatMost_one (fun d member => isBare d (List.mem_cons_of_mem c member))
      (bareSet_stops ends) rfl (by simp)
  obtain ⟨last, taken⟩ := rest
  rw [valueForms, Regex.run, run_escapedBetween_none rfl (other (by decide)) front, Regex.run,
    run_escapedBetween_none rfl (other (by decide)) front, Regex.run,
    Regex.run_one_cons front (isBare c List.mem_cons_self)]
  refine ⟨_, taken, ?_⟩
  simp only [List.length_cons]
  omega

/-- Behind `=`, in front of anything but a brace group, a value is looked for. -/
theorem matchAt_value {c : Char} (notGroup : c ≠ '{') (rest : Text) (before : Option Char)
    (pos : Nat) :
    (Regex.seq (.word "=") (.seq (.ahead false (.word "\x7b")) valueForms)).matchAt false
        ⟨before, '=' :: c :: rest, pos, none⟩ =
      valueForms.run false ⟨some '=', c :: rest, pos + 1, none⟩ some := by
  simp [Regex.matchAt, Regex.run, Regex.word, Regex.literal, CharSet.has, notGroup.symm]

/-- The finder of other values takes each with its `=`, in front of what can follow it in a tag. -/
theorem value_takes {depth : Nat} {value : Value depth} (noGroup : roleOfValue value = .value)
    {follow : Text} (ends : EndsPart follow) :
    templAttrValuePattern.Takes ('=' :: value.text) follow := by
  intro before pos
  show ∃ after, (Regex.seq (.word "=") (.seq (.ahead false (.word "\x7b")) valueForms)).matchAt false
    ⟨before, '=' :: (value.text ++ follow), pos, none⟩ = some after ∧ _
  cases value with
  | group => cases noGroup
  | quoted mark isQuote body escaped =>
    have split : (Value.quoted mark isQuote body escaped : Value depth).text ++ follow =
        mark :: (body ++ mark :: follow) := by
      simp [Value.text]
    have notGroup : mark ≠ '{' := by
      rcases isQuote with rfl | rfl <;> decide
    rw [split, matchAt_value notGroup]
    have formed : ∃ after, valueForms.run false
        ⟨some '=', mark :: (body ++ mark :: follow), pos + 1, none⟩ some = some after ∧
          after.pos = pos + 1 + (body.length + 2) := run_valueForms_quoted isQuote escaped rfl
    obtain ⟨after, taken, stop⟩ := formed
    refine ⟨after, taken, ?_⟩
    simp only [stop, Value.text, List.length_cons, List.length_append, List.length_nil]
    omega
  | bare run =>
    obtain ⟨c, later, split, first⟩ := run_head run
    have text : (Value.bare run : Value depth).text = run.chars := rfl
    rw [text, split, List.cons_append, matchAt_value (ne_of_member first (by decide))]
    have formed : ∃ after, valueForms.run false
        ⟨some '=', c :: (later ++ follow), pos + 1, none⟩ some = some after ∧
          after.pos = pos + 1 + run.chars.length :=
      run_valueForms_bare run ends (congrArg (· ++ follow) split).symm
    obtain ⟨after, taken, stop⟩ := formed
    refine ⟨after, taken, ?_⟩
    rw [stop, split]
    simp only [List.length_cons]
    omega

/-- It starts at `=` only. -/
theorem value_misses (c : Char) (rest : Text) (other : (c == '=') = false) :
    templAttrValuePattern.Misses (c :: rest) := by
  have notLead : '=' ≠ c := by
    rintro rfl
    exact absurd other (by decide)
  intro before pos
  show (Regex.seq (.word "=") (.seq (.ahead false (.word "\x7b")) valueForms)).matchAt false
    ⟨before, c :: rest, pos, none⟩ = none
  simp [Regex.matchAt, Regex.run, Regex.word, Regex.literal, CharSet.has, notLead]

/-- The finder of the ends of tags takes each as a whole. -/
theorem ending_takes (slash : Bool) (follow : Text) :
    Markup.closingMark.Takes (endMark slash) follow := by
  intro before pos
  show ∃ after, (Regex.seq (.optional (.word "/")) (.word ">")).matchAt false
    ⟨before, endMark slash ++ follow, pos, none⟩ = some after ∧ _
  cases slash <;>
    simp [endMark, Regex.matchAt, Regex.run, Regex.optional, Regex.word, Regex.literal,
      CharSet.has]

/-- It starts at the characters of an end only. -/
theorem ending_misses (c : Char) (rest : Text) (other : (c == '/' || c == '>') = false) :
    Markup.closingMark.Misses (c :: rest) := by
  simp only [Bool.or_eq_false_iff, beq_eq_false_iff_ne] at other
  intro before pos
  show (Regex.seq (.optional (.word "/")) (.word ">")).matchAt false
    ⟨before, c :: rest, pos, none⟩ = none
  simp [Regex.matchAt, Regex.run, Regex.optional, Regex.word, Regex.literal, CharSet.has,
    other.1.symm, other.2.symm]

/-- The finder of the names of attributes takes each as a whole, in front of what can follow it
outside tokens. -/
theorem name_takes (run : Run Tag.isAttrNameChar) {follow : Text} (ends : EndsPart follow) :
    Markup.attrNamePattern.Takes run.chars follow := by
  obtain ⟨c, later, split, first⟩ := run_head run
  have isInk (d : Char) (member : d ∈ c :: later) : (CharSet.inkBut ">/").has false d = true :=
    ink_of_member attrNameChar_of_blank (by decide) (by decide) (run.members d (split ▸ member))
  intro before pos
  have rest : ∃ last, Regex.repeatMost ((Regex.one (.inkBut ">/")).run false) (later ++ follow)
      ⟨some c, later ++ follow, pos + 1, none⟩ some =
        some ⟨last, follow, pos + 1 + later.length, none⟩ :=
    Regex.repeatMost_one (fun d member => isInk d (List.mem_cons_of_mem c member))
      (ink_stops ends) rfl (by simp)
  obtain ⟨last, taken⟩ := rest
  show ∃ after, (Regex.seq (.one (.inkBut ">/")) (.most (.one (.inkBut ">/")))).matchAt false
    ⟨before, run.chars ++ follow, pos, none⟩ = some after ∧ _
  rw [split, List.cons_append, Regex.matchAt, Regex.run,
    Regex.run_one_cons rfl (isInk c List.mem_cons_self)]
  refine ⟨_, taken, ?_⟩
  simp only [List.length_cons]
  omega

/-- It does not start at blanks. -/
theorem name_misses (c : Char) (rest : Text) (blank : (!CharClass.isBlank c) = false) :
    Markup.attrNamePattern.Misses (c :: rest) := by
  have isBlank : CharClass.isBlank c = true := by simpa using blank
  intro before pos
  have noInk : ∀ d ∈ (c :: rest).head?, (CharSet.inkBut ">/").has false d = false := by
    rintro _ ⟨⟩
    simp [CharSet.inkBut, CharSet.has, isBlank]
  show (Regex.seq (.one (.inkBut ">/")) (.most (.one (.inkBut ">/")))).matchAt false
    ⟨before, c :: rest, pos, none⟩ = none
  rw [Regex.matchAt, Regex.run]
  exact Regex.run_one_none noInk _

/-! ## How the parts are read -/

variable {depth : Nat}

/-- A character of a class is none that is not. -/
theorem beq_of_member {isMember : Char → Bool} {c other : Char} (member : isMember c = true)
    (outside : isMember other = false) : (c == other) = false :=
  beq_eq_false_iff_ne.mpr (ne_of_member member outside)

/-- Gaps and the names of attributes hold none of the marks of a tag. -/
theorem gap_or_name_plain {part : TagPart} (formed : Formed depth part)
    (plain : part.role = .gap ∨ part.role = .name) :
    ∀ c ∈ part.text, (c == '=') = false ∧ (c == '{') = false ∧ (c == '/' || c == '>') = false := by
  have apart {isMember : Char → Bool} {c : Char} (member : isMember c = true)
      (noLead : isMember '=' = false) (noOpen : isMember '{' = false)
      (noSlash : isMember '/' = false) (noEnd : isMember '>' = false) :
      (c == '=') = false ∧ (c == '{') = false ∧ (c == '/' || c == '>') = false :=
    ⟨beq_of_member member noLead, beq_of_member member noOpen,
      Bool.or_eq_false_iff.mpr ⟨beq_of_member member noSlash, beq_of_member member noEnd⟩⟩
  intro c member
  rcases plain with role | role
  · rw [Formed, role] at formed
    exact apart (formed.2 c member) (by decide) (by decide) (by decide) (by decide)
  · rw [Formed, role] at formed
    obtain ⟨run, text⟩ := formed
    exact apart (run.members c (text ▸ member)) (by decide) (by decide) (by decide) (by decide)

/-- Gaps, the names of attributes and the end of a tag hold no `=` and no opening brace. -/
theorem plain_formed {part : TagPart} (formed : Formed depth part)
    (plain : part.role = .gap ∨ part.role = .name ∨ part.role = .ending) :
    ∀ c ∈ part.text, (c == '=') = false ∧ (c == '{') = false := by
  intro c member
  rcases plain with role | role | role
  · obtain ⟨noLead, noOpen, -⟩ := gap_or_name_plain formed (.inl role) c member
    exact ⟨noLead, noOpen⟩
  · obtain ⟨noLead, noOpen, -⟩ := gap_or_name_plain formed (.inr role) c member
    exact ⟨noLead, noOpen⟩
  · rw [Formed, role] at formed
    obtain ⟨slash, text⟩ := formed
    have marks : ∀ d ∈ endMark slash, (d == '=') = false ∧ (d == '{') = false := by
      cases slash <;> simp [endMark]
    exact marks c (text ▸ member)

/-- What stands raw behind a part starts where a part of a tag ends, if only tokens, gaps and the
end of the tag can follow. -/
theorem pending_ends {part : TagPart} {later : List TagPart} (fits : Fits depth part later)
    {done : List TagRole} (bounds : ∀ role, canPrecede part.role role = true →
      role ∈ done ∨ (role = .gap ∨ role = .ending) ∧ role ∉ done) :
    EndsPart (pendingText done later) := by
  cases later with
  | nil => exact nofun
  | cons next later =>
    obtain ⟨formed, follows⟩ := fits.next next rfl
    rcases bounds next.role follows with isDone | ⟨isBound, pending⟩
    · have nothing : pendingText done (next :: later) = [] := pendingText_append isDone [] later
      rw [nothing]
      exact nofun
    · have split : pendingText done (next :: later) = next.text ++ pendingText done later := by
        simp [pendingText, textOf, pending]
      rw [split]
      rcases isBound with role | role
      · rw [Formed, role] at formed
        obtain ⟨filled, blank⟩ := formed
        obtain ⟨c, rest, text⟩ := List.exists_cons_of_ne_nil filled
        rw [text] at blank ⊢
        rintro _ ⟨⟩
        exact .inl (blank c List.mem_cons_self)
      · rw [Formed, role] at formed
        obtain ⟨slash, text⟩ := formed
        rw [text]
        exact endMark_ends slash _

/-- No brace group seems to start inside a quoted value or a spread. It may seem to reach through
everything that follows. -/
def ScriptsQuiet (depth : Nat) : List TagPart → Prop :=
  Each fun part later => part.role = .value ∨ part.role = .spread →
    (scriptRule depth).pattern.Quiet part.text (pendingText [] later)

/-- No spread seems to start inside a quoted value. It may seem to reach through what follows up to
the next brace group. -/
def SpreadsQuiet (depth : Nat) : List TagPart → Prop :=
  Each fun part later => part.role = .value →
    (spreadRule depth).pattern.Quiet part.text (pendingText [.script] later)

/-- The first two rules in a tag find nothing but what they are for. -/
structure Undisturbed (depth : Nat) (parts : List TagPart) : Prop where
  scripts : ScriptsQuiet depth parts
  spreads : SpreadsQuiet depth parts

variable {parts : List TagPart}

/-- The rule for brace groups reads the parts of a tag. -/
theorem script_reads (arranged : Each (Fits depth) parts) (quiet : ScriptsQuiet depth parts) :
    Each (Reads (scriptRule depth).pattern [] .script) parts := by
  refine (arranged.and quiet).mono ?_
  rintro part later ⟨⟨formed, -⟩, quiet⟩
  refine ⟨fun mine => ?_, fun other _ => ?_⟩
  · rw [Formed, mine] at formed
    obtain ⟨inner, braced, text⟩ := formed
    rw [text]
    exact ⟨List.cons_ne_nil _ _, script_takes braced _⟩
  · by_cases plain : part.role = .gap ∨ part.role = .name ∨ part.role = .ending
    · exact Pattern.quiet_of_first (script_scanner depth).starts fun c member =>
        (plain_formed formed plain c member).1
    · refine quiet ?_
      cases role : part.role <;> simp_all

/-- The rule for spreads reads the parts of a tag that are left to it. -/
theorem spread_reads (arranged : Each (Fits depth) parts) (quiet : SpreadsQuiet depth parts) :
    Each (Reads (spreadRule depth).pattern [.script] .spread) parts := by
  refine (arranged.and quiet).mono ?_
  rintro part later ⟨⟨formed, -⟩, quiet⟩
  refine ⟨fun mine => ?_, fun other pending => ?_⟩
  · rw [Formed, mine] at formed
    obtain ⟨inner, text⟩ := formed
    rw [text]
    exact ⟨List.cons_ne_nil _ _, spread_takes inner _⟩
  · by_cases plain : part.role = .gap ∨ part.role = .name ∨ part.role = .ending
    · exact Pattern.quiet_of_first (spread_scanner depth).starts fun c member =>
        (plain_formed formed plain c member).2
    · refine quiet ?_
      cases role : part.role <;> simp_all

/-- The rule for other values reads the parts of a tag that are left to it. -/
theorem value_reads (arranged : Each (Fits depth) parts) :
    Each (Reads templAttrValuePattern [.spread, .script] .value) parts := by
  refine arranged.mono ?_
  rintro part later fits
  have formed := fits.formed
  refine ⟨fun mine => ?_, fun other pending => ?_⟩
  · have ends : EndsPart (pendingText [.spread, .script] later) := by
      refine pending_ends fits fun role => ?_
      rw [mine]
      cases role <;> decide
    rw [Formed, mine] at formed
    obtain ⟨value, noGroup, text⟩ := formed
    rw [text]
    exact ⟨List.cons_ne_nil _ _, value_takes noGroup ends⟩
  · have plain : part.role = .gap ∨ part.role = .name ∨ part.role = .ending := by
      cases role : part.role <;> simp_all
    exact Pattern.quiet_of_first value_misses fun c member =>
      (plain_formed formed plain c member).1

/-- The rule for the end of a tag reads the parts that are left to it. -/
theorem ending_reads (arranged : Each (Fits depth) parts) :
    Each (Reads Markup.closingMark [.value, .spread, .script] .ending) parts := by
  refine arranged.mono ?_
  rintro part later ⟨formed, -⟩
  refine ⟨fun mine => ?_, fun other pending => ?_⟩
  · rw [Formed, mine] at formed
    obtain ⟨slash, text⟩ := formed
    rw [text]
    exact ⟨endMark_filled slash, ending_takes slash _⟩
  · have plain : part.role = .gap ∨ part.role = .name := by
      cases role : part.role <;> simp_all
    exact Pattern.quiet_of_first ending_misses fun c member =>
      (gap_or_name_plain formed plain c member).2.2

/-- The rule for the names of attributes reads the parts of a tag that are left to it. -/
theorem name_reads (arranged : Each (Fits depth) parts) :
    Each (Reads Markup.attrNamePattern [.ending, .value, .spread, .script] .name) parts := by
  refine arranged.mono ?_
  rintro part later fits
  have formed := fits.formed
  refine ⟨fun mine => ?_, fun other pending => ?_⟩
  · have ends : EndsPart (pendingText [.ending, .value, .spread, .script] later) := by
      refine pending_ends fits fun role => ?_
      rw [mine]
      cases role <;> decide
    rw [Formed, mine] at formed
    obtain ⟨run, text⟩ := formed
    rw [text]
    exact ⟨run.filled, name_takes run ends⟩
  · have isGap : part.role = .gap := by
      cases role : part.role <;> simp_all
    rw [Formed, isGap] at formed
    refine Pattern.quiet_of_first name_misses fun c member => ?_
    rw [formed.2 c member]
    rfl

end Templ

end TemplHighlight
