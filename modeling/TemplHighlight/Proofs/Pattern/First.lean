import TemplHighlight.Proofs.Pattern.Leftmost
import TemplHighlight.Proofs.Pattern.Whole

/-!
# The first match of a scanner

A scanner goes through a text from trigger to trigger, and goes on right behind a trigger at which
it has no match. No match is passed over in this way, since every match starts with the trigger: what
is found is the first match there is, as if the scanner had been asked at every place. It is found
also where it starts inside a candidate that was given up.
-/

namespace TemplHighlight.Pattern

/-! ## What a scanner needs -/

/-- A pattern that scans for matches that start with a trigger and have characters. -/
structure Scanner (pattern : Pattern) (trigger : Char) : Prop where
  triggered : pattern.trigger? = some trigger
  starts : ∀ c rest, (c == trigger) = false → pattern.Misses (c :: rest)
  shorter : ∀ text rest, pattern.after? text = .ok (some rest) → rest.length < text.length

variable {pattern : Pattern} {trigger : Char}

/-- What a scanner has passed has characters. -/
theorem length_of_after? (scans : pattern.scans = true) {text rest : Text}
    (matched : pattern.after? text = .ok (some rest)) : rest.length < text.length := by
  induction pattern generalizing text with
  | braces depth => exact Braces.length_of_after? (Except.ok.inj matched)
  | spread depth => exact Spread.length_of_after? (Except.ok.inj matched)
  | tag depth =>
    obtain ⟨tag, split⟩ := (TagLanguage.tag_exact depth text rest).mp (Except.ok.inj matched)
    have filled : 0 < tag.text.length := Nat.succ_pos _
    rw [split, List.length_append]
    omega
  | lead c more inner inductionHypothesis =>
    rw [after?] at matched
    split at matched
    · rename_i behind led
      have shorter := inductionHypothesis scans matched
      rw [Text.eq_append_of_after? led, List.length_append]
      omega
    · cases matched
  | regex | custom => cases scans

/-- No match starts with a character other than the trigger. -/
theorem misses_of_ne_trigger (scans : pattern.scans = true)
    (triggered : pattern.trigger? = some trigger) {c : Char} (other : c ≠ trigger) (rest : Text) :
    pattern.Misses (c :: rest) := by
  cases pattern with
  | braces depth =>
    cases triggered
    refine congrArg Except.ok ?_
    simp [Braces.after?, other]
  | spread depth =>
    cases triggered
    refine congrArg Except.ok ?_
    simp [Spread.after?, other]
  | tag depth =>
    cases triggered
    refine congrArg Except.ok ?_
    simp [Tag.after?, other]
  | lead _ more inner =>
    cases triggered
    have led : Text.after? (trigger :: more) (c :: rest) = none := if_neg other.symm
    show (lead trigger more inner).after? (c :: rest) = .ok none
    rw [after?, led]
  | regex | custom => cases scans

/-- All patterns that scan do so for matches that start with their trigger. -/
theorem scanner_of_scans (scans : pattern.scans = true)
    (triggered : pattern.trigger? = some trigger) : pattern.Scanner trigger where
  triggered := triggered
  starts _ rest other := misses_of_ne_trigger scans triggered (by simpa using other) rest
  shorter _ _ := length_of_after? scans

/-- A scanner has no match at the start of a text if it says that nothing follows one. -/
theorem Scanner.misses_iff (scanner : pattern.Scanner trigger) (text : Text) :
    pattern.Misses text ↔ pattern.after? text = .ok none := by
  have triggered := scanner.triggered
  cases pattern with
  | regex | custom => cases triggered
  | braces | spread | tag | lead => exact Iff.rfl

/-! ## From trigger to trigger -/

/-- A scanner goes through a text from trigger to trigger. -/
theorem Scanner.search_eq (scanner : pattern.Scanner trigger) (text : Text) :
    pattern.search text = pattern.scanFrom trigger 0 text :=
  searchFrom_of_trigger scanner.triggered text 0

/-- No match starts in what a scanner has passed, which is all of the text if nothing is found. What
is found is its match at the place behind. -/
theorem scanFrom_passed (scanner : pattern.Scanner trigger) {pos : Nat} {text : Text}
    {found? : Option Found} (scanned : pattern.scanFrom trigger pos text = .ok found?) :
    ∃ front back, text = front ++ back ∧ pattern.Quiet front back ∧ (found? = none → back = []) ∧
      ∀ found ∈ found?, ∃ behind, pattern.after? back = .ok (some behind) ∧
        found = ⟨pos + front.length, pos + front.length + (back.length - behind.length), none⟩ := by
  induction text generalizing pos with
  | nil =>
    cases scanned
    exact ⟨[], [], rfl, throughout_nil _ _, fun _ => rfl, nofun⟩
  | cons c later inductionHypothesis =>
    have goesOn (missed : pattern.Misses (c :: later))
        (scanned : pattern.scanFrom trigger (pos + 1) later = .ok found?) :
        ∃ front back, c :: later = front ++ back ∧ pattern.Quiet front back ∧
          (found? = none → back = []) ∧
          ∀ found ∈ found?, ∃ behind, pattern.after? back = .ok (some behind) ∧
            found =
              ⟨pos + front.length, pos + front.length + (back.length - behind.length), none⟩ := by
      obtain ⟨front, back, rfl, quiet, all, starts⟩ := inductionHypothesis scanned
      refine ⟨c :: front, back, rfl, ?_, all, ?_⟩
      · intro rest ends filled
        rcases List.suffix_cons_iff.mp ends with rfl | inFront
        · exact missed
        · exact quiet rest inFront filled
      · intro found isFound
        obtain ⟨behind, matched, same⟩ := starts found isFound
        have counted : pos + 1 + front.length = pos + (c :: front).length := by
          rw [List.length_cons]
          omega
        rw [counted] at same
        exact ⟨behind, matched, same⟩
    rw [scanFrom_cons] at scanned
    split at scanned
    · split at scanned
      · rename_i behind matched
        cases scanned
        refine ⟨[], c :: later, rfl, throughout_nil _ _, nofun, ?_⟩
        rintro _ ⟨⟩
        exact ⟨behind, matched, rfl⟩
      · exact goesOn ((scanner.misses_iff _).mpr ‹_›) scanned
      · cases scanned
    · exact goesOn (scanner.starts c later (beq_eq_false_iff_ne.mpr ‹_›)) scanned

/-- No match starts at a place that the scanner has passed. -/
theorem misses_of_quiet {text front back : Text} {pos place : Nat}
    (quiet : pattern.Quiet front back) (split : text.drop pos = front ++ back)
    (behind : pos ≤ place) (passed : place < pos + front.length) :
    pattern.Misses (text.drop place) := by
  have inFront : place - pos < front.length := by omega
  have here : text.drop place = front.drop (place - pos) ++ back := by
    rw [← List.drop_append_of_le_length (Nat.le_of_lt inFront), ← split, List.drop_drop,
      Nat.add_sub_cancel' behind]
  rw [here]
  exact quiet _ (List.drop_suffix _ front) fun none => by
    have covered := List.drop_eq_nil_iff.mp none
    omega

/-! ## The first match -/

/-- There is no match at a place where the scanner says that nothing follows one. -/
theorem matchFrom_eq_none (scans : pattern.scans = true) {text : Text} {place : Nat} :
    pattern.matchFrom text place = .ok none ↔ pattern.after? (text.drop place) = .ok none := by
  obtain ⟨rest?, asked⟩ := after?_total scans (text.drop place)
  rw [matchFrom_of_after? asked, asked]
  cases rest? <;> simp

/-- The first match at a place or behind it: none starts at the places between. -/
structure IsFirst (pattern : Pattern) (text : Text) (pos : Nat) (found : Found) : Prop where
  behind : pos ≤ found.start
  matched : pattern.matchFrom text found.start = .ok (some found)
  earlier : ∀ place, pos ≤ place → place < found.start →
    pattern.matchFrom text place = .ok none

/-- There is only one first match. -/
theorem IsFirst.unique {text : Text} {pos : Nat} {found other : Found}
    (first : pattern.IsFirst text pos found) (second : pattern.IsFirst text pos other) :
    found = other := by
  have notBefore {one two : Found} (first : pattern.IsFirst text pos one)
      (second : pattern.IsFirst text pos two) : ¬ one.start < two.start := by
    intro before
    have missed := second.earlier one.start first.behind before
    rw [first.matched] at missed
    cases missed
  have sameStart : found.start = other.start :=
    Nat.le_antisymm (Nat.le_of_not_lt (notBefore second first))
      (Nat.le_of_not_lt (notBefore first second))
  have matched := first.matched
  rw [sameStart, second.matched] at matched
  cases matched
  rfl

/-- What a search finds is the first match, and it stops inside the text. -/
theorem first_of_searchFrom (scans : pattern.scans = true) {text : Text} {pos : Nat} {found : Found}
    (searched : pattern.searchFrom text pos = .ok (some found)) :
    pattern.IsFirst text pos found ∧ found.start < found.stop ∧ found.stop ≤ text.length := by
  obtain ⟨trigger, triggered⟩ := trigger_of_scans scans
  have scanner := scanner_of_scans scans triggered
  rw [searchFrom_of_trigger triggered] at searched
  obtain ⟨front, back, split, quiet, -, starts⟩ := scanFrom_passed scanner searched
  obtain ⟨behind, matched, rfl⟩ := starts found rfl
  have here : text.drop (pos + front.length) = back := by
    rw [← List.drop_drop, split, List.drop_left]
  have filled := scanner.shorter back behind matched
  have lengths : text.length - pos = front.length + back.length := by
    simpa using congrArg List.length split
  refine ⟨⟨Nat.le_add_right _ _, ?matched, ?earlier⟩, ?_, ?_⟩
  case matched =>
    rw [matchFrom_of_after? (here.symm ▸ matched), here]
    rfl
  case earlier =>
    intro place further before
    exact (matchFrom_eq_none scans).mpr
      ((scanner.misses_iff _).mp (misses_of_quiet quiet split further before))
  · show pos + front.length < pos + front.length + (back.length - behind.length)
    omega
  · show pos + front.length + (back.length - behind.length) ≤ text.length
    omega

/-- What a scanner finds in a text, at or behind a place, it passes when it is taken out of the
text. -/
theorem alone_of_searchFrom (scans : pattern.scans = true) {text : Text} {pos : Nat} {found : Found}
    (searched : pattern.searchFrom text pos = .ok (some found)) :
    pattern.after? ((text.take found.stop).drop found.start) = .ok (some []) :=
  alone_of_matchFrom scans (first_of_searchFrom scans searched).1.matched

/-- Where a search finds nothing, there is no match at any place from there on. -/
theorem none_of_searchFrom (scans : pattern.scans = true) {text : Text} {pos : Nat}
    (searched : pattern.searchFrom text pos = .ok none) :
    ∀ place, pos ≤ place → pattern.matchFrom text place = .ok none := by
  obtain ⟨trigger, triggered⟩ := trigger_of_scans scans
  have scanner := scanner_of_scans scans triggered
  rw [searchFrom_of_trigger triggered] at searched
  obtain ⟨front, back, split, quiet, all, -⟩ := scanFrom_passed scanner searched
  cases all rfl
  intro place further
  refine (matchFrom_eq_none scans).mpr ?_
  by_cases passed : place < pos + front.length
  · exact (scanner.misses_iff _).mp (misses_of_quiet quiet split further passed)
  · have lengths : text.length - pos = front.length := by
      simpa using congrArg List.length split
    have ended : text.drop place = [] := List.drop_eq_nil_of_le (by omega)
    obtain ⟨rest?, asked⟩ := after?_total scans []
    rw [ended, asked]
    cases rest? with
    | none => rfl
    | some rest => exact absurd (scanner.shorter _ _ asked) (Nat.not_lt_zero _)

/-- A search from a place goes to the first match: it always comes to an end, finds the first match
if there is one, and says that there is none only if a match starts nowhere from the place on. What
it finds has characters, which stand behind the place and inside the text. -/
structure FindsFirst (pattern : Pattern) (text : Text) (pos : Nat) : Prop where
  answers : ∃ found?, pattern.searchFrom text pos = .ok found?
  found : ∀ found, pattern.searchFrom text pos = .ok (some found) ↔ pattern.IsFirst text pos found
  missed : pattern.searchFrom text pos = .ok none ↔
    ∀ place, pos ≤ place → pattern.matchFrom text place = .ok none
  inside : ∀ found, pattern.searchFrom text pos = .ok (some found) →
    pos ≤ found.start ∧ found.start < found.stop ∧ found.stop ≤ text.length

/-- Going from trigger to trigger, a scanner finds what it would find if it were asked at every
place. -/
theorem search_first (scans : pattern.scans = true) (text : Text) (pos : Nat) :
    pattern.FindsFirst text pos := by
  obtain ⟨found?, searched⟩ := searchFrom_total scans text pos
  constructor
  case answers => exact ⟨found?, searched⟩
  case found =>
    intro found
    constructor
    · intro searched
      exact (first_of_searchFrom scans searched).1
    · intro first
      cases found? with
      | none =>
        have missed := none_of_searchFrom scans searched found.start first.behind
        rw [first.matched] at missed
        cases missed
      | some other =>
        rw [searched, (first_of_searchFrom scans searched).1.unique first]
  case missed =>
    constructor
    · exact none_of_searchFrom scans
    · intro missed
      cases found? with
      | none => exact searched
      | some other =>
        have first := (first_of_searchFrom scans searched).1
        have nothing := missed other.start first.behind
        rw [first.matched] at nothing
        cases nothing
  case inside =>
    intro found searched
    obtain ⟨first, inside⟩ := first_of_searchFrom scans searched
    exact ⟨first.behind, inside⟩

/-- In `aaa{b}` the candidate at the start is given up at its third character, and the match starts
at its second. -/
theorem search_first_overlapping :
    (lead 'a' ['a'] (.braces 0)).scans = true ∧
      (lead 'a' ['a'] (.braces 0)).matchFrom "aaa\x7bb\x7d".toList 0 = .ok none ∧
      (lead 'a' ['a'] (.braces 0)).searchFrom "aaa\x7bb\x7d".toList 0 = .ok (some ⟨1, 6, none⟩) ∧
      (lead 'a' ['a'] (.braces 0)).FindsFirst "aaa\x7bb\x7d".toList 0 :=
  ⟨rfl, rfl, rfl, search_first rfl _ 0⟩

end TemplHighlight.Pattern
