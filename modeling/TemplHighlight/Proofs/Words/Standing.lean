import TemplHighlight.Proofs.Pattern.Passed
import TemplHighlight.Proofs.Split.Steps

/-!
# Words that stand whole

A list of words is looked for with a boundary on either side. Where a word is found is said here
without the search: the text is split into what is in front of the word, the word, and what is
behind it, with boundaries between them. A rule for words finds the leftmost place of such kind.
-/

namespace TemplHighlight

open CharClass

/-- Between two texts there is a word boundary: a word character on exactly one side. -/
def Boundary (front back : Text) : Prop := front.getLast?.any isWord ≠ back.head?.any isWord

/-- A word stands between two texts with a boundary on either side. -/
structure StandsWhole (front word back : Text) : Prop where
  opens : Boundary front (word ++ back)
  closes : Boundary (front ++ word) back

/-- A word of a list stands whole, and no word of the list does so further in front. -/
structure FirstWhole (words : List Text) (front word back : Text) : Prop where
  listed : word ∈ words
  whole : StandsWhole front word back
  first : ∀ {earlier other later : Text}, earlier ++ (other ++ later) = front ++ (word ++ back) →
    other ∈ words → StandsWhole earlier other later → front.length ≤ earlier.length

namespace Cursor

/-- The place behind a text and in front of another one. -/
def behind (front rest : Text) : Cursor := ⟨front.getLast?, rest, front.length, none⟩

/-- This place is at a boundary if and only if there is one between the two texts. -/
theorem atBoundary_behind {front rest : Text} :
    (behind front rest).atBoundary = true ↔ Boundary front rest := bne_iff_ne

/-- The place behind one more character. -/
theorem behind_concat (front : Text) (c : Char) (rest : Text) :
    behind (front ++ [c]) rest = ⟨some c, rest, front.length + 1, none⟩ := by
  simp [behind]

end Cursor

namespace Regex

open Cursor

variable {front word rest : Text} {found : Cursor} {next : Continuation}

/-- One listed character is matched where it stands, and the match goes on behind it. -/
theorem run_char_behind {c : Char} :
    (one (.among [c])).run false (behind front rest) next = some found ↔
      ∃ back, rest = c :: back ∧ next (behind (front ++ [c]) back) = some found := by
  constructor
  · intro matched
    obtain ⟨d, back, split, isFirst, goesOn⟩ := run_one matched
    rw [has_among isFirst] at split goesOn
    exact ⟨back, split, by rw [behind_concat]; exact goesOn⟩
  · rintro ⟨back, rfl, goesOn⟩
    have member : (CharSet.among [c]).has false c = true := by simp [CharSet.has]
    rw [run_one_cons rfl member]
    rw [behind_concat] at goesOn
    exact goesOn

/-- So is a literal text. -/
theorem run_literal_behind :
    (literal word).run false (behind front rest) next = some found ↔
      ∃ back, rest = word ++ back ∧ next (behind (front ++ word) back) = some found := by
  fun_induction literal word generalizing front rest with
  | case1 =>
    rw [List.append_nil]
    constructor
    · exact fun goesOn => ⟨rest, rfl, goesOn⟩
    · rintro ⟨back, rfl, goesOn⟩
      exact goesOn
  | case2 c => exact run_char_behind
  | case3 c text _ inductionHypothesis =>
    rw [run, run_char_behind]
    constructor
    · rintro ⟨later, rfl, textRuns⟩
      obtain ⟨back, rfl, goesOn⟩ := inductionHypothesis.mp textRuns
      rw [List.append_assoc] at goesOn
      exact ⟨back, rfl, goesOn⟩
    · rintro ⟨back, rfl, goesOn⟩
      refine ⟨text ++ back, rfl, inductionHypothesis.mpr ⟨back, rfl, ?_⟩⟩
      rw [List.append_assoc]
      exact goesOn

/-- A choice matches as the first of its parts that leads to a match. -/
theorem run_choice {parts : List Regex} (filled : parts ≠ []) {anyCase : Bool} {place : Cursor} :
    (choice parts).run anyCase place next =
      parts.findSome? fun part => part.run anyCase place next := by
  fun_induction choice parts with
  | case1 => exact absurd rfl filled
  | case2 last =>
    rw [List.findSome?_cons, List.findSome?_nil]
    cases last.run anyCase place next <;> rfl
  | case3 first more notLast inductionHypothesis =>
    rw [run, List.findSome?_cons, inductionHypothesis notLast]
    cases first.run anyCase place next <;> rfl

/-- A word among others is one of them in their order. -/
theorem mem_orderedWords {word : Text} {words : List Text} :
    word ∈ Text.orderedWords words ↔ word ∈ words := by
  rw [Text.orderedWords, List.mem_mergeSort, List.mem_eraseDups]

/-- An expression looks for words: what it matches at a place is a word that stands whole there, and
it matches where one does. -/
structure ForWords (shape : Regex) (words : List Text) : Prop where
  matched : ∀ {front rest : Text} {after : Cursor},
    shape.matchAt false (behind front rest) = some after →
      ∃ word ∈ words, ∃ back, rest = word ++ back ∧ StandsWhole front word back ∧
        after = behind (front ++ word) back
  missed : ∀ {front word back : Text},
    shape.matchAt false (behind front (word ++ back)) = none → word ∈ words →
      ¬ StandsWhole front word back

/-- The end of the match of a whole word. -/
def closing : Continuation := fun after => if after.atBoundary = true then some after else none

/-- Behind a boundary, the words are tried in their order. -/
theorem matchAt_wholeWord {words : List Text} (filled : words ≠ []) (place : Cursor) :
    (wholeWord words).matchAt false place =
      if place.atBoundary = true then
        (Text.orderedWords words).findSome? fun word => (literal word).run false place closing
      else none := by
  have ordered : (Text.orderedWords words).map literal ≠ [] := by
    obtain ⟨word, listed⟩ := List.exists_mem_of_ne_nil words filled
    exact List.ne_nil_of_mem (List.mem_map_of_mem (mem_orderedWords.mpr listed))
  simp only [matchAt, wholeWord, sequence, run, run_choice ordered, List.findSome?_map, beq_true]
  split <;> rfl

/-- The literal text of a word matches in front of a boundary. -/
theorem run_literal_closing {after : Cursor} :
    (literal word).run false (behind front rest) closing = some after ↔
      ∃ back, rest = word ++ back ∧ Boundary (front ++ word) back ∧
        after = behind (front ++ word) back := by
  rw [run_literal_behind]
  simp only [closing, Option.ite_none_right_eq_some, atBoundary_behind, Option.some.injEq]
  exact ⟨fun ⟨back, split, closes, same⟩ => ⟨back, split, closes, same.symm⟩,
    fun ⟨back, split, closes, same⟩ => ⟨back, split, closes, same.symm⟩⟩

/-- A list of words is looked for. -/
theorem wholeWord_forWords {words : List Text} (filled : words ≠ []) :
    (wholeWord words).ForWords words where
  matched {front rest after} matched := by
    rw [matchAt_wholeWord filled, Option.ite_none_right_eq_some] at matched
    obtain ⟨opens, matched⟩ := matched
    obtain ⟨word, listed, matched⟩ := List.exists_of_findSome?_eq_some matched
    obtain ⟨back, rfl, closes, same⟩ := run_literal_closing.mp matched
    exact ⟨word, mem_orderedWords.mp listed, back, rfl, ⟨atBoundary_behind.mp opens, closes⟩, same⟩
  missed {front word back} missed listed whole := by
    rw [matchAt_wholeWord filled, if_pos (atBoundary_behind.mpr whole.opens)] at missed
    have passed := List.findSome?_eq_none_iff.mp missed word (mem_orderedWords.mpr listed)
    rw [run_literal_closing.mpr ⟨back, rfl, whole.closes, rfl⟩] at passed
    cases passed

/-- A choice of two expressions for words looks for the words of both. -/
theorem ForWords.alt {first second : Regex} {words more : List Text}
    (ofFirst : first.ForWords words) (ofSecond : second.ForWords more) :
    (alt first second).ForWords (words ++ more) where
  matched {front rest after} matched := by
    simp only [matchAt, run] at matched
    split at matched
    · cases matched
      obtain ⟨word, listed, stands⟩ := ofFirst.matched ‹_›
      exact ⟨word, List.mem_append_left more listed, stands⟩
    · obtain ⟨word, listed, stands⟩ := ofSecond.matched matched
      exact ⟨word, List.mem_append_right words listed, stands⟩
  missed {front word back} missed listed := by
    simp only [matchAt, run] at missed
    split at missed
    · cases missed
    · rcases List.mem_append.mp listed with inFirst | inSecond
      · exact ofFirst.missed ‹_› inFirst
      · exact ofSecond.missed missed inSecond

/-! ## The leftmost place -/

/-- A search that finds nothing has found no match at any place. -/
theorem matchAt_of_searchFrom_none {shape : Regex} (front : Text) {passed rest : Text}
    (missed : shape.searchFrom false front.getLast? front.length (passed ++ rest) = none) :
    shape.matchAt false (behind (front ++ passed) rest) = none := by
  induction passed generalizing front with
  | nil =>
    rw [List.append_nil]
    rw [List.nil_append, searchFrom.eq_def] at missed
    split at missed
    · cases missed
    · assumption
  | cons c passed inductionHypothesis =>
    have later : shape.searchFrom false (front ++ [c]).getLast? (front ++ [c]).length
        (passed ++ rest) = none := by
      rw [List.cons_append, searchFrom.eq_def] at missed
      split at missed
      · cases missed
      · rw [List.getLast?_concat, List.length_append]
        exact missed
    have matched := inductionHypothesis _ later
    rwa [List.append_assoc] at matched

/-- A search finds the match at the first place that has one. -/
theorem first_of_searchFrom_some {shape : Regex} (front : Text) {text : Text} {start : Nat}
    {after : Cursor}
    (searched : shape.searchFrom false front.getLast? front.length text = some (start, after)) :
    ∃ passed rest, text = passed ++ rest ∧ start = (front ++ passed).length ∧
      shape.matchAt false (behind (front ++ passed) rest) = some after ∧
      ∀ earlier later, text = earlier ++ later → earlier.length < passed.length →
        shape.matchAt false (behind (front ++ earlier) later) = none := by
  have here {front text : Text} {start : Nat} {after place : Cursor}
      (matched : shape.matchAt false ⟨front.getLast?, text, front.length, none⟩ = some place)
      (same : some (front.length, place) = some (start, after)) :
      ∃ passed rest, text = passed ++ rest ∧ start = (front ++ passed).length ∧
        shape.matchAt false (behind (front ++ passed) rest) = some after ∧
        ∀ earlier later, text = earlier ++ later → earlier.length < passed.length →
          shape.matchAt false (behind (front ++ earlier) later) = none := by
    cases same
    refine ⟨[], text, rfl, ?_, ?_, fun earlier later _ short => absurd short (Nat.not_lt_zero _)⟩
    · rw [List.append_nil]
    · rw [List.append_nil]
      exact matched
  induction text generalizing front with
  | nil =>
    rw [searchFrom.eq_def] at searched
    split at searched
    · exact here ‹_› searched
    · cases searched
  | cons c text inductionHypothesis =>
    rw [searchFrom.eq_def] at searched
    split at searched
    · exact here ‹_› searched
    · rename_i notHere
      have later : shape.searchFrom false (front ++ [c]).getLast? (front ++ [c]).length text =
          some (start, after) := by
        rw [List.getLast?_concat, List.length_append]
        exact searched
      obtain ⟨passed, rest, rfl, counted, matched, missed⟩ := inductionHypothesis _ later
      rw [List.append_assoc] at counted matched
      refine ⟨c :: passed, rest, rfl, counted, matched, ?_⟩
      intro earlier later split short
      cases earlier with
      | nil =>
        rw [List.append_nil]
        cases split
        exact notHere
      | cons d earlier =>
        obtain ⟨rfl, behindSplit⟩ := List.cons.inj split
        have matchedNot := missed earlier later behindSplit (Nat.lt_of_succ_lt_succ short)
        rwa [List.append_assoc] at matchedNot

end Regex

namespace Split

open Regex Cursor

/-- A finder looks for words: it finds the first that stands whole, and nothing if none does. -/
structure FindsWords (find : Finder) (words : List Text) : Prop where
  total : ∀ text, ∃ bounds?, find text = .ok bounds?
  found : ∀ {text : Text} {start stop : Nat}, find text = .ok (some (start, stop)) →
    ∃ front word back, text = front ++ (word ++ back) ∧ start = front.length ∧
      stop = (front ++ word).length ∧ FirstWhole words front word back
  missed : ∀ front word back, find (front ++ (word ++ back)) = .ok none → word ∈ words →
    ¬ StandsWhole front word back

/-- A rule for an expression that looks for words does so too. -/
theorem findsWords_of_forWords {rule : Rule} {shape : Regex} {words : List Text} {written : Text}
    (isRegex : rule.pattern = .regex shape false written) (plain : rule.lookbehind = false)
    (forWords : shape.ForWords words) : FindsWords (findWith rule) words := by
  have searches (text : Text) : rule.pattern.search text =
      .ok ((shape.searchFrom false none 0 text).map fun found =>
        Pattern.foundAt shape found.1 found.2) := by
    rw [isRegex]
    rfl
  constructor
  · intro text
    unfold findWith Rule.find
    rw [searches, plain]
    cases shape.searchFrom false none 0 text <;> exact ⟨_, rfl⟩
  · intro text start stop found
    obtain ⟨result, searched, rfl, -, starts⟩ := search_of_findWith found
    rw [searches] at searched
    obtain ⟨⟨place, after⟩, isFirst, rfl⟩ := Option.map_eq_some_iff.mp (Except.ok.inj searched)
    obtain rfl := starts plain
    obtain ⟨front, rest, rfl, counted, matched, missed⟩ :=
      first_of_searchFrom_some [] isFirst
    obtain ⟨word, listed, back, rfl, whole, rfl⟩ := forWords.matched matched
    refine ⟨front, word, back, rfl, counted, rfl, listed, whole, ?_⟩
    intro earlier other later split isOther wholeToo
    refine Nat.le_of_not_lt fun short => ?_
    exact forWords.missed (missed earlier (other ++ later) split.symm short) isOther wholeToo
  · intro front word back missed listed
    have nothing := search_of_missed plain missed
    rw [searches] at nothing
    have nowhere := Option.map_eq_none_iff.mp (Except.ok.inj nothing)
    exact forWords.missed (matchAt_of_searchFrom_none [] nowhere) listed

end Split

end TemplHighlight
