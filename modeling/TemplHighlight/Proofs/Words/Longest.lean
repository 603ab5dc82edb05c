import TemplHighlight.Proofs.Occurrences
import TemplHighlight.Proofs.Words.Standing

/-!
# The longest word at a place

Where several words of a list stand whole at one place, the longest is found: longer words are tried
first, and the first that leads to a boundary is the match. The order in which they are tried does
not hang on the order of the list, nor on repetitions. The pattern is also written down as a regular
expression, in which the characters of the words mean nothing but themselves.
-/

namespace TemplHighlight

namespace Text

/-! ## The order of the words -/

/-- A text comes before the shorter ones, and among texts of one length before the later ones. -/
theorem longestFirst_iff {a b : Text} :
    longestFirst a b = true ↔ b.length < a.length ∨ a.length = b.length ∧ List.le a b := by
  have notBehind : (!b.lex a fun c d => c.val < d.val) = true ↔ List.le a b := by
    rw [Bool.not_eq_true', Bool.eq_false_iff]
    exact not_congr List.lex_eq_true_iff_lt
  simp only [longestFirst, Bool.or_eq_true, Bool.and_eq_true, decide_eq_true_eq, beq_iff_eq,
    notBehind]

/-- The order of the words is transitive. -/
theorem longestFirst_trans (a b c : Text) (first : longestFirst a b = true)
    (second : longestFirst b c = true) : longestFirst a c = true := by
  rw [longestFirst_iff] at first second ⊢
  rcases first with shorter | ⟨same, ordered⟩
  · rcases second with shorterToo | ⟨sameToo, -⟩
    · exact .inl (Nat.lt_trans shorterToo shorter)
    · exact .inl (sameToo ▸ shorter)
  · rcases second with shorter | ⟨sameToo, orderedToo⟩
    · exact .inl (same ▸ shorter)
    · exact .inr ⟨same.trans sameToo, List.le_trans ordered orderedToo⟩

/-- Any two words can be put into this order. -/
theorem longestFirst_total (a b : Text) : (longestFirst a b || longestFirst b a) = true := by
  rw [Bool.or_eq_true, longestFirst_iff, longestFirst_iff]
  rcases Nat.lt_trichotomy a.length b.length with shorter | same | longer
  · exact .inr (.inl shorter)
  · exact (List.le_total a b).imp (fun ordered => .inr ⟨same, ordered⟩) fun ordered =>
      .inr ⟨same.symm, ordered⟩
  · exact .inl (.inl longer)

/-- Words that come before each other are equal. -/
theorem longestFirst_antisymm {a b : Text} (first : longestFirst a b = true)
    (second : longestFirst b a = true) : a = b := by
  rw [longestFirst_iff] at first second
  rcases first with shorter | ⟨same, ordered⟩
  · omega
  · rcases second with shorter | ⟨-, orderedToo⟩
    · omega
    · exact List.le_antisymm ordered orderedToo

/-- The words are in order. -/
theorem orderedWords_sorted (words : List Text) :
    (orderedWords words).Pairwise fun a b => longestFirst a b = true :=
  List.pairwise_mergeSort longestFirst_trans longestFirst_total _

/-- Lists of the same words give the same words in order, whatever their order and repetitions. -/
theorem orderedWords_congr {words more : List Text} (same : ∀ word, word ∈ more ↔ word ∈ words) :
    orderedWords more = orderedWords words := by
  have once (words : List Text) : (orderedWords words).Nodup :=
    (List.mergeSort_perm _ _).nodup_iff.mpr (nodup_eraseDups words)
  have perm : (orderedWords more).Perm (orderedWords words) := by
    rw [List.perm_ext_iff_of_nodup (once more) (once words)]
    intro word
    rw [Regex.mem_orderedWords, Regex.mem_orderedWords, same]
  exact perm.eq_of_pairwise (fun _ _ _ _ => longestFirst_antisymm) (orderedWords_sorted more)
    (orderedWords_sorted words)

/-! ## The written form -/

/-- The words of a choice of literal texts that is written as a regular expression: `|` stands
between two words, and a backslash in front of a character that is neither a letter nor a digit says
that it stands for itself. Written otherwise, it is no such choice. -/
def literalChoice? : Text → Option (List Text)
  | [] => some [[]]
  | '\\' :: c :: rest =>
    if c.isAlphanum then none else (literalChoice? rest).map (List.modifyHead (c :: ·))
  | c :: rest =>
    if c = '|' then (literalChoice? rest).map ([] :: ·)
    else if c ∈ ".^$*+?\x7b\x7d[]\\()".toList then none
    else (literalChoice? rest).map (List.modifyHead (c :: ·))

/-- A character that is written in a pattern is read as itself: those that could mean something else
have a backslash in front, and none of them is a letter or a digit. -/
theorem literalChoice_char (c : Char) (rest : Text) :
    literalChoice? (asPattern [c] ++ rest) =
      (literalChoice? rest).map (List.modifyHead (c :: ·)) := by
  have noneAlphanum : "()[]\x7b\x7d?*+-|^$\\.&~# \t\n\r\x0b\x0c".toList.all
      (!·.isAlphanum) = true := by decide
  have allMarked : ('\\' :: '|' :: ".^$*+?\x7b\x7d[]\\()".toList).all
      ("()[]\x7b\x7d?*+-|^$\\.&~# \t\n\r\x0b\x0c".toList.contains ·) = true := by decide
  rw [asPattern, List.flatMap_singleton]
  split
  · rename_i marked
    have notAlphanum : ¬ c.isAlphanum = true := by
      have mark := List.all_eq_true.mp noneAlphanum c (List.contains_iff_mem.mp marked)
      rwa [Bool.not_eq_true', Bool.eq_false_iff] at mark
    show literalChoice? ('\\' :: c :: rest) = _
    rw [literalChoice?, if_neg notAlphanum]
  · rename_i notMarked
    have plain : c ∉ '\\' :: '|' :: ".^$*+?\x7b\x7d[]\\()".toList := fun isMark =>
      notMarked (List.all_eq_true.mp allMarked c isMark)
    rw [List.mem_cons, List.mem_cons, not_or, not_or] at plain
    show literalChoice? (c :: rest) = _
    rw [literalChoice?, if_neg plain.2.1, if_neg plain.2.2]
    rintro _ _ isBackslash
    exact absurd isBackslash plain.1

/-- A word that is written in a pattern is read as the word. -/
theorem literalChoice_asPattern (word rest : Text) :
    literalChoice? (asPattern word ++ rest) =
      (literalChoice? rest).map (List.modifyHead (word ++ ·)) := by
  induction word with
  | nil =>
    show literalChoice? rest = _
    cases literalChoice? rest with
    | none => rfl
    | some words => cases words <;> rfl
  | cons c word inductionHypothesis =>
    have parted : asPattern (c :: word) ++ rest = asPattern [c] ++ (asPattern word ++ rest) := by
      rw [← List.append_assoc]
      simp only [asPattern, List.flatMap_cons, List.flatMap_nil, List.append_nil]
    rw [parted, literalChoice_char, inductionHypothesis]
    cases literalChoice? rest with
    | none => rfl
    | some words => cases words <;> rfl

/-- A bar ends a word. -/
theorem literalChoice_bar (rest : Text) :
    literalChoice? ('|' :: rest) = (literalChoice? rest).map ([] :: ·) := by
  rw [literalChoice?, if_pos rfl]
  nofun

/-- Words that are written as a choice are read as these words, in their order. -/
theorem literalChoice_join {words : List Text} (filled : words ≠ []) :
    literalChoice? (join ['|'] (words.map asPattern)) = some words := by
  induction words with
  | nil => exact absurd rfl filled
  | cons word words inductionHypothesis =>
    cases words with
    | nil =>
      have read := literalChoice_asPattern word []
      rw [List.append_nil] at read
      show literalChoice? (asPattern word) = _
      rw [read]
      simp [literalChoice?]
    | cons next more =>
      show literalChoice? (asPattern word ++ ['|'] ++ join ['|'] ((next :: more).map asPattern)) = _
      rw [List.append_assoc, literalChoice_asPattern, List.singleton_append, literalChoice_bar,
        inductionHypothesis (List.cons_ne_nil _ _)]
      simp

/-- There are words in order if there are words. -/
theorem orderedWords_ne_nil {words : List Text} (filled : words ≠ []) :
    orderedWords words ≠ [] := by
  obtain ⟨word, listed⟩ := List.exists_mem_of_ne_nil words filled
  exact List.ne_nil_of_mem (Regex.mem_orderedWords.mpr listed)

end Text

/-! ## The longest word -/

/-- A word of a list stands whole, and no longer one of the list does so at the same place. -/
structure LongestWhole (words : List Text) (front word back : Text) : Prop where
  listed : word ∈ words
  whole : StandsWhole front word back
  longest : ∀ other ∈ words, ∀ later, other ++ later = word ++ back →
    StandsWhole front other later → other.length ≤ word.length

/-- There is only one longest word at a place. -/
theorem LongestWhole.unique {words : List Text} {front word back other later : Text}
    (first : LongestWhole words front word back) (second : LongestWhole words front other later)
    (split : word ++ back = other ++ later) : word = other ∧ back = later := by
  have same : word.length = other.length :=
    Nat.le_antisymm (second.longest word first.listed back split first.whole)
      (first.longest other second.listed later split.symm second.whole)
  exact List.append_inj split same

namespace Regex

open Cursor

variable {words : List Text} {front word back rest : Text}

/-- The match for a list of words is the longest that stands whole. -/
theorem longest_of_matchAt (filled : words ≠ []) {after : Cursor}
    (matched : (wholeWord words).matchAt false (behind front rest) = some after) :
    ∃ word back, rest = word ++ back ∧ LongestWhole words front word back ∧
      after = behind (front ++ word) back := by
  rw [matchAt_wholeWord filled, Option.ite_none_right_eq_some] at matched
  obtain ⟨opens, matched⟩ := matched
  obtain ⟨tried, word, untried, ordered, matched, missed⟩ :=
    List.findSome?_eq_some_iff.mp matched
  obtain ⟨back, rfl, closes, rfl⟩ := run_literal_closing.mp matched
  have listed : word ∈ words := by
    rw [← mem_orderedWords, ordered]
    exact List.mem_append_right tried List.mem_cons_self
  refine ⟨word, back, rfl, ⟨listed, ⟨atBoundary_behind.mp opens, closes⟩, ?_⟩, rfl⟩
  intro other listedToo later split whole
  -- The other word would have been the match if it were tried before this one.
  have notTried : other ∉ tried := by
    intro before
    have passed := missed other before
    rw [run_literal_closing.mpr ⟨later, split.symm, whole.closes, rfl⟩] at passed
    cases passed
  rw [← mem_orderedWords, ordered, List.mem_append, or_iff_right notTried, List.mem_cons]
    at listedToo
  rcases listedToo with rfl | behindWord
  · exact Nat.le_refl _
  · have sorted := Text.orderedWords_sorted words
    rw [ordered, List.pairwise_append, List.pairwise_cons] at sorted
    rcases Text.longestFirst_iff.mp (sorted.2.1.1 other behindWord) with shorter | ⟨same, -⟩
    · exact Nat.le_of_lt shorter
    · exact Nat.le_of_eq same.symm

/-- The longest word that stands whole at a place is the match. -/
theorem matchAt_of_longest (longest : LongestWhole words front word back) :
    (wholeWord words).matchAt false (behind front (word ++ back)) =
      some (behind (front ++ word) back) := by
  have filled : words ≠ [] := List.ne_nil_of_mem longest.listed
  cases matched : (wholeWord words).matchAt false (behind front (word ++ back)) with
  | none => exact absurd longest.whole ((wholeWord_forWords filled).missed matched longest.listed)
  | some after =>
    obtain ⟨other, later, split, longestToo, rfl⟩ := longest_of_matchAt filled matched
    obtain ⟨rfl, rfl⟩ := longest.unique longestToo split
    rfl

/-- Expressions for words have no group. -/
theorem hasGroup_wholeWord (words : List Text) : (wholeWord words).hasGroup = false := by
  have ofLiteral (word : Text) : (literal word).hasGroup = false := by
    fun_induction literal word with
    | case1 => rfl
    | case2 => rfl
    | case3 c text _ inductionHypothesis => exact inductionHypothesis
  have ofChoice (words : List Text) : (choice (words.map literal)).hasGroup = false := by
    induction words with
    | nil => rfl
    | cons word words inductionHypothesis =>
      cases words with
      | nil => exact ofLiteral word
      | cons next more =>
        show ((literal word).hasGroup || (choice ((next :: more).map literal)).hasGroup) = false
        rw [ofLiteral, inductionHypothesis, Bool.or_self]
  show (false || ((choice _).hasGroup || false)) = false
  rw [ofChoice]
  rfl

/-- The place behind the front of a text. -/
theorem advance_behind (lead front rest : Text) :
    (behind lead (front ++ rest)).advance front.length = behind (lead ++ front) rest := by
  induction front generalizing lead with
  | nil =>
    rw [List.append_nil]
    rfl
  | cons c front inductionHypothesis =>
    rw [List.append_cons, ← inductionHypothesis, behind_concat]
    rfl

end Regex

/-! ## The next place -/

/-- Some word of a list stands whole at a place. -/
def SomeWhole (words : List Text) (front rest : Text) : Prop :=
  ∃ word ∈ words, ∃ back, rest = word ++ back ∧ StandsWhole front word back

/-- From a place on, behind what is passed, there is the first place where a word of a list stands
whole, and the longest of the words that do so there. -/
structure NextLongest (words : List Text) (front passed word back : Text) : Prop where
  longest : LongestWhole words (front ++ passed) word back
  first : ∀ earlier later, earlier ++ later = passed ++ (word ++ back) →
    SomeWhole words (front ++ earlier) later → passed.length ≤ earlier.length

/-- There is only one next place with a word. -/
theorem NextLongest.unique {words : List Text} {front passed word back : Text}
    {passed' word' back' : Text} (one : NextLongest words front passed word back)
    (two : NextLongest words front passed' word' back')
    (split : passed ++ (word ++ back) = passed' ++ (word' ++ back')) :
    passed = passed' ∧ word = word' ∧ back = back' := by
  have same : passed.length = passed'.length :=
    Nat.le_antisymm
      (one.first passed' _ split.symm ⟨word', two.longest.listed, back', rfl, two.longest.whole⟩)
      (two.first passed _ split ⟨word, one.longest.listed, back, rfl, one.longest.whole⟩)
  obtain ⟨rfl, behindSplit⟩ := List.append_inj split same
  exact ⟨rfl, one.longest.unique two.longest behindSplit⟩

namespace Regex

open Cursor

variable {words : List Text} {front rest : Text}

/-- Where a word stands whole there is a match, and nowhere else. -/
theorem matchAt_wholeWord_eq_none (filled : words ≠ []) :
    (wholeWord words).matchAt false (behind front rest) = none ↔
      ¬ SomeWhole words front rest := by
  constructor
  · rintro missed ⟨word, listed, back, rfl, whole⟩
    exact (wholeWord_forWords filled).missed missed listed whole
  · intro noWord
    rw [Option.eq_none_iff_forall_ne_some]
    intro after matched
    obtain ⟨word, back, split, longest, -⟩ := longest_of_matchAt filled matched
    exact noWord ⟨word, longest.listed, back, split, longest.whole⟩

/-- A search that finds a match finds the next place with a word. -/
theorem next_of_searchFrom (filled : words ≠ []) {start : Nat} {after : Cursor}
    (searched : (wholeWord words).searchFrom false front.getLast? front.length rest =
      some (start, after)) :
    ∃ passed word back, rest = passed ++ (word ++ back) ∧
      NextLongest words front passed word back ∧ start = (front ++ passed).length ∧
      after = behind (front ++ passed ++ word) back := by
  obtain ⟨passed, rest, rfl, counted, matched, missed⟩ := first_of_searchFrom_some front searched
  obtain ⟨word, back, rfl, longest, rfl⟩ := longest_of_matchAt filled matched
  refine ⟨passed, word, back, rfl, ⟨longest, ?_⟩, counted, rfl⟩
  intro earlier later split someWord
  refine Nat.le_of_not_lt fun short => ?_
  exact (matchAt_wholeWord_eq_none filled).mp (missed earlier later split.symm short) someWord

/-- A search that finds no match has passed no word that stands whole. -/
theorem searchFrom_wholeWord_eq_none (filled : words ≠ []) :
    (wholeWord words).searchFrom false front.getLast? front.length rest = none ↔
      ∀ passed later, rest = passed ++ later → ¬ SomeWhole words (front ++ passed) later := by
  constructor
  · rintro missed passed later rfl
    exact (matchAt_wholeWord_eq_none filled).mp (matchAt_of_searchFrom_none front missed)
  · intro noWord
    rw [Option.eq_none_iff_forall_ne_some]
    rintro ⟨start, after⟩ searched
    obtain ⟨passed, word, back, split, next, -⟩ := next_of_searchFrom filled searched
    exact noWord passed _ split
      ⟨word, next.longest.listed, back, rfl, next.longest.whole⟩

/-- A search finds the next place with a word. -/
theorem searchFrom_of_next {passed word back : Text}
    (next : NextLongest words front passed word back) :
    (wholeWord words).searchFrom false front.getLast? front.length (passed ++ (word ++ back)) =
      some ((front ++ passed).length, behind (front ++ passed ++ word) back) := by
  have filled : words ≠ [] := List.ne_nil_of_mem next.longest.listed
  cases searched : (wholeWord words).searchFrom false front.getLast? front.length
      (passed ++ (word ++ back)) with
  | none =>
    exact absurd ⟨word, next.longest.listed, back, rfl, next.longest.whole⟩
      ((searchFrom_wholeWord_eq_none filled).mp searched passed _ rfl)
  | some found =>
    obtain ⟨start, after⟩ := found
    obtain ⟨passed', word', back', split, nextToo, rfl, rfl⟩ := next_of_searchFrom filled searched
    obtain ⟨rfl, rfl, rfl⟩ := next.unique nextToo split
    rfl

end Regex

/-! ## Matching and searching -/

/-- At a place of a text and from there on, a pattern finds the words of a list: it matches where
one of them stands whole, and then the longest that does; and a search goes to the next such
place. -/
structure FindsLongest (words : List Text) (pattern : Pattern) (front rest : Text) : Prop where
  succeeds : (∃ found, pattern.matchFrom (front ++ rest) front.length = .ok (some found)) ↔
    SomeWhole words front rest
  fails : pattern.matchFrom (front ++ rest) front.length = .ok none ↔ ¬ SomeWhole words front rest
  longest : ∀ found, pattern.matchFrom (front ++ rest) front.length = .ok (some found) ↔
    ∃ word back, rest = word ++ back ∧ LongestWhole words front word back ∧
      found = ⟨front.length, (front ++ word).length, none⟩
  leftmost : ∀ found, pattern.searchFrom (front ++ rest) front.length = .ok (some found) ↔
    ∃ passed word back, rest = passed ++ (word ++ back) ∧
      NextLongest words front passed word back ∧
      found = ⟨(front ++ passed).length, (front ++ passed ++ word).length, none⟩
  nowhere : pattern.searchFrom (front ++ rest) front.length = .ok none ↔
    ∀ passed later, rest = passed ++ later → ¬ SomeWhole words (front ++ passed) later

namespace Pattern

open Regex Cursor

variable {words : List Text} {front rest : Text}

/-- The place of a pattern behind the front of a text. -/
theorem advance_start (front rest : Text) :
    (start (front ++ rest)).advance front.length = behind front rest :=
  advance_behind [] front rest

/-- What is found for words has no group. -/
theorem foundAt_wholeWord (words : List Text) (first : Nat) (place : Cursor) :
    foundAt (wholeWord words) first place = ⟨first, place.pos, none⟩ := by
  rw [foundAt, hasGroup_wholeWord]
  rfl

/-- At a position, the pattern for words matches what its expression does there. -/
theorem matchFrom_words (words : List Text) (front rest : Text) :
    (Pattern.words words).matchFrom (front ++ rest) front.length =
      .ok (((wholeWord words).matchAt false (behind front rest)).map fun after =>
        ⟨front.length, after.pos, none⟩) := by
  show Except.ok ((Regex.matchAt false _ ((start (front ++ rest)).advance front.length)).map _) = _
  rw [advance_start]
  exact congrArg (Except.ok <| Option.map · _) (funext (foundAt_wholeWord words _))

/-- From a position on, it finds what its expression does. -/
theorem searchFrom_words (words : List Text) (front rest : Text) :
    (Pattern.words words).searchFrom (front ++ rest) front.length =
      .ok (((wholeWord words).searchFrom false front.getLast? front.length rest).map fun found =>
        ⟨found.1, found.2.pos, none⟩) := by
  show (let place := (start (front ++ rest)).advance front.length
    Except.ok ((Regex.searchFrom false (wholeWord words) place.before place.pos place.rest).map
      fun found => foundAt (wholeWord words) found.1 found.2)) = _
  rw [advance_start]
  simp only [foundAt_wholeWord]
  rfl

/-- The pattern for a list of words finds them at every place of every text. -/
theorem findsLongest_words (filled : words ≠ []) (front rest : Text) :
    FindsLongest words (.words words) front rest := by
  have fails : (Pattern.words words).matchFrom (front ++ rest) front.length = .ok none ↔
      ¬ SomeWhole words front rest := by
    rw [matchFrom_words, Except.ok.injEq, Option.map_eq_none_iff, matchAt_wholeWord_eq_none filled]
  constructor
  case fails => exact fails
  case succeeds =>
    rw [← not_iff_not, ← fails, matchFrom_words]
    cases (wholeWord words).matchAt false (behind front rest) <;> simp
  case longest =>
    intro found
    rw [matchFrom_words, Except.ok.injEq, Option.map_eq_some_iff]
    constructor
    · rintro ⟨after, matched, rfl⟩
      obtain ⟨word, back, split, longest, rfl⟩ := longest_of_matchAt filled matched
      exact ⟨word, back, split, longest, rfl⟩
    · rintro ⟨word, back, rfl, longest, rfl⟩
      exact ⟨_, matchAt_of_longest longest, rfl⟩
  case leftmost =>
    intro found
    rw [searchFrom_words, Except.ok.injEq, Option.map_eq_some_iff]
    constructor
    · rintro ⟨⟨start, after⟩, searched, rfl⟩
      obtain ⟨passed, word, back, split, next, rfl, rfl⟩ := next_of_searchFrom filled searched
      exact ⟨passed, word, back, split, next, rfl⟩
    · rintro ⟨passed, word, back, rfl, next, rfl⟩
      exact ⟨_, searchFrom_of_next next, rfl⟩
  case nowhere =>
    rw [searchFrom_words, Except.ok.injEq, Option.map_eq_none_iff,
      searchFrom_wholeWord_eq_none filled]

/-- The pattern for a list of words matches at a place exactly where one of them stands whole, and
then the longest that does; a search finds the next such place. The pattern does not hang on the
order of the list or on repetitions. Its written form is a choice of the words as literal texts,
whatever characters they have.

Proof: a match is the first of the ordered words that leads to a boundary. All words before it were
tried in vain, and no word behind it is longer. -/
theorem words_find_longest (words : List Text) (filled : words ≠ []) :
    (∀ front rest, FindsLongest words (.words words) front rest) ∧
    (∀ more, (∀ word, word ∈ more ↔ word ∈ words) → Pattern.words more = Pattern.words words) ∧
    ∃ ordered written, (∀ word, word ∈ ordered ↔ word ∈ words) ∧
      Text.literalChoice? written = some ordered ∧
      Pattern.words words =
        .regex (.sequence [.boundary true, .choice (ordered.map .literal), .boundary true]) false
          ("\\b(?:".toList ++ written ++ ")\\b".toList) := by
  refine ⟨findsLongest_words filled, ?_, ?_⟩
  · intro more same
    have ordered := Text.orderedWords_congr same
    rw [Pattern.words, Pattern.words, wholeWord, wholeWord, Text.writtenChoice, Text.writtenChoice,
      ordered]
  · have some : Text.orderedWords words ≠ [] := Text.orderedWords_ne_nil filled
    exact ⟨Text.orderedWords words, Text.writtenChoice words, fun word => mem_orderedWords,
      Text.literalChoice_join some, rfl⟩

/-- Words that start with each other, one of them twice. -/
def goWords : List Text := ["go".toList, "go-".toList, "go-to".toList, "go".toList]

/-- In `go-top` the longest of them that stands whole at the start is `go-`: behind `go-to` there is
no boundary. -/
theorem longest_goWords : LongestWhole goWords [] "go-".toList "top".toList := by
  refine ⟨by decide, ⟨by unfold Boundary; decide, by unfold Boundary; decide⟩, ?_⟩
  intro other listed later split whole
  simp only [goWords, List.mem_cons, List.not_mem_nil, or_false] at listed
  rcases listed with rfl | rfl | rfl | rfl
  · decide
  · decide
  · obtain rfl : later = ['p'] := by simpa using split
    exact absurd whole.closes (by unfold Boundary; decide)
  · decide

/-- So it is the match there, though `go` comes first in the list. -/
theorem words_find_longest_goWords :
    goWords ≠ [] ∧ FindsLongest goWords (.words goWords) [] "go-top".toList ∧
      (Pattern.words goWords).matchFrom "go-top".toList 0 = .ok (some ⟨0, 3, none⟩) := by
  have filled : goWords ≠ [] := List.cons_ne_nil _ _
  have finds := (words_find_longest goWords filled).1 [] "go-top".toList
  exact ⟨filled, finds, (finds.longest _).mpr ⟨_, _, rfl, longest_goWords, rfl⟩⟩

end Pattern

end TemplHighlight
