import TemplHighlight.Proofs.Words.Runs

/-!
# Keywords that stay keywords

Further keywords need not be words: any text may be one. No keyword of Go is lost by them, since a
match that starts in front of a run cannot end inside of it. There is one exception, which is the
text without characters. It stands whole at every boundary, and where it is all that is found, the
rule gives up the rest of the text.
-/

namespace TemplHighlight.Templ

open CharClass Grammar Split

/-- Every token of some items lies, by its place, in a keyword of others. -/
def LieInKeywords (before after : List Tree) : Prop :=
  ∀ token place, token.isToken = true → StandsAt token before place →
    ∃ word start, StandsAt (keywordToken word) after start ∧ start ≤ place ∧
      place + token.source.length ≤ start + word.length

/-- Further keywords with characters take in all keywords of Go. -/
theorem lieInKeywords_of_filled {keywords : List Text} (filled : [] ∉ keywords) {text : Text}
    {before after : List Tree}
    (stepsBefore : TextSteps (findWith (keywordRule [])) makeKeyword text before)
    (stepsAfter : TextSteps (findWith (keywordRule keywords)) makeKeyword text after) :
    LieInKeywords before after := by
  intro token place isToken stands
  have goLetters : ∀ word ∈ allKeywords [], word ≠ [] ∧ ∀ c ∈ word, isWord c = true :=
    List.forall_mem_append.mpr ⟨letters_of_go, nofun⟩
  obtain ⟨front, word, back, rfl, rfl, listed, run, made⟩ :=
    (keywordRule_findsWords []).made_of_run goLetters makeKeyword_tokens stepsBefore isToken stands
  obtain rfl := Except.ok.inj made
  have inGo : word ∈ Go.keywords.map String.toList :=
    (List.mem_append.mp listed).resolve_right List.not_mem_nil
  have allFilled : [] ∉ allKeywords keywords := by
    intro empty
    rcases List.mem_append.mp empty with ofGo | further
    · exact (letters_of_go [] ofGo).1 rfl
    · exact filled further
  obtain ⟨outer, start, isOuter, standsAfter, starts, ends⟩ :=
    (keywordRule_findsWords keywords).keeps allFilled makeKeyword_tokens stepsAfter rfl
      (List.mem_append_left _ inGo) run
  obtain ⟨part, madeOuter⟩ := stepsAfter.made_of_mem isOuter standsAfter.mem
  obtain rfl := Except.ok.inj madeOuter
  rw [List.length_append] at ends
  exact ⟨part, start, standsAfter, starts, ends⟩

/-- Where a text starts with more word characters than any word has, all that is found is the word
without characters at its start. -/
theorem found_empty {find : Finder} {words : List Text} (finds : FindsWords find words)
    (listed : [] ∈ words) (lead rest : Text) (letters : ∀ c ∈ lead, isWord c = true)
    (longer : ∀ word ∈ words, word.length < lead.length) :
    find (lead ++ rest) = .ok (some (0, 0)) := by
  have filled : lead ≠ [] := List.ne_nil_of_length_pos (longer [] listed)
  have opens : Boundary [] (lead ++ rest) := by
    rw [Boundary, starts_of_letters filled letters]
    exact Bool.false_ne_true
  have atStart : StandsWhole [] [] (lead ++ rest) := ⟨opens, opens⟩
  obtain ⟨bounds?, answered⟩ := finds.total (lead ++ rest)
  cases bounds? with
  | none => exact absurd atStart (finds.missed [] [] _ answered listed)
  | some bounds =>
    obtain ⟨start, stop⟩ := bounds
    obtain ⟨front, word, back, split, rfl, rfl, first⟩ := finds.found answered
    have noFront : front = [] :=
      List.eq_nil_of_length_eq_zero (Nat.le_zero.mp (first.first split listed atStart))
    subst noFront
    rw [List.nil_append] at split
    have short := longer word first.listed
    obtain ⟨more, rfl, rfl⟩ := split_behind split (Nat.le_of_lt short)
    have noWord : word = [] := by
      by_contra some
      rw [List.length_append] at short
      have moreFilled : more ≠ [] := List.ne_nil_of_length_pos (by omega)
      obtain ⟨wordLetters, moreLetters⟩ := List.forall_mem_append.mp letters
      refine first.whole.closes ?_
      rw [ends_of_letters some wordLetters, starts_of_letters moreFilled moreLetters]
    subst noWord
    exact answered

/-- More word characters than any of the words has, and then a keyword of Go. -/
def behindLong (words : List Text) : Text :=
  List.replicate (words.flatten.length + 1) 'x' ++ " if".toList

/-- A rule that looks for the word without characters leaves this text as it is. -/
theorem keywordRule_behindLong {keywords : List Text} (listed : [] ∈ keywords) {items : List Tree}
    (steps : TextSteps (findWith (keywordRule keywords)) makeKeyword
      (behindLong (allKeywords keywords)) items) :
    items = [.text (behindLong (allKeywords keywords))] := by
  have found := found_empty (keywordRule_findsWords keywords) (List.mem_append_right _ listed)
    (List.replicate ((allKeywords keywords).flatten.length + 1) 'x') " if".toList ?_ ?_
  · generalize text : behindLong (allKeywords keywords) = whole at steps
    cases steps with
    | empty => cases text
    | whole => rfl
    | cut foundToo ordered =>
      rw [← text] at foundToo
      cases found.symm.trans foundToo
      cases ordered
  · intro c member
    rw [List.eq_of_mem_replicate member]
    decide
  · intro word isWord
    rw [List.length_replicate]
    exact Nat.lt_succ_of_le (List.sublist_flatten_of_mem isWord).length_le

/-- The keyword rule of Go finds the keyword there. -/
theorem goKeyword_behindLong (words : List Text) {items : List Tree}
    (steps : TextSteps (findWith (keywordRule [])) makeKeyword (behindLong words) items) :
    ∃ token place, token.isToken = true ∧ StandsAt token items place := by
  have opens : (List.replicate (words.flatten.length + 1) 'x' ++ [' ']).getLast?.any isWord =
      false := by
    rw [List.getLast?_concat]
    decide
  have inGo : "if".toList ∈ Go.keywords.map String.toList := by decide
  have run : IsRun (List.replicate (words.flatten.length + 1) 'x' ++ [' ']) "if".toList [] :=
    ⟨List.cons_ne_nil _ _, (letters_of_go _ inGo).2, opens, rfl⟩
  have filled : [] ∉ allKeywords [] := by decide
  have split : behindLong words =
      (List.replicate (words.flatten.length + 1) 'x' ++ [' ']) ++ ("if".toList ++ []) := by
    rw [behindLong, List.append_nil, List.append_assoc]
    rfl
  obtain ⟨token, place, isToken, stands, -⟩ := (keywordRule_findsWords []).keeps filled
    makeKeyword_tokens steps split (List.mem_append_left _ inGo) run
  exact ⟨token, place, isToken, stands⟩

/-- When further keywords lose no keyword. The Go grammar can be extended with all texts as further
keywords; on every raw text, each token that its keyword rule makes lies in a keyword that the
extended rule makes, if and only if the text without characters is none of the further keywords.

Proof: a keyword of Go is a run, and the extended rule finds it where it stands. So its match starts
no later, and as it ends at a boundary, it ends in front of the run or takes it in. With the text
without characters among the words, it is all that is found at the start of a run that is longer
than the words; behind this run, a keyword is lost. -/
theorem keywords_kept_iff (keywords : List Text) (name : String) :
    ∃ base set rule, go.rules "keyword" = [base] ∧
      extendKeywords (.to go) keywords name = .ok set ∧ set.rules "keyword" = [rule] ∧
      ((∀ (splitInside : RuleSet → Text → Except SplitError (List Tree)) (root : RuleSet)
          (text : Text), ∃ before after,
          applyRule base (makeWith splitInside root "keyword" base) (raw text) = .ok before ∧
          applyRule rule (makeWith splitInside root "keyword" rule) (raw text) = .ok after ∧
          LieInKeywords before after) ↔ [] ∉ keywords) := by
  have extended : extendKeywords (.to go) keywords name = .ok (script keywords) := by
    cases keywords <;> rfl
  refine ⟨keywordRule [], script keywords, keywordRule keywords, rfl, extended, rfl, ?_, ?_⟩
  · intro lies listed
    obtain ⟨before, after, appliedBefore, appliedAfter, lie⟩ :=
      lies (splitWith go 0) go (behindLong (allKeywords keywords))
    rw [makeWith_keyword] at appliedBefore appliedAfter
    obtain ⟨token, place, isToken, stands⟩ :=
      goKeyword_behindLong _ (keywordRule_steps appliedBefore)
    obtain ⟨word, start, standsAfter, -⟩ := lie token place isToken stands
    rw [keywordRule_behindLong listed (keywordRule_steps appliedAfter)] at standsAfter
    cases List.mem_singleton.mp standsAfter.mem
  · intro filled splitInside root text
    obtain ⟨before, appliedBefore⟩ := keywordRule_applies [] text
    obtain ⟨after, appliedAfter⟩ := keywordRule_applies keywords text
    rw [makeWith_keyword, makeWith_keyword]
    exact ⟨before, after, appliedBefore, appliedAfter, lieInKeywords_of_filled filled
      (keywordRule_steps appliedBefore) (keywordRule_steps appliedAfter)⟩

end TemplHighlight.Templ
