import TemplHighlight.Proofs.Registry.Composing
import TemplHighlight.Proofs.Split.Overlay
import TemplHighlight.Proofs.Templ.Conservative
import TemplHighlight.Proofs.Words.Standing

/-!
# Runs of word characters

A word of word characters stands whole where it is a run: no word character is next to it. There is
no boundary inside a run, so a match that starts in front of a run does not end in it. From this it
follows that a rule for words loses no run in the text behind a match.
-/

namespace TemplHighlight

open CharClass

/-- A word is a run of word characters: it has such characters only, and none is next to it. -/
structure IsRun (front word back : Text) : Prop where
  filled : word ≠ []
  letters : ∀ c ∈ word, isWord c = true
  opens : front.getLast?.any isWord = false
  closes : back.head?.any isWord = false

section

variable {front word back : Text}

/-- What starts with a text of word characters starts with a word character. -/
theorem starts_of_letters (filled : word ≠ []) (letters : ∀ c ∈ word, isWord c = true)
    (back : Text) : (word ++ back).head?.any isWord = true := by
  cases word with
  | nil => exact absurd rfl filled
  | cons c later => exact letters c List.mem_cons_self

/-- What ends with a text of word characters ends with a word character. -/
theorem ends_of_letters (filled : word ≠ []) (letters : ∀ c ∈ word, isWord c = true)
    (front : Text) : (front ++ word).getLast?.any isWord = true := by
  rw [List.getLast?_append_of_ne_nil front filled, List.getLast?_eq_some_getLast filled]
  exact letters _ (List.getLast_mem filled)

/-- Words of word characters stand whole where they are runs. -/
theorem isRun_iff (filled : word ≠ []) (letters : ∀ c ∈ word, isWord c = true) :
    IsRun front word back ↔ StandsWhole front word back := by
  have starts := starts_of_letters filled letters back
  have ends := ends_of_letters filled letters front
  constructor
  · intro run
    refine ⟨?_, ?_⟩
    · rw [Boundary, run.opens, starts]
      exact Bool.false_ne_true
    · rw [Boundary, ends, run.closes]
      exact Bool.false_ne_true.symm
  · rintro ⟨opens, closes⟩
    rw [Boundary, starts] at opens
    rw [Boundary, ends] at closes
    exact ⟨filled, letters, eq_false_of_ne_true opens, eq_false_of_ne_true closes.symm⟩

/-- Of two ways to part a text, the one with the longer front has the other's front in its own. -/
theorem split_behind {first second rest : Text} (split : first ++ second = front ++ rest)
    (longer : front.length ≤ first.length) :
    ∃ part, first = front ++ part ∧ rest = part ++ second := by
  rcases List.append_eq_append_iff.mp split with ⟨part, frontSplit, secondSplit⟩ | either
  · have lengths := congrArg List.length frontSplit
    rw [List.length_append] at lengths
    obtain rfl : part = [] := List.eq_nil_of_length_eq_zero (by omega)
    rw [List.append_nil] at frontSplit
    exact ⟨[], by rw [frontSplit, List.append_nil], secondSplit.symm⟩
  · exact either

/-- A run stands whole. -/
theorem IsRun.standsWhole (run : IsRun front word back) : StandsWhole front word back :=
  (isRun_iff run.filled run.letters).mp run

/-- A run ends in front of every boundary that lies behind its start. -/
theorem IsRun.ends_before (run : IsRun front word back) {first second : Text}
    (split : first ++ second = front ++ (word ++ back)) (boundary : Boundary first second)
    (behind : front.length < first.length) : (front ++ word).length ≤ first.length := by
  refine Nat.le_of_not_lt fun inside => boundary ?_
  obtain ⟨part, rfl, rest⟩ := split_behind split (Nat.le_of_lt behind)
  rw [List.length_append] at behind inside
  rw [List.length_append] at inside
  obtain ⟨more, rfl, rfl⟩ := split_behind rest (by omega)
  rw [List.length_append] at inside
  have partFilled : part ≠ [] := List.ne_nil_of_length_pos (by omega)
  have moreFilled : more ≠ [] := List.ne_nil_of_length_pos (by omega)
  obtain ⟨partLetters, moreLetters⟩ := List.forall_mem_append.mp run.letters
  rw [ends_of_letters partFilled partLetters, starts_of_letters moreFilled moreLetters]

/-- A run that starts behind a text is a run of what is behind this text. -/
theorem IsRun.drop_front (run : IsRun front word back) {lead rest : Text}
    (split : lead ++ rest = front ++ (word ++ back)) (behind : lead.length ≤ front.length) :
    ∃ between, front = lead ++ between ∧ rest = between ++ (word ++ back) ∧
      IsRun between word back := by
  obtain ⟨between, rfl, rfl⟩ := split_behind split.symm behind
  refine ⟨between, rfl, rfl, run.filled, run.letters, ?_, run.closes⟩
  have opens := run.opens
  cases between using List.reverseRecOn with
  | nil => rfl
  | append_singleton between last _ => simpa [← List.append_assoc] using opens

/-- A run of a text that starts with no word character is a run behind everything. -/
theorem IsRun.append_front (run : IsRun front word back)
    (apart : (front ++ (word ++ back)).head?.any isWord = false) (lead : Text) :
    IsRun (lead ++ front) word back := by
  refine ⟨run.filled, run.letters, ?_, run.closes⟩
  cases front using List.reverseRecOn with
  | nil =>
    rw [List.nil_append, starts_of_letters run.filled run.letters] at apart
    cases apart
  | append_singleton front last _ => simpa [← List.append_assoc] using run.opens

/-- A run that lies within another run of the same text is this run. -/
theorem IsRun.unique {front' word' back' : Text} (run : IsRun front word back)
    (other : IsRun front' word' back')
    (split : front ++ (word ++ back) = front' ++ (word' ++ back'))
    (starts : front'.length ≤ front.length)
    (ends : (front ++ word).length ≤ (front' ++ word').length) :
    front = front' ∧ word = word' := by
  have filled := List.length_pos_iff.mpr run.filled
  obtain ⟨runOpens, runCloses⟩ := run.standsWhole
  rw [List.length_append] at ends
  have sameStart : front.length = front'.length := by
    refine Nat.le_antisymm (Nat.le_of_not_lt fun behind => ?_) starts
    have apart := other.ends_before split runOpens behind
    omega
  have sameEnd : word.length = word'.length := by
    have together : (front ++ word) ++ back = front' ++ (word' ++ back') := by
      rw [List.append_assoc, split]
    have within := other.ends_before together runCloses (by rw [List.length_append]; omega)
    rw [List.length_append] at ends within
    rw [List.length_append] at within
    omega
  obtain ⟨sameFront, behind⟩ := List.append_inj split sameStart
  exact ⟨sameFront, (List.append_inj behind sameEnd).1⟩

end

namespace Split

variable {find : Finder} {make : Maker} {words : List Text} {text : Text} {result : List Tree}

/-- A finder of words with characters finds only matches with characters. -/
theorem FindsWords.ordered (finds : FindsWords find words) (filled : [] ∉ words) {start stop : Nat}
    (found : find text = .ok (some (start, stop))) : start < stop := by
  obtain ⟨front, word, back, -, rfl, rfl, first⟩ := finds.found found
  have some : word ≠ [] := by
    rintro rfl
    exact filled first.listed
  have counted := List.length_pos_iff.mpr some
  rw [List.length_append]
  omega

/-- A match parts the text: what is in front of the word that is found, the word, and the rest. -/
theorem FindsWords.parts (finds : FindsWords find words) {start stop : Nat}
    (found : find text = .ok (some (start, stop))) :
    ∃ front word back, text = front ++ (word ++ back) ∧ FirstWhole words front word back ∧
      text.take start = front ∧ (text.take stop).drop start = word ∧ text.drop stop = back := by
  obtain ⟨front, word, back, rfl, rfl, rfl, first⟩ := finds.found found
  refine ⟨front, word, back, rfl, first, List.take_left, ?_, ?_⟩
  · rw [← List.append_assoc, List.take_left, List.drop_left]
  · rw [← List.append_assoc, List.drop_left]

/-- A rule for words with characters loses none of them: every run that is one of the words lies in
a token. -/
theorem FindsWords.keeps (finds : FindsWords find words) (filled : [] ∉ words)
    (makes : MakesTokens make) (steps : TextSteps find make text result) {front word back : Text}
    (split : text = front ++ (word ++ back)) (listed : word ∈ words)
    (run : IsRun front word back) :
    ∃ token start, token.isToken = true ∧ StandsAt token result start ∧ start ≤ front.length ∧
      (front ++ word).length ≤ start + token.source.length := by
  induction steps generalizing front word back with
  | empty =>
    obtain ⟨-, behind⟩ := List.append_eq_nil_iff.mp split.symm
    exact absurd (List.append_eq_nil_iff.mp behind).1 run.filled
  | whole _ missed =>
    rcases missed with missed | ⟨start, stop, found, empty⟩
    · rw [split] at missed
      exact absurd run.standsWhole (finds.missed _ _ _ missed listed)
    · exact absurd (finds.ordered filled found) (Nat.not_lt.mpr empty)
  | @cut text start stop token later found ordered made behind inductionHypothesis =>
    obtain ⟨lead, matched, rest, parted, first, inFront, taken, left⟩ := finds.parts found
    rw [taken] at made
    rw [left] at inductionHypothesis
    rw [inFront]
    obtain ⟨isToken, source⟩ := makes _ _ made
    have starts : lead.length ≤ front.length :=
      first.first (split.symm.trans parted) listed run.standsWhole
    have together : (lead ++ matched) ++ rest = front ++ (word ++ back) := by
      rw [List.append_assoc, ← parted, split]
    by_cases within : front.length < (lead ++ matched).length
    · -- The run starts in the match, and behind the match there is a boundary.
      have ends := run.ends_before together first.whole.closes within
      refine ⟨token, lead.length, isToken, .led lead token later, starts, ?_⟩
      rw [source]
      exact ends.trans_eq List.length_append
    · obtain ⟨between, rfl, behindSplit, runBehind⟩ :=
        run.drop_front together (Nat.le_of_not_lt within)
      obtain ⟨kept, place, keptToken, stands, keptStarts, keptEnds⟩ :=
        inductionHypothesis behindSplit listed runBehind
      refine ⟨kept, _, keptToken, stands.behind_led lead token, ?_, ?_⟩
      · simp only [List.length_append, source]
        omega
      · simp only [List.length_append, source] at keptEnds ⊢
        omega

/-- If all words have word characters only, a rule for words makes tokens of runs, each of which is
one of the words. -/
theorem FindsWords.made_of_run (finds : FindsWords find words)
    (letters : ∀ word ∈ words, word ≠ [] ∧ ∀ c ∈ word, isWord c = true)
    (makes : MakesTokens make) (steps : TextSteps find make text result) {token : Tree}
    {place : Nat} (isToken : token.isToken = true) (stands : StandsAt token result place) :
    ∃ front word back, text = front ++ (word ++ back) ∧ place = front.length ∧ word ∈ words ∧
      IsRun front word back ∧ make word = .ok token := by
  induction steps generalizing place with
  | empty => cases stands
  | whole =>
    obtain rfl := List.mem_singleton.mp stands.mem
    cases isToken
  | @cut text start stop other later found ordered made behind inductionHypothesis =>
    obtain ⟨lead, matched, rest, rfl, first, inFront, taken, left⟩ := finds.parts found
    rw [taken] at made
    rw [left] at inductionHypothesis
    rw [inFront] at stands
    obtain ⟨filled, isLetters⟩ := letters matched first.listed
    have run := (isRun_iff filled isLetters).mpr first.whole
    rcases stands.of_led isToken with ⟨rfl, rfl⟩ | ⟨offset, rfl, standsBehind⟩
    · exact ⟨lead, matched, rest, rfl, rfl, first.listed, run, made⟩
    · obtain ⟨front, word, back, rfl, rfl, listed, runBehind, madeOf⟩ :=
        inductionHypothesis standsBehind
      refine ⟨lead ++ matched ++ front, word, back, ?_, ?_, listed, ?_, madeOf⟩
      · simp only [List.append_assoc]
      · rw [(makes _ _ made).2, List.length_append, List.length_append]
      · exact runBehind.append_front run.closes (lead ++ matched)

/-- Of two neighbours that splitting a text makes, one is a token. -/
theorem TextSteps.separated (makes : MakesTokens make) (steps : TextSteps find make text result) :
    result.IsChain fun first second => first.isToken = true ∨ second.isToken = true := by
  induction steps with
  | empty => exact .nil
  | whole => exact .singleton _
  | @cut text start stop token later found ordered made behind inductionHypothesis =>
    have isToken := (makes _ _ made).1
    have rest : (token :: later).IsChain fun first second =>
        first.isToken = true ∨ second.isToken = true :=
      inductionHypothesis.cons fun _ _ => .inl isToken
    cases text.take start with
    | nil => exact rest
    | cons c front => exact .cons_cons (.inr isToken) rest

end Split

namespace Templ

open Grammar Split

/-- The words that the keyword rule looks for. -/
def allKeywords (keywords : List Text) : List Text := Go.keywords.map String.toList ++ keywords

/-- A keyword as a token. -/
def keywordToken (word : Text) : Tree := .token .keyword (.text word) [] (some word)

/-- The keyword rule makes keywords of what it finds. -/
def makeKeyword : Maker := fun word => .ok (keywordToken word)

/-- Such a token carries the text that it was made of. -/
theorem makeKeyword_tokens : MakesTokens makeKeyword := by
  intro word token made
  cases made
  exact ⟨rfl, rfl⟩

/-- The keyword rule looks for the keywords of Go and the further ones. -/
theorem keywordRule_findsWords (keywords : List Text) :
    FindsWords (findWith (keywordRule keywords)) (allKeywords keywords) := by
  have ofGo : (Regex.wholeWord (Go.keywords.map String.toList)).ForWords
      (Go.keywords.map String.toList) :=
    Regex.wholeWord_forWords (List.cons_ne_nil _ _)
  cases keywords with
  | nil =>
    rw [allKeywords, List.append_nil]
    exact findsWords_of_forWords rfl rfl ofGo
  | cons keyword more =>
    exact findsWords_of_forWords rfl rfl
      (ofGo.alt (Regex.wholeWord_forWords (List.cons_ne_nil keyword more)))

/-- It needs no other rules for its tokens. -/
theorem makeWith_keyword (splitInside : RuleSet → Text → Except SplitError (List Tree))
    (root : RuleSet) (keywords : List Text) :
    makeWith splitInside root "keyword" (keywordRule keywords) = makeKeyword := by
  cases keywords <;> rfl

/-- On every raw text it has a result. -/
theorem keywordRule_applies (keywords : List Text) (text : Text) :
    ∃ items, applyRule (keywordRule keywords) makeKeyword (raw text) = .ok items :=
  applyRule_total (keywordRule_findsWords keywords).total fun word _ => ⟨keywordToken word, rfl⟩

/-- The result was reached by the steps of splitting the text. -/
theorem keywordRule_steps {keywords : List Text} {text : Text} {items : List Tree}
    (applied : applyRule (keywordRule keywords) makeKeyword (raw text) = .ok items) :
    TextSteps (findWith (keywordRule keywords)) makeKeyword text items :=
  steps_of_applyRule_raw (by cases keywords <;> rfl) applied

/-- Items are a text in which the runs that are listed are keywords, and all else is raw: there are
no tokens but these, raw items have characters, and no two of them are neighbours. -/
structure MarksRuns (words : List Text) (text : Text) (items : List Tree) : Prop where
  sources : Tree.sources items = text
  tokens : ∀ token place, token.isToken = true ∧ StandsAt token items place ↔
    ∃ front word back, text = front ++ (word ++ back) ∧ place = front.length ∧ word ∈ words ∧
      IsRun front word back ∧ token = keywordToken word
  raw : ∀ item ∈ items, ¬ item.isToken = true → ∃ part, part ≠ [] ∧ item = .text part
  separated : items.IsChain fun first second => first.isToken = true ∨ second.isToken = true

/-- Words can be checked for having characters, all of them word characters. -/
theorem letters_of_all {words : List Text}
    (checked : words.all (fun word => !word.isEmpty && word.all CharClass.isWord) = true) :
    ∀ word ∈ words, word ≠ [] ∧ ∀ c ∈ word, CharClass.isWord c = true := by
  intro word listed
  have each := List.all_eq_true.mp checked word listed
  rw [Bool.and_eq_true, Bool.not_eq_true', List.isEmpty_eq_false_iff, List.all_eq_true] at each
  exact each

/-- None of the keywords of Go is empty, and they have word characters only. -/
theorem letters_of_go : ∀ word ∈ Go.keywords.map String.toList,
    word ≠ [] ∧ ∀ c ∈ word, CharClass.isWord c = true :=
  letters_of_all (by decide)

/-- The keyword rule marks runs if the further keywords have word characters only. -/
theorem marksRuns_of_letters {keywords : List Text}
    (letters : ∀ word ∈ keywords, word ≠ [] ∧ ∀ c ∈ word, CharClass.isWord c = true) {text : Text}
    {items : List Tree}
    (steps : TextSteps (findWith (keywordRule keywords)) makeKeyword text items) :
    MarksRuns (allKeywords keywords) text items := by
  have finds := keywordRule_findsWords keywords
  have allLetters : ∀ word ∈ allKeywords keywords,
      word ≠ [] ∧ ∀ c ∈ word, CharClass.isWord c = true :=
    List.forall_mem_append.mpr ⟨letters_of_go, letters⟩
  have filled : [] ∉ allKeywords keywords := fun listed => (allLetters [] listed).1 rfl
  have keeps : (keywordRule keywords).pattern.KeepsToText := by
    cases keywords <;> trivial
  have lossless : MakesLossless makeKeyword := by
    intro word token some made
    cases made
    exact ⟨.leaf some, rfl⟩
  have covers := steps.covers (findWith_stays keeps) lossless
  refine ⟨covers.sources, fun token place => ⟨?_, ?_⟩, ?_, steps.separated makeKeyword_tokens⟩
  · rintro ⟨isToken, stands⟩
    obtain ⟨front, word, back, split, atFront, listed, run, made⟩ :=
      finds.made_of_run allLetters makeKeyword_tokens steps isToken stands
    exact ⟨front, word, back, split, atFront, listed, run, (Except.ok.inj made).symm⟩
  · rintro ⟨front, word, back, split, rfl, listed, run, rfl⟩
    -- The token in which the run lies is a run itself, so it is this run.
    obtain ⟨token, start, isToken, stands, starts, ends⟩ :=
      finds.keeps filled makeKeyword_tokens steps split listed run
    obtain ⟨front', word', back', split', rfl, -, run', made⟩ :=
      finds.made_of_run allLetters makeKeyword_tokens steps isToken stands
    obtain rfl := Except.ok.inj made
    have within : (front ++ word).length ≤ (front' ++ word').length :=
      ends.trans_eq List.length_append.symm
    obtain ⟨rfl, rfl⟩ := run.unique run' (split.symm.trans split') starts within
    exact ⟨rfl, stands⟩
  · intro item listed isRaw
    cases covers.lossless item listed with
    | raw some => exact ⟨_, some, rfl⟩
    | leaf => exact absurd rfl isRaw
    | nested => exact absurd rfl isRaw

/-- Exactly the runs of word characters that are keywords become keywords. With any further keywords
of word characters, the Go grammar is extended to one that differs from it in the pattern of its
keyword rule only; and on every raw text, this rule makes tokens of exactly those maximal runs of
word characters that are, letter for letter, a keyword of Go or a further one, each as one token at
its place, and leaves all else raw.

Proof: a word of word characters stands whole exactly where it is a run, so what the rule finds in
what is left of the text is the first run there that is a keyword. Behind it there is a boundary,
and no run reaches over a boundary: the runs of what is left are those of the text that come later.
-/
theorem extended_marks_runs (keywords : List Text)
    (letters : ∀ word ∈ keywords, word ≠ [] ∧ ∀ c ∈ word, CharClass.isWord c = true)
    (name : String) :
    ∃ set rule, extendKeywords (.to go) keywords name = .ok set ∧
      set.label = go.label ∧ set.names = go.names ∧ set.rest = go.rest ∧
      (∀ other, other ≠ "keyword" → set.rules other = go.rules other) ∧
      set.rules "keyword" = [rule] ∧
      go.rules "keyword" = [{ rule with pattern := .words (Go.keywords.map String.toList) }] ∧
      ∀ (splitInside : RuleSet → Text → Except SplitError (List Tree)) (root : RuleSet)
        (text : Text), ∃ items,
          applyRule rule (makeWith splitInside root "keyword" rule) (raw text) = .ok items ∧
            MarksRuns (Go.keywords.map String.toList ++ keywords) text items := by
  have extended : extendKeywords (.to go) keywords name = .ok (script keywords) := by
    cases keywords <;> rfl
  refine ⟨script keywords, keywordRule keywords, extended, rfl, rfl, rfl,
    (extendKeywords_ok extended).2, rfl, by cases keywords <;> rfl, ?_⟩
  intro splitInside root text
  obtain ⟨items, applied⟩ := keywordRule_applies keywords text
  refine ⟨items, ?_, marksRuns_of_letters letters (keywordRule_steps applied)⟩
  rw [makeWith_keyword]
  exact applied

/-- A further keyword may start with a keyword of Go. -/
theorem extended_marks_runs_fork :
    (∀ word ∈ ["fork".toList], word ≠ [] ∧ ∀ c ∈ word, CharClass.isWord c = true) ∧
      ∃ set rule, extendKeywords (.to go) ["fork".toList] "go" = .ok set ∧
        set.rules "keyword" = [rule] ∧
        ∃ items, applyRule rule (makeWith (splitWith set 0) set "keyword" rule)
            (raw "fork forks for".toList) = .ok items ∧
          MarksRuns (Go.keywords.map String.toList ++ ["fork".toList]) "fork forks for".toList
            items := by
  have letters : ∀ word ∈ ["fork".toList], word ≠ [] ∧ ∀ c ∈ word, CharClass.isWord c = true :=
    letters_of_all (by decide)
  obtain ⟨set, rule, extended, -, -, -, -, isRule, -, marks⟩ :=
    extended_marks_runs ["fork".toList] letters "go"
  exact ⟨letters, set, rule, extended, isRule, marks (splitWith set 0) set _⟩

end Templ

end TemplHighlight
